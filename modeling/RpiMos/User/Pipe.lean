/-
  RpiMos.User.Pipe

  `piperead` and `pipewrite` of user/pipe.c, one load or store of the shared
  page at a time.  One process reads and one writes; between any two of its
  accesses the other may run.  What `_pipeisclosed` answers is left open: it
  looks at reference counts only.
-/

import RpiMos.Mm.Mmu
import RpiMos.Lib.Ring
import RpiMos.Lib.Run

namespace RpiMos

open Lib

/-- `u8`. -/
abbrev Byte := BitVec 8

def BY2PIPE : Nat := 32

/-! ## The two processes -/

/-- The variables of a running `piperead`: its size argument, the loop index
    and the caller's buffer. -/
structure ReadCall where
  n : Word
  i : U32
  rbuf : U32 → Byte

/-- The variables of a running `pipewrite`. -/
structure WriteCall where
  n : Word
  i : U32
  wbuf : U32 → Byte

/-- The point `piperead` has reached: what it does next, with the values it has
    loaded for it. -/
inductive ReadPc where
  /-- Between two calls; the last one returned `r`. -/
  | idle (r : U32)
  /-- The first loop: load `p_rpos`, load `p_wpos` and compare, ask `_pipeisclosed`. -/
  | wait (c : ReadCall)
  | waitWpos (c : ReadCall) (rpos : Word)
  | waitEmpty (c : ReadCall)
  /-- `i < n`. -/
  | test (c : ReadCall)
  /-- The inner loop. -/
  | poll (c : ReadCall)
  | pollWpos (c : ReadCall) (rpos : Word)
  | pollEmpty (c : ReadCall)
  /-- `rbuf[i] = p -> p_buf[p -> p_rpos % BY2PIPE]`. -/
  | get (c : ReadCall)
  | getByte (c : ReadCall) (rpos : Word)
  | put (c : ReadCall) (b : Byte)
  /-- `p -> p_rpos++`. -/
  | bump (c : ReadCall)
  | bumpStore (c : ReadCall) (rpos : Word)

inductive WritePc where
  | idle (r : U32)
  | test (c : WriteCall)
  /-- `p -> p_wpos - p -> p_rpos == BY2PIPE`. -/
  | poll (c : WriteCall)
  | pollRpos (c : WriteCall) (wpos : Word)
  | full (c : WriteCall)
  /-- `p -> p_buf[p -> p_wpos % BY2PIPE] = wbuf[i]`. -/
  | put (c : WriteCall)
  | putByte (c : WriteCall) (wpos : Word)
  /-- `p -> p_wpos ++`. -/
  | bump (c : WriteCall)
  | bumpStore (c : WriteCall) (wpos : Word)

/-- The page, the processes, and the bytes that the positions have passed: those
    taken out of the callers' buffers and those left in them. -/
structure PipeState where
  p_rpos : Word
  p_wpos : Word
  p_buf : Nat → Byte
  reader : ReadPc
  writer : WritePc
  written : List Byte
  delivered : List Byte

/-- `i < n` with an `int` on the left: it is sign-extended for the comparison. -/
def intLt (i : U32) (n : Word) : Bool := (i.signExtend 64).ult n

/-! ## Steps -/

/-- The next access of the reader; `closed` is the answer of `_pipeisclosed`. -/
def pipereadStep (s : PipeState) (closed : Bool) : PipeState :=
  match s.reader with
  | .idle _ => s
  | .wait c => { s with reader := .waitWpos c s.p_rpos }
  | .waitWpos c rpos =>
      { s with reader := if rpos = s.p_wpos then .waitEmpty c else .test { c with i := 0 } }
  | .waitEmpty c => { s with reader := if closed then .idle 0 else .wait c }
  | .test c => { s with reader := if intLt c.i c.n then .poll c else .idle (c.n.setWidth 32) }
  | .poll c => { s with reader := .pollWpos c s.p_rpos }
  | .pollWpos c rpos => { s with reader := if rpos = s.p_wpos then .pollEmpty c else .get c }
  | .pollEmpty c =>
      { s with reader := if BitVec.slt 0 c.i || closed then .idle c.i else .poll c }
  | .get c => { s with reader := .getByte c s.p_rpos }
  | .getByte c rpos => { s with reader := .put c (s.p_buf (rpos.toNat % BY2PIPE)) }
  | .put c b => { s with reader := .bump { c with rbuf := Function.update c.rbuf c.i b } }
  | .bump c => { s with reader := .bumpStore c s.p_rpos }
  | .bumpStore c rpos =>
      { s with
        p_rpos := rpos + 1
        reader := .test { c with i := c.i + 1 }
        delivered := s.delivered ++ [c.rbuf c.i] }

/-- The next access of the writer. -/
def pipewriteStep (s : PipeState) (closed : Bool) : PipeState :=
  match s.writer with
  | .idle _ => s
  | .test c => { s with writer := if intLt c.i c.n then .poll c else .idle (c.n.setWidth 32) }
  | .poll c => { s with writer := .pollRpos c s.p_wpos }
  | .pollRpos c wpos =>
      { s with writer := if wpos - s.p_rpos = BitVec.ofNat 64 BY2PIPE then .full c else .put c }
  | .full c => { s with writer := if closed then .idle 0 else .poll c }
  | .put c => { s with writer := .putByte c s.p_wpos }
  | .putByte c wpos =>
      { s with
        p_buf := Function.update s.p_buf (wpos.toNat % BY2PIPE) (c.wbuf c.i)
        writer := .bump c }
  | .bump c => { s with writer := .bumpStore c s.p_wpos }
  | .bumpStore c wpos =>
      { s with
        p_wpos := wpos + 1
        writer := .test { c with i := c.i + 1 }
        written := s.written ++ [c.wbuf c.i] }

inductive PipeAct where
  | piperead (n : Word) (rbuf : U32 → Byte)
  | pipewrite (n : Word) (wbuf : U32 → Byte)
  | reader (closed : Bool)
  | writer (closed : Bool)

/-- A process that is between two calls makes one, or one of them goes on. -/
def PipeAct.exec (s : PipeState) : PipeAct → Option PipeState
  | .piperead n rbuf =>
      match s.reader with
      | .idle _ => some { s with reader := .wait ⟨n, 0, rbuf⟩ }
      | _ => none
  | .pipewrite n wbuf =>
      match s.writer with
      | .idle _ => some { s with writer := .test ⟨n, 0, wbuf⟩ }
      | _ => none
  | .reader closed => some (pipereadStep s closed)
  | .writer closed => some (pipewriteStep s closed)

def pipeStep (s : PipeState) (a : PipeAct) (s' : PipeState) : Prop := a.exec s = some s'

/-- `pipe` leaves a page of zeros. -/
def pipeInit : PipeState := ⟨0, 0, fun _ => 0, .idle 0, .idle 0, [], []⟩

/-! ## The invariant -/

/-- What the reader knows at each point: the byte it is at has been written, and
    the values it has loaded are still right. -/
def ReadPc.Ok (s : PipeState) : ReadPc → Prop
  | .pollWpos _ rpos => rpos = s.p_rpos
  | .get _ => s.delivered.length < s.written.length
  | .getByte _ rpos => s.delivered.length < s.written.length ∧ rpos = s.p_rpos
  | .put _ b => s.written[s.delivered.length]? = some b
  | .bump c => s.written[s.delivered.length]? = some (c.rbuf c.i)
  | .bumpStore c rpos => s.written[s.delivered.length]? = some (c.rbuf c.i) ∧ rpos = s.p_rpos
  | _ => True

/-- A cell of the ring is free. -/
def PipeState.Room (s : PipeState) : Prop := s.written.length < s.delivered.length + BY2PIPE

def WritePc.Ok (s : PipeState) : WritePc → Prop
  | .pollRpos _ wpos => wpos = s.p_wpos
  | .put _ => s.Room
  | .putByte _ wpos => s.Room ∧ wpos = s.p_wpos
  | .bump c => s.Room ∧ s.p_buf (s.written.length % BY2PIPE) = c.wbuf c.i
  | .bumpStore c wpos =>
      s.Room ∧ s.p_buf (s.written.length % BY2PIPE) = c.wbuf c.i ∧ wpos = s.p_wpos
  | _ => True

/-- The positions count the bytes passed, modulo `2 ^ 64`; what was delivered was
    written, in order; and the rest is in the ring. -/
structure PipeInv (s : PipeState) : Prop where
  rpos : s.p_rpos = BitVec.ofNat 64 s.delivered.length
  wpos : s.p_wpos = BitVec.ofNat 64 s.written.length
  fifo : s.delivered <+: s.written
  room : s.written.length ≤ s.delivered.length + BY2PIPE
  ring : RingHolds BY2PIPE s.p_buf s.written s.delivered.length
  reader : s.reader.Ok s
  writer : s.writer.Ok s

section Inv

variable {s : PipeState}

theorem PipeInv.le (h : PipeInv s) : s.delivered.length ≤ s.written.length := h.fifo.length_le

theorem PipeInv.window (h : PipeInv s) : s.written.length - s.delivered.length < 2 ^ 64 := by
  have := h.room
  rw [BY2PIPE] at this
  omega

/-- The reader's test tells whether all bytes are delivered. -/
theorem PipeInv.empty_iff (h : PipeInv s) :
    s.p_rpos = s.p_wpos ↔ s.delivered.length = s.written.length := by
  rw [h.rpos, h.wpos]
  exact counter_eq_iff h.le h.window

theorem PipeInv.sub_toNat (h : PipeInv s) :
    (s.p_wpos - s.p_rpos).toNat = s.written.length - s.delivered.length := by
  rw [h.rpos, h.wpos]
  exact toNat_counter_sub h.le h.window

/-- The writer's test tells whether the ring is full. -/
theorem PipeInv.full_iff (h : PipeInv s) :
    s.p_wpos - s.p_rpos = BitVec.ofNat 64 BY2PIPE ↔ ¬ s.Room := by
  have hle := h.le
  have hroom := h.room
  have hval := h.sub_toNat
  have h32 : (BitVec.ofNat 64 BY2PIPE).toNat = 32 := by decide
  unfold PipeState.Room
  rw [BY2PIPE] at hroom ⊢
  constructor
  · intro heq
    rw [heq] at hval
    rw [BY2PIPE] at h32
    omega
  · intro hfull
    refine BitVec.eq_of_toNat_eq ?_
    rw [BY2PIPE] at h32
    omega

theorem rpos_cell (h : PipeInv s) : s.p_rpos.toNat % BY2PIPE = s.delivered.length % BY2PIPE := by
  rw [h.rpos]
  exact counter_mod (by decide) _

theorem wpos_cell (h : PipeInv s) : s.p_wpos.toNat % BY2PIPE = s.written.length % BY2PIPE := by
  rw [h.wpos]
  exact counter_mod (by decide) _

/-- A step that only moves the reader. -/
theorem PipeInv.setReader (h : PipeInv s) {pc : ReadPc} (hpc : pc.Ok s) :
    PipeInv { s with reader := pc } := by
  refine ⟨h.rpos, h.wpos, h.fifo, h.room, h.ring, ?_, ?_⟩
  · show pc.Ok { s with reader := pc }
    cases pc <;> exact hpc
  · show s.writer.Ok { s with reader := pc }
    have hw := h.writer
    cases hs : s.writer <;> rw [hs] at hw <;> exact hw

theorem PipeInv.setWriter (h : PipeInv s) {pc : WritePc} (hpc : pc.Ok s) :
    PipeInv { s with writer := pc } := by
  refine ⟨h.rpos, h.wpos, h.fifo, h.room, h.ring, ?_, ?_⟩
  · show s.reader.Ok { s with writer := pc }
    have hr := h.reader
    cases hs : s.reader <;> rw [hs] at hr <;> exact hr
  · show pc.Ok { s with writer := pc }
    cases pc <;> exact hpc

/-! ## Steps -/

/-- The bump passes the byte that the ring held for it. -/
theorem PipeInv.deliver (h : PipeInv s) {b : Byte} {pc : ReadPc}
    (hb : s.written[s.delivered.length]? = some b) (hpc : ∀ s', pc.Ok s') :
    PipeInv { s with p_rpos := s.p_rpos + 1, reader := pc, delivered := s.delivered ++ [b] } := by
  obtain ⟨hlt, hget⟩ := List.getElem?_eq_some_iff.mp hb
  have hlen : (s.delivered ++ [b]).length = s.delivered.length + 1 := by simp
  refine ⟨?_, h.wpos, ?_, ?_, ?_, hpc _, ?_⟩
  · show s.p_rpos + 1 = BitVec.ofNat 64 (s.delivered ++ [b]).length
    rw [hlen, h.rpos, BitVec.ofNat_add]
    rfl
  · -- The byte is the next one written.
    show s.delivered ++ [b] <+: s.written
    rw [List.prefix_iff_eq_take, hlen, List.take_succ_eq_append_getElem hlt, hget,
      ← List.prefix_iff_eq_take.mp h.fifo]
  · show s.written.length ≤ (s.delivered ++ [b]).length + BY2PIPE
    have := h.room
    omega
  · show RingHolds BY2PIPE s.p_buf s.written (s.delivered ++ [b]).length
    rw [hlen]
    exact h.ring.pop
  · -- More room for the writer.
    have hroom : s.Room → PipeState.Room
        { s with p_rpos := s.p_rpos + 1, reader := pc, delivered := s.delivered ++ [b] } := by
      intro hr
      show s.written.length < (s.delivered ++ [b]).length + BY2PIPE
      unfold PipeState.Room at hr
      omega
    have hw := h.writer
    cases hs : s.writer with
    | idle r => trivial
    | test c => trivial
    | poll c => trivial
    | pollRpos c wpos => rw [hs] at hw; exact hw
    | full c => trivial
    | put c => rw [hs] at hw; exact hroom hw
    | putByte c wpos => rw [hs] at hw; exact ⟨hroom hw.1, hw.2⟩
    | bump c => rw [hs] at hw; exact ⟨hroom hw.1, hw.2⟩
    | bumpStore c wpos => rw [hs] at hw; exact ⟨hroom hw.1, hw.2⟩

theorem pipereadStep_inv (h : PipeInv s) (closed : Bool) : PipeInv (pipereadStep s closed) := by
  have hr := h.reader
  unfold pipereadStep
  cases hs : s.reader with
  | idle r => exact h
  | wait c => exact h.setReader trivial
  | waitWpos c rpos =>
      refine h.setReader ?_
      split <;> trivial
  | waitEmpty c =>
      refine h.setReader ?_
      split <;> trivial
  | test c =>
      refine h.setReader ?_
      split <;> trivial
  | poll c => exact h.setReader rfl
  | pollWpos c rpos =>
      rw [hs] at hr
      refine h.setReader ?_
      split
      · trivial
      · -- Not equal: some byte is there, and only the reader takes bytes out.
        rename_i hne
        have hrpos : rpos = s.p_rpos := hr
        have hle := h.le
        rw [hrpos, h.empty_iff] at hne
        show s.delivered.length < s.written.length
        omega
  | pollEmpty c =>
      refine h.setReader ?_
      split <;> trivial
  | get c =>
      rw [hs] at hr
      exact h.setReader ⟨hr, rfl⟩
  | getByte c rpos =>
      rw [hs] at hr
      obtain ⟨hlt, hrpos⟩ := hr
      refine h.setReader ?_
      show s.written[s.delivered.length]? = some (s.p_buf (rpos.toNat % BY2PIPE))
      rw [hrpos, rpos_cell h, h.ring _ (Nat.le_refl _) hlt]
      exact List.getElem?_eq_getElem hlt
  | put c b =>
      rw [hs] at hr
      refine h.setReader ?_
      show s.written[s.delivered.length]? = some (Function.update c.rbuf c.i b c.i)
      rw [Function.update_self]
      exact hr
  | bump c =>
      rw [hs] at hr
      exact h.setReader ⟨hr, rfl⟩
  | bumpStore c rpos =>
      rw [hs] at hr
      obtain ⟨hb, hrpos⟩ := hr
      rw [hrpos]
      exact h.deliver hb fun _ => trivial

/-- Storing into a free cell leaves the bytes of the ring. -/
theorem PipeInv.store (h : PipeInv s) {c : WriteCall} (hroom : s.Room) :
    PipeInv { s with
      p_buf := Function.update s.p_buf (s.written.length % BY2PIPE) (c.wbuf c.i)
      writer := .bump c } := by
  refine ⟨h.rpos, h.wpos, h.fifo, h.room, h.ring.prepare hroom _, ?_, ?_⟩
  · have hr := h.reader
    cases hs : s.reader <;> rw [hs] at hr <;> exact hr
  · refine ⟨hroom, ?_⟩
    show Function.update s.p_buf (s.written.length % BY2PIPE) (c.wbuf c.i)
      (s.written.length % BY2PIPE) = c.wbuf c.i
    rw [Function.update_self]

/-- The bump makes the byte stored before readable. -/
theorem PipeInv.accept (h : PipeInv s) {b : Byte} {pc : WritePc} (hroom : s.Room)
    (hb : s.p_buf (s.written.length % BY2PIPE) = b) (hpc : ∀ s', pc.Ok s') :
    PipeInv { s with p_wpos := s.p_wpos + 1, writer := pc, written := s.written ++ [b] } := by
  have hlen : (s.written ++ [b]).length = s.written.length + 1 := by simp
  refine ⟨h.rpos, ?_, h.fifo.trans (List.prefix_append _ _), ?_, h.ring.push hb, ?_, hpc _⟩
  · show s.p_wpos + 1 = BitVec.ofNat 64 (s.written ++ [b]).length
    rw [hlen, h.wpos, BitVec.ofNat_add]
    rfl
  · show (s.written ++ [b]).length ≤ s.delivered.length + BY2PIPE
    unfold PipeState.Room at hroom
    omega
  · -- The bytes before the new one are the same.
    have hkeep : ∀ {x}, s.written[s.delivered.length]? = some x →
        (s.written ++ [b])[s.delivered.length]? = some x := by
      intro x hx
      obtain ⟨hlt, -⟩ := List.getElem?_eq_some_iff.mp hx
      rw [List.getElem?_append_left hlt, hx]
    have hlt : s.delivered.length < s.written.length →
        s.delivered.length < (s.written ++ [b]).length := fun hl => by omega
    have hr := h.reader
    cases hs : s.reader with
    | idle r => trivial
    | wait c => trivial
    | waitWpos c rpos => trivial
    | waitEmpty c => trivial
    | test c => trivial
    | poll c => trivial
    | pollWpos c rpos => rw [hs] at hr; exact hr
    | pollEmpty c => trivial
    | get c => rw [hs] at hr; exact hlt hr
    | getByte c rpos => rw [hs] at hr; exact ⟨hlt hr.1, hr.2⟩
    | put c b => rw [hs] at hr; exact hkeep hr
    | bump c => rw [hs] at hr; exact hkeep hr
    | bumpStore c rpos => rw [hs] at hr; exact ⟨hkeep hr.1, hr.2⟩

theorem pipewriteStep_inv (h : PipeInv s) (closed : Bool) : PipeInv (pipewriteStep s closed) := by
  have hw := h.writer
  unfold pipewriteStep
  cases hs : s.writer with
  | idle r => exact h
  | test c =>
      refine h.setWriter ?_
      split <;> trivial
  | poll c => exact h.setWriter rfl
  | pollRpos c wpos =>
      rw [hs] at hw
      refine h.setWriter ?_
      split
      · trivial
      · -- Not full: a cell is free, and only the writer fills cells.
        rename_i hne
        have hwpos : wpos = s.p_wpos := hw
        rw [hwpos, h.full_iff, not_not] at hne
        exact hne
  | full c =>
      refine h.setWriter ?_
      split <;> trivial
  | put c =>
      rw [hs] at hw
      exact h.setWriter ⟨hw, rfl⟩
  | putByte c wpos =>
      rw [hs] at hw
      obtain ⟨hroom, hwpos⟩ := hw
      rw [hwpos]
      show PipeInv { s with
        p_buf := Function.update s.p_buf (s.p_wpos.toNat % BY2PIPE) (c.wbuf c.i)
        writer := .bump c }
      rw [wpos_cell h]
      exact h.store hroom
  | bump c =>
      rw [hs] at hw
      exact h.setWriter ⟨hw.1, hw.2, rfl⟩
  | bumpStore c wpos =>
      rw [hs] at hw
      obtain ⟨hroom, hb, hwpos⟩ := hw
      rw [hwpos]
      exact h.accept hroom hb fun _ => trivial

/-- Every access of either process keeps the invariant. -/
theorem pipeStep_inv {s' : PipeState} {a : PipeAct} (h : PipeInv s) (hstep : pipeStep s a s') :
    PipeInv s' := by
  unfold pipeStep at hstep
  cases a with
  | piperead n rbuf =>
      simp only [PipeAct.exec] at hstep
      split at hstep
      · cases hstep
        exact h.setReader trivial
      · cases hstep
  | pipewrite n wbuf =>
      simp only [PipeAct.exec] at hstep
      split at hstep
      · cases hstep
        exact h.setWriter trivial
      · cases hstep
  | reader closed =>
      cases hstep
      exact pipereadStep_inv h closed
  | writer closed =>
      cases hstep
      exact pipewriteStep_inv h closed

end Inv

/-! ## Runs -/

theorem pipeInit_inv : PipeInv pipeInit where
  rpos := rfl
  wpos := rfl
  fifo := List.nil_prefix
  room := Nat.zero_le _
  ring := RingHolds.nil BY2PIPE _
  reader := trivial
  writer := trivial

/-- In every run of calls of any sizes, between any two accesses: the positions
    are at most a ring apart, the bytes delivered are the first `p_rpos` of those
    written, and every other byte written is still in its cell. -/
theorem pipe_fifo {tr : List PipeAct} {s : PipeState} (hrun : Run pipeStep pipeInit tr s) :
    (s.p_wpos - s.p_rpos).toNat ≤ BY2PIPE ∧
    s.p_rpos = BitVec.ofNat 64 s.delivered.length ∧
    s.p_wpos = BitVec.ofNat 64 s.written.length ∧
    s.delivered = s.written.take s.delivered.length ∧
    ∀ j, s.delivered.length ≤ j → ∀ h : j < s.written.length, s.p_buf (j % BY2PIPE) = s.written[j] := by
  have h : PipeInv s := hrun.invariant pipeInit_inv fun _ _ _ h hstep => pipeStep_inv h hstep
  have hle := h.le
  have hroom := h.room
  refine ⟨?_, h.rpos, h.wpos, List.prefix_iff_eq_take.mp h.fifo, h.ring⟩
  rw [h.sub_toNat]
  omega

/-- One byte through the pipe, the writer first. -/
theorem one_byte_fifo : ∃ s, Run pipeStep pipeInit
      (.pipewrite 1 (fun _ => 7) :: List.replicate 7 (.writer false) ++
        .piperead 1 (fun _ => 0) :: List.replicate 10 (.reader false)) s ∧
    s.delivered = [7] ∧ s.p_rpos = 1 ∧ (s.p_wpos - s.p_rpos).toNat ≤ BY2PIPE := by
  obtain ⟨s, hexec, hdel⟩ : ∃ s, (.pipewrite 1 (fun _ => 7) :: List.replicate 7 (.writer false) ++
      .piperead 1 (fun _ => 0) :: List.replicate 10 (.reader false) : List PipeAct).foldlM
        PipeAct.exec pipeInit = some s ∧ s.delivered = [7] := ⟨_, rfl, rfl⟩
  have hrun : Run pipeStep pipeInit _ s := Run.of_foldlM hexec
  obtain ⟨hdist, hrpos, -⟩ := pipe_fifo hrun
  refine ⟨s, hrun, hdel, ?_, hdist⟩
  rw [hrpos, hdel]
  rfl

end RpiMos
