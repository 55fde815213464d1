/-
  RpiMos.User.PipeEof

  When `piperead` says that the file is at its end.  The pipe's page and the page
  tables together: one process reads, the other writes and closes, and the
  scheduler picks which of them goes on.  `piperead` compares the positions
  first and asks `_pipeisclosed` then, and both take several steps.
-/

import RpiMos.User.PipeCounts
import RpiMos.User.PipeRefs

namespace RpiMos

open Lib

/-- The two processes, and the descriptor at which each has its end. -/
structure PipeEnds where
  frames : PipeFrames
  reader : EnvPtr
  writer : EnvPtr
  rfd : FdNum
  wfd : FdNum
  reader_ne_writer : reader ≠ writer

structure PipeSys where
  pipe : PipeState
  envs : PipeEnvs

/-- The next thing the process does is to call `_pipeisclosed`. -/
def ReadPc.asks : ReadPc → Bool
  | .waitEmpty _ => true
  | .pollEmpty c => !BitVec.slt 0 c.i
  | _ => false

def WritePc.asks : WritePc → Bool
  | .full _ => true
  | _ => false

/-- The call that `piperead` is in. -/
def ReadPc.call : ReadPc → Option ReadCall
  | .idle _ => none
  | .wait c | .waitWpos c _ | .waitEmpty c | .test c | .poll c | .pollWpos c _ | .pollEmpty c | .get c
  | .getByte c _ | .put c _ | .bump c | .bumpStore c _ => some c

namespace PipeSys

/-- The next step of the reader: inside `_pipeisclosed`, on from its answer, or an
    access of `piperead`. -/
def goReader (C : PipeEnds) (s : PipeSys) : PipeSys :=
  match s.envs.pc C.reader with
  | .run =>
      if s.pipe.reader.asks then { s with envs := s.envs.goto (.look C.rfd) }
      else { s with pipe := pipereadStep s.pipe false }
  | .closed _ r => ⟨pipereadStep s.pipe r, s.envs.goto .run⟩
  | _ => { s with envs := s.envs.exec true }

/-- The same for the writer, which may be inside `close` too. -/
def goWriter (C : PipeEnds) (s : PipeSys) : PipeSys :=
  match s.envs.pc C.writer with
  | .run =>
      if s.pipe.writer.asks then { s with envs := s.envs.goto (.look C.wfd) }
      else { s with pipe := pipewriteStep s.pipe false }
  | .closed _ r => ⟨pipewriteStep s.pipe r, s.envs.goto .run⟩
  | _ => { s with envs := s.envs.exec true }

end PipeSys

inductive SysAct where
  | sched (e : EnvPtr)
  | piperead (n : Word) (rbuf : U32 → Byte)
  | pipewrite (n : Word) (wbuf : U32 → Byte)
  | close
  | go

/-- A process that runs and is in no call makes one, on a descriptor that is open. -/
inductive SysStep (C : PipeEnds) : PipeSys → SysAct → PipeSys → Prop
  | sched {s : PipeSys} (e : EnvPtr) : SysStep C s (.sched e) { s with envs := s.envs.envRun e }
  | piperead {s : PipeSys} {p : PipeState} {n : Word} {rbuf : U32 → Byte}
      (hcur : s.envs.curenv = C.reader) (hpc : s.envs.pc C.reader = .run)
      (hfd : s.envs.maps (C.reader, fdPage C.rfd) = some C.frames.rd)
      (hcall : pipeStep s.pipe (.piperead n rbuf) p) : SysStep C s (.piperead n rbuf) { s with pipe := p }
  | pipewrite {s : PipeSys} {p : PipeState} {n : Word} {wbuf : U32 → Byte}
      (hcur : s.envs.curenv = C.writer) (hpc : s.envs.pc C.writer = .run)
      (hfd : s.envs.maps (C.writer, fdPage C.wfd) = some C.frames.wr)
      (hcall : pipeStep s.pipe (.pipewrite n wbuf) p) : SysStep C s (.pipewrite n wbuf) { s with pipe := p }
  | close {s : PipeSys} (hcur : s.envs.curenv = C.writer) (hpc : s.envs.pc C.writer = .run)
      (hfd : s.envs.maps (C.writer, fdPage C.wfd) = some C.frames.wr)
      (hidle : s.pipe.writer.busy = false) :
      SysStep C s .close { s with envs := s.envs.goto (.closeFd C.wfd none) }
  | goReader {s : PipeSys} (hcur : s.envs.curenv = C.reader) : SysStep C s .go (s.goReader C)
  | goWriter {s : PipeSys} (hcur : s.envs.curenv = C.writer) : SysStep C s .go (s.goWriter C)

/-! ## Pages -/

/-- The reader has its end with the data; the writer may have its own; and nobody
    else has a page of the pipe. -/
structure EofPages (C : PipeEnds) (m : Mappings) : Prop where
  rfd : m (C.reader, fdPage C.rfd) = some C.frames.rd
  rdata : m (C.reader, dataPage C.rfd 0) = some C.frames.data
  paired : m (C.writer, fdPage C.wfd) = some C.frames.wr →
    m (C.writer, dataPage C.wfd 0) = some C.frames.data
  rd : ∀ x, m x = some C.frames.rd → x = (C.reader, fdPage C.rfd)
  wr : ∀ x, m x = some C.frames.wr → x = (C.writer, fdPage C.wfd)
  data : ∀ x, m x = some C.frames.data →
    x = (C.reader, dataPage C.rfd 0) ∨ x = (C.writer, dataPage C.wfd 0)

/-- The writer has the data mapped. -/
def HasData (C : PipeEnds) (m : Mappings) : Prop :=
  m (C.writer, dataPage C.wfd 0) = some C.frames.data

/-- Both processes have their ends, and neither is in a call. -/
structure PipeSys.Started (C : PipeEnds) (s : PipeSys) : Prop where
  pipe : PipeInv s.pipe
  pages : EofPages C s.envs.maps
  wfd : s.envs.maps (C.writer, fdPage C.wfd) = some C.frames.wr
  reader : s.envs.pc C.reader = .run
  writer : s.envs.pc C.writer = .run
  readerIdle : s.pipe.reader.busy = false
  writerIdle : s.pipe.writer.busy = false

/-- `piperead` has found the pipe empty, and is not told that it is open. -/
def PipeSys.Asking (C : PipeEnds) (s : PipeSys) : Prop :=
  (∃ c, s.pipe.reader = .waitEmpty c) ∧ ∀ n, s.envs.pc C.reader ≠ .closed n false

/-- The writer does not unmap the data while `piperead`, having found the pipe empty,
    asks about it and bytes have come in since; and no size is cut down to 0 by
    `return n`. -/
def EofOk (C : PipeEnds) (s : PipeSys) : SysAct → Prop
  | .go =>
      (s.envs.curenv = C.writer → ∀ n next, s.envs.pc C.writer = .closeData n next → s.Asking C →
        s.pipe.p_rpos = s.pipe.p_wpos) ∧
      ∀ c, s.pipe.reader = .test c → intLt c.i c.n = false → c.n ≠ 0 → c.n.setWidth 32 ≠ 0
  | _ => True

/-- The writing end is closed, and all that was written is delivered. -/
structure PipeSys.AtEof (C : PipeEnds) (s : PipeSys) : Prop where
  closed : ∀ x, s.envs.maps x ≠ some C.frames.wr
  unmapped : ∀ x, s.envs.maps x = some C.frames.data → x = (C.reader, dataPage C.rfd 0)
  drained : s.pipe.delivered = s.pipe.written

variable {C : PipeEnds} {m m' : Mappings}

section Pages

theorem dataPage_zero (n : FdNum) : dataPage n 0 = vpn (INDEX2DATA n) := by
  rw [dataPage, Nat.zero_mul, Nat.add_zero]

theorem EofPages.ref_rd (h : EofPages C m) : m.ref C.frames.rd = 1 := by
  by_contra hne
  obtain ⟨y, hy, hmaps⟩ := exists_other h.rfd hne
  exact hy (h.rd y hmaps)

/-- The data is mapped once if and only if the writer does not map it. -/
theorem EofPages.ref_data (h : EofPages C m) : m.ref C.frames.data = 1 ↔ ¬ HasData C m := by
  constructor
  · intro href hdata
    exact C.reader_ne_writer.symm (Prod.mk.inj (eq_of_ref_one h.rdata hdata href)).1
  · intro hno
    by_contra hne
    obtain ⟨y, hy, hmaps⟩ := exists_other h.rdata hne
    rcases h.data y hmaps with rfl | rfl
    · exact hy rfl
    · exact hno hmaps

/-- The writer unmaps a page of its end. -/
theorem EofPages.unmap (h : EofPages C m) {x : EnvPtr × Vpn} (hx : x.1 = C.writer)
    (hm : ∀ y, y ≠ x → m' y = m y) (hnone : m' x = none)
    (hdata : x = (C.writer, dataPage C.wfd 0) → m (C.writer, fdPage C.wfd) ≠ some C.frames.wr) :
    EofPages C m' := by
  have hback : ∀ y f, m' y = some f → m y = some f := by
    intro y f hy
    by_cases hyx : y = x
    · rw [hyx, hnone] at hy
      cases hy
    · rwa [← hm y hyx]
  have hreader : ∀ v, m' (C.reader, v) = m (C.reader, v) := by
    refine fun v => hm _ ?_
    rintro rfl
    exact C.reader_ne_writer hx
  refine ⟨(hreader _).trans h.rfd, (hreader _).trans h.rdata, fun hwr => ?_, fun y hy => h.rd y (hback y _ hy),
    fun y hy => h.wr y (hback y _ hy), fun y hy => h.data y (hback y _ hy)⟩
  have hfd := hback _ _ hwr
  rw [hm _ fun heq => hdata heq.symm hfd]
  exact h.paired hfd

end Pages

/-! ## What the reader knows -/

section Reader

variable {s : PipeState}

def PipeState.Nonempty (s : PipeState) : Prop := s.delivered.length < s.written.length

def lastIndex : U32 := BitVec.ofNat 32 (2 ^ 32 - 1)

/-- It has loaded its own position.  Before its first byte the pipe is not empty, and
    the index never comes round to 0. -/
def ReadPc.Knows (s : PipeState) : ReadPc → Prop
  | .waitWpos _ rpos => rpos = s.p_rpos
  | .test c => c.i = 0 → s.Nonempty
  | .poll c => (c.i = 0 → s.Nonempty) ∧ c.i ≠ lastIndex
  | .pollWpos c _ => (c.i = 0 → s.Nonempty) ∧ c.i ≠ lastIndex
  | .pollEmpty c => c.i ≠ 0 ∧ c.i ≠ lastIndex
  | .get c => c.i ≠ lastIndex
  | .getByte c _ => c.i ≠ lastIndex
  | .put c _ => c.i ≠ lastIndex
  | .bump c => c.i ≠ lastIndex
  | .bumpStore c _ => c.i ≠ lastIndex
  | _ => True

theorem ne_lastIndex {i : U32} {n : Word} (h : intLt i n = true) : i ≠ lastIndex := by
  rintro rfl
  rw [lastIndex, intLt_last] at h
  cases h

theorem next_ne_zero {i : U32} (h : i ≠ lastIndex) : i + 1 ≠ 0 := by
  intro hz
  refine h ?_
  unfold lastIndex
  bv_omega

theorem nonempty_of_ne (h : PipeInv s) (hne : s.p_rpos ≠ s.p_wpos) : s.Nonempty := by
  have hle := h.le
  rw [Ne, h.empty_iff] at hne
  unfold PipeState.Nonempty
  omega

theorem pipereadStep_knows (h : PipeInv s) (hk : s.reader.Knows s) (closed : Bool) :
    (pipereadStep s closed).reader.Knows (pipereadStep s closed) := by
  have hok := h.reader
  unfold pipereadStep
  cases hs : s.reader with
  | idle r =>
      show s.reader.Knows s
      rw [hs]
      trivial
  | wait c => rfl
  | waitWpos c rpos =>
      rw [hs] at hk
      have hrpos : rpos = s.p_rpos := hk
      dsimp only
      split
      · trivial
      · rename_i hne
        rw [hrpos] at hne
        have hbytes := nonempty_of_ne h hne
        exact fun _ => hbytes
  | waitEmpty c =>
      dsimp only
      split <;> trivial
  | test c =>
      rw [hs] at hk
      dsimp only
      split
      · rename_i hlt
        exact ⟨hk, ne_lastIndex hlt⟩
      · trivial
  | poll c =>
      rw [hs] at hk
      exact hk
  | pollWpos c rpos =>
      rw [hs] at hk hok
      have hrpos : rpos = s.p_rpos := hok
      dsimp only
      split
      · -- It is empty, so that some byte has been taken.
        rename_i heq
        rw [hrpos, h.empty_iff] at heq
        refine ⟨fun hz => ?_, hk.2⟩
        have hlt := hk.1 hz
        unfold PipeState.Nonempty at hlt
        omega
      · exact hk.2
  | pollEmpty c =>
      rw [hs] at hk
      dsimp only
      split
      · trivial
      · exact ⟨fun hz => absurd hz hk.1, hk.2⟩
  | get c =>
      rw [hs] at hk
      exact hk
  | getByte c rpos =>
      rw [hs] at hk
      exact hk
  | put c b =>
      rw [hs] at hk
      exact hk
  | bump c =>
      rw [hs] at hk
      exact hk
  | bumpStore c rpos =>
      rw [hs] at hk
      exact fun hz => absurd hz (next_ne_zero hk)

/-- `piperead` comes to ask only behind an empty pipe. -/
theorem waitEmpty_drained (hk : s.reader.Knows s) {closed : Bool} {c : ReadCall}
    (hc : (pipereadStep s closed).reader = .waitEmpty c) : s.p_rpos = s.p_wpos ∧
      (pipereadStep s closed).p_rpos = s.p_rpos ∧ (pipereadStep s closed).p_wpos = s.p_wpos := by
  unfold pipereadStep at hc ⊢
  cases hs : s.reader with
  | waitWpos c' rpos =>
      rw [hs] at hk hc
      have hrpos : rpos = s.p_rpos := hk
      dsimp only at hc
      split at hc
      · rename_i heq
        exact ⟨hrpos ▸ heq, rfl, rfl⟩
      · cases hc
  | idle r =>
      rw [hs] at hc
      dsimp only at hc
      rw [hs] at hc
      cases hc
  | waitEmpty c' =>
      rw [hs] at hc
      dsimp only at hc
      split at hc <;> cases hc
  | test c' =>
      rw [hs] at hc
      dsimp only at hc
      split at hc <;> cases hc
  | pollWpos c' rpos =>
      rw [hs] at hc
      dsimp only at hc
      split at hc <;> cases hc
  | pollEmpty c' =>
      rw [hs] at hc
      dsimp only at hc
      split at hc <;> cases hc
  | _ =>
      rw [hs] at hc
      cases hc

/-- The two ways to return 0. -/
theorem pipereadStep_zero (hk : s.reader.Knows s) {closed : Bool} {c : ReadCall}
    (hc : s.reader.call = some c) (hret : (pipereadStep s closed).reader = .idle 0) :
    (s.reader = .waitEmpty c ∧ closed = true) ∨
    (s.reader = .test c ∧ intLt c.i c.n = false ∧ c.n.setWidth 32 = 0) := by
  unfold pipereadStep at hret
  cases hs : s.reader with
  | idle r =>
      rw [hs] at hc
      cases hc
  | waitEmpty c' =>
      rw [hs] at hc hret
      cases hc
      cases closed with
      | true => exact Or.inl ⟨rfl, rfl⟩
      | false => cases hret
  | waitWpos c' rpos =>
      rw [hs] at hret
      dsimp only at hret
      split at hret <;> cases hret
  | test c' =>
      rw [hs] at hc hret
      cases hc
      cases hlt : intLt c.i c.n with
      | true =>
          simp only [hlt, if_true] at hret
          cases hret
      | false =>
          simp only [hlt, Bool.false_eq_true, if_false] at hret
          exact Or.inr ⟨rfl, rfl, ReadPc.idle.inj hret⟩
  | pollWpos c' rpos =>
      rw [hs] at hret
      dsimp only at hret
      split at hret <;> cases hret
  | pollEmpty c' =>
      rw [hs] at hk hret
      dsimp only at hret
      split at hret
      · exact absurd (ReadPc.idle.inj hret) hk.1
      · cases hret
  | _ =>
      rw [hs] at hret
      cases hret

/-- The writer takes nothing out. -/
theorem ReadPc.Knows.mono {s' : PipeState} {pc : ReadPc} (h : pc.Knows s) (hrpos : s'.p_rpos = s.p_rpos)
    (hne : s.Nonempty → s'.Nonempty) : pc.Knows s' := by
  cases pc with
  | waitWpos c rpos => exact Eq.trans h hrpos.symm
  | test c => exact fun hz => hne (h hz)
  | poll c => exact ⟨fun hz => hne (h.1 hz), h.2⟩
  | pollWpos c rpos => exact ⟨fun hz => hne (h.1 hz), h.2⟩
  | _ => exact h

/-- What a step of the writer leaves, and that a writer between calls makes none. -/
theorem pipewriteStep_frame (s : PipeState) (closed : Bool) :
    (pipewriteStep s closed).reader = s.reader ∧ (pipewriteStep s closed).p_rpos = s.p_rpos ∧
    (pipewriteStep s closed).delivered = s.delivered ∧
    s.written.length ≤ (pipewriteStep s closed).written.length ∧
    (s.writer.busy = false → pipewriteStep s closed = s) := by
  unfold pipewriteStep
  cases hs : s.writer with
  | idle r => exact ⟨rfl, rfl, rfl, le_refl _, fun _ => rfl⟩
  | bumpStore c wpos =>
      refine ⟨rfl, rfl, rfl, ?_, nofun⟩
      rw [List.length_append]
      exact Nat.le_add_right _ _
  | _ => exact ⟨rfl, rfl, rfl, le_refl _, nofun⟩

end Reader

/-! ## The invariant -/

/-- Where the reader stands in `_pipeisclosed`, with what it has counted there. -/
def LookInv (C : PipeEnds) (m : Mappings) : ProcPc → Prop
  | .run => True
  | .look n => n = C.rfd
  | .lookFd n _ => n = C.rfd
  | .lookData n _ fdref => n = C.rfd ∧ fdref = 1
  | .lookEnd n _ fdref pref => n = C.rfd ∧ fdref = 1 ∧ (pref = 1 → ¬ HasData C m)
  | .closed _ r => r = true → ¬ HasData C m
  | _ => False

/-- Where the writer stands in `close`, or in `_pipeisclosed`. -/
def CloseInv (C : PipeEnds) (m : Mappings) (busy : Bool) : ProcPc → Prop
  | .closeFd n next => n = C.wfd ∧ next = none ∧ busy = false
  | .closeData n next => n = C.wfd ∧ next = none ∧ busy = false ∧
      m (C.writer, fdPage C.wfd) ≠ some C.frames.wr
  | .fdClose n next => n = C.wfd ∧ next = none ∧ busy = false
  | .run => True
  | .look _ => True
  | .lookFd _ _ => True
  | .lookData _ _ _ => True
  | .lookEnd _ _ _ _ => True
  | .closed _ _ => True
  | _ => False

structure EofInv (C : PipeEnds) (s : PipeSys) : Prop where
  pipe : PipeInv s.pipe
  pages : EofPages C s.envs.maps
  knows : s.pipe.reader.Knows s.pipe
  look : LookInv C s.envs.maps (s.envs.pc C.reader)
  close : CloseInv C s.envs.maps s.pipe.writer.busy (s.envs.pc C.writer)
  writing : s.pipe.writer.busy = true → s.envs.maps (C.writer, fdPage C.wfd) = some C.frames.wr
  /-- Whoever asks about an empty pipe will be told that it is open, or is right. -/
  asking : s.Asking C → HasData C s.envs.maps ∨ s.pipe.p_rpos = s.pipe.p_wpos

variable {s s' s₀ : PipeSys} {n : FdNum} {runs : U32} {fdref pref : Nat}

theorem readPc_not_busy {pc : ReadPc} (h : pc.busy = false) : ∃ r, pc = .idle r := by
  cases pc with
  | idle r => exact ⟨r, rfl⟩
  | _ => cases h

theorem eofInv_init (h : s.Started C) : EofInv C s := by
  obtain ⟨r, hidle⟩ := readPc_not_busy h.readerIdle
  refine ⟨h.pipe, h.pages, ?_, ?_, ?_, fun _ => h.wfd, ?_⟩
  · rw [hidle]
    trivial
  · rw [h.reader]
    trivial
  · rw [h.writer]
    trivial
  · rintro ⟨⟨c, hc⟩, -⟩
    rw [hidle] at hc
    cases hc

/-- Only where the reader stands changes. -/
theorem EofInv.gotoReader (h : EofInv C s) (hcur : s.envs.curenv = C.reader) {pc : ProcPc}
    (hlook : LookInv C s.envs.maps pc)
    (hasking : (∃ c, s.pipe.reader = .waitEmpty c) → (∀ n, pc ≠ .closed n false) →
      HasData C s.envs.maps ∨ s.pipe.p_rpos = s.pipe.p_wpos) :
    EofInv C { s with envs := s.envs.goto pc } := by
  have hself : (s.envs.goto pc).pc C.reader = pc := by rw [← hcur, goto_pc_self]
  have hother : (s.envs.goto pc).pc C.writer = s.envs.pc C.writer :=
    goto_pc_of_ne (by rw [hcur]; exact C.reader_ne_writer.symm) pc
  refine ⟨h.pipe, h.pages, h.knows, ?_, ?_, h.writing, ?_⟩
  · rw [hself]
    exact hlook
  · rw [hother]
    exact h.close
  · rintro ⟨hwait, hpc⟩
    rw [hself] at hpc
    exact hasking hwait hpc

/-- The reader asks, and counts. -/
theorem EofInv.goLook (h : EofInv C s) (hcur : s.envs.curenv = C.reader) {pc : ProcPc}
    (hlook : LookInv C s.envs.maps pc) (hpc : ∀ n, s.envs.pc C.reader ≠ .closed n false) :
    EofInv C { s with envs := s.envs.goto pc } :=
  h.gotoReader hcur hlook fun hwait _ => h.asking ⟨hwait, hpc⟩

/-- An access of `piperead`, after the answer `closed` if it has asked. -/
theorem EofInv.readStep (h : EofInv C s) (closed : Bool) :
    EofInv C { s with pipe := pipereadStep s.pipe closed } := by
  have hwriter : (pipereadStep s.pipe closed).writer = s.pipe.writer := by
    unfold pipereadStep
    split <;> rfl
  refine ⟨pipereadStep_inv h.pipe closed, h.pages, pipereadStep_knows h.pipe h.knows closed, h.look, ?_, ?_, ?_⟩
  · rw [hwriter]
    exact h.close
  · rw [hwriter]
    exact h.writing
  · rintro ⟨⟨c, hc⟩, -⟩
    obtain ⟨hempty, hrpos, hwpos⟩ := waitEmpty_drained h.knows hc
    refine Or.inr ?_
    rw [hrpos, hwpos]
    exact hempty

theorem eofInv_goReader (h : EofInv C s) (hcur : s.envs.curenv = C.reader) :
    EofInv C (s.goReader C) := by
  have hlook := h.look
  unfold PipeSys.goReader
  cases hpc : s.envs.pc C.reader with
  | run =>
      dsimp only
      split
      · exact h.goLook hcur rfl (by rw [hpc]; nofun)
      · exact h.readStep false
  | closed n r =>
      exact (h.readStep r).gotoReader hcur trivial fun ⟨c, hc⟩ _ => by
        obtain ⟨hempty, hrpos, hwpos⟩ := waitEmpty_drained h.knows hc
        refine Or.inr ?_
        rw [hrpos, hwpos]
        exact hempty
  | look n =>
      rw [hpc] at hlook
      rw [← hcur] at hpc
      rw [exec_look hpc]
      exact h.goLook hcur hlook (by rw [← hcur, hpc]; nofun)
  | lookFd n runs =>
      rw [hpc] at hlook
      obtain rfl := hlook
      rw [← hcur] at hpc
      rw [exec_lookFd hpc]
      refine h.goLook hcur ⟨rfl, ?_⟩ (by rw [← hcur, hpc]; nofun)
      rw [hcur, pageref_of_maps h.pages.rfd]
      exact h.pages.ref_rd
  | lookData n runs fdref =>
      rw [hpc] at hlook
      obtain ⟨rfl, hfd⟩ := hlook
      rw [← hcur] at hpc
      rw [exec_lookData hpc]
      refine h.goLook hcur ⟨rfl, hfd, fun href => ?_⟩ (by rw [← hcur, hpc]; nofun)
      have hdata := h.pages.rdata
      rw [dataPage_zero] at hdata
      rw [hcur, pageref_of_maps hdata] at href
      exact h.pages.ref_data.mp href
  | lookEnd n runs fdref pref =>
      rw [hpc] at hlook
      obtain ⟨rfl, rfl, hpref⟩ := hlook
      rw [← hcur] at hpc
      rw [exec_lookEnd hpc]
      refine h.goLook hcur ?_ (by rw [← hcur, hpc]; nofun)
      split
      · rfl
      · intro heq
        exact hpref (of_decide_eq_true heq).symm
  | _ =>
      rw [hpc] at hlook
      exact hlook.elim

/-- Only where the writer stands changes. -/
theorem EofInv.gotoWriter (h : EofInv C s) (hcur : s.envs.curenv = C.writer) {pc : ProcPc}
    (hclose : CloseInv C s.envs.maps s.pipe.writer.busy pc) :
    EofInv C { s with envs := s.envs.goto pc } := by
  have hself : (s.envs.goto pc).pc C.writer = pc := by rw [← hcur, goto_pc_self]
  have hother : (s.envs.goto pc).pc C.reader = s.envs.pc C.reader :=
    goto_pc_of_ne (by rw [hcur]; exact C.reader_ne_writer) pc
  refine ⟨h.pipe, h.pages, h.knows, ?_, ?_, h.writing, ?_⟩
  · rw [hother]
    exact h.look
  · rw [hself]
    exact hclose
  · rintro ⟨hwait, hpc⟩
    rw [hother] at hpc
    exact h.asking ⟨hwait, hpc⟩

/-- An access of `pipewrite`: it has the data mapped. -/
theorem EofInv.writeStep (h : EofInv C s) (closed : Bool)
    (hpc : ∀ busy, CloseInv C s.envs.maps busy (s.envs.pc C.writer)) :
    EofInv C { s with pipe := pipewriteStep s.pipe closed } := by
  obtain ⟨hreader, hrpos, hdel, hwritten, hidle⟩ := pipewriteStep_frame s.pipe closed
  cases hbusy : s.pipe.writer.busy with
  | false =>
      rw [hidle hbusy]
      exact h
  | true =>
      have hfd := h.writing hbusy
      refine ⟨pipewriteStep_inv h.pipe closed, h.pages, ?_, h.look, hpc _, fun _ => hfd,
        fun _ => Or.inl (h.pages.paired hfd)⟩
      rw [hreader]
      refine h.knows.mono hrpos fun hne => ?_
      have hlt : s.pipe.delivered.length < s.pipe.written.length := hne
      show (pipewriteStep s.pipe closed).delivered.length < (pipewriteStep s.pipe closed).written.length
      rw [hdel]
      omega

/-- A page of its end is unmapped. -/
theorem EofInv.unmap (h : EofInv C s) (hcur : s.envs.curenv = C.writer) (v : Vpn) {pc : ProcPc}
    (hbusy : s.pipe.writer.busy = false)
    (hdata : v = dataPage C.wfd 0 → s.envs.maps (C.writer, fdPage C.wfd) ≠ some C.frames.wr ∧
      (s.Asking C → s.pipe.p_rpos = s.pipe.p_wpos))
    (hpc : CloseInv C (s.envs.unmapPage (C.writer, v)).maps false pc) :
    EofInv C { s with envs := (s.envs.unmapPage (C.writer, v)).goto pc } := by
  have hm : ∀ y, y ≠ (C.writer, v) → (s.envs.unmapPage (C.writer, v)).maps y = s.envs.maps y :=
    fun y hy => setPage_of_ne hy s.envs none false
  have hnone : (s.envs.unmapPage (C.writer, v)).maps (C.writer, v) = none := setPage_self _ _ _ _
  have hless : HasData C (s.envs.unmapPage (C.writer, v)).maps → HasData C s.envs.maps := by
    intro hd
    unfold HasData at hd ⊢
    rwa [hm] at hd
    intro heq
    rw [heq, hnone] at hd
    cases hd
  have hinv : EofInv C { s with envs := s.envs.unmapPage (C.writer, v) } := by
    refine ⟨h.pipe, ?_, h.knows, ?_, ?_, ?_, ?_⟩
    · exact h.pages.unmap rfl hm hnone fun heq => (hdata (Prod.mk.inj heq).2).1
    · have hlook := h.look
      show LookInv C _ (s.envs.pc C.reader)
      cases hr : s.envs.pc C.reader with
      | lookEnd n runs fdref pref =>
          rw [hr] at hlook
          exact ⟨hlook.1, hlook.2.1, fun href hd => hlook.2.2 href (hless hd)⟩
      | closed n r =>
          rw [hr] at hlook
          exact fun hb hd => hlook hb (hless hd)
      | _ =>
          rw [hr] at hlook
          exact hlook
    · have hclose := h.close
      show CloseInv C _ _ (s.envs.pc C.writer)
      cases hw : s.envs.pc C.writer with
      | closeData n next =>
          rw [hw] at hclose
          refine ⟨hclose.1, hclose.2.1, hclose.2.2.1, fun hfd => hclose.2.2.2 ?_⟩
          rwa [hm] at hfd
          intro heq
          rw [heq, hnone] at hfd
          cases hfd
      | _ =>
          rw [hw] at hclose
          exact hclose
    · intro hb
      rw [hbusy] at hb
      cases hb
    · intro hask
      by_cases hv : v = dataPage C.wfd 0
      · exact Or.inr ((hdata hv).2 hask)
      · refine (h.asking hask).imp_left fun hd => ?_
        unfold HasData at hd ⊢
        rw [hm]
        · exact hd
        · exact fun heq => hv (Prod.mk.inj heq).2.symm
  refine hinv.gotoWriter hcur ?_
  show CloseInv C _ s.pipe.writer.busy pc
  rw [hbusy]
  exact hpc

theorem exec_closeFd {next : Option FdNum} {e : PipeEnvs} (hpc : e.pc e.curenv = .closeFd n next) (ok : Bool) :
    e.exec ok = (e.unmapPage (e.curenv, fdPage n)).goto (.closeData n next) := by
  rw [PipeEnvs.exec, hpc]

theorem exec_closeData {next : Option FdNum} {e : PipeEnvs} (hpc : e.pc e.curenv = .closeData n next)
    (ok : Bool) : e.exec ok = (e.unmapPage (e.curenv, dataPage n 0)).goto (.fdClose n next) := by
  rw [PipeEnvs.exec, hpc]

theorem exec_fdClose {next : Option FdNum} {e : PipeEnvs} (hpc : e.pc e.curenv = .fdClose n next) (ok : Bool) :
    e.exec ok = (e.unmapPage (e.curenv, fdPage n)).goto (PipeEnvs.afterClose n next) := by
  rw [PipeEnvs.exec, hpc]

theorem eofInv_goWriter (h : EofInv C s) (hok : EofOk C s .go) (hcur : s.envs.curenv = C.writer) :
    EofInv C (s.goWriter C) := by
  have hclose := h.close
  unfold PipeSys.goWriter
  cases hpc : s.envs.pc C.writer with
  | run =>
      dsimp only
      split
      · exact h.gotoWriter hcur trivial
      · exact h.writeStep false (by rw [hpc]; exact fun _ => trivial)
  | closed n r =>
      exact (h.writeStep r (by rw [hpc]; exact fun _ => trivial)).gotoWriter hcur trivial
  | look n =>
      rw [← hcur] at hpc
      rw [exec_look hpc]
      exact h.gotoWriter hcur trivial
  | lookFd n runs =>
      rw [← hcur] at hpc
      rw [exec_lookFd hpc]
      exact h.gotoWriter hcur trivial
  | lookData n runs fdref =>
      rw [← hcur] at hpc
      rw [exec_lookData hpc]
      exact h.gotoWriter hcur trivial
  | lookEnd n runs fdref pref =>
      rw [← hcur] at hpc
      rw [exec_lookEnd hpc]
      refine h.gotoWriter hcur ?_
      split <;> trivial
  | closeFd n next =>
      rw [hpc] at hclose
      obtain ⟨rfl, rfl, hbusy⟩ := hclose
      rw [← hcur] at hpc
      rw [exec_closeFd hpc, hcur]
      refine h.unmap hcur _ hbusy (fun heq => absurd heq (fdPage_ne_dataPage _ _ (by decide))) ?_
      refine ⟨rfl, rfl, rfl, ?_⟩
      rw [PipeEnvs.unmapPage, setPage_self]
      exact (Option.some_ne_none C.frames.wr).symm
  | closeData n next =>
      have hask := fun ha => hok.1 hcur n next hpc ha
      rw [hpc] at hclose
      obtain ⟨rfl, rfl, hbusy, hfd⟩ := hclose
      rw [← hcur] at hpc
      rw [exec_closeData hpc, hcur]
      exact h.unmap hcur _ hbusy (fun _ => ⟨hfd, hask⟩) ⟨rfl, rfl, rfl⟩
  | fdClose n next =>
      rw [hpc] at hclose
      obtain ⟨rfl, rfl, hbusy⟩ := hclose
      rw [← hcur] at hpc
      rw [exec_fdClose hpc, hcur]
      exact h.unmap hcur _ hbusy (fun heq => absurd heq (fdPage_ne_dataPage _ _ (by decide))) trivial
  | _ =>
      rw [hpc] at hclose
      exact hclose.elim

theorem eofInv_step {a : SysAct} (h : EofInv C s) (hok : EofOk C s a) (hstep : SysStep C s a s') :
    EofInv C s' := by
  cases hstep with
  | sched e => exact ⟨h.pipe, h.pages, h.knows, h.look, h.close, h.writing, h.asking⟩
  | piperead hcur hpc hfd hcall =>
      have hpipe := pipeStep_inv h.pipe hcall
      simp only [pipeStep, PipeAct.exec] at hcall
      split at hcall
      · cases hcall
        refine ⟨hpipe, h.pages, trivial, h.look, h.close, h.writing, ?_⟩
        rintro ⟨⟨c, hc⟩, -⟩
        cases hc
      · cases hcall
  | pipewrite hcur hpc hfd hcall =>
      have hpipe := pipeStep_inv h.pipe hcall
      simp only [pipeStep, PipeAct.exec] at hcall
      split at hcall
      · cases hcall
        refine ⟨hpipe, h.pages, h.knows.mono rfl id, h.look, ?_, fun _ => hfd, h.asking⟩
        rw [hpc]
        trivial
      · cases hcall
  | close hcur hpc hfd hidle => exact h.gotoWriter hcur ⟨rfl, rfl, hidle⟩
  | goReader hcur => exact eofInv_goReader h hcur
  | goWriter hcur => exact eofInv_goWriter h hok hcur

/-! ## End of file -/

theorem EofInv.atEof (h : EofInv C s) (hdata : ¬ HasData C s.envs.maps)
    (hempty : s.pipe.p_rpos = s.pipe.p_wpos) : s.AtEof C := by
  refine ⟨fun x hx => ?_, fun x hx => ?_, ?_⟩
  · rw [h.pages.wr x hx] at hx
    exact hdata (h.pages.paired hx)
  · rcases h.pages.data x hx with rfl | rfl
    · rfl
    · exact absurd hx hdata
  · exact h.pipe.fifo.eq_of_length (h.pipe.empty_iff.mp hempty)

/-- The reader goes on, and returns 0: it has been told that the other end is gone,
    and the pipe is empty still. -/
theorem goReader_zero {c : ReadCall} (h : EofInv C s) (hok : EofOk C s .go)
    (hc : s.pipe.reader.call = some c) (hn : c.n ≠ 0) (hret : (s.goReader C).pipe.reader = .idle 0) :
    ¬ HasData C s.envs.maps ∧ s.pipe.p_rpos = s.pipe.p_wpos ∧
      s.goReader C = ⟨{ s.pipe with reader := .idle 0 }, s.envs.goto .run⟩ := by
  have hlook := h.look
  -- No size is cut down to 0.
  have hwait : ∀ closed, (pipereadStep s.pipe closed).reader = .idle 0 →
      s.pipe.reader = .waitEmpty c ∧ closed = true := by
    intro closed hzero
    rcases pipereadStep_zero h.knows hc hzero with hw | ⟨htest, hlt, hcut⟩
    · exact hw
    · exact absurd hcut (hok.2 c htest hlt hn)
  have hbusy : s.pipe.reader ≠ .idle 0 := by
    intro hidle
    rw [hidle] at hc
    cases hc
  unfold PipeSys.goReader at hret ⊢
  cases hpc : s.envs.pc C.reader with
  | run =>
      rw [hpc] at hret
      dsimp only at hret
      split at hret
      · exact absurd hret hbusy
      · exact absurd (hwait false hret).2 Bool.false_ne_true
  | closed n r =>
      rw [hpc] at hret hlook
      obtain ⟨hreader, rfl⟩ := hwait r hret
      have hdata : ¬ HasData C s.envs.maps := hlook rfl
      have hasking : s.Asking C := ⟨⟨c, hreader⟩, by rw [hpc]; nofun⟩
      refine ⟨hdata, (h.asking hasking).resolve_left hdata, ?_⟩
      show PipeSys.mk (pipereadStep s.pipe true) _ = _
      rw [pipereadStep, hreader]
      rfl
  | _ =>
      rw [hpc] at hret
      exact absurd hret hbusy

theorem goWriter_reader (s : PipeSys) : (s.goWriter C).pipe.reader = s.pipe.reader := by
  unfold PipeSys.goWriter
  split
  · split
    · rfl
    · exact (pipewriteStep_frame s.pipe false).1
  · exact (pipewriteStep_frame s.pipe _).1
  · rfl

/-- Whatever the two processes do, a `piperead` of some bytes that returns 0 has come
    to the end: the other end is closed, and every byte written has been delivered. -/
theorem piperead_eof {tr : List SysAct} {a : SysAct} {c : ReadCall} (h₀ : s₀.Started C)
    (hrun : Run (restrict (SysStep C) (EofOk C)) s₀ tr s) (hstep : restrict (SysStep C) (EofOk C) s a s')
    (hcall : s.pipe.reader.call = some c) (hn : c.n ≠ 0) (hret : s'.pipe.reader = .idle 0) :
    s'.AtEof C := by
  have hinv : EofInv C s := hrun.invariant_of_restrict (eofInv_init h₀)
    fun _ _ _ hi hok hs => eofInv_step hi hok hs
  obtain ⟨hstep, hok⟩ := hstep
  have hinv' := eofInv_step hinv hok hstep
  have hbusy : s.pipe.reader ≠ .idle 0 := by
    intro hidle
    rw [hidle] at hcall
    cases hcall
  cases hstep with
  | sched e => exact absurd hret hbusy
  | piperead hcur hpc hfd hbegin =>
      simp only [pipeStep, PipeAct.exec] at hbegin
      split at hbegin
      · cases hbegin
        cases hret
      · cases hbegin
  | pipewrite hcur hpc hfd hbegin =>
      simp only [pipeStep, PipeAct.exec] at hbegin
      split at hbegin
      · cases hbegin
        exact absurd hret hbusy
      · cases hbegin
  | close hcur hpc hfd hidle => exact absurd hret hbusy
  | goReader hcur =>
      obtain ⟨hdata, hempty, heq⟩ := goReader_zero hinv hok hcall hn hret
      rw [heq] at hinv' ⊢
      exact hinv'.atEof hdata hempty
  | goWriter hcur =>
      rw [goWriter_reader] at hret
      exact absurd hret hbusy

/-! ## An answer -/

section Ask

variable {ok : PipeSys → SysAct → Prop}

/-- A reader that is between calls, or goes on, meets the condition. -/
theorem eofOk_go (htest : ∀ c, s.pipe.reader ≠ .test c)
    (h : s.envs.curenv = C.reader ∨ ∀ c, s.pipe.reader ≠ .waitEmpty c) : EofOk C s .go := by
  refine ⟨fun hcur n next _ hask => ?_, fun c hc => absurd hc (htest c)⟩
  rcases h with hreader | hwait
  · exact absurd (hreader.symm.trans hcur) C.reader_ne_writer
  · obtain ⟨c, hc⟩ := hask.1
    exact absurd hc (hwait c)

/-- When nobody interrupts it and the writer has unmapped the data, `_pipeisclosed`
    says so. -/
theorem ask_run (hpages : EofPages C s.envs.maps) (hdata : ¬ HasData C s.envs.maps)
    (hcur : s.envs.curenv = C.reader) (hpc : s.envs.pc C.reader = .run) (hasks : s.pipe.reader.asks = true)
    (hruns : ((s.envs.env_runs C.reader).setWidth 32).signExtend 64 = s.envs.env_runs C.reader)
    (hok : ∀ e : PipeEnvs, e.curenv = C.reader → ok ⟨s.pipe, e⟩ .go) :
    Run (restrict (SysStep C) ok) s (List.replicate 5 .go)
      ⟨s.pipe, s.envs.goto (.closed C.rfd true)⟩ := by
  have hself : ∀ pc, (s.envs.goto pc).pc C.reader = pc := by
    intro pc
    rw [← hcur, goto_pc_self]
  have hat : ∀ pc, (s.envs.goto pc).pc (s.envs.goto pc).curenv = pc := fun pc => goto_pc_self s.envs pc
  -- Inside `_pipeisclosed`.
  have hgo : ∀ pc e', (s.envs.goto pc).exec true = s.envs.goto e' → (∀ n r, pc ≠ .closed n r) → pc ≠ .run →
      restrict (SysStep C) ok ⟨s.pipe, s.envs.goto pc⟩ .go ⟨s.pipe, s.envs.goto e'⟩ := by
    intro pc e' hexec hclosed hrun
    have hstep : PipeSys.goReader C ⟨s.pipe, s.envs.goto pc⟩ = ⟨s.pipe, s.envs.goto e'⟩ := by
      rw [← hexec]
      unfold PipeSys.goReader
      rw [hself]
      cases pc with
      | run => exact absurd rfl hrun
      | closed n r => exact absurd rfl (hclosed n r)
      | _ => rfl
    rw [← hstep]
    exact ⟨.goReader hcur, hok _ hcur⟩
  have hfirst : restrict (SysStep C) ok s .go ⟨s.pipe, s.envs.goto (.look C.rfd)⟩ := by
    have hstep : s.goReader C = ⟨s.pipe, s.envs.goto (.look C.rfd)⟩ := by
      simp only [PipeSys.goReader, hpc, hasks, if_true]
    rw [← hstep]
    exact ⟨.goReader hcur, hok _ hcur⟩
  have hdatapage := hpages.rdata
  rw [dataPage_zero] at hdatapage
  have hfd : pageref s.envs.maps C.reader (INDEX2FD C.rfd) = 1 := by
    rw [pageref_of_maps hpages.rfd]
    exact hpages.ref_rd
  have hdata' : pageref s.envs.maps C.reader (INDEX2DATA C.rfd) = 1 := by
    rw [pageref_of_maps hdatapage]
    exact hpages.ref_data.mpr hdata
  refine (((Run.single hfirst).snoc (hgo _ _ ?_ nofun nofun)).snoc
    (hgo (.lookFd C.rfd ((s.envs.env_runs C.reader).setWidth 32))
      (.lookData C.rfd ((s.envs.env_runs C.reader).setWidth 32) 1) ?_ nofun nofun)).snoc
    (hgo _ (.lookEnd C.rfd ((s.envs.env_runs C.reader).setWidth 32) 1 1) ?_ nofun nofun) |>.snoc
    (hgo _ _ ?_ nofun nofun)
  · rw [exec_look (hat _), goto_goto, goto_curenv, goto_env_runs, hcur]
  · rw [exec_lookFd (hat _), goto_goto, goto_curenv, goto_maps, hcur, hfd]
  · rw [exec_lookData (hat _), goto_goto, goto_curenv, goto_maps, hcur, hdata']
  · rw [exec_lookEnd (hat _), goto_goto, goto_curenv, goto_env_runs, hcur, if_neg (not_not.mpr hruns)]
    rfl

end Ask

/-! ## Two processes -/

def twoProcs : PipeEnds := ⟨threeFrames, 1, 2, 0, 1, by decide⟩

/-- Process 1 reads at descriptor 0, and process 2 writes at descriptor 1. -/
def twoEnds : PipeEnvs :=
  (((noPages.setPage (1, fdPage 0) (some 1) true).setPage (1, dataPage 0 0) (some 3) true).setPage
    (2, fdPage 1) (some 2) true).setPage (2, dataPage 1 0) (some 3) true

theorem twoEnds_pages : EofPages twoProcs twoEnds.maps := by
  have hfour : ∀ x f, twoEnds.maps x = some f → (f = 3 ∧ (x = (1, dataPage 0 0) ∨ x = (2, dataPage 1 0))) ∨
      (f = 2 ∧ x = (2, fdPage 1)) ∨ f = 1 ∧ x = (1, fdPage 0) := by
    intro x f h
    rcases setPage_eq_some h with ⟨rfl, ⟨⟩⟩ | h
    · exact Or.inl ⟨rfl, Or.inr rfl⟩
    rcases setPage_eq_some h with ⟨rfl, ⟨⟩⟩ | h
    · exact Or.inr (Or.inl ⟨rfl, rfl⟩)
    rcases setPage_eq_some h with ⟨rfl, ⟨⟩⟩ | h
    · exact Or.inl ⟨rfl, Or.inl rfl⟩
    rcases setPage_eq_some h with ⟨rfl, ⟨⟩⟩ | h
    · exact Or.inr (Or.inr ⟨rfl, rfl⟩)
    · cases h
  refine ⟨rfl, rfl, fun _ => rfl, fun x hx => ?_, fun x hx => ?_, fun x hx => ?_⟩
  · rcases hfour x 1 hx with ⟨h, -⟩ | ⟨h, -⟩ | ⟨-, h⟩
    · cases h
    · cases h
    · exact h
  · rcases hfour x 2 hx with ⟨h, -⟩ | ⟨-, h⟩ | ⟨h, -⟩
    · cases h
    · exact h
    · cases h
  · rcases hfour x 3 hx with ⟨-, h⟩ | ⟨h, -⟩ | ⟨h, -⟩
    · exact h
    · cases h
    · cases h

theorem twoEnds_started : PipeSys.Started twoProcs ⟨pipeInit, twoEnds⟩ :=
  ⟨pipeInit_inv, twoEnds_pages, rfl, rfl, rfl, rfl, rfl⟩

/-- Process 2 has been scheduled, has closed its end, and process 1 is back. -/
def closedEnds : PipeEnvs :=
  (((((twoEnds.envRun 2).goto (.closeFd 1 none)).exec true).exec true).exec true).envRun 1

theorem closing_run {ok : PipeSys → SysAct → Prop} (p : PipeState) (hidle : p.writer.busy = false)
    (hok : ∀ e a, ok ⟨p, e⟩ a) :
    Run (restrict (SysStep twoProcs) ok) ⟨p, twoEnds.envRun 2⟩ [.close, .go, .go, .go, .sched 1]
      ⟨p, closedEnds⟩ :=
  ((((Run.single ⟨.close rfl rfl rfl hidle, hok _ _⟩).snoc ⟨.goWriter rfl, hok _ _⟩).snoc
    ⟨.goWriter rfl, hok _ _⟩).snoc ⟨.goWriter rfl, hok _ _⟩).snoc ⟨.sched 1, hok _ _⟩

/-- Process 1 has found the pipe empty. -/
def emptySeen : PipeState := { pipeInit with reader := .waitEmpty ⟨1, 0, fun _ => 0⟩ }

/-- Then process 2 has put a byte. -/
def byteIn : PipeState :=
  { emptySeen with
    p_wpos := 1
    p_buf := Function.update pipeInit.p_buf 0 7
    writer := .idle 1
    written := [7] }

theorem idle_ok (e : PipeEnvs) (a : SysAct) : EofOk twoProcs ⟨pipeInit, e⟩ a := by
  cases a with
  | go => exact eofOk_go nofun (Or.inr nofun)
  | _ => trivial

theorem closedEnds_pages : EofPages twoProcs closedEnds.maps := by
  have hinit : EofInv twoProcs ⟨pipeInit, twoEnds.envRun 2⟩ :=
    eofInv_step (eofInv_init twoEnds_started) (idle_ok twoEnds (.sched 2)) (.sched 2)
  have hinv : EofInv twoProcs ⟨pipeInit, closedEnds⟩ :=
    (closing_run pipeInit rfl idle_ok).invariant_of_restrict hinit
      fun _ _ _ hi hok hs => eofInv_step hi hok hs
  exact hinv.pages

theorem closedEnds_noData : ¬ HasData twoProcs closedEnds.maps := by
  intro h
  have hnone : closedEnds.maps (2, dataPage 1 0) = none := rfl
  unfold HasData at h
  rw [show (twoProcs.writer, dataPage twoProcs.wfd 0) = ((2 : EnvPtr), dataPage 1 0) from rfl, hnone] at h
  cases h

/-- The writer closes first.  Then `piperead` returns 0. -/
theorem closed_pipe_eof : ∃ tr s s' c,
    Run (restrict (SysStep twoProcs) (EofOk twoProcs)) ⟨pipeInit, twoEnds⟩ tr s ∧
    SysStep twoProcs s .go s' ∧ s.pipe.reader.call = some c ∧ c.n ≠ 0 ∧ s'.pipe.reader = .idle 0 ∧
    PipeSys.AtEof twoProcs s' := by
  have hsched : restrict (SysStep twoProcs) (EofOk twoProcs) ⟨pipeInit, twoEnds⟩ (.sched 2)
      ⟨pipeInit, twoEnds.envRun 2⟩ := ⟨.sched 2, idle_ok _ _⟩
  have hread : Run (restrict (SysStep twoProcs) (EofOk twoProcs)) ⟨pipeInit, closedEnds⟩
      [.piperead 1 fun _ => 0, .go, .go] ⟨emptySeen, closedEnds⟩ :=
    ((Run.single ⟨.piperead rfl rfl rfl rfl, idle_ok _ _⟩).snoc
      ⟨.goReader rfl, eofOk_go nofun (Or.inl rfl)⟩).snoc ⟨.goReader rfl, eofOk_go nofun (Or.inl rfl)⟩
  have hask : Run (restrict (SysStep twoProcs) (EofOk twoProcs)) ⟨emptySeen, closedEnds⟩ _ _ :=
    ask_run closedEnds_pages closedEnds_noData rfl rfl rfl rfl fun e hcur => eofOk_go nofun (Or.inl hcur)
  have hrun := Run.cons hsched (((closing_run pipeInit rfl idle_ok).append hread).append hask)
  have hlast : restrict (SysStep twoProcs) (EofOk twoProcs)
      ⟨emptySeen, closedEnds.goto (.closed twoProcs.rfd true)⟩ .go
      ⟨{ emptySeen with reader := .idle 0 }, (closedEnds.goto (.closed twoProcs.rfd true)).goto .run⟩ :=
    ⟨.goReader rfl, eofOk_go nofun (Or.inl rfl)⟩
  exact ⟨_, _, _, _, hrun, hlast.1, rfl, by decide, rfl,
    piperead_eof twoEnds_started hrun hlast rfl (by decide) rfl⟩

/-- Between the comparison and the question the writer puts a byte and closes:
    `piperead` returns 0, and the byte is never delivered. -/
theorem piperead_loses_a_byte : ∃ tr s s' c, PipeSys.Started twoProcs ⟨pipeInit, twoEnds⟩ ∧
    Run (SysStep twoProcs) ⟨pipeInit, twoEnds⟩ tr s ∧ SysStep twoProcs s .go s' ∧
    s.pipe.reader.call = some c ∧ c.n ≠ 0 ∧ s'.pipe.reader = .idle 0 ∧
    s'.pipe.written = [7] ∧ s'.pipe.delivered = [] := by
  have hread : Run (SysStep twoProcs) ⟨pipeInit, twoEnds⟩ [.piperead 1 fun _ => 0, .go, .go, .sched 2]
      ⟨emptySeen, twoEnds.envRun 2⟩ :=
    (((Run.single (.piperead rfl rfl rfl rfl)).snoc (.goReader rfl)).snoc (.goReader rfl)).snoc (.sched 2)
  have hwrite : Run (SysStep twoProcs) ⟨emptySeen, twoEnds.envRun 2⟩
      [.pipewrite 1 fun _ => 7, .go, .go, .go, .go, .go, .go, .go, .go] ⟨byteIn, twoEnds.envRun 2⟩ :=
    ((((((((Run.single (.pipewrite rfl rfl rfl rfl)).snoc (.goWriter rfl)).snoc (.goWriter rfl)).snoc
      (.goWriter rfl)).snoc (.goWriter rfl)).snoc (.goWriter rfl)).snoc (.goWriter rfl)).snoc
      (.goWriter rfl)).snoc (.goWriter rfl)
  have hclose : Run (restrict (SysStep twoProcs) fun _ _ => True) _ _ _ :=
    closing_run byteIn rfl fun _ _ => trivial
  have hask : Run (restrict (SysStep twoProcs) fun _ _ => True) ⟨byteIn, closedEnds⟩ _ _ :=
    ask_run closedEnds_pages closedEnds_noData rfl rfl rfl rfl fun _ _ => trivial
  exact ⟨_, _, _, _, twoEnds_started, ((hread.append hwrite).append hclose.of_restrict).append hask.of_restrict, .goReader rfl, rfl,
    by decide, rfl, rfl, rfl⟩

end RpiMos
