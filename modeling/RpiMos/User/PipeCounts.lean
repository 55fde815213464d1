/-
  RpiMos.User.PipeCounts

  What `piperead` and `pipewrite` return, against the bytes that the call has
  passed.  The index of their loops is an `int`, and `pipewrite` returns 0 when
  the other end is gone, whatever it has put into the ring by then.
-/

import RpiMos.User.Pipe

namespace RpiMos

open Lib

variable {s s' s₀ s₁ : PipeState} {n : Word} {i r : U32} {j k len : Nat}

/-! ## The loop index -/

theorem intLt_small (hi : i.toNat < 2 ^ 31) : intLt i n = decide (i.toNat < n.toNat) := by
  have hmsb : i.msb = false := by
    rw [BitVec.msb_eq_decide]
    exact decide_eq_false (by omega)
  have hval : (i.signExtend 64).toNat = i.toNat := by
    rw [BitVec.signExtend_eq_setWidth_of_msb_false hmsb, BitVec.toNat_setWidth,
      Nat.mod_eq_of_lt (by omega)]
  rw [intLt, BitVec.ult, hval]

/-- The last index stops every loop. -/
theorem intLt_last : intLt (BitVec.ofNat 32 (2 ^ 32 - 1)) n = false := by
  have hval : ((BitVec.ofNat 32 (2 ^ 32 - 1)).signExtend 64).toNat = 2 ^ 64 - 1 := by decide
  rw [intLt, BitVec.ult, hval]
  have hn := n.isLt
  exact decide_eq_false (by omega)

/-- The loop has come to index `i` after `k` turns. -/
structure LoopCount (n : Word) (i : U32) (k : Nat) : Prop where
  index : i = BitVec.ofNat 32 k
  lt : k < 2 ^ 32
  turns : ∀ j, j < k → intLt (BitVec.ofNat 32 j) n = true

theorem LoopCount.zero (n : Word) : LoopCount n 0 0 := ⟨rfl, by omega, fun _ h => absurd h (Nat.not_lt_zero _)⟩

theorem LoopCount.toNat (h : LoopCount n i k) : i.toNat = k := by
  rw [h.index, BitVec.toNat_ofNat, Nat.mod_eq_of_lt h.lt]

/-- One turn. -/
theorem LoopCount.next (h : LoopCount n i k) (hlt : intLt i n = true) : LoopCount n (i + 1) (k + 1) := by
  have hk : k + 1 < 2 ^ 32 := by
    by_contra hlast
    have hlt32 := h.lt
    have hkeq : k = 2 ^ 32 - 1 := by omega
    rw [h.index, hkeq, intLt_last] at hlt
    cases hlt
  have hindex : i + 1 = BitVec.ofNat 32 (k + 1) := by
    rw [h.index, BitVec.ofNat_add]
    rfl
  refine ⟨hindex, hk, fun j hj => ?_⟩
  rcases Nat.lt_succ_iff_lt_or_eq.mp hj with hlt' | rfl
  · exact h.turns j hlt'
  · rw [← h.index]
    exact hlt

/-- At the end of the loop `n`, as an `int`, is the number of turns if and only if it
    is one. -/
theorem LoopCount.done (h : LoopCount n i k) (hend : intLt i n = false) :
    (n.setWidth 32).toInt = k ↔ n.toNat < 2 ^ 31 := by
  have hwidth : (n.setWidth 32).toNat = n.toNat % 2 ^ 32 := BitVec.toNat_setWidth 32 n
  have hint := BitVec.toInt_lt (x := n.setWidth 32)
  -- The indices below `2 ^ 31` and below `n` are all taken.
  have hge : ∀ j, j < 2 ^ 31 → j < n.toNat → j < k := by
    intro j hj hjn
    by_contra hkj
    have hk31 : i.toNat < 2 ^ 31 := by
      rw [h.toNat]
      omega
    rw [intLt_small hk31, h.toNat] at hend
    have hlt : k < n.toNat := by omega
    rw [decide_eq_true hlt] at hend
    cases hend
  constructor
  · intro heq
    by_contra hbig
    have hlast := hge (2 ^ 31 - 1) (by omega) (by omega)
    omega
  · intro hn
    have hle : k ≤ n.toNat := by
      by_contra hgt
      have hturn := h.turns n.toNat (by omega)
      have hval : (BitVec.ofNat 32 n.toNat).toNat = n.toNat := by
        rw [BitVec.toNat_ofNat, Nat.mod_eq_of_lt (by omega)]
      rw [intLt_small (by omega), hval, decide_eq_false (by omega)] at hturn
      cases hturn
    have hk : k = n.toNat := by
      by_contra hne
      have := hge k (by omega) (by omega)
      omega
    rw [BitVec.toInt_eq_toNat_cond, hwidth, Nat.mod_eq_of_lt (by omega), if_pos (by omega), hk]

/-- The index, as an `int`, is the number of turns until it turns negative. -/
theorem LoopCount.index_iff (h : LoopCount n i k) : i.toInt = k ↔ BitVec.slt i 0 = false := by
  have hneg : BitVec.slt i 0 = i.msb := BitVec.slt_zero_eq_msb
  rw [hneg, BitVec.msb_eq_decide, BitVec.toInt_eq_toNat_cond, h.toNat]
  have hlt := h.lt
  by_cases hk : k < 2 ^ 31
  · rw [if_pos (by omega)]
    simp only [true_iff]
    exact decide_eq_false (by omega)
  · rw [if_neg (by omega), decide_eq_true (by omega)]
    constructor
    · intro heq
      omega
    · rintro ⟨⟩

/-! ## Truthful results -/

/-- `if (r > 0) fd->fd_offset += r`. -/
def newOffset (offset : Word) (r : U32) : Word := if BitVec.slt 0 r then offset + r.signExtend 64 else offset

/-- The result is the number of bytes passed, and the offset has moved by it. -/
structure Truthful (r : U32) (count : Nat) : Prop where
  result : r.toInt = count
  offset : ∀ offset, newOffset offset r = offset + BitVec.ofNat 64 count

theorem truthful_iff : Truthful r k ↔ r.toInt = k := by
  constructor
  · exact fun h => h.result
  · intro h
    refine ⟨h, fun offset => ?_⟩
    have hcond := BitVec.toInt_eq_toNat_cond r
    have hlt := r.isLt
    have hval : r.toNat = k := by
      split at hcond <;> omega
    have hsmall : k < 2 ^ 31 := by
      split at hcond <;> omega
    unfold newOffset
    have hslt : BitVec.slt 0 r = decide (0 < k) := by
      rw [BitVec.slt, h]
      exact decide_eq_decide.mpr (by simp)
    rw [hslt]
    by_cases hk : 0 < k
    · have hmsb : r.msb = false := by
        rw [BitVec.msb_eq_decide]
        exact decide_eq_false (by omega)
      rw [decide_eq_true hk, if_pos rfl, BitVec.signExtend_eq_setWidth_of_msb_false hmsb]
      congr 1
      apply BitVec.eq_of_toNat_eq
      rw [BitVec.toNat_setWidth, BitVec.toNat_ofNat, hval]
    · have hk0 : k = 0 := by omega
      rw [decide_eq_false hk, if_neg Bool.false_ne_true, hk0]
      exact (BitVec.add_zero offset).symm

/-! ## `pipewrite` -/

def WritePc.busy : WritePc → Bool
  | .idle _ => false
  | _ => true

/-- A step of the two processes while a `pipewrite` is running. -/
def duringWrite (s : PipeState) (a : PipeAct) (s' : PipeState) : Prop :=
  s.writer.busy = true ∧ pipeStep s a s'

/-- The call does not hear that the other end is gone when it has put bytes, and does
    not come to the end of a size that is no `int`. -/
def WriteOk (s : PipeState) : PipeAct → Prop
  | .writer closed =>
      match s.writer with
      | .full c => closed = true → c.i = 0
      | .test c => intLt c.i c.n = false → c.n.toNat < 2 ^ 31
      | _ => True
  | _ => True

/-- The call is in its loop, in the turn after `k`. -/
def InTurn (n : Word) (k : Nat) (i : U32) : Prop := LoopCount n i k ∧ intLt i n = true

/-- Where a call for `n` bytes is when it has put `k`. -/
def WritePc.At (n : Word) (k : Nat) : WritePc → Prop
  | .idle _ => False
  | .test c => c.n = n ∧ LoopCount n c.i k
  | .poll c => c.n = n ∧ InTurn n k c.i
  | .pollRpos c _ => c.n = n ∧ InTurn n k c.i
  | .full c => c.n = n ∧ InTurn n k c.i
  | .put c => c.n = n ∧ InTurn n k c.i
  | .putByte c _ => c.n = n ∧ InTurn n k c.i
  | .bump c => c.n = n ∧ InTurn n k c.i
  | .bumpStore c _ => c.n = n ∧ InTurn n k c.i

/-- The running call has put what was written beyond the first `len` bytes. -/
structure WriteCounts (n : Word) (len : Nat) (s : PipeState) : Prop where
  le : len ≤ s.written.length
  pc : s.writer.At n (s.written.length - len)

/-- What the reader does, and what does not start, leaves the writer. -/
theorem reader_step_writer {a : PipeAct} (hbusy : s.writer.busy = true) (hstep : pipeStep s a s')
    (ha : ∀ closed, a ≠ .writer closed) : s'.writer = s.writer ∧ s'.written = s.written := by
  cases a with
  | piperead n rbuf =>
      simp only [pipeStep, PipeAct.exec] at hstep
      split at hstep
      · cases hstep
        exact ⟨rfl, rfl⟩
      · cases hstep
  | pipewrite n wbuf =>
      simp only [pipeStep, PipeAct.exec] at hstep
      split at hstep
      · rename_i hidle
        rw [hidle] at hbusy
        cases hbusy
      · cases hstep
  | reader closed =>
      cases hstep
      unfold pipereadStep
      split <;> exact ⟨rfl, rfl⟩
  | writer closed => exact absurd rfl (ha closed)

/-- One step of a running call: it goes on with the count kept, or it returns, with
    the truth if and only if the step is one of those allowed. -/
theorem pipewriteStep_counts (h : WriteCounts n len s) (closed : Bool) :
    (WriteCounts n len (pipewriteStep s closed) ∧ WriteOk s (.writer closed)) ∨
    ∃ r, (pipewriteStep s closed).writer = .idle r ∧
      (pipewriteStep s closed).written = s.written ∧
      (r.toInt = (s.written.length - len : Nat) ↔ WriteOk s (.writer closed)) := by
  obtain ⟨hle, hpc⟩ := h
  cases hw : s.writer with
  | idle r =>
      rw [hw] at hpc
      exact hpc.elim
  | test c =>
      rw [hw] at hpc
      obtain ⟨rfl, hcount⟩ := hpc
      cases hlt : intLt c.i c.n with
      | true =>
          simp only [pipewriteStep, WriteOk, hw, hlt, if_true]
          exact Or.inl ⟨⟨hle, rfl, hcount, hlt⟩, by rintro ⟨⟩⟩
      | false =>
          simp only [pipewriteStep, WriteOk, hw, hlt, Bool.false_eq_true, if_false]
          refine Or.inr ⟨_, rfl, trivial, (hcount.done hlt).trans ?_⟩
          exact ⟨fun hn _ => hn, fun hok => hok trivial⟩
  | poll c =>
      rw [hw] at hpc
      simp only [pipewriteStep, WriteOk, hw]
      exact Or.inl ⟨⟨hle, hpc⟩, trivial⟩
  | pollRpos c wpos =>
      rw [hw] at hpc
      simp only [pipewriteStep, WriteOk, hw]
      by_cases hfull : wpos - s.p_rpos = BitVec.ofNat 64 BY2PIPE
      · rw [if_pos hfull]
        exact Or.inl ⟨⟨hle, hpc⟩, trivial⟩
      · rw [if_neg hfull]
        exact Or.inl ⟨⟨hle, hpc⟩, trivial⟩
  | full c =>
      rw [hw] at hpc
      obtain ⟨rfl, hcount, hlt⟩ := hpc
      cases closed with
      | false =>
          simp only [pipewriteStep, WriteOk, hw, Bool.false_eq_true, if_false]
          exact Or.inl ⟨⟨hle, rfl, hcount, hlt⟩, by rintro ⟨⟩⟩
      | true =>
          simp only [pipewriteStep, WriteOk, hw, if_true]
          -- It returns 0, which is true of a call that has put nothing.
          have hzero : c.i = 0 ↔ s.written.length - len = 0 := by
            rw [← hcount.toNat]
            exact ⟨fun h0 => by rw [h0]; rfl, fun h0 => BitVec.eq_of_toNat_eq h0⟩
          have hint : (0 : U32).toInt = (s.written.length - len : Nat) ↔ s.written.length - len = 0 := by
            have hz : (0 : U32).toInt = 0 := rfl
            rw [hz]
            omega
          refine Or.inr ⟨0, rfl, trivial, (hint.trans hzero.symm).trans ?_⟩
          exact ⟨fun h0 _ => h0, fun hok => hok trivial⟩
  | put c =>
      rw [hw] at hpc
      simp only [pipewriteStep, WriteOk, hw]
      exact Or.inl ⟨⟨hle, hpc⟩, trivial⟩
  | putByte c wpos =>
      rw [hw] at hpc
      simp only [pipewriteStep, WriteOk, hw]
      exact Or.inl ⟨⟨hle, hpc⟩, trivial⟩
  | bump c =>
      rw [hw] at hpc
      simp only [pipewriteStep, WriteOk, hw]
      exact Or.inl ⟨⟨hle, hpc⟩, trivial⟩
  | bumpStore c wpos =>
      rw [hw] at hpc
      obtain ⟨rfl, hcount, hlt⟩ := hpc
      simp only [pipewriteStep, WriteOk, hw]
      have hlen : (s.written ++ [c.wbuf c.i]).length - len = s.written.length - len + 1 := by
        rw [List.length_append, List.length_singleton]
        omega
      refine Or.inl ⟨⟨?_, ?_⟩, trivial⟩
      · show len ≤ (s.written ++ [c.wbuf c.i]).length
        rw [List.length_append]
        omega
      · show c.n = c.n ∧ LoopCount c.n (c.i + 1) ((s.written ++ [c.wbuf c.i]).length - len)
        rw [hlen]
        exact ⟨rfl, hcount.next hlt⟩

theorem WriteCounts.busy (h : WriteCounts n len s) : s.writer.busy = true := by
  have hpc := h.pc
  cases hw : s.writer with
  | idle r =>
      rw [hw] at hpc
      exact hpc.elim
  | _ => rfl

/-- The same for any step that is taken meanwhile. -/
theorem duringWrite_counts {a : PipeAct} (h : WriteCounts n len s) (hstep : duringWrite s a s') :
    (WriteCounts n len s' ∧ WriteOk s a) ∨
    ∃ r, s'.writer = .idle r ∧
      (r.toInt = (s'.written.length - len : Nat) ↔ WriteOk s a) := by
  obtain ⟨hbusy, hstep⟩ := hstep
  by_cases ha : ∃ closed, a = .writer closed
  · obtain ⟨closed, rfl⟩ := ha
    cases hstep
    rcases pipewriteStep_counts h closed with hgo | ⟨r, hidle, hwritten, hiff⟩
    · exact Or.inl hgo
    · refine Or.inr ⟨r, hidle, ?_⟩
      rw [hwritten]
      exact hiff
  · have hno : ∀ closed, a ≠ .writer closed := fun closed heq => ha ⟨closed, heq⟩
    obtain ⟨hwriter, hwritten⟩ := reader_step_writer hbusy hstep hno
    refine Or.inl ⟨⟨hwritten ▸ h.le, ?_⟩, ?_⟩
    · rw [hwriter, hwritten]
      exact h.pc
    · cases a with
      | writer closed => exact absurd rfl (hno closed)
      | _ => trivial

theorem pipeStep_unique {s s₁ s₂ : PipeState} {a : PipeAct} (h₁ : pipeStep s a s₁)
    (h₂ : pipeStep s a s₂) : s₁ = s₂ := by
  unfold pipeStep at h₁ h₂
  rw [h₁] at h₂
  exact Option.some_inj.mp h₂

/-- A whole call. -/
theorem pipewrite_run {tr : List PipeAct} (h : WriteCounts n len s) (hrun : Run duringWrite s tr s')
    (hret : s'.writer = .idle r) :
    r.toInt = (s'.written.length - len : Nat) ↔ Run (restrict duringWrite WriteOk) s tr s' := by
  have hend : ¬ s'.writer.busy = true := by
    rw [hret]
    exact Bool.false_ne_true
  have hrule := hrun.ended_iff (fun s => s.writer.busy = true) (WriteCounts n len)
    (fun s => ∀ r, s.writer = .idle r → r.toInt = (s.written.length - len : Nat)) WriteOk
    (fun _ _ _ _ h₁ h₂ => pipeStep_unique h₁.2 h₂.2) (fun _ _ _ hs => hs.1) (fun _ hJ => hJ.busy)
    (fun s₁ a s₂ hJ hs => ?_) h hend
  · rw [← hrule]
    constructor
    · intro heq r' hr'
      rw [hret] at hr'
      cases hr'
      exact heq
    · exact fun hall => hall r hret
  · rcases duringWrite_counts hJ hs with hgo | ⟨r', hidle, hiff⟩
    · exact Or.inl hgo
    · refine Or.inr ⟨by rw [hidle]; exact Bool.false_ne_true, ?_⟩
      rw [← hiff]
      constructor
      · exact fun hall => hall r' hidle
      · intro heq r'' hr''
        rw [hidle] at hr''
        cases hr''
        exact heq

/-! ## `piperead` -/

def ReadPc.busy : ReadPc → Bool
  | .idle _ => false
  | _ => true

/-- A step of the two processes while a `piperead` is running. -/
def duringRead (s : PipeState) (a : PipeAct) (s' : PipeState) : Prop :=
  s.reader.busy = true ∧ pipeStep s a s'

/-- The call does not come to the end of a size that is no `int`, and does not stop
    before it with an index that is negative. -/
def ReadOk (s : PipeState) : PipeAct → Prop
  | .reader closed =>
      match s.reader with
      | .test c => intLt c.i c.n = false → c.n.toNat < 2 ^ 31
      | .pollEmpty c => (BitVec.slt 0 c.i || closed) = true → BitVec.slt c.i 0 = false
      | _ => True
  | _ => True

/-- Where a call for `n` bytes is when it has taken `k`. -/
def ReadPc.At (n : Word) (k : Nat) : ReadPc → Prop
  | .idle _ => False
  | .wait c => c.n = n ∧ k = 0
  | .waitWpos c _ => c.n = n ∧ k = 0
  | .waitEmpty c => c.n = n ∧ k = 0
  | .test c => c.n = n ∧ LoopCount n c.i k
  | .poll c => c.n = n ∧ InTurn n k c.i
  | .pollWpos c _ => c.n = n ∧ InTurn n k c.i
  | .pollEmpty c => c.n = n ∧ InTurn n k c.i
  | .get c => c.n = n ∧ InTurn n k c.i
  | .getByte c _ => c.n = n ∧ InTurn n k c.i
  | .put c _ => c.n = n ∧ InTurn n k c.i
  | .bump c => c.n = n ∧ InTurn n k c.i
  | .bumpStore c _ => c.n = n ∧ InTurn n k c.i

/-- The running call has taken what was delivered beyond the first `len` bytes. -/
structure ReadCounts (n : Word) (len : Nat) (s : PipeState) : Prop where
  le : len ≤ s.delivered.length
  pc : s.reader.At n (s.delivered.length - len)

theorem writer_step_reader {a : PipeAct} (hbusy : s.reader.busy = true) (hstep : pipeStep s a s')
    (ha : ∀ closed, a ≠ .reader closed) : s'.reader = s.reader ∧ s'.delivered = s.delivered := by
  cases a with
  | piperead n rbuf =>
      simp only [pipeStep, PipeAct.exec] at hstep
      split at hstep
      · rename_i hidle
        rw [hidle] at hbusy
        cases hbusy
      · cases hstep
  | pipewrite n wbuf =>
      simp only [pipeStep, PipeAct.exec] at hstep
      split at hstep
      · cases hstep
        exact ⟨rfl, rfl⟩
      · cases hstep
  | reader closed => exact absurd rfl (ha closed)
  | writer closed =>
      cases hstep
      unfold pipewriteStep
      split <;> exact ⟨rfl, rfl⟩

theorem pipereadStep_counts (h : ReadCounts n len s) (closed : Bool) :
    (ReadCounts n len (pipereadStep s closed) ∧ ReadOk s (.reader closed)) ∨
    ∃ r, (pipereadStep s closed).reader = .idle r ∧
      (pipereadStep s closed).delivered = s.delivered ∧
      (r.toInt = (s.delivered.length - len : Nat) ↔ ReadOk s (.reader closed)) := by
  obtain ⟨hle, hpc⟩ := h
  cases hr : s.reader with
  | idle r =>
      rw [hr] at hpc
      exact hpc.elim
  | wait c =>
      rw [hr] at hpc
      simp only [pipereadStep, ReadOk, hr]
      exact Or.inl ⟨⟨hle, hpc⟩, trivial⟩
  | waitWpos c rpos =>
      rw [hr] at hpc
      simp only [pipereadStep, ReadOk, hr]
      by_cases hempty : rpos = s.p_wpos
      · rw [if_pos hempty]
        exact Or.inl ⟨⟨hle, hpc⟩, trivial⟩
      · rw [if_neg hempty]
        obtain ⟨hn, hzero⟩ := hpc
        refine Or.inl ⟨⟨hle, hn, ?_⟩, trivial⟩
        show LoopCount n 0 (s.delivered.length - len)
        rw [hzero]
        exact .zero n
  | waitEmpty c =>
      rw [hr] at hpc
      cases closed with
      | false =>
          simp only [pipereadStep, ReadOk, hr, Bool.false_eq_true, if_false]
          exact Or.inl ⟨⟨hle, hpc⟩, trivial⟩
      | true =>
          simp only [pipereadStep, ReadOk, hr, if_true]
          refine Or.inr ⟨0, rfl, trivial, ?_⟩
          rw [hpc.2]
          exact ⟨fun _ => trivial, fun _ => rfl⟩
  | test c =>
      rw [hr] at hpc
      obtain ⟨rfl, hcount⟩ := hpc
      cases hlt : intLt c.i c.n with
      | true =>
          simp only [pipereadStep, ReadOk, hr, hlt, if_true]
          exact Or.inl ⟨⟨hle, rfl, hcount, hlt⟩, by rintro ⟨⟩⟩
      | false =>
          simp only [pipereadStep, ReadOk, hr, hlt, Bool.false_eq_true, if_false]
          refine Or.inr ⟨_, rfl, trivial, (hcount.done hlt).trans ?_⟩
          exact ⟨fun hn _ => hn, fun hok => hok trivial⟩
  | poll c =>
      rw [hr] at hpc
      simp only [pipereadStep, ReadOk, hr]
      exact Or.inl ⟨⟨hle, hpc⟩, trivial⟩
  | pollWpos c rpos =>
      rw [hr] at hpc
      simp only [pipereadStep, ReadOk, hr]
      by_cases hempty : rpos = s.p_wpos
      · rw [if_pos hempty]
        exact Or.inl ⟨⟨hle, hpc⟩, trivial⟩
      · rw [if_neg hempty]
        exact Or.inl ⟨⟨hle, hpc⟩, trivial⟩
  | pollEmpty c =>
      rw [hr] at hpc
      obtain ⟨rfl, hcount, hlt⟩ := hpc
      cases hend : BitVec.slt 0 c.i || closed with
      | false =>
          simp only [pipereadStep, ReadOk, hr, hend, Bool.false_eq_true, if_false]
          exact Or.inl ⟨⟨hle, rfl, hcount, hlt⟩, by rintro ⟨⟩⟩
      | true =>
          simp only [pipereadStep, ReadOk, hr, hend, if_true]
          refine Or.inr ⟨c.i, rfl, trivial, hcount.index_iff.trans ?_⟩
          exact ⟨fun hneg _ => hneg, fun hok => hok trivial⟩
  | get c =>
      rw [hr] at hpc
      simp only [pipereadStep, ReadOk, hr]
      exact Or.inl ⟨⟨hle, hpc⟩, trivial⟩
  | getByte c rpos =>
      rw [hr] at hpc
      simp only [pipereadStep, ReadOk, hr]
      exact Or.inl ⟨⟨hle, hpc⟩, trivial⟩
  | put c b =>
      rw [hr] at hpc
      simp only [pipereadStep, ReadOk, hr]
      exact Or.inl ⟨⟨hle, hpc⟩, trivial⟩
  | bump c =>
      rw [hr] at hpc
      simp only [pipereadStep, ReadOk, hr]
      exact Or.inl ⟨⟨hle, hpc⟩, trivial⟩
  | bumpStore c rpos =>
      rw [hr] at hpc
      obtain ⟨rfl, hcount, hlt⟩ := hpc
      simp only [pipereadStep, ReadOk, hr]
      have hlen : (s.delivered ++ [c.rbuf c.i]).length - len = s.delivered.length - len + 1 := by
        rw [List.length_append, List.length_singleton]
        omega
      refine Or.inl ⟨⟨?_, ?_⟩, trivial⟩
      · show len ≤ (s.delivered ++ [c.rbuf c.i]).length
        rw [List.length_append]
        omega
      · show c.n = c.n ∧ LoopCount c.n (c.i + 1) ((s.delivered ++ [c.rbuf c.i]).length - len)
        rw [hlen]
        exact ⟨rfl, hcount.next hlt⟩

theorem ReadCounts.busy (h : ReadCounts n len s) : s.reader.busy = true := by
  have hpc := h.pc
  cases hr : s.reader with
  | idle r =>
      rw [hr] at hpc
      exact hpc.elim
  | _ => rfl

theorem duringRead_counts {a : PipeAct} (h : ReadCounts n len s) (hstep : duringRead s a s') :
    (ReadCounts n len s' ∧ ReadOk s a) ∨
    ∃ r, s'.reader = .idle r ∧
      (r.toInt = (s'.delivered.length - len : Nat) ↔ ReadOk s a) := by
  obtain ⟨hbusy, hstep⟩ := hstep
  by_cases ha : ∃ closed, a = .reader closed
  · obtain ⟨closed, rfl⟩ := ha
    cases hstep
    rcases pipereadStep_counts h closed with hgo | ⟨r, hidle, hdelivered, hiff⟩
    · exact Or.inl hgo
    · refine Or.inr ⟨r, hidle, ?_⟩
      rw [hdelivered]
      exact hiff
  · have hno : ∀ closed, a ≠ .reader closed := fun closed heq => ha ⟨closed, heq⟩
    obtain ⟨hreader, hdelivered⟩ := writer_step_reader hbusy hstep hno
    refine Or.inl ⟨⟨hdelivered ▸ h.le, ?_⟩, ?_⟩
    · rw [hreader, hdelivered]
      exact h.pc
    · cases a with
      | reader closed => exact absurd rfl (hno closed)
      | _ => trivial

theorem piperead_run {tr : List PipeAct} (h : ReadCounts n len s) (hrun : Run duringRead s tr s')
    (hret : s'.reader = .idle r) :
    r.toInt = (s'.delivered.length - len : Nat) ↔ Run (restrict duringRead ReadOk) s tr s' := by
  have hend : ¬ s'.reader.busy = true := by
    rw [hret]
    exact Bool.false_ne_true
  have hrule := hrun.ended_iff (fun s => s.reader.busy = true) (ReadCounts n len)
    (fun s => ∀ r, s.reader = .idle r → r.toInt = (s.delivered.length - len : Nat)) ReadOk
    (fun _ _ _ _ h₁ h₂ => pipeStep_unique h₁.2 h₂.2) (fun _ _ _ hs => hs.1) (fun _ hJ => hJ.busy)
    (fun s₁ a s₂ hJ hs => ?_) h hend
  · rw [← hrule]
    constructor
    · intro heq r' hr'
      rw [hret] at hr'
      cases hr'
      exact heq
    · exact fun hall => hall r hret
  · rcases duringRead_counts hJ hs with hgo | ⟨r', hidle, hiff⟩
    · exact Or.inl hgo
    · refine Or.inr ⟨by rw [hidle]; exact Bool.false_ne_true, ?_⟩
      rw [← hiff]
      constructor
      · exact fun hall => hall r' hidle
      · intro heq r'' hr''
        rw [hidle] at hr''
        cases hr''
        exact heq

/-! ## Both calls -/

/-- From `s₀` a `pipewrite` of `n` bytes is begun, and in `s'` it has returned `r`. -/
structure WriteCalled (s₀ s : PipeState) (tr : List PipeAct) (s' : PipeState) (n : Word) (r : U32) :
    Prop where
  begun : ∃ wbuf, pipeStep s₀ (.pipewrite n wbuf) s
  run : Run duringWrite s tr s'
  returned : s'.writer = .idle r

structure ReadCalled (s₀ s : PipeState) (tr : List PipeAct) (s' : PipeState) (n : Word) (r : U32) :
    Prop where
  begun : ∃ rbuf, pipeStep s₀ (.piperead n rbuf) s
  run : Run duringRead s tr s'
  returned : s'.reader = .idle r

theorem WriteCalled.counts {tr : List PipeAct} (h : WriteCalled s₀ s tr s' n r) :
    WriteCounts n s₀.written.length s := by
  obtain ⟨wbuf, hbegun⟩ := h.begun
  simp only [pipeStep, PipeAct.exec] at hbegun
  split at hbegun
  · cases hbegun
    refine ⟨le_refl _, rfl, ?_⟩
    show LoopCount n 0 (s₀.written.length - s₀.written.length)
    rw [Nat.sub_self]
    exact .zero n
  · cases hbegun

theorem ReadCalled.counts {tr : List PipeAct} (h : ReadCalled s₀ s tr s' n r) :
    ReadCounts n s₀.delivered.length s := by
  obtain ⟨rbuf, hbegun⟩ := h.begun
  simp only [pipeStep, PipeAct.exec] at hbegun
  split at hbegun
  · cases hbegun
    exact ⟨le_refl _, rfl, Nat.sub_self _⟩
  · cases hbegun

/-- Whatever the other end does meanwhile, what a call returns is the number of bytes
    it has passed if and only if its steps are all among those allowed. -/
theorem pipe_counts_iff (s₀ s : PipeState) (tr : List PipeAct) (s' : PipeState) (n : Word) (r : U32) :
    (WriteCalled s₀ s tr s' n r →
      (Truthful r (s'.written.length - s₀.written.length) ↔
        Run (restrict duringWrite WriteOk) s tr s')) ∧
    (ReadCalled s₀ s tr s' n r →
      (Truthful r (s'.delivered.length - s₀.delivered.length) ↔
        Run (restrict duringRead ReadOk) s tr s')) := by
  constructor
  · intro h
    rw [truthful_iff]
    exact pipewrite_run h.counts h.run h.returned
  · intro h
    rw [truthful_iff]
    exact piperead_run h.counts h.run h.returned

/-- A step of a list of steps, each taken while `busy` holds. -/
def execWhile (busy : PipeState → Bool) (s : PipeState) (a : PipeAct) : Option PipeState :=
  if busy s then a.exec s else none

theorem duringWrite_of_exec {tr : List PipeAct}
    (h : tr.foldlM (execWhile fun s => s.writer.busy) s = some s') : Run duringWrite s tr s' := by
  have hrun : Run (fun s a s' => execWhile (fun s => s.writer.busy) s a = some s') s tr s' :=
    Run.of_foldlM h
  refine hrun.mono fun s a s' hstep => ?_
  unfold execWhile at hstep
  split at hstep
  · rename_i hbusy
    exact ⟨hbusy, hstep⟩
  · cases hstep

theorem duringRead_of_exec {tr : List PipeAct}
    (h : tr.foldlM (execWhile fun s => s.reader.busy) s = some s') : Run duringRead s tr s' := by
  have hrun : Run (fun s a s' => execWhile (fun s => s.reader.busy) s a = some s') s tr s' :=
    Run.of_foldlM h
  refine hrun.mono fun s a s' hstep => ?_
  unfold execWhile at hstep
  split at hstep
  · rename_i hbusy
    exact ⟨hbusy, hstep⟩
  · cases hstep

/-- One byte is put into the pipe, and taken out again. -/
theorem one_byte_counts : ∃ s₁ s₂ s₃ s₄,
    (WriteCalled pipeInit s₁ (List.replicate 8 (.writer false)) s₂ 1 1 ∧
      (Truthful 1 (s₂.written.length - pipeInit.written.length) ↔
        Run (restrict duringWrite WriteOk) s₁ (List.replicate 8 (.writer false)) s₂)) ∧
    (ReadCalled s₂ s₃ (List.replicate 11 (.reader false)) s₄ 1 1 ∧
      (Truthful 1 (s₄.delivered.length - s₂.delivered.length) ↔
        Run (restrict duringRead ReadOk) s₃ (List.replicate 11 (.reader false)) s₄)) := by
  obtain ⟨s₁, s₂, hbegin, hexec, hret, s₃, s₄, hbegin', hexec', hret'⟩ : ∃ s₁ s₂,
      pipeStep pipeInit (.pipewrite 1 fun _ => 7) s₁ ∧
      (List.replicate 8 (.writer false) : List PipeAct).foldlM
        (execWhile fun s => s.writer.busy) s₁ = some s₂ ∧ s₂.writer = .idle 1 ∧
      ∃ s₃ s₄, pipeStep s₂ (.piperead 1 fun _ => 0) s₃ ∧
      (List.replicate 11 (.reader false) : List PipeAct).foldlM
        (execWhile fun s => s.reader.busy) s₃ = some s₄ ∧ s₄.reader = .idle 1 :=
    ⟨_, _, rfl, rfl, rfl, _, _, rfl, rfl, rfl⟩
  have hwrite : WriteCalled pipeInit s₁ (List.replicate 8 (.writer false)) s₂ 1 1 :=
    ⟨⟨_, hbegin⟩, duringWrite_of_exec hexec, hret⟩
  have hread : ReadCalled s₂ s₃ (List.replicate 11 (.reader false)) s₄ 1 1 :=
    ⟨⟨_, hbegin'⟩, duringRead_of_exec hexec', hret'⟩
  exact ⟨s₁, s₂, s₃, s₄, ⟨hwrite, (pipe_counts_iff _ _ _ _ _ _).1 hwrite⟩,
    ⟨hread, (pipe_counts_iff _ _ _ _ _ _).2 hread⟩⟩

set_option maxRecDepth 8000 in
/-- Of 33 bytes the ring takes 32.  It is full then, the reader is gone, and the call
    returns 0. -/
theorem pipewrite_hides_bytes : ∃ s s',
    WriteCalled pipeInit s (List.replicate 228 (.writer true)) s' 33 0 ∧
    s'.written.length - pipeInit.written.length = 32 ∧
    ¬ Truthful 0 (s'.written.length - pipeInit.written.length) := by
  obtain ⟨s, s', hbegin, hexec, hret, hlen⟩ : ∃ s s',
      pipeStep pipeInit (.pipewrite 33 fun _ => 0) s ∧
      (List.replicate 228 (.writer true) : List PipeAct).foldlM
        (execWhile fun s => s.writer.busy) s = some s' ∧ s'.writer = .idle 0 ∧
      s'.written.length - pipeInit.written.length = 32 := ⟨_, _, rfl, rfl, rfl, rfl⟩
  refine ⟨s, s', ⟨⟨_, hbegin⟩, duringWrite_of_exec hexec, hret⟩, hlen, fun h => ?_⟩
  -- 0 is not the number put.
  have hres := h.result
  rw [hlen] at hres
  cases hres

end RpiMos
