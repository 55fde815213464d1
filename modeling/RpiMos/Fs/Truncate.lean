/-
  RpiMos.Fs.Truncate

  `file_truncate` clears the slots behind the new end one by one, each with the
  word behind it.  So the second of two neighbours is cleared before its block is
  freed, and truncation does what it should only when it drops one block or none.
-/

import RpiMos.Fs.ClearBlock

namespace RpiMos

open Lib Prog

variable {s s' s₁ : Fs} {N f fb b i j k n new : Nat} {one : Prop} {newsize : Word}

/-- `ROUND(size, BY2BLK) / BY2BLK`. -/
def nblocks (size : Nat) : Nat := ROUND size BY2BLK / BY2BLK

theorem nblocks_eq (size : Nat) : nblocks size = (size + 4095) / 4096 := by
  unfold nblocks ROUND BY2BLK
  omega

theorem nblocks_mono {a b : Nat} (h : a ≤ b) : nblocks a ≤ nblocks b := by
  rw [nblocks_eq, nblocks_eq]
  omega

/-! ## What truncation is to do -/

/-- The first `k` blocks of the file are there, in blocks of their own. -/
structure Filled (s : Fs) (N f k : Nat) : Prop where
  le : k ≤ NINDIRECT
  full : ∀ j, j < k → recorded s f j ≠ 0
  lt : ∀ j, j < k → (recorded s f j).toNat < N
  used : ∀ j, j < k → freeBit s.seen (recorded s f j).toNat = false
  distinct : ∀ i j, i < k → j < k → recorded s f i = recorded s f j → i = j
  ne : ∀ j, j < k → (recorded s f j).toNat ≠ fInd s f

/-- Block `n` is recorded behind the first `new` blocks, or it is the table and not
    needed any more. -/
def Dropped (s : Fs) (f new n : Nat) : Prop :=
  (∃ j, new ≤ j ∧ j < NINDIRECT ∧ recorded s f j ≠ 0 ∧ n = (recorded s f j).toNat) ∨
  (new < NDIRECT ∧ fInd s f ≠ 0 ∧ n = fInd s f)

/-- What `file_truncate(f, newsize)` is to do, with `new` blocks left. -/
structure Truncates (s s' : Fs) (N f new : Nat) (newsize : Word) : Prop where
  size : fileSize s' f = newsize.toNat
  slots : ∀ j, j < NINDIRECT → recorded s' f j = if j < new then recorded s f j else 0
  ind : fInd s' f = if new < NDIRECT then 0 else fInd s f
  bits : ∀ n, n < N → (freeBit s'.seen n = true ↔ freeBit s.seen n = true ∨ Dropped s f new n)

/-! ## After the loops -/

/-- The table has been dropped when it is not needed, and the size set. -/
structure Finished (s s' : Fs) (N f new : Nat) (newsize : Word) : Prop where
  size : s'.seen.ld32 (fSize f) = newsize.setWidth 32
  slots : ∀ j, j < NINDIRECT →
    recorded s' f j = if new < NDIRECT ∧ NDIRECT ≤ j then 0 else recorded s f j
  ind : fInd s' f = if new < NDIRECT then 0 else fInd s f
  bits : ∀ n, n < N → (freeBit s'.seen n = true ↔
    freeBit s.seen n = true ∨ (new < NDIRECT ∧ fInd s f ≠ 0 ∧ n = fInd s f))

/-- A store to the file behind its name and outside the pointers. -/
theorem recorded_st32_file {a : Nat} {v : U32} (h : Apart N f fb (fInd s f))
    (hw : Wrote s s' (s.seen.st32 a v)) (hmapped : s'.mapped = s.mapped) (hlo : f ≤ a)
    (hhi : a + 4 ≤ fDirect f 0 ∨ (fIndirect f + 4 ≤ a ∧ a + 4 ≤ f + BY2FILE)) :
    fInd s' f = fInd s f ∧ (∀ j, j < NINDIRECT → recorded s' f j = recorded s f j) ∧
      ∀ n, n < N → freeBit s'.seen n = freeBit s.seen n := by
  have hend : a + 4 ≤ f + BY2FILE := by
    rw [fDirect_eq, BY2FILE] at hhi
    rw [BY2FILE]
    omega
  rw [fDirect_eq, fIndirect_eq] at hhi
  have hind : fInd s' f = fInd s f := by
    have hsame : ByteMem.Same s.seen (s.seen.st32 a v) (fIndirect f) 4 := by
      apply ByteMem.same_st32
      rw [fIndirect_eq]
      omega
    rw [fInd, fInd, hw.seen, hsame.ld32]
  refine ⟨hind, fun j hj => ?_, fun n hn => ?_⟩
  · by_cases hd : j < NDIRECT
    · have hsame : ByteMem.Same s.seen (s.seen.st32 a v) (fDirect f j) 4 := by
        apply ByteMem.same_st32
        rw [NDIRECT] at hd
        rw [fDirect_eq]
        omega
      rw [recorded_direct (hind ▸ h) hd, recorded_direct h hd, hw.seen, hsame.ld32]
    · refine recorded_table_same hind hw.disk (fun _ => by rw [hmapped]) (fun ht0 => ?_) hd hj
      rw [hw.seen]
      apply ByteMem.same_st32
      have hout := h.file_table ht0 hlo hend
      omega
  · rw [hw.seen]
    apply freeBit_same
    apply ByteMem.same_st32
    have hout := h.file_bits hn
    omega

/-- The table is freed, and with the pointer to it its slots are gone. -/
theorem clearIndirect_ret (h : Mounted s N) (hf : FileAt s N f fb) (hap : Apart N f fb (fInd s f))
    (h0 : fInd s f ≠ 0) (hlt : fInd s f < N) :
    ∃ s', clearIndirect f s = .ret () s' ∧ Mounted s' N ∧ FileAt s' N f fb ∧ fInd s' f = 0 ∧
      (∀ j, j < NINDIRECT → recorded s' f j = if NDIRECT ≤ j then 0 else recorded s f j) ∧
      ∀ n, n < N → freeBit s'.seen n = if n = fInd s f then true else freeBit s.seen n := by
  have hne : ¬ s.seen.ld32 (fIndirect f) = 0 := fun hz => h0 (congrArg BitVec.toNat hz)
  have hw := wrote_marked h hlt true
  have hf₂ := hf.steady hw.steady
  have hm : (s.marked (s.seen.ld32 (fIndirect f)) true).MappedOn (fIndirect f) 4 := by
    apply hf₂.mappedOn <;> simp only [fIndirect_eq, BY2FILE] <;> omega
  obtain ⟨s', hstore⟩ : ∃ s', store32 (fIndirect f) 0 _ = .ret () s' := ⟨_, store32_of_mapped hm⟩
  have hw' := hw.trans (store32_ret hstore)
  rw [hw.seen] at hw'
  have hind : fInd s' f = 0 := by
    rw [fInd, hw'.seen, ByteMem.ld32_st32]
    rfl
  refine ⟨s', ?_, ?_, hf.steady hw'.steady, hind, fun j hj => ?_, fun n hn => ?_⟩
  · rw [clearIndirect, bind_ret (loadInd_eq hf), if_neg hne, bind_ret (loadInd_eq hf),
      bind_ret (freeBlock_eq h hne hlt)]
    exact hstore
  · have hsup := hap.super_lt
    refine h.wrote hw' fun x hlo hhi => ?_
    rw [ByteMem.same_st32 0 (b := blockAddr 1 + 4) (n := 4) (Or.inr (by rw [fIndirect_eq]; omega)) x
      hlo hhi]
    exact same_setBit true hlt (Or.inl (by rw [blockAddr_eq, blockAddr_eq]; omega)) x hlo hhi
  · by_cases hd : j < NDIRECT
    · have hsame : ByteMem.Same s.seen ((setBit s.seen (s.seen.ld32 (fIndirect f)) true).st32
          (fIndirect f) 0) (fDirect f j) 4 := by
        intro x hlo hhi
        rw [NDIRECT] at hd
        rw [ByteMem.same_st32 0 (b := fDirect f j) (n := 4) ?_ x hlo hhi]
        · refine hap.file_setBit hlt true ?_ ?_ x hlo hhi
          · rw [fDirect_eq]
            omega
          · rw [fDirect_eq, BY2FILE]
            omega
        · rw [fDirect_eq, fIndirect_eq]
          omega
      rw [if_neg (Nat.not_le_of_lt hd), recorded_direct (hind ▸ hap.of_zero) hd,
        recorded_direct hap hd, hw'.seen, hsame.ld32]
    · rw [if_pos (Nat.le_of_not_lt hd), recorded, slotIn, if_neg hd, if_pos hind]
  · have hsame : ByteMem.Same (setBit s.seen (s.seen.ld32 (fIndirect f)) true)
        ((setBit s.seen (s.seen.ld32 (fIndirect f)) true).st32 (fIndirect f) 0) (bitWord n) 8 := by
      apply ByteMem.same_st32
      have hout := hap.file_bits hn
      rw [BY2FILE] at hout
      rw [fIndirect_eq]
      omega
    rw [hw'.seen, freeBit_same hsame, freeBit_setBit]
    rfl

/-- What is after the loops in `file_truncate` always returns. -/
theorem finish_ret (h : Mounted s N) (hf : FileAt s N f fb) (hap : Apart N f fb (fInd s f))
    (hlt : fInd s f < N) :
    ∃ s', ((if new < NDIRECT then clearIndirect f else pure ()) >>= fun _ =>
      store32 (fSize f) (newsize.setWidth 32)) s = .ret () s' ∧ Finished s s' N f new newsize := by
  have hset : ∀ s₁, FileAt s₁ N f fb → Apart N f fb (fInd s₁ f) →
      ∃ s', store32 (fSize f) (newsize.setWidth 32) s₁ = .ret () s' ∧
        s'.seen.ld32 (fSize f) = newsize.setWidth 32 ∧ fInd s' f = fInd s₁ f ∧
        (∀ j, j < NINDIRECT → recorded s' f j = recorded s₁ f j) ∧
        ∀ n, n < N → freeBit s'.seen n = freeBit s₁.seen n := by
    intro s₁ hf₁ hap₁
    have hm : s₁.MappedOn (fSize f) 4 := by
      apply hf₁.mappedOn <;> simp only [fSize_eq, BY2FILE] <;> omega
    have hstore := store32_of_mapped (v := newsize.setWidth 32) hm
    have hw := store32_ret hstore
    refine ⟨_, hstore, ?_, recorded_st32_file hap₁ hw rfl ?_ ?_⟩
    · rw [hw.seen, ByteMem.ld32_st32]
    · rw [fSize_eq]
      omega
    · left
      rw [fSize_eq, fDirect_eq]
      omega
  by_cases hdrop : new < NDIRECT ∧ fInd s f ≠ 0
  · obtain ⟨s₁, hclear, -, hf₁, hind₁, hslots₁, hbits₁⟩ := clearIndirect_ret h hf hap hdrop.2 hlt
    obtain ⟨s', hstore, hsize, hind, hslots, hbits⟩ := hset s₁ hf₁ (hind₁ ▸ hap.of_zero)
    refine ⟨s', ?_, hsize, fun j hj => ?_, ?_, fun n hn => ?_⟩
    · rw [if_pos hdrop.1, bind_ret hclear, hstore]
    · rw [hslots j hj, hslots₁ j hj]
      simp only [hdrop.1, true_and]
    · rw [hind, hind₁, if_pos hdrop.1]
    · rw [hbits n hn, hbits₁ n hn]
      by_cases hn' : n = fInd s f
      · rw [if_pos hn']
        exact ⟨fun _ => Or.inr ⟨hdrop.1, hdrop.2, hn'⟩, fun _ => rfl⟩
      · rw [if_neg hn']
        exact ⟨Or.inl, fun hor => hor.resolve_right fun hc => hn' hc.2.2⟩
  · have hskip : (if new < NDIRECT then clearIndirect f else pure () : FsM Unit) s = .ret () s := by
      by_cases hnew : new < NDIRECT
      · have h0 : s.seen.ld32 (fIndirect f) = 0 := by
          by_contra hne
          exact hdrop ⟨hnew, toNat_ne_zero hne⟩
        rw [if_pos hnew, clearIndirect, bind_ret (loadInd_eq hf), if_pos h0]
        rfl
      · rw [if_neg hnew]
        rfl
    have hnone : new < NDIRECT → fInd s f = 0 := by
      intro hnew
      by_contra hne
      exact hdrop ⟨hnew, hne⟩
    obtain ⟨s', hstore, hsize, hind, hslots, hbits⟩ := hset s hf hap
    refine ⟨s', by rw [bind_ret hskip, hstore], hsize, fun j hj => ?_, ?_, fun n hn => ?_⟩
    · rw [hslots j hj]
      split
      · rename_i hj'
        rw [recorded, slotIn, if_neg (Nat.not_lt_of_le hj'.2), if_pos (hnone hj'.1)]
      · rfl
    · rw [hind]
      split
      · rename_i hnew
        exact hnone hnew
      · rfl
    · rw [hbits n hn]
      exact ⟨Or.inl, fun hor => hor.resolve_right fun hc => hc.2.1 (hnone hc.1)⟩

/-! ## Two blocks or more -/

/-- Block `b` is in use, and none of the first `k` slots names it. -/
structure OutOfReach (s : Fs) (N f fb k b : Nat) : Prop where
  mounted : Mounted s N
  file : FileAt s N f fb
  table : TableAt s N f fb
  indLt : fInd s f < N
  pos : b ≠ 0
  lt : b < N
  used : freeBit s.seen b = false
  ind : fInd s f ≠ b
  slots : ∀ j, j < k → recorded s f j ≠ 0 →
    (recorded s f j).toNat ≠ b ∧ (recorded s f j).toNat ≠ fInd s f

theorem Kept.table (h : Kept s s' N f fb) (ht : TableAt s N f fb) (hlt : fInd s f < N) :
    TableAt s' N f fb := by
  refine ⟨?_, ?_, ?_⟩
  · rw [h.ind]
    exact ht.lo
  · rw [h.ind]
    exact ht.ne
  · rw [h.ind, h.bits _ hlt]
    exact ht.used

/-- The table stays in use when another block is freed. -/
theorem Cleared.table {x : U32} (h : Cleared s s' N f fb i x) (ht : TableAt s N f fb)
    (hlt : fInd s f < N) (hx : x.toNat ≠ fInd s f) : TableAt s' N f fb := by
  have hind := h.ind
  by_cases h9 : i = 9
  · rw [if_pos h9] at hind
    exact ⟨fun h0 => absurd hind h0, fun h0 => absurd hind h0, fun h0 => absurd hind h0⟩
  · rw [if_neg h9] at hind
    have hbit := h.bits _ hlt
    rw [if_neg hx.symm] at hbit
    refine ⟨?_, ?_, ?_⟩
    · rw [hind]
      exact ht.lo
    · rw [hind]
      exact ht.ne
    · rw [hind, hbit]
      exact ht.used

theorem Cleared.ind_cases {x : U32} (h : Cleared s s' N f fb i x) :
    fInd s' f = 0 ∨ fInd s' f = fInd s f := by
  rw [h.ind]
  split
  · exact Or.inl rfl
  · exact Or.inr rfl

/-- What a slot holds after another has been cleared, it held before. -/
theorem Cleared.old_slot {x : U32} (h : Cleared s s' N f fb i x) (hj : j < NINDIRECT)
    (hne : recorded s' f j ≠ 0) : ¬ Covered i j ∧ recorded s' f j = recorded s f j := by
  have hout : ¬ Covered i j := fun hc => hne (h.covered j hj hc)
  exact ⟨hout, h.slots j hj hout⟩

/-- The step of the loops: block `b` stays in use. -/
theorem OutOfReach.step {filebno : U32} {u : Unit} (h : OutOfReach s N f fb k b) (hk : k ≤ NINDIRECT)
    (hi : filebno.toNat < k) (hr : fileClearBlock f filebno s = .ret u s') :
    OutOfReach s' N f fb k b := by
  rcases fileClearBlock_ret h.mounted h.file h.table (Nat.lt_of_lt_of_le hi hk) hr with
    ⟨-, hkept⟩ | ⟨hx, -, hclear⟩
  · refine ⟨hkept.mounted, hkept.file, hkept.table h.table h.indLt, ?_, h.pos, h.lt, ?_, ?_,
      fun j hj => ?_⟩
    · rw [hkept.ind]
      exact h.indLt
    · rw [hkept.bits b h.lt]
      exact h.used
    · rw [hkept.ind]
      exact h.ind
    · rw [hkept.slots j (Nat.lt_of_lt_of_le hj hk), hkept.ind]
      exact h.slots j hj
  · obtain ⟨hxb, hxt⟩ := h.slots _ hi hx
    refine ⟨hclear.mounted, hclear.file, hclear.table h.table h.indLt hxt, ?_, h.pos, h.lt, ?_, ?_,
      fun j hj hne => ?_⟩
    · rcases hclear.ind_cases with h0 | hsame
      · rw [h0]
        have := h.indLt
        omega
      · rw [hsame]
        exact h.indLt
    · rw [hclear.bits b h.lt, if_neg hxb.symm]
      exact h.used
    · rcases hclear.ind_cases with h0 | hsame
      · rw [h0]
        exact h.pos.symm
      · rw [hsame]
        exact h.ind
    · obtain ⟨-, hsame⟩ := hclear.old_slot (Nat.lt_of_lt_of_le hj hk) hne
      rw [hsame] at hne ⊢
      obtain ⟨hjb, hjt⟩ := h.slots j hj hne
      refine ⟨hjb, ?_⟩
      rcases hclear.ind_cases with h0 | hind
      · rw [h0]
        exact toNat_ne_zero hne
      · rw [hind]
        exact hjt

/-- The loops over slots of the first `k`. -/
theorem OutOfReach.run {bno : Nat} {u : Unit} (h : OutOfReach s N f fb k b) (hk : k ≤ NINDIRECT)
    (hn : bno + n ≤ k) (hr : clearBlocks f n bno s = .ret u s') : OutOfReach s' N f fb k b := by
  induction n generalizing bno s with
  | zero =>
      cases hr
      exact h
  | succ n ih =>
      obtain ⟨r, s₁, hfirst, hr⟩ := bind_eq_ret.mp hr
      have hbno : (BitVec.ofNat 32 bno).toNat = bno := by
        rw [NINDIRECT] at hk
        rw [BitVec.toNat_ofNat, Nat.mod_eq_of_lt (by omega)]
      have hi : (BitVec.ofNat 32 bno).toNat < k := by omega
      refine ih ?_ (by omega) hr
      cases hone : fileClearBlock f (BitVec.ofNat 32 bno) s with
      | ret u s₂ =>
          rw [attempt_ret hone] at hfirst
          cases hfirst
          exact h.step hk hi hone
      | fail e s₂ =>
          have hsame := fileClearBlock_fail h.mounted h.file h.table h.indLt
            (Nat.lt_of_lt_of_le hi hk) hone
          rw [attempt_fail hone] at hfirst
          cases hfirst
          rw [hsame.2]
          exact h
      | stop m =>
          rw [Prog.attempt, hone] at hfirst
          cases hfirst

/-- The first of two slots has been cleared with the second, whose block is still
    in use. -/
theorem outOfReach_of_cleared (ht : TableAt s N f fb) (hlt : fInd s f < N) (hfill : Filled s N f k)
    (hnew : new + 1 < k) (hclear : Cleared s s₁ N f fb new (recorded s f new)) :
    OutOfReach s₁ N f fb k (recorded s f (new + 1)).toNat := by
  have hk := hfill.le
  have hfirst : new < k := Nat.lt_of_succ_lt hnew
  have hnot : ∀ j, j < k → j ≠ new + 1 → (recorded s f j).toNat ≠ (recorded s f (new + 1)).toNat :=
    fun j hj hne heq => hne (hfill.distinct j _ hj hnew (BitVec.eq_of_toNat_eq heq))
  have hpos := toNat_ne_zero (hfill.full _ hnew)
  refine ⟨hclear.mounted, hclear.file, hclear.table ht hlt (hfill.ne _ hfirst), ?_, hpos,
    hfill.lt _ hnew, ?_, ?_, fun j hj hne => ?_⟩
  · rcases hclear.ind_cases with h0 | hsame
    · rw [h0]
      omega
    · rw [hsame]
      exact hlt
  · rw [hclear.bits _ (hfill.lt _ hnew), if_neg (hnot new hfirst (Nat.ne_of_lt (Nat.lt_succ_self _))).symm]
    exact hfill.used _ hnew
  · rcases hclear.ind_cases with h0 | hsame
    · rw [h0]
      exact hpos.symm
    · rw [hsame]
      exact (hfill.ne _ hnew).symm
  · obtain ⟨hout, hsame⟩ := hclear.old_slot (Nat.lt_of_lt_of_le hj hk) hne
    rw [hsame]
    refine ⟨hnot j hj fun heq => hout (Or.inr (Or.inl heq)), ?_⟩
    rcases hclear.ind_cases with h0 | hind
    · rw [h0]
      exact toNat_ne_zero (hfill.full j hj)
    · rw [hind]
      exact hfill.ne j hj

/-! ## One block or none -/

/-- The loops have run over slot `new`, if `one` holds, and over no other. -/
structure LoopDone (s s₁ : Fs) (N f fb new : Nat) (one : Prop) : Prop where
  mounted : Mounted s₁ N
  file : FileAt s₁ N f fb
  table : TableAt s₁ N f fb
  indLt : fInd s₁ f < N
  lost : one → new = 9 → fInd s₁ f = 0
  ind : ¬ (one ∧ new = 9) → fInd s₁ f = fInd s f
  covered : ∀ j, j < NINDIRECT → one → Covered new j → recorded s₁ f j = 0
  slots : ∀ j, j < NINDIRECT → ¬ (one ∧ Covered new j) → recorded s₁ f j = recorded s f j
  bits : ∀ n, n < N → (freeBit s₁.seen n = true ↔
    freeBit s.seen n = true ∨ (one ∧ n = (recorded s f new).toNat))

theorem loopDone_none (h : Mounted s N) (hf : FileAt s N f fb) (ht : TableAt s N f fb)
    (hlt : fInd s f < N) (hone : ¬ one) : LoopDone s s N f fb new one where
  mounted := h
  file := hf
  table := ht
  indLt := hlt
  lost h1 := absurd h1 hone
  ind _ := rfl
  covered _ _ h1 := absurd h1 hone
  slots _ _ _ := rfl
  bits _ _ := ⟨Or.inl, fun hor => hor.resolve_right fun hc => hone hc.1⟩

theorem loopDone_one (ht : TableAt s N f fb) (hlt : fInd s f < N)
    (hx : (recorded s f new).toNat ≠ fInd s f)
    (hclear : Cleared s s₁ N f fb new (recorded s f new)) (hone : one) :
    LoopDone s s₁ N f fb new one where
  mounted := hclear.mounted
  file := hclear.file
  table := hclear.table ht hlt hx
  indLt := by
    rcases hclear.ind_cases with h0 | hsame
    · rw [h0]
      omega
    · rw [hsame]
      exact hlt
  lost _ h9 := by rw [hclear.ind, if_pos h9]
  ind h9 := by rw [hclear.ind, if_neg fun h => h9 ⟨hone, h⟩]
  covered j hj _ hc := hclear.covered j hj hc
  slots j hj hc := hclear.slots j hj fun h => hc ⟨hone, h⟩
  bits n hn := by
    rw [hclear.bits n hn]
    by_cases hn' : n = (recorded s f new).toNat
    · rw [if_pos hn']
      exact ⟨fun _ => Or.inr ⟨hone, hn'⟩, fun _ => rfl⟩
    · rw [if_neg hn']
      exact ⟨Or.inl, fun hor => hor.resolve_right fun hc => hn' hc.2⟩

/-- What a block is free for after truncation. -/
def FreedByOne (s : Fs) (f new : Nat) (one : Prop) (n : Nat) : Prop :=
  freeBit s.seen n = true ∨ (one ∧ n = (recorded s f new).toNat) ∨
    (new < NDIRECT ∧ fInd s f ≠ 0 ∧ ¬ (one ∧ new = 9) ∧ n = fInd s f)

/-- What `file_truncate` does when it clears slot `new` at most. -/
structure DropsOne (s s' : Fs) (N f new : Nat) (one : Prop) (newsize : Word) : Prop where
  size : s'.seen.ld32 (fSize f) = newsize.setWidth 32
  ind : fInd s' f = if new < NDIRECT then 0 else fInd s f
  gone : ∀ j, j < NINDIRECT → (one ∧ Covered new j) ∨ (new < NDIRECT ∧ NDIRECT ≤ j) →
    recorded s' f j = 0
  slots : ∀ j, j < NINDIRECT → ¬ (one ∧ Covered new j) → ¬ (new < NDIRECT ∧ NDIRECT ≤ j) →
    recorded s' f j = recorded s f j
  bits : ∀ n, n < N → (freeBit s'.seen n = true ↔ FreedByOne s f new one n)

theorem dropsOne (hloop : LoopDone s s₁ N f fb new one) (hfin : Finished s₁ s' N f new newsize) :
    DropsOne s s' N f new one newsize := by
  refine ⟨hfin.size, ?_, fun j hj hgone => ?_, fun j hj hc hd => ?_, fun n hn => ?_⟩
  · rw [hfin.ind]
    by_cases hnew : new < NDIRECT
    · rw [if_pos hnew, if_pos hnew]
    · rw [if_neg hnew, if_neg hnew, hloop.ind]
      rintro ⟨-, rfl⟩
      exact hnew (by decide)
  · rw [hfin.slots j hj]
    split
    · rfl
    · rename_i hd
      obtain ⟨hone, hc⟩ := hgone.resolve_right hd
      exact hloop.covered j hj hone hc
  · rw [hfin.slots j hj, if_neg hd, hloop.slots j hj hc]
  · rw [hfin.bits n hn, hloop.bits n hn, FreedByOne, or_assoc]
    by_cases h9 : one ∧ new = 9
    · have h0 := hloop.lost h9.1 h9.2
      constructor
      · rintro (hfree | hx | ⟨-, hne, -⟩)
        · exact Or.inl hfree
        · exact Or.inr (Or.inl hx)
        · exact absurd h0 hne
      · rintro (hfree | hx | ⟨-, -, hnot, -⟩)
        · exact Or.inl hfree
        · exact Or.inr (Or.inl hx)
        · exact absurd h9 hnot
    · rw [hloop.ind h9]
      constructor
      · rintro (hfree | hx | ⟨hnew, hne, hn'⟩)
        · exact Or.inl hfree
        · exact Or.inr (Or.inl hx)
        · exact Or.inr (Or.inr ⟨hnew, hne, h9, hn'⟩)
      · rintro (hfree | hx | ⟨hnew, hne, -, hn'⟩)
        · exact Or.inl hfree
        · exact Or.inr (Or.inl hx)
        · exact Or.inr (Or.inr ⟨hnew, hne, hn'⟩)

/-- A pointer behind the file's size is cleared along, and its block is free
    afterwards. -/
structure RestGone (s : Fs) (N f old new j : Nat) : Prop where
  slot : (old = new + 1 ∧ j = old) ∨ (new < NDIRECT ∧ NDIRECT ≤ j)
  block : (recorded s f j).toNat < N → freeBit s.seen (recorded s f j).toNat = true ∨
    (old = new + 1 ∧ recorded s f j = recorded s f new) ∨
    (new < NDIRECT ∧ (recorded s f j).toNat = fInd s f)

/-- Truncating from `old` blocks to `new` drops one block at most, and what that
    clears and leaves besides does not matter. -/
structure TruncateSafe (s : Fs) (N f old new : Nat) : Prop where
  few : old ≤ new + 1
  memory : old = new + 1 → NDIRECT ≤ new → TableReady s f new
  ind : old = new + 1 → new = 9 → fInd s f = 0
  rest : ∀ j, old ≤ j → j < NINDIRECT → recorded s f j ≠ 0 → RestGone s N f old new j

theorem truncates_of_safe {old : Nat} (hdrop : DropsOne s s' N f new (old = new + 1) newsize)
    (hfill : Filled s N f old) (hle : new ≤ old) (hsize : newsize.toNat < 2 ^ 32)
    (hsafe : TruncateSafe s N f old new) : Truncates s s' N f new newsize := by
  have hold := hfill.le
  have hfew := hsafe.few
  refine ⟨?_, fun j hj => ?_, hdrop.ind, fun n hn => ?_⟩
  · rw [fileSize, hdrop.size, BitVec.toNat_setWidth, Nat.mod_eq_of_lt hsize]
  · by_cases hjn : j < new
    · rw [if_pos hjn]
      apply hdrop.slots j hj
      · rintro ⟨-, hc⟩
        rw [Covered, NDIRECT] at hc
        omega
      · rw [NDIRECT]
        omega
    · rw [if_neg hjn]
      by_cases hdrops : (old = new + 1 ∧ Covered new j) ∨ (new < NDIRECT ∧ NDIRECT ≤ j)
      · exact hdrop.gone j hj hdrops
      · rw [not_or] at hdrops
        rw [hdrop.slots j hj hdrops.1 hdrops.2]
        by_contra hne
        have hjold : old ≤ j := by
          by_contra hlt
          exact hdrops.1 ⟨by omega, Or.inl (by omega)⟩
        rcases (hsafe.rest j hjold hj hne).slot with ⟨hone, hj'⟩ | htable
        · exact hdrops.1 ⟨hone, Or.inr (Or.inl (by omega))⟩
        · exact hdrops.2 htable
  · rw [hdrop.bits n hn]
    constructor
    · rintro (hfree | ⟨hone, hx⟩ | ⟨hnew, hne, -, hx⟩)
      · exact Or.inl hfree
      · exact Or.inr (Or.inl ⟨new, le_refl _, by omega, hfill.full new (by omega), hx⟩)
      · exact Or.inr (Or.inr ⟨hnew, hne, hx⟩)
    · have hnot9 : fInd s f ≠ 0 → ¬ (old = new + 1 ∧ new = 9) :=
        fun hne h9 => hne (hsafe.ind h9.1 h9.2)
      rintro (hfree | ⟨j, hjn, hj, hne, rfl⟩ | ⟨hnew, hne, hx⟩)
      · exact Or.inl hfree
      · by_cases hjold : old ≤ j
        · rcases (hsafe.rest j hjold hj hne).block hn with hfree | ⟨hone, hx⟩ | ⟨hnew, hx⟩
          · exact Or.inl hfree
          · exact Or.inr (Or.inl ⟨hone, congrArg BitVec.toNat hx⟩)
          · have ht0 : fInd s f ≠ 0 := hx ▸ toNat_ne_zero hne
            exact Or.inr (Or.inr ⟨hnew, ht0, hnot9 ht0, hx⟩)
        · have hj' : j = new := by omega
          rw [hj']
          exact Or.inr (Or.inl ⟨by omega, rfl⟩)
      · exact Or.inr (Or.inr ⟨hnew, hne, hnot9 hne, hx⟩)

theorem safe_of_truncates {old : Nat} (hdrop : DropsOne s s' N f new (old = new + 1) newsize)
    (ht : TableAt s N f fb) (hlt : fInd s f < N) (hfill : Filled s N f old) (hle : new ≤ old)
    (hfew : old ≤ new + 1) (hmem : old = new + 1 → NDIRECT ≤ new → TableReady s f new)
    (htrunc : Truncates s s' N f new newsize) : TruncateSafe s N f old new := by
  refine ⟨hfew, hmem, fun hone h9 => ?_, fun j hjold hj hne => ⟨?_, fun hn => ?_⟩⟩
  · -- The table is not freed once the pointer to it is gone.
    by_contra ht0
    have hnew : new < NDIRECT := by
      rw [h9]
      decide
    have hfree := (htrunc.bits _ hlt).mpr (Or.inr (Or.inr ⟨hnew, ht0, rfl⟩))
    rcases (hdrop.bits _ hlt).mp hfree with hbit | ⟨-, hx⟩ | ⟨-, -, hnot, -⟩
    · rw [ht.used ht0] at hbit
      cases hbit
    · exact hfill.ne new (by omega) hx.symm
    · exact hnot ⟨hone, h9⟩
  · have hzero := htrunc.slots j hj
    rw [if_neg (by omega)] at hzero
    by_cases hc : old = new + 1 ∧ Covered new j
    · rcases hc with ⟨hone, hj' | hj' | ⟨h9, hd⟩⟩
      · omega
      · exact Or.inl ⟨hone, by omega⟩
      · refine Or.inr ⟨?_, hd⟩
        rw [h9]
        decide
    · by_cases hd : new < NDIRECT ∧ NDIRECT ≤ j
      · exact Or.inr hd
      · exact absurd ((hdrop.slots j hj hc hd).symm.trans hzero) hne
  · have hfree := (htrunc.bits _ hn).mpr (Or.inr (Or.inl ⟨j, by omega, hj, hne, rfl⟩))
    rcases (hdrop.bits _ hn).mp hfree with hbit | ⟨hone, hx⟩ | ⟨hnew, -, -, hx⟩
    · exact Or.inl hbit
    · exact Or.inr (Or.inl ⟨hone, BitVec.eq_of_toNat_eq hx⟩)
    · exact Or.inr (Or.inr ⟨hnew, hx⟩)

/-! ## `file_truncate` -/

theorem clearBlocks_one {bno : Nat} {u : Unit} (hr : clearBlocks f 1 bno s = .ret u s') :
    fileClearBlock f (BitVec.ofNat 32 bno) s = .ret () s' ∨
      ∃ e, fileClearBlock f (BitVec.ofNat 32 bno) s = .fail e s' := by
  obtain ⟨r, s₁, hfirst, hr⟩ := bind_eq_ret.mp hr
  cases hr
  cases hone : fileClearBlock f (BitVec.ofNat 32 bno) s with
  | ret u s₂ =>
      rw [attempt_ret hone] at hfirst
      cases hfirst
      exact Or.inl rfl
  | fail e s₂ =>
      rw [attempt_fail hone] at hfirst
      cases hfirst
      exact Or.inr ⟨e, rfl⟩
  | stop m =>
      rw [Prog.attempt, hone] at hfirst
      cases hfirst

theorem toNat_slot (hi : i < NINDIRECT) : (BitVec.ofNat 32 i).toNat = i := by
  rw [NINDIRECT] at hi
  rw [BitVec.toNat_ofNat, Nat.mod_eq_of_lt (by omega)]

section Truncate

variable {old : Nat} (h : Mounted s N) (hf : FileAt s N f fb) (ht : TableAt s N f fb)
  (hlt : fInd s f < N) (hfill : Filled s N f old)

include h hf ht hlt hfill

/-- A slot that is full is cleared, whenever the call for it comes back. -/
theorem cleared_of_ret {u : Unit} (hi : i < old) (hr : clearBlocks f 1 i s = .ret u s') :
    Cleared s s' N f fb i (recorded s f i) := by
  have hlt' := Nat.lt_of_lt_of_le hi hfill.le
  have hslot := toNat_slot hlt'
  have hx := hfill.full i hi
  have hi' : (BitVec.ofNat 32 i).toNat < NINDIRECT := hslot.symm ▸ hlt'
  rcases clearBlocks_one hr with hret | ⟨e, hfail⟩
  · have hcases := fileClearBlock_ret h hf ht hi' hret
    rw [hslot] at hcases
    rcases hcases with ⟨h0, -⟩ | ⟨-, -, hclear⟩
    · exact absurd h0 hx
    · exact hclear
  · have hnone := (fileClearBlock_fail h hf ht hlt hi' hfail).1
    rw [hslot] at hnone
    exact absurd hnone hx

theorem loopDone_of_ret {u : Unit} (hle : new ≤ old) (hfew : old ≤ new + 1)
    (hr : clearBlocks f (old - new) new s = .ret u s₁) :
    LoopDone s s₁ N f fb new (old = new + 1) := by
  by_cases hone : old = new + 1
  · have hnew : new < old := by omega
    have hn : old - new = 1 := by omega
    rw [hn] at hr
    exact loopDone_one ht hlt (hfill.ne new hnew) (cleared_of_ret h hf ht hlt hfill hnew hr) hone
  · have hn : old - new = 0 := by omega
    rw [hn] at hr
    cases hr
    exact loopDone_none h hf ht hlt hone

/-- Only memory for the table can be missing. -/
theorem loop_iff (hle : new ≤ old) (hfew : old ≤ new + 1) :
    (∃ s₁, clearBlocks f (old - new) new s = .ret () s₁) ↔
      (old = new + 1 → NDIRECT ≤ new → TableReady s f new) := by
  by_cases hone : old = new + 1
  · have hnew : new < old := by omega
    have hn : old - new = 1 := by omega
    have hi := Nat.lt_of_lt_of_le hnew hfill.le
    have hslot := toNat_slot hi
    have hx := hfill.full new hnew
    have hxlt := hfill.lt new hnew
    have hclear : (∃ s₁, clearBlocks f (old - new) new s = .ret () s₁) ↔
        ∃ s₁, fileClearBlock f (BitVec.ofNat 32 new) s = .ret () s₁ := by
      rw [hn]
      constructor
      · rintro ⟨s₁, hr⟩
        rcases clearBlocks_one hr with hret | ⟨e, hfail⟩
        · exact ⟨s₁, hret⟩
        · have hnone := (fileClearBlock_fail h hf ht hlt (hslot.symm ▸ hi) hfail).1
          rw [hslot] at hnone
          exact absurd hnone hx
      · rintro ⟨s₁, hr⟩
        exact ⟨s₁, bind_ret (attempt_ret hr)⟩
    rw [hclear]
    by_cases hd : new < NDIRECT
    · refine ⟨fun _ _ hge => absurd hd (Nat.not_lt_of_le hge), fun _ => ?_⟩
      apply fileClearBlock_direct_total h hf ht
      · rw [hslot]
        exact hd
      · rw [hslot]
        exact hx
      · rw [hslot]
        exact hxlt
    · have ht0 : fInd s f ≠ 0 := by
        intro h0
        rw [recorded, slotIn, if_neg hd, if_pos h0] at hx
        exact hx rfl
      have hi' : (BitVec.ofNat 32 new).toNat < NINDIRECT := hslot.symm ▸ hi
      have htable := fileClearBlock_table_iff h hf ht hlt ht0 hi'
      rw [hslot] at htable
      rw [htable hd hx hxlt]
      exact ⟨fun hready _ _ => hready, fun hready => hready hone (Nat.le_of_not_lt hd)⟩
  · have hn : old - new = 0 := by omega
    rw [hn]
    exact ⟨fun _ h1 => absurd h1 hone, fun _ => ⟨s, rfl⟩⟩

/-- Of two blocks dropped the second one stays in use. -/
theorem second_stays {u : Unit} {m : Nat} (hold : old = new + 2 + m)
    (hr : clearBlocks f (old - new) new s = .ret u s₁) :
    OutOfReach s₁ N f fb old (recorded s f (new + 1)).toNat := by
  have hn : old - new = (m + 1) + 1 := by omega
  rw [hn] at hr
  obtain ⟨r, s₂, hfirst, hr⟩ := bind_eq_ret.mp hr
  have hone : clearBlocks f 1 new s = .ret () s₂ := bind_ret hfirst
  have hclear := cleared_of_ret h hf ht hlt hfill (by omega) hone
  exact (outOfReach_of_cleared ht hlt hfill (by omega) hclear).run hfill.le (by omega) hr

end Truncate

theorem fileTruncate_eq (hf : FileAt s N f fb) : fileTruncate f newsize s =
    (clearBlocks f (nblocks (fileSize s f) - nblocks newsize.toNat) (nblocks newsize.toNat) >>=
      fun _ => (if nblocks newsize.toNat < NDIRECT then clearIndirect f else pure ()) >>= fun _ =>
        store32 (fSize f) (newsize.setWidth 32)) s := by
  have hm : s.MappedOn (fSize f) 4 := by
    apply hf.mappedOn <;> simp only [fSize_eq, BY2FILE] <;> omega
  have hblocks : fileBlocks f s = .ret (nblocks (fileSize s f)) s := by
    rw [fileBlocks, bind_ret (load32_of_mapped hm)]
    rfl
  rw [fileTruncate, bind_ret hblocks]
  refine congrArg (fun g => (clearBlocks f _ _ >>= g) s) (funext fun _ => ?_)
  show (if nblocks newsize.toNat < NDIRECT then clearIndirect f >>= fun _ =>
      store32 (fSize f) (newsize.setWidth 32)
    else store32 (fSize f) (newsize.setWidth 32)) = _
  by_cases hnew : nblocks newsize.toNat < NDIRECT
  · rw [if_pos hnew, if_pos hnew]
  · rw [if_neg hnew, if_neg hnew]
    rfl

/-- Of two blocks dropped one is lost. -/
theorem two_blocks_left (h : Mounted s N) (hf : FileAt s N f fb) (ht : TableAt s N f fb)
    (hlt : fInd s f < N) (hfill : Filled s N f (nblocks (fileSize s f)))
    (hmany : nblocks newsize.toNat + 1 < nblocks (fileSize s f)) :
    ¬ ∃ s', fileTruncate f newsize s = .ret () s' ∧
      Truncates s s' N f (nblocks newsize.toNat) newsize := by
  rintro ⟨s', hr, htrunc⟩
  obtain ⟨m, hold⟩ : ∃ m, nblocks (fileSize s f) = nblocks newsize.toNat + 2 + m :=
    ⟨nblocks (fileSize s f) - (nblocks newsize.toNat + 2), by omega⟩
  have hk := hfill.le
  rw [fileTruncate_eq hf] at hr
  obtain ⟨u, s₁, hclear, hr⟩ := bind_eq_ret.mp hr
  have hstays := second_stays h hf ht hlt hfill hold hclear
  obtain ⟨s₂, hret, hfin⟩ := finish_ret hstays.mounted hstays.file
    (hstays.file.apart hstays.table) hstays.indLt
  rw [hret] at hr
  cases hr
  -- The second block is behind the new end, and not free.
  have hfree := (htrunc.bits _ hstays.lt).mpr (Or.inr (Or.inl
    ⟨nblocks newsize.toNat + 1, by omega, by omega, hfill.full _ (by omega), rfl⟩))
  rcases (hfin.bits _ hstays.lt).mp hfree with hbit | ⟨-, -, hind⟩
  · rw [hstays.used] at hbit
    cases hbit
  · exact hstays.ind hind.symm

/-- For a file whose blocks are all there, `file_truncate` does what it is to do
    exactly when it drops one block at most, and nothing else is in the way. -/
theorem file_truncate_iff (h : Mounted s N) (hf : FileAt s N f fb) (ht : TableAt s N f fb)
    (hlt : fInd s f < N) (hfill : Filled s N f (nblocks (fileSize s f)))
    (hsize : newsize.toNat ≤ fileSize s f) :
    (∃ s', fileTruncate f newsize s = .ret () s' ∧
      Truncates s s' N f (nblocks newsize.toNat) newsize) ↔
    TruncateSafe s N f (nblocks (fileSize s f)) (nblocks newsize.toNat) := by
  have hle := nblocks_mono hsize
  have h32 : newsize.toNat < 2 ^ 32 := Nat.lt_of_le_of_lt hsize (BitVec.isLt _)
  by_cases hfew : nblocks (fileSize s f) ≤ nblocks newsize.toNat + 1
  · have hloop := loop_iff h hf ht hlt hfill hle hfew
    rw [fileTruncate_eq hf]
    constructor
    · rintro ⟨s', hr, htrunc⟩
      obtain ⟨u, s₁, hclear, hr⟩ := bind_eq_ret.mp hr
      have hdone := loopDone_of_ret h hf ht hlt hfill hle hfew hclear
      obtain ⟨s₂, hret, hfin⟩ := finish_ret hdone.mounted hdone.file (hdone.file.apart hdone.table)
        hdone.indLt
      rw [hret] at hr
      cases hr
      exact safe_of_truncates (dropsOne hdone hfin) ht hlt hfill hle hfew
        (hloop.mp ⟨s₁, hclear⟩) htrunc
    · intro hsafe
      obtain ⟨s₁, hclear⟩ := hloop.mpr hsafe.memory
      have hdone := loopDone_of_ret h hf ht hlt hfill hle hfew hclear
      obtain ⟨s₂, hret, hfin⟩ := finish_ret hdone.mounted hdone.file (hdone.file.apart hdone.table)
        hdone.indLt
      exact ⟨s₂, (bind_ret hclear).trans hret,
        truncates_of_safe (dropsOne hdone hfin) hfill hle h32 hsafe⟩
  · exact ⟨fun hex => absurd hex (two_blocks_left h hf ht hlt hfill (Nat.lt_of_not_le hfew)),
      fun hsafe => absurd hsafe.few hfew⟩

/-! ### The root directory of a small disk, with a size -/

def sizedFs (size slot₀ slot₁ : U32) : Fs :=
  { smallFs slot₀ slot₁ with
    mem := (smallMem slot₀ slot₁).st32 (fSize (sRoot (blockAddr 1))) size }

section Sized

variable (size slot₀ slot₁ : U32)

theorem sizedFs_wrote : Wrote (smallFs slot₀ slot₁) (sizedFs size slot₀ slot₁)
    ((smallFs slot₀ slot₁).seen.st32 (fSize (sRoot (blockAddr 1))) size) :=
  ⟨rfl, rfl, ⟨rfl, rfl, rfl, rfl, fun _ hv => hv⟩⟩

theorem sizedFs_mounted : Mounted (sizedFs size slot₀ slot₁) 64 := by
  refine (smallFs_mounted slot₀ slot₁).wrote (sizedFs_wrote size slot₀ slot₁) ?_
  apply ByteMem.same_st32
  rw [fSize_eq, sRoot]
  omega

theorem sizedFs_file : FileAt (sizedFs size slot₀ slot₁) 64 (sRoot (blockAddr 1)) 1 :=
  (smallFs_file slot₀ slot₁).steady (sizedFs_wrote size slot₀ slot₁).steady

/-- The pointers and the bitmap are those of the disk without the size. -/
theorem sizedFs_same :
    fInd (sizedFs size slot₀ slot₁) (sRoot (blockAddr 1)) = fInd (smallFs slot₀ slot₁) (sRoot (blockAddr 1)) ∧
    (∀ j, j < NINDIRECT → recorded (sizedFs size slot₀ slot₁) (sRoot (blockAddr 1)) j =
      recorded (smallFs slot₀ slot₁) (sRoot (blockAddr 1)) j) ∧
    ∀ n, n < 64 → freeBit (sizedFs size slot₀ slot₁).seen n = freeBit (smallFs slot₀ slot₁).seen n := by
  have hap := (smallFs_file slot₀ slot₁).apart (smallFs_table slot₀ slot₁)
  refine recorded_st32_file hap (sizedFs_wrote size slot₀ slot₁) rfl ?_ ?_
  · rw [fSize_eq]
    omega
  · left
    rw [fSize_eq, fDirect_eq]
    omega

theorem sizedFs_ind : fInd (sizedFs size slot₀ slot₁) (sRoot (blockAddr 1)) = 0 :=
  (sizedFs_same size slot₀ slot₁).1.trans (smallFs_ind slot₀ slot₁)

theorem sizedFs_table : TableAt (sizedFs size slot₀ slot₁) 64 (sRoot (blockAddr 1)) 1 where
  lo h := absurd (sizedFs_ind size slot₀ slot₁) h
  ne h := absurd (sizedFs_ind size slot₀ slot₁) h
  used h := absurd (sizedFs_ind size slot₀ slot₁) h

theorem sizedFs_bit {n : Nat} (hn : n < 64) : freeBit (sizedFs size slot₀ slot₁).seen n = false := by
  rw [(sizedFs_same size slot₀ slot₁).2.2 n hn]
  exact smallFs_bit slot₀ slot₁ hn

theorem sizedFs_fileSize : fileSize (sizedFs size slot₀ slot₁) (sRoot (blockAddr 1)) = size.toNat := by
  rw [fileSize, (sizedFs_wrote size slot₀ slot₁).seen, ByteMem.ld32_st32]

theorem sizedFs_recorded :
    recorded (sizedFs size slot₀ slot₁) (sRoot (blockAddr 1)) 0 = slot₀ ∧
    recorded (sizedFs size slot₀ slot₁) (sRoot (blockAddr 1)) 1 = slot₁ ∧
    ∀ j, 2 ≤ j → j < NINDIRECT → recorded (sizedFs size slot₀ slot₁) (sRoot (blockAddr 1)) j = 0 := by
  have hslots := (sizedFs_same size slot₀ slot₁).2.1
  have hdirect := smallFs_direct slot₀ slot₁
  refine ⟨?_, ?_, fun j hlo hj => ?_⟩
  · rw [hslots 0 (by decide), smallFs_recorded slot₀ slot₁ (by decide), hdirect.1]
  · rw [hslots 1 (by decide), smallFs_recorded slot₀ slot₁ (by decide), hdirect.2]
  · rw [hslots j hj]
    by_cases hd : j < NDIRECT
    · have hzero : ByteMem.Same (fun _ => 0) (smallMem slot₀ slot₁)
          (fDirect (sRoot (blockAddr 1)) j) 4 := by
        intro x hx _
        apply smallMem_zero
        rw [fDirect_eq, sRoot] at hx
        omega
      rw [smallFs_recorded slot₀ slot₁ hd, hzero.ld32, ByteMem.ld32_zero]
    · rw [recorded, slotIn, if_neg hd, if_pos (smallFs_ind slot₀ slot₁)]

end Sized

/-- A file of one block truncated to nothing. -/
theorem sizedFs_truncated : ∃ s', fileTruncate (sRoot (blockAddr 1)) 0 (sizedFs 4096 5 0) = .ret () s' ∧
    Truncates (sizedFs 4096 5 0) s' 64 (sRoot (blockAddr 1)) (nblocks (0 : Word).toNat) 0 := by
  obtain ⟨hfirst, hsecond, hrest⟩ := sizedFs_recorded 4096 5 0
  have hind := sizedFs_ind 4096 5 0
  have hblocks : nblocks (fileSize (sizedFs 4096 5 0) (sRoot (blockAddr 1))) = 1 := by
    rw [sizedFs_fileSize]
    rfl
  refine (file_truncate_iff (sizedFs_mounted 4096 5 0) (sizedFs_file 4096 5 0)
    (sizedFs_table 4096 5 0) ?_ ?_ (Nat.zero_le _)).mpr ?_
  · rw [hind]
    decide
  · rw [hblocks]
    have h0 : ∀ j, j < 1 → recorded (sizedFs 4096 5 0) (sRoot (blockAddr 1)) j = 5 := by
      intro j hj
      rw [Nat.lt_one_iff.mp hj, hfirst]
    refine ⟨by decide, fun j hj => ?_, fun j hj => ?_, fun j hj => ?_, fun i j hi hj _ => by omega,
      fun j hj => ?_⟩
    · rw [h0 j hj]
      decide
    · rw [h0 j hj]
      decide
    · rw [h0 j hj]
      exact sizedFs_bit 4096 5 0 (by decide)
    · rw [h0 j hj, hind]
      decide
  · rw [hblocks]
    refine ⟨by decide, fun _ h => absurd h (by decide), fun _ _ => hind, fun j hj hlt hne => ?_⟩
    by_cases hj1 : j = 1
    · rw [hj1, hsecond] at hne
      exact absurd rfl hne
    · exact absurd (hrest j (by omega) hlt) hne

/-- Of a file of two blocks, 5 and 6, block 6 is lost. -/
theorem sizedFs_block_lost :
    Mounted (sizedFs 8192 5 6) 64 ∧ FileAt (sizedFs 8192 5 6) 64 (sRoot (blockAddr 1)) 1 ∧
    TableAt (sizedFs 8192 5 6) 64 (sRoot (blockAddr 1)) 1 ∧
    fileSize (sizedFs 8192 5 6) (sRoot (blockAddr 1)) = 8192 ∧
    Filled (sizedFs 8192 5 6) 64 (sRoot (blockAddr 1)) (nblocks 8192) ∧
    ¬ ∃ s', fileTruncate (sRoot (blockAddr 1)) 0 (sizedFs 8192 5 6) = .ret () s' ∧
      Truncates (sizedFs 8192 5 6) s' 64 (sRoot (blockAddr 1)) (nblocks (0 : Word).toNat) 0 := by
  obtain ⟨hfirst, hsecond, -⟩ := sizedFs_recorded 8192 5 6
  have hind := sizedFs_ind 8192 5 6
  have hsize : fileSize (sizedFs 8192 5 6) (sRoot (blockAddr 1)) = 8192 := sizedFs_fileSize 8192 5 6
  have hslot : ∀ j, j < 2 → (recorded (sizedFs 8192 5 6) (sRoot (blockAddr 1)) j).toNat = 5 + j := by
    intro j hj
    rcases (show j = 0 ∨ j = 1 by omega) with rfl | rfl
    · rw [hfirst]
      rfl
    · rw [hsecond]
      rfl
  have hfill : Filled (sizedFs 8192 5 6) 64 (sRoot (blockAddr 1)) (nblocks 8192) := by
    have htwo : nblocks 8192 = 2 := rfl
    rw [htwo]
    refine ⟨by decide, fun j hj h0 => ?_, fun j hj => ?_, fun j hj => ?_, fun i j hi hj heq => ?_,
      fun j hj => ?_⟩
    · have hnum := hslot j hj
      rw [h0] at hnum
      have hzero : (0 : U32).toNat = 0 := rfl
      omega
    · rw [hslot j hj]
      omega
    · rw [hslot j hj]
      exact sizedFs_bit 8192 5 6 (by omega)
    · have hnum := congrArg BitVec.toNat heq
      rw [hslot i hi, hslot j hj] at hnum
      omega
    · rw [hslot j hj, hind]
      omega
  refine ⟨sizedFs_mounted 8192 5 6, sizedFs_file 8192 5 6, sizedFs_table 8192 5 6, hsize, hfill, ?_⟩
  refine two_blocks_left (sizedFs_mounted 8192 5 6) (sizedFs_file 8192 5 6) (sizedFs_table 8192 5 6)
    ?_ (hsize.symm ▸ hfill) ?_
  · rw [hind]
    decide
  · rw [hsize]
    decide

end RpiMos
