/-
  RpiMos.Fs.TreeTruncate

  `file_truncate`, `file_set_size` and `file_remove` on the tree of files: pointers
  become null, and the blocks that are given back are blocks that such pointers named.
-/

import RpiMos.Fs.Flush

namespace RpiMos

open Lib Prog BlockTree

variable {s s' s₁ s₂ mid : Fs} {N f g b k j i a n c x : Nat} {m m' m₁ m₂ : ByteMem} {r blockno : U32}

/-! ## Pointers that become null -/

/-- What is written to when pointers of file `f` become null. -/
inductive OwnPrint (m : ByteMem) (N f x : Nat) : Prop
  | bitmap (h : InBitmap N x)
  | file (hlo : f ≤ x) (hhi : x < f + BY2FILE)
  | table (h0 : tableOf m f ≠ 0) (hx : InBlock (tableOf m f) x)

theorem OwnPrint.footprint (h : OwnPrint m N f x) : Footprint m N f x := by
  cases h with
  | bitmap h => exact .bitmap h
  | file hlo hhi => exact .file hlo hhi
  | table h0 hx => exact .table h0 hx

/-- Pointers of file `f` have become null, and blocks that they named are free.  The
    first `c` slots are as before. -/
structure Shrunk (m m' : ByteMem) (N f c : Nat) : Prop where
  within : Within (OwnPrint m N f) m m'
  fields : FieldsSame m m' f
  subs : ∀ p : Ptr, p.file = f → (fileTree m').val p = (fileTree m).val p ∨ (fileTree m').val p = 0
  freed : ∀ b, b < N → freeBit m b = false → freeBit m' b = false ∨
    ∃ p : Ptr, p.file = f ∧ b ≠ 0 ∧ (fileTree m).val p = b ∧ (fileTree m').val p = 0
  keeps : ∀ j, j < c → blockNo m' f j = blockNo m f j

theorem Shrunk.refl (m : ByteMem) (N f c : Nat) : Shrunk m m N f c :=
  ⟨.refl _ m, .refl m f, fun _ _ => Or.inl rfl, fun _ _ hu => Or.inl hu, fun _ _ => rfl⟩

theorem Shrunk.trans (h : Shrunk m m₁ N f c) (h' : Shrunk m₁ m₂ N f c) : Shrunk m m₂ N f c where
  within := by
    refine h.within.trans fun x hx => ?_
    rcases h'.within x hx with hb | ⟨hlo, hhi⟩ | ⟨h0, hin⟩
    · exact .bitmap hb
    · exact .file hlo hhi
    · have hval : tableOf m₁ f = tableOf m f := (h.subs (.ind f) rfl).resolve_right h0
      rw [hval] at h0 hin
      exact .table h0 hin
  fields := h.fields.trans h'.fields
  subs p hp := by
    rcases h'.subs p hp with hval | h0
    · rw [hval]
      exact h.subs p hp
    · exact Or.inr h0
  freed b hb hu := by
    rcases h.freed b hb hu with hu₁ | ⟨p, hp, hb0, hval, h0⟩
    · rcases h'.freed b hb hu₁ with hu₂ | ⟨p, hp, hb0, hval, h0⟩
      · exact Or.inl hu₂
      · have hback := (h.subs p hp).resolve_right (by rw [hval]; exact hb0)
        exact Or.inr ⟨p, hp, hb0, hback.symm.trans hval, h0⟩
    · -- A pointer that is null stays so.
      refine Or.inr ⟨p, hp, hb0, hval, ?_⟩
      rcases h'.subs p hp with hsame | hz
      · rw [hsame, h0]
      · exact hz
  keeps j hj := (h'.keeps j hj).trans (h.keeps j hj)

/-- Words among the pointers of a file, or in its table. -/
def AtPointers (t f a n : Nat) : Prop :=
  (∃ i c, a = f + 136 + 4 * i ∧ n = 4 * c ∧ i + c ≤ 12) ∨
    (t ≠ 0 ∧ ∃ i c, a = blockAddr t + 4 * i ∧ n = 4 * c ∧ i + c ≤ 1024)

theorem zero_out (h : ¬ (a ≤ x ∧ x < a + n)) : m.zero a n x = m x := if_neg h

theorem ld32_zero_in {w : Nat} (hlo : a ≤ w) (hhi : w + 4 ≤ a + n) : (m.zero a n).ld32 w = 0 := by
  have hsame : ByteMem.Same (fun _ => 0) (m.zero a n) w 4 := fun x hx hx' => if_pos ⟨by omega, by omega⟩
  rw [hsame.ld32, ByteMem.ld32_zero]

section Null

variable (h : FileOk s N f) (ha : AtPointers (tableOf s.blocks f) f a n) (hr : r.toNat < N)

include h ha hr

/-- A word of the file outside of what was nulled. -/
theorem FileOk.null_head {w k : Nat} (hlo : f ≤ w) (hhi : w + k ≤ f + BY2FILE) (hout : a + n ≤ w ∨ w + k ≤ a) :
    ByteMem.Same s.blocks ((setBit s.blocks r true).zero a n) w k := by
  intro x hx hx'
  rw [zero_out (by omega), setBit_out hr true (h.placed.not_bitmap (by omega) (by omega))]

/-- A file and its table are apart. -/
theorem FileOk.table_out (h0 : tableOf s.blocks f ≠ 0) : f + BY2FILE ≤ blockAddr (tableOf s.blocks f) ∨
    blockAddr (tableOf s.blocks f) + BY2BLK ≤ f := by
  have hout := h.apart h0
  have hfirst := hout f (le_refl f) (by rw [BY2FILE]; omega)
  have hlast := hout (f + 255) (by omega) (by rw [BY2FILE]; omega)
  rw [InBlock, BY2BLK] at hfirst hlast
  rw [BY2FILE, BY2BLK]
  omega

/-- A pointer in the file. -/
theorem FileOk.null_word (hi : i < 12) :
    ((setBit s.blocks r true).zero a n).ld32 (f + 136 + 4 * i) = s.blocks.ld32 (f + 136 + 4 * i) ∨
      ((setBit s.blocks r true).zero a n).ld32 (f + 136 + 4 * i) = 0 := by
  rcases ha with ⟨i', c, rfl, rfl, hc⟩ | ⟨h0, i', c, rfl, rfl, hc⟩
  · by_cases hin : i' ≤ i ∧ i < i' + c
    · exact Or.inr (ld32_zero_in (by omega) (by omega))
    · refine Or.inl (ByteMem.Same.ld32 ?_)
      refine h.null_head (Or.inl ⟨i', c, rfl, rfl, hc⟩) hr (by omega) (by rw [BY2FILE]; omega) ?_
      omega
  · refine Or.inl (ByteMem.Same.ld32 ?_)
    have hout := h.table_out (Or.inr ⟨h0, i', c, rfl, rfl, hc⟩) hr h0
    rw [BY2FILE, BY2BLK] at hout
    refine h.null_head (Or.inr ⟨h0, i', c, rfl, rfl, hc⟩) hr (by omega) (by rw [BY2FILE]; omega) ?_
    omega

/-- A pointer in the table. -/
theorem FileOk.null_table (h0 : tableOf s.blocks f ≠ 0) (hi : i < 1024) :
    ((setBit s.blocks r true).zero a n).ld32 (blockAddr (tableOf s.blocks f) + 4 * i) =
        s.blocks.ld32 (blockAddr (tableOf s.blocks f) + 4 * i) ∨
      ((setBit s.blocks r true).zero a n).ld32 (blockAddr (tableOf s.blocks f) + 4 * i) = 0 := by
  have hu := h.table h0
  have hsame : a + n ≤ blockAddr (tableOf s.blocks f) + 4 * i ∨ blockAddr (tableOf s.blocks f) + 4 * i + 4 ≤ a →
      ((setBit s.blocks r true).zero a n).ld32 (blockAddr (tableOf s.blocks f) + 4 * i) =
        s.blocks.ld32 (blockAddr (tableOf s.blocks f) + 4 * i) := by
    intro hout
    refine ByteMem.Same.ld32 fun x hlo hhi => ?_
    rw [zero_out (by omega), setBit_out hr true (UsedBlock.not_bitmap hu.lo ⟨by omega, by rw [BY2BLK]; omega⟩)]
  have hout := h.table_out ha hr h0
  rw [BY2FILE, BY2BLK] at hout
  rcases ha with ⟨i', c, rfl, rfl, hc⟩ | ⟨-, i', c, rfl, rfl, hc⟩
  · exact Or.inl (hsame (by omega))
  · by_cases hin : i' ≤ i ∧ i < i' + c
    · exact Or.inr (ld32_zero_in (by omega) (by omega))
    · exact Or.inl (hsame (by omega))

theorem FileOk.null_subs {p : Ptr} (hp : p.file = f) :
    (fileTree ((setBit s.blocks r true).zero a n)).val p = (fileTree s.blocks).val p ∨
      (fileTree ((setBit s.blocks r true).zero a n)).val p = 0 := by
  have hind : tableOf ((setBit s.blocks r true).zero a n) f = tableOf s.blocks f ∨
      tableOf ((setBit s.blocks r true).zero a n) f = 0 := by
    rcases h.null_word ha hr (i := 10) (by omega) with hsame | hz
    · exact Or.inl (congrArg BitVec.toNat hsame)
    · exact Or.inr (congrArg BitVec.toNat hz)
  rcases p with g | ⟨g, j⟩
  · have hgf : g = f := hp
    subst hgf
    exact hind
  · have hgf : g = f := hp
    subst hgf
    show blockNo _ g j = blockNo s.blocks g j ∨ blockNo _ g j = 0
    by_cases hd : j < NDIRECT
    · rw [blockNo_direct hd, blockNo_direct hd]
      rw [NDIRECT] at hd
      rcases h.null_word ha hr (i := j) (by omega) with hsame | hz
      · exact Or.inl (congrArg BitVec.toNat hsame)
      · exact Or.inr (congrArg BitVec.toNat hz)
    · by_cases hj : j < NINDIRECT
      · by_cases h0 : tableOf ((setBit s.blocks r true).zero a n) g = 0
        · exact Or.inr (blockNo_no_table hd h0)
        · have htable := hind.resolve_right h0
          have h0' : tableOf s.blocks g ≠ 0 := htable ▸ h0
          rw [blockNo, blockNo, if_pos hj, if_pos hj, slotIn, slotIn, if_neg hd, if_neg hd, if_neg h0,
            if_neg h0', htable]
          rw [NINDIRECT] at hj
          rcases h.null_table ha hr h0' hj with hsame | hz
          · exact Or.inl (congrArg BitVec.toNat hsame)
          · exact Or.inr (congrArg BitVec.toNat hz)
      · rw [blockNo, blockNo, if_neg hj, if_neg hj]
        exact Or.inl rfl

/-- A block is given back, and pointers become null, that to the block among them. -/
theorem FileOk.shrunk (hr0 : r ≠ 0) {p : Ptr} (hp : p.file = f) (hval : (fileTree s.blocks).val p = r.toNat)
    (hnull : (fileTree ((setBit s.blocks r true).zero a n)).val p = 0)
    (hkeep : ∀ j, j < c → blockNo ((setBit s.blocks r true).zero a n) f j = blockNo s.blocks f j) :
    Shrunk s.blocks ((setBit s.blocks r true).zero a n) N f c := by
  have hplace : (f + 136 ≤ a ∧ a + n ≤ f + 184) ∨ (tableOf s.blocks f ≠ 0 ∧
      blockAddr (tableOf s.blocks f) ≤ a ∧ a + n ≤ blockAddr (tableOf s.blocks f) + BY2BLK) := by
    rcases ha with ⟨i', c, rfl, rfl, hc⟩ | ⟨h0, i', c, rfl, rfl, hc⟩
    · left
      omega
    · right
      rw [BY2BLK]
      exact ⟨h0, by omega, by omega⟩
  have hout : a + n ≤ f ∨ f + BY2FILE ≤ a ∨ (f + 136 ≤ a ∧ a + n ≤ f + 184) := by
    rcases hplace with hin | ⟨h0, hlo, hhi⟩
    · exact Or.inr (Or.inr hin)
    · have ht := h.table_out ha hr h0
      omega
  rw [BY2FILE] at hout
  refine ⟨fun x hx => ?_, ⟨?_, ?_⟩, fun p hp => h.null_subs ha hr hp, fun b hb hu => ?_, hkeep⟩
  · by_contra hno
    apply hx
    rw [zero_out, setBit_out hr true fun hb => hno (.bitmap hb)]
    rintro ⟨hlo, hhi⟩
    rcases hplace with hin | ⟨h0, hlo', hhi'⟩
    · exact hno (.file (by omega) (by rw [BY2FILE]; omega))
    · exact hno (.table h0 ⟨by omega, by omega⟩)
  · exact h.null_head ha hr (le_refl f) (by rw [BY2FILE]; omega) (by omega)
  · exact h.null_head ha hr (by rw [fDir_eq]; omega) (by rw [fDir_eq, BY2FILE]; omega) (by rw [fDir_eq]; omega)
  · by_cases hbr : b = r.toNat
    · refine Or.inr ⟨p, hp, ?_, hval.trans hbr.symm, hnull⟩
      rw [hbr]
      exact fun hz => hr0 (BitVec.eq_of_toNat_eq hz)
    · left
      have hbits : freeBit ((setBit s.blocks r true).zero a n) b = freeBit (setBit s.blocks r true) b := by
        refine freeBit_same fun x hlo hhi => zero_out fun hin => ?_
        have hbit := bitWord_inBitmap hb hlo hhi
        rcases hplace with hfile | ⟨h0, hlo', hhi'⟩
        · exact h.placed.not_bitmap (x := x) (by omega) (by rw [BY2FILE]; omega) hbit
        · exact UsedBlock.not_bitmap (h.table h0).lo ⟨by omega, by omega⟩ hbit
      rw [hbits, freeBit_setBit, if_neg hbr]
      exact hu

end Null

/-! ## `file_clear_block` -/

/-- From `s` to `s'` pointers of file `f` have become null. -/
structure Cut (N : Nat) (s s' : Fs) (f c : Nat) : Prop where
  mounted : Mounted s' N
  steady : Steady s s'
  disk : s'.disk = s.disk
  shrunk : Shrunk s.blocks s'.blocks N f c

theorem Cut.refl (h : Mounted s N) (f c : Nat) : Cut N s s f c := ⟨h, .refl s, rfl, .refl _ N f c⟩

theorem Cut.trans (h : Cut N s s₁ f c) (h' : Cut N s₁ s₂ f c) : Cut N s s₂ f c :=
  ⟨h'.mounted, h.steady.trans _ _ _ h'.steady, h'.disk.trans h.disk, h.shrunk.trans h'.shrunk⟩

theorem Cut.loads (h : Mounted s N) (hm : Moved N s s' s.blocks) (f c : Nat) : Cut N s s' f c := by
  refine ⟨h.became hm.toBecame fun _ _ _ => rfl, hm.steady, hm.disk, ?_⟩
  rw [hm.blocks]
  exact .refl _ N f c

/-- The number of blocks in the super block is no pointer. -/
theorem FileOk.shrunk_super (h : FileOk s N f) (hs : Shrunk s.blocks m' N f c) :
    ByteMem.Same s.blocks m' (blockAddr 1 + 4) 4 := by
  refine hs.within.same fun x hlo hhi hx => ?_
  rw [blockAddr_eq] at hlo hhi
  rcases hx with ⟨hb, -⟩ | ⟨hlo', -⟩ | ⟨h0, hx⟩
  · rw [blockAddr_eq] at hb
    omega
  · have hp := h.placed.super_lt
    rw [blockAddr_eq] at hp
    omega
  · have hu := (h.table h0).lo
    rw [firstData_eq] at hu
    rw [InBlock, blockAddr_eq] at hx
    omega

/-- A block is given back, and the words at `a` are nulled. -/
theorem FileOk.cut (h : FileOk s N f) (hb : Became s s₁ (setBit s.blocks r true))
    (hb' : Became s₁ s' (s₁.blocks.zero a n))
    (hs : Shrunk s.blocks ((setBit s.blocks r true).zero a n) N f c) : Cut N s s' f c := by
  have hboth := hb.trans hb'
  rw [hb.blocks] at hboth
  refine ⟨h.mounted.became hboth (h.shrunk_super hs), hboth.steady, hboth.disk, ?_⟩
  rw [hboth.blocks]
  exact hs

theorem st64_null : m.st64 a 0 = m.zero a 8 := by
  funext x
  simp only [ByteMem.st64, ByteMem.st32, ByteMem.zero]
  by_cases hx : a ≤ x ∧ x < a + 8
  · rw [if_pos hx]
    by_cases hhi : a + 4 ≤ x ∧ x < a + 4 + 4
    · rw [if_pos hhi]
      simp
    · rw [if_neg hhi, if_pos (by omega)]
      simp
  · rw [if_neg hx, if_neg (by omega), if_neg (by omega)]

theorem st32_null : m.st32 a 0 = m.zero a 4 := by
  funext x
  simp only [ByteMem.st32, ByteMem.zero]
  split
  · simp
  · rfl

section Slot

variable (h : SlotAt N false s mid f k)

include h

theorem SlotAt.atPointers (hk : k + 1 ≠ NINDIRECT) :
    AtPointers (tableOf mid.blocks f) f (slotAddr f (tableOf mid.blocks f) k) 8 := by
  have hlt := h.lt
  rw [NINDIRECT] at hlt hk
  rw [slotAddr]
  by_cases hd : k < NDIRECT
  · rw [if_pos hd, fDirect_eq]
    rw [NDIRECT] at hd
    exact Or.inl ⟨k, 2, rfl, rfl, by omega⟩
  · rw [if_neg hd]
    exact Or.inr ⟨(h.table (Nat.le_of_not_lt hd)).1, k, 2, rfl, rfl, by omega⟩

/-- A slot in the table, the pointer to the table staying. -/
theorem SlotAt.table_kept (hk : k + 1 ≠ NINDIRECT) (hd : ¬ k < NDIRECT) (hr : r.toNat < N) :
    tableOf ((setBit mid.blocks r true).zero (slotAddr f (tableOf mid.blocks f) k) 8) f =
      tableOf mid.blocks f := by
  have hout := h.ok.table_out (h.atPointers hk) hr (h.table (Nat.le_of_not_lt hd)).1
  have hlt := h.lt
  rw [NINDIRECT] at hlt hk
  rw [BY2FILE, BY2BLK] at hout
  refine congrArg BitVec.toNat (ByteMem.Same.ld32 ?_)
  refine h.ok.null_head (h.atPointers (by rw [NINDIRECT]; omega)) hr (by rw [fIndirect_eq]; omega)
    (by rw [fIndirect_eq, BY2FILE]; omega) ?_
  rw [slotAddr, if_neg hd, fIndirect_eq]
  omega

theorem SlotAt.nulled (hk : k + 1 ≠ NINDIRECT) (hr : r.toNat < N) :
    blockNo ((setBit mid.blocks r true).zero (slotAddr f (tableOf mid.blocks f) k) 8) f k = 0 := by
  have hzero : ((setBit mid.blocks r true).zero (slotAddr f (tableOf mid.blocks f) k) 8).ld32
      (slotAddr f (tableOf mid.blocks f) k) = 0 := ld32_zero_in (le_refl _) (by omega)
  by_cases hd : k < NDIRECT
  · rw [blockNo_direct hd]
    rw [slotAddr, if_pos hd] at hzero ⊢
    rw [hzero]
    rfl
  · rw [blockNo, if_pos h.lt, slotIn, if_neg hd, h.table_kept hk hd hr,
      if_neg (h.table (Nat.le_of_not_lt hd)).1]
    have haddr : slotAddr f (tableOf mid.blocks f) k = blockAddr (tableOf mid.blocks f) + 4 * k := by
      rw [slotAddr, if_neg hd]
    rw [haddr] at hzero ⊢
    rw [hzero]
    rfl

/-- Slots before the one that is cleared. -/
theorem SlotAt.before (hk : k + 1 ≠ NINDIRECT) (hr : r.toNat < N) (hj : j < k) :
    blockNo ((setBit mid.blocks r true).zero (slotAddr f (tableOf mid.blocks f) k) 8) f j =
      blockNo mid.blocks f j := by
  have hlt := h.lt
  rw [NINDIRECT] at hlt
  have ha := h.atPointers hk
  by_cases hjd : j < NDIRECT
  · rw [blockNo_direct hjd, blockNo_direct hjd]
    refine congrArg BitVec.toNat (ByteMem.Same.ld32 ?_)
    rw [NDIRECT] at hjd
    refine h.ok.null_head ha hr (by rw [fDirect_eq]; omega) (by rw [fDirect_eq, BY2FILE]; omega) ?_
    by_cases hd : k < NDIRECT
    · rw [slotAddr, if_pos hd, fDirect_eq, fDirect_eq]
      omega
    · have hout := h.ok.table_out ha hr (h.table (Nat.le_of_not_lt hd)).1
      rw [BY2FILE, BY2BLK] at hout
      rw [slotAddr, if_neg hd, fDirect_eq]
      omega
  · have hd : ¬ k < NDIRECT := by
      rw [NDIRECT] at hjd ⊢
      omega
    have h0 := (h.table (Nat.le_of_not_lt hd)).1
    have hjn : j < NINDIRECT := by
      rw [NINDIRECT]
      omega
    rw [blockNo, blockNo, if_pos hjn, if_pos hjn, slotIn, slotIn, if_neg hjd, if_neg hjd,
      h.table_kept hk hd hr, if_neg h0, if_neg h0]
    refine congrArg BitVec.toNat (ByteMem.Same.ld32 fun x hlo hhi => ?_)
    have hu := h.ok.table h0
    rw [zero_out, setBit_out hr true (UsedBlock.not_bitmap hu.lo ⟨by omega, by rw [BY2BLK]; omega⟩)]
    rw [slotAddr, if_neg hd]
    omega

end Slot

theorem fileClearBlock_cut {filebno : U32} (h : FileOk s N f) (hk : filebno.toNat + 1 ≠ NINDIRECT)
    (hc : c ≤ filebno.toNat) : (fileClearBlock f filebno).Ends s (fun _ s' => Cut N s s' f c)
      (fun _ s' => Cut N s s' f c) AnyStop := by
  rw [fileClearBlock]
  refine Ends.bind ((fileBlockWalk_reaches h).mono (fun _ _ h => h)
    (fun _ _ hm => .loads h.mounted hm.1 f c) fun _ h => h) ?_
  rintro ptr mid ⟨rfl, hslot⟩
  have hm := hslot.reach.had_of_not_alloc
  have hcut := Cut.loads h.mounted hm f c
  have hmapped := hslot.mapped hk
  apply Ends.bind_ret (load64_blocks hmapped)
  by_cases h0 : mid.blocks.ld64 (slotAddr f (tableOf mid.blocks f) filebno.toNat) = 0
  · rw [if_pos h0]
    exact Ends.of_ret rfl hcut
  · rw [if_neg h0]
    generalize hv : (mid.blocks.ld64 (slotAddr f (tableOf mid.blocks f) filebno.toNat)).setWidth 32 = r
    have hval : blockNo mid.blocks f filebno.toNat = r.toNat := by
      rw [← hslot.value, ← hv, ByteMem.ld64_setWidth]
    refine Ends.bind ((freeBlock_ends hslot.ok.mounted).mono (fun _ _ h => h) (fun _ _ h => h.elim)
      fun _ _ => trivial) ?_
    rintro u s₁ ⟨hr0, hr, hb⟩
    obtain ⟨s₂, hstore, hb₂⟩ := store64_blocks (v := 0) (hmapped.steady hb.steady)
    rw [st64_null] at hb₂
    refine Ends.of_ret hstore (hcut.trans (hslot.ok.cut hb hb₂ ?_))
    exact hslot.ok.shrunk (hslot.atPointers hk) hr hr0 (p := .slot f filebno.toNat) rfl hval
      (hslot.nulled hk hr) fun j hj => hslot.before hk hr (by omega)

/-! ## `file_truncate` -/

section Truncate

variable (h : TreeOk s N) (hf : KnownIn s.blocks N f) (hc : Cached s f)

include h hf

/-- What is given back are neither blocks up to the bitmap, nor the block that the
    file is in, nor its table. -/
theorem TreeOk.cut_used (hs : Shrunk s.blocks m' N f c) (hb : b < N) (hu : freeBit s.blocks b = false)
    (hno : ∀ p : Ptr, p.file = f → b ≠ 0 → (fileTree s.blocks).val p = b →
      (fileTree m').val p ≠ 0) : freeBit m' b = false := by
  rcases hs.freed b hb hu with hu' | ⟨p, hp, hb0, hval, hnull⟩
  · exact hu'
  · exact absurd hnull (hno p hp hb0 hval)

include hc

theorem TreeOk.cut_fileOk (hcut : Cut N s s₁ f c) : FileOk s₁ N f := by
  have hok := h.fileOk hf hc
  have hs := hcut.shrunk
  refine ⟨hcut.mounted, fun b hb hbN => ?_, hok.placed, hc.steady hcut.steady,
    fun b x hb hbN hx hlo hhi => ?_, fun h0 => ?_, fun h0 => ?_⟩
  · refine h.cut_used hf hs hbN (hok.low b hb hbN) fun p hp hb0 hval => ?_
    have hlo := (h.wf.ptrs.range p (hp ▸ hf) (hval ▸ hb0)).1
    rw [hval] at hlo
    exact absurd hb (Nat.not_lt.mpr hlo)
  · refine h.cut_used hf hs hbN (hok.used b x hb hbN hx hlo hhi) fun p hp hb0 hval => ?_
    rcases h.wf.known_place hf with rfl | ⟨d, k, j, hd, hdir, hk, -, -, hj, rfl⟩
    · exact absurd hx (root_inBlock hlo hhi hb)
    · -- The file would be a directory that it is in itself.
      have heq := hx.unique (Placed.inBlock hlo hhi hj)
      have hptr : p = .slot d k := h.wf.ptrs.inj p (.slot d k) (hp ▸ hf) hd.known (hval ▸ hb0)
        (hval.trans heq)
      have hself : d = dirEntryAt (blockNo s.blocks d k) j := by
        rw [hptr] at hp
        exact hp
      have hent : EntryIn s.blocks N d d := ⟨hd, hdir, k, j, hk, hj, hself⟩
      exact absurd hent (h.wf.entry_irrefl hd)
  · have hval := (hs.subs (.ind f) rfl).resolve_right h0
    have htable : tableOf s₁.blocks f = tableOf s.blocks f := hval
    rw [htable] at h0 ⊢
    obtain ⟨hlo, hhi, hu⟩ := hok.table h0
    refine ⟨hlo, hhi, h.cut_used hf hs hhi hu fun p hp hb0 hpv => ?_⟩
    have hptr : p = .ind f := h.wf.ptrs.inj p (.ind f) (hp ▸ hf) hf (by rw [hpv]; exact hb0) hpv
    rw [hptr]
    exact hval ▸ h0
  · have htable : tableOf s₁.blocks f = tableOf s.blocks f := (hs.subs (.ind f) rfl).resolve_right h0
    rw [htable] at h0 ⊢
    exact hok.apart h0

theorem clearBlocks_cut (hcut : Cut N s s₁ f c) (hi : c ≤ i) (hn : ∀ j, j < n → i + j + 1 < NINDIRECT) :
    (clearBlocks f n i).Ends s₁ (fun _ s' => Cut N s s' f c) (fun _ _ => False) AnyStop := by
  induction n generalizing s₁ i with
  | zero => exact Ends.of_ret rfl hcut
  | succ n ih =>
      have hlt := hn 0 (by omega)
      have hnat : (BitVec.ofNat 32 i).toNat = i := by
        rw [NINDIRECT] at hlt
        rw [BitVec.toNat_ofNat, Nat.mod_eq_of_lt (by omega)]
      have hok := h.cut_fileOk hf hc hcut
      have hclear : (fileClearBlock f (BitVec.ofNat 32 i)).Ends s₁ _ _ _ :=
        fileClearBlock_cut hok (by rw [hnat]; omega) (hnat.symm ▸ hi)
      rw [clearBlocks]
      refine Ends.bind hclear.attempt ?_
      rintro (e | u) s₂ hcut₂
      · exact ih (hcut.trans hcut₂) (by omega) fun j hj => by have := hn (j + 1) (by omega); omega
      · exact ih (hcut.trans hcut₂) (by omega) fun j hj => by have := hn (j + 1) (by omega); omega

theorem clearIndirect_cut (hcut : Cut N s s₁ f c) (hcd : c ≤ NDIRECT) :
    (clearIndirect f).Ends s₁ (fun _ s' => Cut N s s' f c) (fun _ _ => False) AnyStop := by
  have hok := h.cut_fileOk hf hc hcut
  have hm : s₁.MappedOn (fIndirect f) 4 :=
    hok.head_mapped (by rw [fIndirect_eq]; omega) (by rw [fIndirect_eq, BY2FILE]; omega)
  rw [clearIndirect]
  apply Ends.bind_ret hok.load_ind
  by_cases h0 : s₁.blocks.ld32 (fIndirect f) = 0
  · rw [if_pos h0]
    exact Ends.of_ret rfl hcut
  · rw [if_neg h0]
    apply Ends.bind_ret hok.load_ind
    generalize hv : s₁.blocks.ld32 (fIndirect f) = r
    refine Ends.bind ((freeBlock_ends hok.mounted).mono (fun _ _ h => h) (fun _ _ h => h.elim)
      fun _ _ => trivial) ?_
    rintro u s₂ ⟨hr0, hr, hb⟩
    obtain ⟨s₃, hstore, hb₃⟩ := store32_blocks (v := 0) (hm.steady hb.steady)
    rw [st32_null] at hb₃
    have ha : AtPointers (tableOf s₁.blocks f) f (fIndirect f) 4 := Or.inl ⟨10, 1, rfl, rfl, by omega⟩
    have hzero : tableOf ((setBit s₁.blocks r true).zero (fIndirect f) 4) f = 0 := by
      rw [tableOf, ld32_zero_in (le_refl _) (by omega)]
      rfl
    refine Ends.of_ret hstore (hcut.trans (hok.cut hb hb₃ ?_))
    refine hok.shrunk ha hr hr0 (p := .ind f) rfl (congrArg BitVec.toNat hv) hzero fun j hj => ?_
    have hd : j < NDIRECT := by omega
    rw [blockNo_direct hd, blockNo_direct hd]
    refine congrArg BitVec.toNat (ByteMem.Same.ld32 ?_)
    rw [NDIRECT] at hd
    exact hok.null_head ha hr (by rw [fDirect_eq]; omega) (by rw [fDirect_eq, BY2FILE]; omega)
      (by rw [fDirect_eq, fIndirect_eq]; omega)

/-- The number of blocks for `size` bytes. -/
def blocksFor (size : Nat) : Nat := ROUND size BY2BLK / BY2BLK

theorem fileTruncate_ends {newsize : Word} (hn : blockCount s.blocks f < NINDIRECT) :
    (fileTruncate f newsize).Ends s
      (fun _ s' => ∃ s₁, Cut N s s₁ f (blocksFor newsize.toNat) ∧
        Became s₁ s' (s₁.blocks.st32 (fSize f) (newsize.setWidth 32)))
      (fun _ _ => False) AnyStop := by
  have hok := h.fileOk hf hc
  rw [fileTruncate]
  apply Ends.bind_ret hok.fileBlocks
  have hclear := clearBlocks_cut h hf hc (.refl h.mounted f (blocksFor newsize.toNat)) (le_refl _)
    (n := blockCount s.blocks f - blocksFor newsize.toNat) fun j hj => by omega
  refine Ends.bind hclear fun u s₁ hcut => ?_
  -- Whether the table is given back or not, the size is stored last.
  have hlast : ∀ s₂, Cut N s s₂ f (blocksFor newsize.toNat) →
      (store32 (fSize f) (newsize.setWidth 32)).Ends s₂ (fun _ s' => ∃ s₁,
        Cut N s s₁ f (blocksFor newsize.toNat) ∧
        Became s₁ s' (s₁.blocks.st32 (fSize f) (newsize.setWidth 32))) (fun _ _ => False) AnyStop := by
    intro s₂ hcut₂
    have hm := (h.cut_fileOk hf hc hcut₂).head_mapped (a := fSize f) (n := 4) (by rw [fSize]; omega)
      (by rw [fSize, BY2FILE]; omega)
    obtain ⟨s₃, hstore, hb⟩ := store32_blocks (v := newsize.setWidth 32) hm
    exact Ends.of_ret hstore ⟨s₂, hcut₂, hb⟩
  show Ends (if blocksFor newsize.toNat < NDIRECT
    then clearIndirect f >>= fun _ => store32 (fSize f) (newsize.setWidth 32)
    else store32 (fSize f) (newsize.setWidth 32)) s₁ _ _ _
  by_cases hd : blocksFor newsize.toNat < NDIRECT
  · rw [if_pos hd]
    exact Ends.bind (clearIndirect_cut h hf hc hcut (Nat.le_of_lt hd)) fun _ s₂ hcut₂ => hlast s₂ hcut₂
  · rw [if_neg hd]
    exact hlast s₁ hcut

end Truncate

/-! ## A file that has its size set -/

/-- The words of `f_size`. -/
def SizeWord (f x : Nat) : Prop := fSize f ≤ x ∧ x < fSize f + 4

/-- Pointers of the file have become null, and its size has been set. -/
structure Sized (N : Nat) (s s' : Fs) (f c : Nat) (size : U32) : Prop where
  cut : ∃ s₁, Cut N s s₁ f c ∧ Within (SizeWord f) s₁.blocks s'.blocks
  mounted : Mounted s' N
  steady : Steady s s'
  size : s'.blocks.ld32 (fSize f) = size

/-- The pointers of a file depend on the words for them and on its table. -/
theorem ptrs_same (hfile : ByteMem.Same m m' (f + 136) 44)
    (htable : tableOf m f ≠ 0 → ByteMem.Same m m' (blockAddr (tableOf m f)) 4096) {p : Ptr}
    (hp : p.file = f) : (fileTree m').val p = (fileTree m).val p := by
  have hind : ByteMem.Same m m' (fIndirect f) 4 :=
    hfile.mono (by rw [fIndirect_eq]; omega) (by rw [fIndirect_eq])
  have ht : tableOf m' f = tableOf m f := congrArg BitVec.toNat hind.ld32
  rcases p with g | ⟨g, j⟩
  · have hgf : g = f := hp
    rw [hgf]
    exact ht
  · have hgf : g = f := hp
    subst hgf
    show blockNo m' g j = blockNo m g j
    rw [blockNo, blockNo]
    by_cases hj : j < NINDIRECT
    · rw [if_pos hj, if_pos hj, ht]
      refine congrArg BitVec.toNat (slotIn_same (hfile.mono ?_ ?_) htable hj)
      · rw [fDirect_eq]
      · rw [fDirect_eq]
        omega
    · rw [if_neg hj, if_neg hj]

theorem FileOk.size_ptrs (h : FileOk s N f) (hw : Within (SizeWord f) s.blocks m') {p : Ptr} (hp : p.file = f) :
    (fileTree m').val p = (fileTree s.blocks).val p := by
  refine ptrs_same (hw.same fun x hlo hhi hx => ?_) (fun h0 => hw.same fun x hlo hhi hx => ?_) hp
  · rw [SizeWord, fSize] at hx
    omega
  · rw [SizeWord, fSize] at hx
    exact h.apart h0 x (by omega) (by rw [BY2FILE]; omega) ⟨hlo, by rw [BY2BLK]; omega⟩

theorem FileOk.size_bits (h : FileOk s N f) (hw : Within (SizeWord f) s.blocks m') (hb : b < N) :
    freeBit m' b = freeBit s.blocks b := by
  refine hw.freeBit (fun x hx hs => ?_) hb
  rw [SizeWord, fSize] at hs
  exact h.placed.not_bitmap (by omega) (by rw [BY2FILE]; omega) hx

theorem st32_within (v : U32) : Within (fun x => a ≤ x ∧ x < a + 4) m (m.st32 a v) := by
  intro x hx
  by_contra hout
  exact hx (st32_out v hout)

section Sized

variable (h : TreeOk s N) (hf : KnownIn s.blocks N f) (hc : Cached s f) {size : U32}

include h hf hc

theorem Cut.sized (hcut : Cut N s s₁ f c) (hb : Became s₁ s' s'.blocks)
    (hw : Within (SizeWord f) s₁.blocks s'.blocks) (hsize : s'.blocks.ld32 (fSize f) = size) :
    Sized N s s' f c size := by
  have hok := h.cut_fileOk hf hc hcut
  refine ⟨⟨s₁, hcut, hw⟩, hok.mounted.became hb (hw.same fun x hlo hhi hx => ?_),
    hcut.steady.trans _ _ _ hb.steady, hsize⟩
  have hp := hok.placed.super_lt
  rw [SizeWord, fSize] at hx
  omega

variable (hs : Sized N s s' f c size)

include hs

omit h hf hc in
theorem Sized.within : Within (Footprint s.blocks N f) s.blocks s'.blocks := by
  obtain ⟨s₁, hcut, hw⟩ := hs.cut
  intro x hx
  by_cases hmid : s₁.blocks x = s.blocks x
  · obtain ⟨hlo, hhi⟩ := hw x (hmid ▸ hx)
    rw [fSize] at hlo hhi
    exact .file (by omega) (by rw [BY2FILE]; omega)
  · exact (hcut.shrunk.within x hmid).footprint

omit h hf hc in
theorem Sized.head : HeadSame s.blocks s'.blocks f := by
  obtain ⟨s₁, hcut, hw⟩ := hs.cut
  have hfirst := hcut.shrunk.fields.headSame
  have hsame : ∀ a n, (a + n ≤ fSize f ∨ fSize f + 4 ≤ a) → ByteMem.Same s₁.blocks s'.blocks a n :=
    fun a n hout => hw.same fun x hlo hhi hx => by
      rw [SizeWord] at hx
      omega
  refine ⟨fun x hlo hhi => ?_, fun x hlo hhi => ?_, fun x hlo hhi => ?_⟩
  · rw [hsame f 128 (by rw [fSize]; omega) x hlo hhi, hfirst.name x hlo hhi]
  · rw [hsame (fType f) 4 (by rw [fSize, fType]; omega) x hlo hhi, hfirst.type x hlo hhi]
  · rw [hsame (fDir f) 8 (by rw [fSize, fDir_eq]; omega) x hlo hhi, hfirst.dir x hlo hhi]

theorem Sized.subs {p : Ptr} (hp : p.file = f) : (fileTree s'.blocks).val p = (fileTree s.blocks).val p ∨
    (fileTree s'.blocks).val p = 0 := by
  obtain ⟨s₁, hcut, hw⟩ := hs.cut
  rw [(h.cut_fileOk hf hc hcut).size_ptrs hw hp]
  exact hcut.shrunk.subs p hp

theorem Sized.ptrs : PtrEditIn s.blocks s'.blocks N f := by
  refine PtrEdit.of_sub h.wf.ptrs hf (fun p hp => hs.subs h hf hc hp) fun b hb hu => ?_
  obtain ⟨s₁, hcut, hw⟩ := hs.cut
  have hok := h.cut_fileOk hf hc hcut
  rcases hcut.shrunk.freed b hb hu with hu' | ⟨p, hp, hb0, hval, hnull⟩
  · exact Or.inl ((hok.size_bits hw hb).trans hu')
  · exact Or.inr ⟨p, hp, hb0, hval, (hok.size_ptrs hw hp).trans hnull⟩

/-- The slots of the blocks that are left are as before. -/
theorem Sized.keeps (hj : j < c) : blockNo s'.blocks f j = blockNo s.blocks f j := by
  obtain ⟨s₁, hcut, hw⟩ := hs.cut
  have hok := h.cut_fileOk hf hc hcut
  have hval := hok.size_ptrs hw (p := .slot f j) rfl
  exact hval.trans (hcut.shrunk.keeps j hj)

theorem Sized.rest : Rest (fsShape N) (fileTree s.blocks) (fileTree s'.blocks) f :=
  Within.rest h.wf hf hs.within

end Sized

/-! ## `file_set_size` -/

/-- A file that is open: it and the directory it says it is in are in the cache. -/
structure Held (s : Fs) (N f : Nat) : Prop where
  live : LiveIn s.blocks N f
  cached : Cached s f
  dir : dirOf s.blocks f ≠ 0 → Cached s (dirOf s.blocks f)

/-- File `f` has been edited, and blocks may have been written out. -/
structure FileEdited (N : Nat) (s s' : Fs) (f : Nat) : Prop where
  tree : TreeOk s' N
  steady : Steady s s'
  within : Within (Footprint s.blocks N f) s.blocks s'.blocks
  head : HeadSame s.blocks s'.blocks f
  subs : ∀ p : Ptr, p.file = f → (fileTree s'.blocks).val p = (fileTree s.blocks).val p ∨
    (fileTree s'.blocks).val p = 0

theorem Within.high (h : Within (Footprint m N f) m m₁) (hh : ∀ x, DISKMAP ≤ x → m' x = m₁ x) :
    Within (Footprint m N f) m m' := by
  intro x hx
  by_cases hl : x < DISKMAP
  · exact .low hl
  · rw [hh x (Nat.le_of_not_lt hl)] at hx
    exact h x hx

theorem HeadSame.high (h : HeadSame m m₁ f) (hf : DISKMAP ≤ f) (hh : ∀ x, DISKMAP ≤ x → m' x = m₁ x) :
    HeadSame m m' f where
  name x hlo hhi := (hh x (by omega)).trans (h.name x hlo hhi)
  type x hlo hhi := (hh x (by rw [fType] at hlo; omega)).trans (h.type x hlo hhi)
  dir x hlo hhi := (hh x (by rw [fDir_eq] at hlo; omega)).trans (h.dir x hlo hhi)

theorem TreeOk.dir_known (h : TreeOk s N) (hf : LiveIn s.blocks N f) (h0 : dirOf s.blocks f ≠ 0) :
    EntryIn s.blocks N (dirOf s.blocks f) f := by
  rcases hf.known with hroot | ⟨d, he⟩
  · have hup : dirOf s.blocks rootFile = 0 := h.wf.dirs.rootUp
    have hfr : f = rootFile := hroot
    rw [hfr, hup] at h0
    exact absurd rfl h0
  · have hup : dirOf s.blocks f = 0 ∨ dirOf s.blocks f = d := h.wf.dirs.up d f he
    rw [hup.resolve_left h0]
    exact he

/-- Writing out the directory of a file. -/
theorem TreeOk.flushDir (h : TreeOk s N) (hf : Held s N f) : (RpiMos.flushDir f).Ends s
    (fun _ s' => WroteOut N s s' ∧ (dirOf s.blocks f ≠ 0 →
      CleanFile s' (dirOf s.blocks f) 0 (blockCount s.blocks (dirOf s.blocks f))))
    (fun _ _ => False) AnyStop := by
  refine flushDir_ends (h.fileOk hf.live.known hf.cached) fun h0 => ?_
  have he := h.dir_known hf.live h0
  have hshort : blockCount s.blocks (dirOf s.blocks f) + 1 < NINDIRECT := h.wf.dirs.short _ he.1 he.2.1
  exact ⟨h.fileOk he.1.known (hf.dir h0), by omega⟩

theorem CleanFile.wroteOut {i n : Nat} (h : CleanFile s f i n) (hf : DISKMAP ≤ f) (hs : WroteOut N s s') :
    CleanFile s' f i n := by
  intro k hlo hhi h0
  have hno : blockNo s'.blocks f k = blockNo s.blocks f k := (fileSame_high hs.blocks hf).slot k
  rw [hno] at h0 ⊢
  exact (h k hlo hhi h0).wroteOut hs

/-- `file_close` writes out the file and the directory it is in. -/
theorem fileClose_tree (h : TreeOk s N) (hf : Held s N f) (hn : blockCount s.blocks f < NINDIRECT) :
    (fileClose f).Ends s (fun _ s' => WroteOut N s s' ∧ CleanFile s' f 0 (blockCount s.blocks f) ∧
      (dirOf s.blocks f ≠ 0 → CleanFile s' (dirOf s.blocks f) 0 (blockCount s.blocks (dirOf s.blocks f))))
      (fun _ _ => False) AnyStop := by
  have hok := h.fileOk hf.live.known hf.cached
  rw [fileClose]
  refine Ends.bind (fileFlush_ends hok hn) ?_
  rintro u s₁ ⟨hw, hclean⟩
  have hsame := fun {g} (hg : KnownIn s.blocks N g) => fileSame_high hw.blocks (h.wf.placed hg).high
  have hup : dirOf s₁.blocks f = dirOf s.blocks f := (hsame hf.live.known).up
  have hlive : ∀ {g}, LiveIn s₁.blocks N g ↔ LiveIn s.blocks N g := fun {g} =>
    UpEdit.live (.of_same (fun g hg => hsame hg) fun b _ => by
      show freeBit s₁.blocks b = false ↔ freeBit s.blocks b = false
      rw [freeBit_high hw.blocks])
  have hheld : Held s₁ N f := by
    refine ⟨hlive.mpr hf.live, hf.cached.steady hw.steady, ?_⟩
    rw [hup]
    exact fun h0 => (hf.dir h0).steady hw.steady
  refine ((h.wroteOut hw).flushDir hheld).mono ?_ (fun _ _ h => h) fun _ h => h
  rintro u s' ⟨hw', hdir⟩
  rw [hup] at hdir
  refine ⟨hw.trans hw', hclean.wroteOut hok.placed.high hw', fun h0 => ?_⟩
  have hcount : blockCount s₁.blocks (dirOf s.blocks f) = blockCount s.blocks (dirOf s.blocks f) :=
    (hsame (h.dir_known hf.live h0).1.known).nblk
  rw [← hcount]
  exact hdir h0

/-- How many slots `file_set_size` is sure to leave as they are. -/
def keptSlots (size : U32) (newsize : Word) : Nat :=
  if newsize.toNat < size.toNat then blocksFor newsize.toNat else NINDIRECT

theorem fileSetSize_tree {newsize : Word} (h : TreeOk s N) (hf : Held s N f) (hdir : isDir s.blocks f = false)
    (hn : blockCount s.blocks f < NINDIRECT) :
    (fileSetSize f newsize).Ends s
      (fun _ s' => FileEdited N s s' f ∧ s'.blocks.ld32 (fSize f) = newsize.setWidth 32 ∧
        ∀ j, j < keptSlots (s.blocks.ld32 (fSize f)) newsize → blockNo s'.blocks f j = blockNo s.blocks f j)
      (fun _ _ => False) AnyStop := by
  have hk := hf.live.known
  have hok := h.fileOk hk hf.cached
  have hm := hok.head_mapped (a := fSize f) (n := 4) (by rw [fSize]; omega) (by rw [fSize, BY2FILE]; omega)
  -- From the store of the size on.
  have hlast : ∀ s₁ s₂, Cut N s s₁ f (keptSlots (s.blocks.ld32 (fSize f)) newsize) →
      Became s₁ s₂ s₂.blocks → Within (SizeWord f) s₁.blocks s₂.blocks →
      (store32 (fSize f) (newsize.setWidth 32) >>= fun _ => RpiMos.flushDir f).Ends s₂
        (fun _ s' => FileEdited N s s' f ∧ s'.blocks.ld32 (fSize f) = newsize.setWidth 32 ∧
          ∀ j, j < keptSlots (s.blocks.ld32 (fSize f)) newsize →
            blockNo s'.blocks f j = blockNo s.blocks f j) (fun _ _ => False) AnyStop := by
    intro s₁ s₂ hcut hb hw
    obtain ⟨s₃, hstore, hb₃⟩ := store32_blocks (v := newsize.setWidth 32)
      ((hm.steady hcut.steady).steady hb.steady)
    have hall : Within (SizeWord f) s₁.blocks s₃.blocks := by
      rw [hb₃.blocks]
      exact hw.trans (st32_within _)
    have hboth := hb.trans hb₃
    have hs := hcut.sized h hk hf.cached ⟨rfl, hboth.disk, hboth.steady⟩ hall
      (by rw [hb₃.blocks, ByteMem.ld32_st32])
    have hedit := hs.head.fileEdit (hs.rest h hk hf.cached)
    have hnot := notDir h hf.live hdir
    have htree : TreeOk s₃ N := ⟨hs.mounted, Wf.fileEdit hedit hnot h.wf hf.live (hs.ptrs h hk hf.cached)⟩
    have hup : dirOf s₃.blocks f = dirOf s.blocks f := hedit.up
    have hheld : Held s₃ N f := by
      refine ⟨(FileEdit.live hedit hnot).mpr hf.live, hf.cached.steady hs.steady, ?_⟩
      rw [hup]
      exact fun h0 => (hf.dir h0).steady hs.steady
    apply Ends.bind_ret hstore
    refine (htree.flushDir hheld).mono ?_ (fun _ _ h => h) fun _ h => h
    rintro u s' ⟨hout, -⟩
    have hsame := fileSame_high hout.blocks hok.placed.high
    have hsz := same_high (n := 4) hout.blocks (a := fSize f)
      (by have hp := hok.placed.high; rw [fSize]; omega)
    refine ⟨⟨htree.wroteOut hout, hs.steady.trans _ _ _ hout.steady, hs.within.high hout.blocks,
      hs.head.high hok.placed.high hout.blocks, fun p hp => ?_⟩, hsz.ld32.trans hs.size, fun j hj => ?_⟩
    · have hval : (fileTree s'.blocks).val p = (fileTree s₃.blocks).val p := hsame.val hp
      rw [hval]
      exact hs.subs h hk hf.cached hp
    · exact (hsame.slot j).trans (hs.keeps h hk hf.cached hj)
  rw [fileSetSize]
  apply Ends.bind_ret (load32_blocks hm)
  show Ends (if newsize.toNat < (s.blocks.ld32 (fSize f)).toNat
    then fileTruncate f newsize >>= fun _ => store32 (fSize f) (newsize.setWidth 32) >>= fun _ => RpiMos.flushDir f
    else store32 (fSize f) (newsize.setWidth 32) >>= fun _ => RpiMos.flushDir f) s _ _ _
  by_cases hlt : newsize.toNat < (s.blocks.ld32 (fSize f)).toNat
  · rw [if_pos hlt]
    have hkept : keptSlots (s.blocks.ld32 (fSize f)) newsize = blocksFor newsize.toNat := if_pos hlt
    refine Ends.bind (fileTruncate_ends h hk hf.cached hn) ?_
    rintro u s₂ ⟨s₁, hcut, hb⟩
    refine hlast s₁ s₂ (hkept ▸ hcut) ⟨rfl, hb.disk, hb.steady⟩ ?_
    rw [hb.blocks]
    exact st32_within _
  · rw [if_neg hlt]
    exact hlast s s (.refl h.mounted f _) (.refl s) (.refl _ _)

end RpiMos
