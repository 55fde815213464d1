/-
  RpiMos.Fs.BlockMap

  The block map of one file: `file_map_block` and `file_clear_block` read and
  write a slot of 32 bits through a pointer to 64 bits, so that the word behind
  the slot takes part: the next slot, `f_indirect` behind the last direct one, and
  the first word of the next block in the cache behind the last of all.
-/

import RpiMos.Fs.Mounted

namespace RpiMos

open Lib Prog

variable {s s' s₁ : Fs} {N f fb t i j : Nat} {m m' : ByteMem} {filebno b r : U32}

/-! ## The slots of a file -/

/-- `f->f_indirect`. -/
def fInd (s : Fs) (f : Nat) : Nat := (s.seen.ld32 (fIndirect f)).toNat

/-- Where slot `i` of file `f` is, with table block `t`. -/
def slotAddr (f t i : Nat) : Nat := if i < NDIRECT then fDirect f i else blockAddr t + 4 * i

/-- What stands in a slot; without a table there is nothing in its slots. -/
def slotIn (m : ByteMem) (f t j : Nat) : U32 :=
  if j < NDIRECT then m.ld32 (fDirect f j) else if t = 0 then 0 else m.ld32 (blockAddr t + 4 * j)

/-- The view once the table of the file is in the cache. -/
def Fs.withTable (s : Fs) (f : Nat) : ByteMem :=
  if fInd s f = 0 then s.seen else s.loaded (fInd s f)

/-- The block number recorded for file block `j`, 0 when there is none. -/
def recorded (s : Fs) (f j : Nat) : U32 := slotIn (s.withTable f) f (fInd s f) j

/-- A `struct File` in block `fb`, which is in the cache. -/
structure FileAt (s : Fs) (N f fb : Nat) : Prop where
  lt : fb < N
  lo : blockAddr fb ≤ f
  hi : f + BY2FILE ≤ blockAddr fb + BY2BLK
  place : (fb = 1 ∧ f = sRoot (blockAddr 1)) ∨ firstData N ≤ fb
  mapped : s.mapped (blockPage fb) = true

/-- The table of the file, when it has one, is a block of its own. -/
structure TableAt (s : Fs) (N f fb : Nat) : Prop where
  lo : fInd s f ≠ 0 → firstData N ≤ fInd s f
  ne : fInd s f ≠ 0 → fInd s f ≠ fb
  used : fInd s f ≠ 0 → freeBit s.seen (fInd s f) = false

/-- The blocks before the first data block are in use, and so is block `fb`. -/
structure KnownUsed (s : Fs) (N fb : Nat) : Prop where
  low : ∀ b, b < firstData N → freeBit s.seen b = false
  file : freeBit s.seen fb = false

/-! ## Where the slots are -/

/-- File and table apart from each other and from the bitmap. -/
structure Apart (N f fb t : Nat) : Prop where
  lo : blockAddr fb ≤ f
  hi : f + BY2FILE ≤ blockAddr fb + BY2BLK
  place : (fb = 1 ∧ f = sRoot (blockAddr 1)) ∨ firstData N ≤ fb
  table : t ≠ 0 → firstData N ≤ t ∧ t ≠ fb

theorem FileAt.apart (h : FileAt s N f fb) (ht : TableAt s N f fb) : Apart N f fb (fInd s f) :=
  ⟨h.lo, h.hi, h.place, fun h0 => ⟨ht.lo h0, ht.ne h0⟩⟩

theorem firstData_eq (N : Nat) : firstData N = 2 + (N + 32767) / 32768 := by
  rw [firstData, bitmapBlocks_eq]

/-- The pointers of the file, from the direct ones to `f_indirect`. -/
theorem Apart.file_setBit (h : Apart N f fb t) (hr : r.toNat < N) (free : Bool) {a n : Nat}
    (hlo : f ≤ a) (hhi : a + n ≤ f + BY2FILE) : ByteMem.Same m (setBit m r free) a n := by
  apply same_setBit free hr
  have hb := h.lo
  have he := h.hi
  rw [firstData_eq, blockAddr_eq, blockAddr_eq]
  rw [blockAddr_eq] at hb he
  rw [BY2FILE] at hhi he
  rw [BY2BLK] at he
  rcases h.place with ⟨hfb, -⟩ | hplace
  · omega
  · rw [firstData_eq] at hplace
    omega

theorem Apart.table_setBit (h : Apart N f fb t) (ht : t ≠ 0) (hr : r.toNat < N) (free : Bool)
    {a n : Nat} (hlo : blockAddr t ≤ a) : ByteMem.Same m (setBit m r free) a n := by
  apply same_setBit free hr
  have hdata := (h.table ht).1
  rw [firstData_eq] at hdata ⊢
  rw [blockAddr_eq] at hlo ⊢
  rw [blockAddr_eq]
  omega

theorem data_le_table {k : Nat} (ht : firstData N ≤ t) : blockAddr (firstData N) ≤ blockAddr t + k :=
  Nat.le_trans (Nat.add_le_add_left (Nat.mul_le_mul_right BY2BLK ht) DISKMAP) (Nat.le_add_right _ _)

theorem fDirect_eq (f i : Nat) : fDirect f i = f + 136 + 4 * i := rfl
theorem fIndirect_eq (f : Nat) : fIndirect f = f + 176 := rfl

/-- What is in a slot depends on the slots only. -/
theorem slotIn_same (hfile : ByteMem.Same m m' (fDirect f 0) 40)
    (htable : t ≠ 0 → ByteMem.Same m m' (blockAddr t) 4096) (hj : j < NINDIRECT) :
    slotIn m' f t j = slotIn m f t j := by
  unfold slotIn
  by_cases hd : j < NDIRECT
  · have hsame : ByteMem.Same m m' (fDirect f j) 4 := by
      rw [NDIRECT] at hd
      apply hfile.mono <;> simp only [fDirect_eq] <;> omega
    rw [if_pos hd, if_pos hd, hsame.ld32]
  · rw [if_neg hd, if_neg hd]
    by_cases ht : t = 0
    · rw [if_pos ht, if_pos ht]
    · have hsame : ByteMem.Same m m' (blockAddr t + 4 * j) 4 := by
        rw [NINDIRECT] at hj
        apply (htable ht).mono <;> omega
      rw [if_neg ht, if_neg ht, hsame.ld32]

theorem slotIn_setBit (h : Apart N f fb t) (hr : r.toNat < N) (free : Bool) (hj : j < NINDIRECT) :
    slotIn (setBit m r free) f t j = slotIn m f t j := by
  refine slotIn_same (h.file_setBit hr free ?_ ?_) (fun ht => h.table_setBit ht hr free (le_refl _)) hj
  · rw [fDirect_eq]
    omega
  · rw [fDirect_eq, BY2FILE]
    omega

theorem ind_setBit (h : Apart N f fb t) (hr : r.toNat < N) (free : Bool) :
    (setBit m r free).ld32 (fIndirect f) = m.ld32 (fIndirect f) := by
  refine (h.file_setBit hr free ?_ ?_ : ByteMem.Same _ _ _ 4).ld32
  · rw [fIndirect_eq]
    omega
  · rw [fIndirect_eq, BY2FILE]
    omega

/-- A store to slot `i` alone. -/
theorem slotIn_st32 (h : Apart N f fb t) (hi : i < NINDIRECT) (hj : j < NINDIRECT)
    (ht : NDIRECT ≤ i → t ≠ 0) (v : U32) :
    slotIn (m.st32 (slotAddr f t i) v) f t j = if j = i then v else slotIn m f t j := by
  have hlo := h.lo
  have hhi := h.hi
  rw [blockAddr_eq] at hlo hhi
  rw [BY2FILE, BY2BLK] at hhi
  rw [NINDIRECT] at hi hj
  by_cases hji : j = i
  · rw [if_pos hji, hji]
    unfold slotIn slotAddr
    by_cases hd : i < NDIRECT
    · rw [if_pos hd, if_pos hd, ByteMem.ld32_st32]
    · rw [if_neg hd, if_neg hd, if_neg (ht (Nat.le_of_not_lt hd)), ByteMem.ld32_st32]
  · rw [if_neg hji]
    unfold slotIn
    by_cases hd : j < NDIRECT
    · rw [if_pos hd, if_pos hd]
      refine (ByteMem.same_st32 v ?_ : ByteMem.Same m _ (fDirect f j) 4).ld32
      unfold slotAddr
      rw [NDIRECT] at hd
      split
      · rw [fDirect_eq, fDirect_eq]
        omega
      · rename_i hdi
        have hne := (h.table (ht (Nat.le_of_not_lt hdi))).2
        rw [fDirect_eq, blockAddr_eq]
        omega
    · rw [if_neg hd, if_neg hd]
      by_cases ht0 : t = 0
      · rw [if_pos ht0, if_pos ht0]
      · rw [if_neg ht0, if_neg ht0]
        have hne := (h.table ht0).2
        refine (ByteMem.same_st32 v ?_ : ByteMem.Same m _ (blockAddr t + 4 * j) 4).ld32
        unfold slotAddr
        rw [NDIRECT] at hd
        split
        · rename_i hdi
          rw [NDIRECT] at hdi
          rw [fDirect_eq, blockAddr_eq]
          omega
        · omega

theorem ind_st32_slot (h : Apart N f fb t) (hi : i < NINDIRECT) (ht : NDIRECT ≤ i → t ≠ 0) (v : U32) :
    (m.st32 (slotAddr f t i) v).ld32 (fIndirect f) = m.ld32 (fIndirect f) := by
  have hlo := h.lo
  have hhi := h.hi
  rw [blockAddr_eq] at hlo hhi
  rw [BY2FILE, BY2BLK] at hhi
  rw [NINDIRECT] at hi
  refine (ByteMem.same_st32 v ?_ : ByteMem.Same m _ (fIndirect f) 4).ld32
  unfold slotAddr
  split
  · rename_i hd
    rw [NDIRECT] at hd
    rw [fDirect_eq, fIndirect_eq]
    omega
  · rename_i hd
    have hne := (h.table (ht (Nat.le_of_not_lt hd))).2
    rw [fIndirect_eq, blockAddr_eq]
    omega

/-- The file is not in the bitmap. -/
theorem Apart.file_bits (h : Apart N f fb t) {n : Nat} (hn : n < N) :
    bitWord n + 8 ≤ f ∨ f + BY2FILE ≤ bitWord n := by
  have hb := h.lo
  have he := h.hi
  rw [blockAddr_eq] at hb he
  rw [BY2BLK] at he
  rw [bitWord, blockAddr_eq]
  rcases h.place with ⟨hfb, -⟩ | hplace
  · omega
  · rw [firstData_eq] at hplace
    omega

theorem bits_lt_data {n : Nat} (ht : firstData N ≤ t) (hn : n < N) : bitWord n + 8 ≤ blockAddr t := by
  rw [firstData_eq] at ht
  rw [bitWord, blockAddr_eq, blockAddr_eq]
  omega

/-- The file is behind the number of blocks in the super block. -/
theorem Apart.super_lt (h : Apart N f fb t) : blockAddr 1 + 4 + 4 ≤ f := by
  rcases h.place with ⟨-, hf⟩ | hplace
  · rw [hf, sRoot]
  · have hb := h.lo
    rw [blockAddr_eq] at hb
    rw [firstData_eq] at hplace
    rw [blockAddr_eq]
    omega

theorem super_lt_data (ht : firstData N ≤ t) : blockAddr 1 + 4 + 4 ≤ blockAddr t := by
  rw [firstData_eq] at ht
  rw [blockAddr_eq, blockAddr_eq]
  omega

/-- Bits do not change when the bytes that do are not in the bitmap. -/
theorem freeBit_same {n : Nat} (h : ByteMem.Same m m' (bitWord n) 8) : freeBit m' n = freeBit m n := by
  rw [freeBit, freeBit, h.ld64]

/-- Where a slot is: in the file or in its table. -/
theorem slotAddr_cases (f t : Nat) (hi : i < NINDIRECT) (ht : NDIRECT ≤ i → t ≠ 0) :
    (f ≤ slotAddr f t i ∧ slotAddr f t i + 4 + BY2FILE ≤ f + BY2FILE + 176) ∨
    (t ≠ 0 ∧ blockAddr t ≤ slotAddr f t i ∧ slotAddr f t i + 4 ≤ blockAddr t + 4096) := by
  unfold slotAddr
  by_cases hd : i < NDIRECT
  · left
    rw [if_pos hd, fDirect_eq]
    rw [NDIRECT] at hd
    omega
  · right
    rw [if_neg hd]
    rw [NINDIRECT] at hi
    exact ⟨ht (Nat.le_of_not_lt hd), by omega, by omega⟩

/-- A store to a slot is not one to the bitmap. -/
theorem freeBit_st32_slot (h : Apart N f fb t) (hi : i < NINDIRECT) (ht : NDIRECT ≤ i → t ≠ 0)
    (v : U32) {n : Nat} (hn : n < N) :
    freeBit (m.st32 (slotAddr f t i) v) n = freeBit m n := by
  apply freeBit_same
  apply ByteMem.same_st32
  have hfile := h.file_bits hn
  rw [BY2FILE] at hfile
  rcases slotAddr_cases f t hi ht with ⟨hlo, hhi⟩ | ⟨ht0, hlo, -⟩
  · omega
  · have hdata := bits_lt_data (h.table ht0).1 hn
    omega

/-! ## What is recorded -/

theorem recorded_of_mapped (h : fInd s f ≠ 0 → s.mapped (blockPage (fInd s f)) = true) :
    recorded s f j = slotIn s.seen f (fInd s f) j := by
  unfold recorded Fs.withTable
  by_cases h0 : fInd s f = 0
  · rw [if_pos h0]
  · rw [if_neg h0, Fs.loaded, if_pos (h h0)]

/-- Outside the block itself loading a block changes nothing. -/
theorem loaded_same {b a n : Nat} (h : a + n ≤ blockAddr b ∨ blockAddr b + 4096 ≤ a) :
    ByteMem.Same s.seen (s.loaded b) a n := by
  intro x hlo hhi
  unfold Fs.loaded
  split
  · rfl
  · rw [ByteMem.fill, if_neg]
    rw [BY2BLK]
    omega

theorem withTable_same {a n : Nat}
    (h : fInd s f ≠ 0 → a + n ≤ blockAddr (fInd s f) ∨ blockAddr (fInd s f) + 4096 ≤ a) :
    ByteMem.Same s.seen (s.withTable f) a n := by
  unfold Fs.withTable
  by_cases h0 : fInd s f = 0
  · rw [if_pos h0]
    exact fun _ _ _ => rfl
  · rw [if_neg h0]
    exact loaded_same (h h0)

/-- The bytes of the file are not in its table. -/
theorem Apart.file_table (h : Apart N f fb t) (ht : t ≠ 0) {a n : Nat} (hlo : f ≤ a)
    (hhi : a + n ≤ f + BY2FILE) : a + n ≤ blockAddr t ∨ blockAddr t + 4096 ≤ a := by
  have hb := h.lo
  have he := h.hi
  have hne := (h.table ht).2
  rw [blockAddr_eq] at hb he
  rw [BY2FILE] at hhi he
  rw [BY2BLK] at he
  rw [blockAddr_eq]
  omega

theorem recorded_direct (h : Apart N f fb (fInd s f)) (hj : j < NDIRECT) :
    recorded s f j = s.seen.ld32 (fDirect f j) := by
  have hsame : ByteMem.Same s.seen (s.withTable f) (fDirect f j) 4 := by
    refine withTable_same fun h0 => h.file_table h0 ?_ ?_
    · rw [fDirect_eq]
      omega
    · rw [NDIRECT] at hj
      rw [fDirect_eq, BY2FILE]
      omega
  rw [recorded, slotIn, if_pos hj, hsame.ld32]

/-- The slots in the table, when neither it nor its place in the cache changes. -/
theorem recorded_table_same (hind : fInd s' f = fInd s f) (hdisk : s'.disk = s.disk)
    (hmap : fInd s f ≠ 0 → s'.mapped (blockPage (fInd s f)) = s.mapped (blockPage (fInd s f)))
    (hsame : fInd s f ≠ 0 → ByteMem.Same s.seen s'.seen (blockAddr (fInd s f)) 4096)
    (hd : ¬ j < NDIRECT) (hj : j < NINDIRECT) : recorded s' f j = recorded s f j := by
  unfold recorded slotIn Fs.withTable
  rw [if_neg hd, if_neg hd, hind]
  by_cases h0 : fInd s f = 0
  · rw [if_pos h0, if_pos h0]
  · have hload : ByteMem.Same (s.loaded (fInd s f)) (s'.loaded (fInd s f))
        (blockAddr (fInd s f)) 4096 := by
      intro x hlo hhi
      unfold Fs.loaded
      rw [hmap h0]
      split
      · exact hsame h0 x hlo hhi
      · simp only [ByteMem.fill]
        rw [if_pos ⟨hlo, hhi⟩, if_pos ⟨hlo, hhi⟩, hdisk]
    have hword : ByteMem.Same (s.loaded (fInd s f)) (s'.loaded (fInd s f))
        (blockAddr (fInd s f) + 4 * j) 4 := by
      rw [NINDIRECT] at hj
      apply hload.mono <;> omega
    rw [if_neg h0, if_neg h0, if_neg h0, if_neg h0, hword.ld32]

/-! ## `file_block_walk` -/

theorem FileAt.mappedOn (h : FileAt s N f fb) {a n : Nat} (hlo : f ≤ a)
    (hhi : a + n ≤ f + BY2FILE) : s.MappedOn a n := by
  have hb := h.lo
  have he := h.hi
  rw [BY2BLK] at he
  exact mappedOn_block h.mapped (by omega) (by omega)

theorem loadInd_eq (h : FileAt s N f fb) :
    load32 (fIndirect f) s = .ret (s.seen.ld32 (fIndirect f)) s := by
  refine load32_of_mapped (h.mappedOn ?_ ?_)
  · rw [fIndirect_eq]
    omega
  · rw [fIndirect_eq, BY2FILE]
    omega

/-- The file stays where it is. -/
theorem FileAt.steady (h : FileAt s N f fb) (hst : Steady s s') : FileAt s' N f fb where
  lt := h.lt
  lo := h.lo
  hi := h.hi
  place := h.place
  mapped := hst.mapped _ h.mapped

theorem FirstFree.ne_used (h : FirstFree m N i) (hused : freeBit m j = false) : i ≠ j := by
  rintro rfl
  rw [h.free] at hused
  cases hused

theorem FirstFree.data (h : FirstFree s.seen N i) (hk : KnownUsed s N fb) : firstData N ≤ i := by
  by_contra hlt
  have hbit := hk.low i (Nat.lt_of_not_le hlt)
  rw [h.free] at hbit
  cases hbit

/-- The table that a walk uses: the one there is, or the first free block. -/
structure Walked (s s₁ : Fs) (N f fb t : Nat) : Prop where
  mounted : Mounted s₁ N
  file : FileAt s₁ N f fb
  apart : Apart N f fb t
  ne : t ≠ 0
  ind : fInd s₁ f = t
  mapped : s₁.mapped (blockPage t) = true
  used : freeBit s₁.seen t = false
  steady : Steady s s₁
  seen : (fInd s f = t ∧ s₁.seen = s.loaded t) ∨
    ∃ r : U32, r.toNat = t ∧ fInd s f = 0 ∧ FirstFree s.seen N t ∧
      s₁.seen = (setBit s.seen r false).st32 (fIndirect f) r

theorem loaded_bit {n : Nat} (ht : firstData N ≤ t) (hn : n < N) :
    freeBit (s.loaded t) n = freeBit s.seen n :=
  freeBit_same (loaded_same (Or.inl (bits_lt_data ht hn)))

theorem toNat_ne_zero {r : U32} (h : r ≠ 0) : r.toNat ≠ 0 :=
  fun h0 => h (BitVec.eq_of_toNat_eq h0)

/-- The walk through the table that there is. -/
theorem walked_old {va : Nat} {isnew : Bool} (h : Mounted s N) (hf : FileAt s N f fb)
    (ht : TableAt s N f fb) (h0 : fInd s f ≠ 0)
    (hread : readBlock (s.seen.ld32 (fIndirect f)) s = .ret (va, isnew) s₁) :
    va = blockAddr (fInd s f) ∧ Walked s s₁ N f fb (fInd s f) := by
  obtain ⟨hlt, hused, hva, hmapped, hw⟩ := readBlock_ret h hread
  have hlo := ht.lo h0
  have hap := hf.apart ht
  have hind : ByteMem.Same s.seen (s.loaded (fInd s f)) (fIndirect f) 4 := by
    refine loaded_same (hap.file_table h0 ?_ ?_)
    · rw [fIndirect_eq]
      omega
    · rw [fIndirect_eq, BY2FILE]
      omega
  refine ⟨hva, ?_, ?_, hap, h0, ?_, hmapped, ?_, hw.steady, Or.inl ⟨rfl, hw.seen⟩⟩
  · exact h.wrote hw (loaded_same (Or.inl (super_lt_data hlo)))
  · exact hf.steady hw.steady
  · rw [fInd, hw.seen]
    exact congrArg BitVec.toNat hind.ld32
  · rw [hw.seen]
    exact (loaded_bit hlo hlt).trans hused

/-- The walk through a table that is made of the first free block. -/
theorem walked_new {r : U32} {s₂ s₃ : Fs} {u : Unit} {va : Nat} {isnew : Bool} (h : Mounted s N)
    (hf : FileAt s N f fb) (hk : KnownUsed s N fb) (h0 : fInd s f = 0)
    (halloc : allocBlock s = .ret r s₂) (hstore : store32 (fIndirect f) r s₂ = .ret u s₃)
    (hread : readBlock (s₃.seen.ld32 (fIndirect f)) s₃ = .ret (va, isnew) s₁) :
    va = blockAddr r.toNat ∧ Walked s s₁ N f fb r.toNat := by
  obtain ⟨hfirst, hw, -, hmapped⟩ := allocBlock_ret h halloc
  have hap : Apart N f fb r.toNat :=
    ⟨hf.lo, hf.hi, hf.place, fun _ => ⟨hfirst.data hk, hfirst.ne_used hk.file⟩⟩
  have hw₃ := hw.trans (store32_ret hstore)
  rw [hw.seen] at hw₃
  have hsuper := hap.super_lt
  have hmount : Mounted s₃ N := by
    refine h.wrote hw₃ fun x hlo hhi => ?_
    rw [ByteMem.same_st32 r (b := blockAddr 1 + 4) (n := 4) (Or.inr (by rw [fIndirect_eq]; omega)) x
      hlo hhi]
    exact same_setBit false hfirst.hi (Or.inl (by rw [blockAddr_eq, blockAddr_eq]; omega)) x hlo hhi
  have hind : s₃.seen.ld32 (fIndirect f) = r := by
    rw [hw₃.seen, ByteMem.ld32_st32]
  rw [hind] at hread
  obtain ⟨-, hused, hva, hmapped₁, hw₁⟩ := readBlock_ret hmount hread
  have hsame : s₁.seen = s₃.seen := by
    rw [hw₁.seen, Fs.loaded, if_pos ((quiet_store32 _ _).ret hstore |>.mapped _ hmapped)]
  have ht : Wrote s₃ s₁ s₃.seen := ⟨hsame, hw₁.disk, hw₁.steady⟩
  refine ⟨hva, hmount.wrote ht fun _ _ _ => rfl, hf.steady (hw₃.steady.trans _ _ _ hw₁.steady), hap,
    ?_, ?_, hmapped₁, hsame ▸ hused,
    hw₃.steady.trans _ _ _ hw₁.steady, Or.inr ⟨r, rfl, h0, hfirst, hsame.trans hw₃.seen⟩⟩
  · have := hfirst.lo
    omega
  · rw [fInd, hsame, hind]

/-- A walk to an indirect slot that ends well. -/
theorem fileBlockWalk_ret {alloc : Bool} {ptr : Nat} (h : Mounted s N) (hf : FileAt s N f fb)
    (ht : TableAt s N f fb) (hk : alloc = true → KnownUsed s N fb) (hd : ¬ filebno.toNat < NDIRECT)
    (hr : fileBlockWalk f filebno alloc s = .ret ptr s₁) :
    ∃ t, ptr = slotAddr f t filebno.toNat ∧ Walked s s₁ N f fb t ∧ (alloc = false → fInd s f = t) := by
  rw [fileBlockWalk, if_neg hd] at hr
  by_cases hlt : filebno.toNat < NINDIRECT
  · rw [if_pos hlt] at hr
    obtain ⟨u, s₂, hind, hr⟩ := bind_eq_ret.mp hr
    obtain ⟨ind, s₃, hload, hr⟩ := bind_eq_ret.mp hr
    obtain ⟨⟨blk, isnew⟩, s₄, hread, hr⟩ := bind_eq_ret.mp hr
    cases hr
    rw [walkIndirect, bind_ret (loadInd_eq hf)] at hind
    by_cases h0 : s.seen.ld32 (fIndirect f) = 0
    · rw [if_pos h0] at hind
      cases alloc with
      | false => cases hind
      | true =>
          simp only [if_true] at hind
          obtain ⟨r, s₅, halloc, hstore⟩ := bind_eq_ret.mp hind
          have hm : s₂.MappedOn (fIndirect f) 4 := by
            have hm₀ : s.MappedOn (fIndirect f) 4 := hf.mappedOn (by rw [fIndirect_eq]; omega)
              (by rw [fIndirect_eq, BY2FILE]; omega)
            have hst := (quiet_allocBlock.ret halloc).trans _ _ _ ((quiet_store32 _ _).ret hstore)
            exact fun x hlo hhi => hst.mapped _ (hm₀ x hlo hhi)
          rw [load32_of_mapped hm] at hload
          cases hload
          obtain ⟨hva, hwalk⟩ := walked_new h hf (hk rfl) (congrArg BitVec.toNat h0) halloc hstore hread
          exact ⟨r.toNat, by rw [hva, slotAddr, if_neg hd], hwalk, by rintro ⟨⟩⟩
    · rw [if_neg h0] at hind
      cases hind
      rw [loadInd_eq hf] at hload
      cases hload
      obtain ⟨hva, hwalk⟩ := walked_old h hf ht (toNat_ne_zero h0) hread
      exact ⟨fInd s f, by rw [hva, slotAddr, if_neg hd], hwalk, fun _ => rfl⟩
  · rw [if_neg hlt] at hr
    cases hr

/-! ## The rest of `file_map_block` -/

/-- The slot is a word that is not in the bitmap. -/
theorem slotAddr_out (h : Apart N f fb t) (hi : i < NINDIRECT) (ht : NDIRECT ≤ i → t ≠ 0) :
    slotAddr f t i + 8 ≤ blockAddr 2 ∨ blockAddr (firstData N) ≤ slotAddr f t i := by
  have hb := h.lo
  have he := h.hi
  rw [blockAddr_eq] at hb he
  rw [BY2FILE, BY2BLK] at he
  rw [blockAddr_eq, blockAddr_eq, firstData_eq]
  rcases slotAddr_cases f t hi ht with ⟨hlo, hhi⟩ | ⟨ht0, hlo, -⟩
  · rw [BY2FILE] at hhi
    rcases h.place with ⟨hfb, -⟩ | hplace
    · omega
    · rw [firstData_eq] at hplace
      omega
  · have hdata := (h.table ht0).1
    rw [firstData_eq] at hdata
    rw [blockAddr_eq] at hlo
    omega

/-- A slot that is taken for full is left; one that is empty gets the first free
    block. -/
theorem mapPointer_ret {ptr : Nat} (h : Mounted s₁ N)
    (hout : ptr + 8 ≤ blockAddr 2 ∨ blockAddr (firstData N) ≤ ptr)
    (hr : (mapPointer ptr true >>= fun _ => load64 ptr >>= fun v =>
      (pure (v.setWidth 32) : FsM U32)) s₁ = .ret b s') :
    (s₁.seen.ld64 ptr ≠ 0 ∧ b = s₁.seen.ld32 ptr ∧ Touched s₁ s' ∧
      (s₁.MappedOn ptr 8 → s' = s₁)) ∨
    (s₁.seen.ld64 ptr = 0 ∧ FirstFree s₁.seen N b.toNat ∧
      Wrote s₁ s' ((setBit s₁.seen b false).st32 ptr b) ∧
      (s₁.MappedOn ptr 8 → MapsOnly s₁ s' (blockPage b.toNat))) := by
  obtain ⟨u, s₂, hmap, hr⟩ := bind_eq_ret.mp hr
  obtain ⟨w, s₃, hlast, hr⟩ := bind_eq_ret.mp hr
  cases hr
  obtain ⟨v, s₄, hfirst, hmap⟩ := bind_eq_ret.mp hmap
  obtain ⟨hv, ht₄, hon⟩ := load64_ret hfirst
  obtain ⟨hw, ht₃, -⟩ := load64_ret hlast
  by_cases h0 : v = 0
  · right
    rw [if_pos h0] at hmap
    simp only [if_true] at hmap
    obtain ⟨r, s₅, halloc, hstore⟩ := bind_eq_ret.mp hmap
    obtain ⟨hfree, hw₅, honly, -⟩ := allocBlock_ret (h.touched ht₄) halloc
    have hst := store64_ret hstore
    have hon₅ : s₅.MappedOn ptr 8 := fun x hlo hhi => hw₅.steady.mapped _ (hon x hlo hhi)
    have hzero : s₁.seen.ld64 ptr = 0 := hv ▸ h0
    rw [ht₄.seen] at hfree hw₅
    -- The upper word is null before the store, and again after it.
    have hup : (setBit s₁.seen r false).ld32 (ptr + 4) = 0 := by
      have hsame : ByteMem.Same s₁.seen (setBit s₁.seen r false) (ptr + 4) 4 :=
        same_setBit false hfree.hi (by omega)
      rw [hsame.ld32]
      exact (ByteMem.ld64_eq_zero.mp hzero).2
    rw [hw₅.seen, ByteMem.st64_eq_st32 r hup] at hst
    have hb : w.setWidth 32 = r := by
      rw [hw, ByteMem.ld64_setWidth, hst.seen, ByteMem.ld32_st32]
    rw [hb]
    refine ⟨hzero, hfree, ((ht₄.wrote_trans hw₅).trans hst).touched ht₃, fun hm => ?_⟩
    have hs₄ : s₄ = s₁ := load64_same hfirst hm
    subst hs₄
    rw [store64_of_mapped hon₅] at hstore
    cases hstore
    rw [load64_same hlast hon₅]
    exact honly
  · left
    rw [if_neg h0] at hmap
    cases hmap
    refine ⟨hv ▸ h0, ?_, ht₄.trans ht₃, fun hm => ?_⟩
    · rw [hw, ByteMem.ld64_setWidth, ht₄.seen]
    · have hs₂ : s₂ = s₁ := load64_same hfirst hm
      rw [hs₂] at hlast
      exact load64_same hlast hm

/-- The memory after block `b` has been marked and slot `i` become `v`. -/
def putSlot (m : ByteMem) (f t i : Nat) (b : U32) (free : Bool) (v : U32) : ByteMem :=
  (setBit m b free).st32 (slotAddr f t i) v

section PutSlot

variable {free : Bool} {v : U32} (h : Apart N f fb t) (hi : i < NINDIRECT) (ht : NDIRECT ≤ i → t ≠ 0)

include h hi ht

theorem slotIn_put (hb : b.toNat < N) (hj : j < NINDIRECT) :
    slotIn (putSlot m f t i b free v) f t j = if j = i then v else slotIn m f t j := by
  rw [putSlot, slotIn_st32 h hi hj ht, slotIn_setBit h hb free hj]

theorem ind_put (hb : b.toNat < N) :
    (putSlot m f t i b free v).ld32 (fIndirect f) = m.ld32 (fIndirect f) := by
  rw [putSlot, ind_st32_slot h hi ht, ind_setBit h hb]

theorem freeBit_put {n : Nat} (hn : n < N) :
    freeBit (putSlot m f t i b free v) n = if n = b.toNat then free else freeBit m n := by
  rw [putSlot, freeBit_st32_slot h hi ht v hn, freeBit_setBit]

omit h hi ht in
/-- Only the slot and the bitmap change. -/
theorem put_same (hb : b.toNat < N) {a n : Nat}
    (hslot : slotAddr f t i + 4 ≤ a ∨ a + n ≤ slotAddr f t i)
    (hbits : a + n ≤ blockAddr 2 ∨ blockAddr (firstData N) ≤ a) :
    ByteMem.Same m (putSlot m f t i b free v) a n := by
  intro x hlo hhi
  rw [putSlot, ByteMem.same_st32 v hslot x hlo hhi]
  exact same_setBit free hb hbits x hlo hhi

end PutSlot

/-! ## What the two functions are to do -/

/-- In the block pointers of the file. -/
def InPointers (f a : Nat) : Prop := fDirect f 0 ≤ a ∧ a < fIndirect f + 4

def InBlock (b a : Nat) : Prop := blockAddr b ≤ a ∧ a < blockAddr b + BY2BLK

def InBitmap (N a : Nat) : Prop := blockAddr 2 ≤ a ∧ a < blockAddr (firstData N)

/-- A block that was free and is in use now. -/
def Taken (s s' : Fs) (N b : Nat) : Prop :=
  b < N ∧ freeBit s.seen b = true ∧ freeBit s'.seen b = false

/-- Slot `i` apart, the file has the blocks it had, and no byte changes but in its
    block pointers, its table and the bitmap. -/
structure KeepsOthers (s s' : Fs) (N f i : Nat) : Prop where
  slots : ∀ j, j < NINDIRECT → j ≠ i → recorded s' f j = recorded s f j
  frame : ∀ a, ¬ InPointers f a → ¬ (fInd s' f ≠ 0 ∧ InBlock (fInd s' f) a) → ¬ InBitmap N a →
    s'.seen a = s.seen a

/-- What `file_map_block(f, i, &b, 1)` is to do. -/
structure MapsBlock (s s' : Fs) (N f i : Nat) (b : U32) : Prop where
  others : KeepsOthers s s' N f i
  /-- Only a table that is not there yet is made. -/
  ind : fInd s' f = fInd s f ∨ (NDIRECT ≤ i ∧ fInd s f = 0 ∧ Taken s s' N (fInd s' f))
  old : recorded s f i ≠ 0 → b = recorded s f i
  new : recorded s f i = 0 → b ≠ 0 ∧ Taken s s' N b.toNat ∧ b.toNat ≠ fInd s' f
  now : recorded s' f i = b
  bits : ∀ n, n < N → freeBit s'.seen n ≠ freeBit s.seen n →
    (recorded s f i = 0 ∧ n = b.toNat) ∨ (fInd s f = 0 ∧ n = fInd s' f)

/-- What `file_clear_block(f, i)` is to do. -/
structure ClearsBlock (s s' : Fs) (N f i : Nat) : Prop where
  others : KeepsOthers s s' N f i
  ind : fInd s' f = fInd s f
  now : recorded s' f i = 0
  freed : recorded s f i ≠ 0 → freeBit s'.seen (recorded s f i).toNat = true
  bits : ∀ n, n < N → n ≠ (recorded s f i).toNat → freeBit s'.seen n = freeBit s.seen n

/-- The word behind slot `i`: the next slot, `f_indirect`, or the first word of the
    block that follows the table in the cache. -/
def nextWord (s : Fs) (f i : Nat) : U32 :=
  if i < NDIRECT then s.seen.ld32 (fDirect f (i + 1))
  else (s.withTable f).ld32 (blockAddr (fInd s f) + 4 * (i + 1))

/-- The block that becomes the table holds nothing in the cache, and nothing
    follows slot `i` in it. -/
def BlankTable (s : Fs) (N i : Nat) : Prop := ∀ t, FirstFree s.seen N t →
  (∀ j, NDIRECT ≤ j → j < NINDIRECT → s.seen.ld32 (blockAddr t + 4 * j) = 0) ∧
    s.seen.ld32 (blockAddr t + 4 * (i + 1)) = 0

/-- Slot `i` is full, or the word behind it is null; and a new table is blank. -/
def SlotReadable (s : Fs) (N f i : Nat) : Prop :=
  if NDIRECT ≤ i ∧ fInd s f = 0 then BlankTable s N i
  else recorded s f i ≠ 0 ∨ nextWord s f i = 0

/-! ## Direct slots -/

theorem slotAddr_direct (hd : i < NDIRECT) : slotAddr f t i = fDirect f i := if_pos hd

theorem nextWord_direct (hd : i < NDIRECT) : nextWord s f i = s.seen.ld32 (fDirect f i + 4) := by
  rw [nextWord, if_pos hd]
  rfl

/-- A slot of 64 bits is null when both its words are. -/
theorem ld64_slot_ne (h : m.ld64 i ≠ 0) : m.ld32 i ≠ 0 ∨ m.ld32 (i + 4) ≠ 0 := by
  by_contra hboth
  rw [not_or, not_not, not_not] at hboth
  exact h (ByteMem.ld64_eq_zero.mpr hboth)

theorem mapsBlock_direct (h : Mounted s N) (hf : FileAt s N f fb) (ht : TableAt s N f fb)
    (hd : filebno.toNat < NDIRECT) (hr : fileMapBlock f filebno true s = .ret b s') :
    MapsBlock s s' N f filebno.toNat b ↔ SlotReadable s N f filebno.toNat := by
  have hap := hf.apart ht
  have hi : filebno.toNat < NINDIRECT := hd.trans (by decide)
  have hnot : ¬ NDIRECT ≤ filebno.toNat := Nat.not_le_of_lt hd
  have hti : NDIRECT ≤ filebno.toNat → fInd s f ≠ 0 := fun hle => absurd hle hnot
  have hrec := recorded_direct hap hd
  have hptr : slotAddr f (fInd s f) filebno.toNat = fDirect f filebno.toNat := slotAddr_direct hd
  have hm : s.MappedOn (fDirect f filebno.toNat) 8 := by
    rw [NDIRECT] at hd
    apply hf.mappedOn <;> simp only [fDirect_eq, BY2FILE] <;> omega
  rw [SlotReadable, if_neg fun hc => hnot hc.1, nextWord_direct hd, hrec]
  rw [fileMapBlock, fileBlockWalk, if_pos hd] at hr
  rcases mapPointer_ret h (hptr ▸ slotAddr_out hap hi hti) hr with
    ⟨hne, hb, -, hsame⟩ | ⟨hzero, hfirst, hw, honly⟩
  · -- The slot is taken for full: nothing changes.
    rw [hsame hm]
    constructor
    · intro hmaps
      by_contra hbad
      rw [not_or, not_not] at hbad
      exact (hmaps.new (hrec.trans hbad.1)).1 (hb.trans hbad.1)
    · intro hok
      have hfull : s.seen.ld32 (fDirect f filebno.toNat) ≠ 0 := by
        rcases hok with hfull | hnext
        · exact hfull
        · rcases ld64_slot_ne hne with hfull | hnext'
          · exact hfull
          · exact absurd hnext hnext'
      refine ⟨⟨fun _ _ _ => rfl, fun _ _ _ _ => rfl⟩, Or.inl rfl, fun _ => hb.trans hrec.symm,
        fun h0 => absurd (hrec.symm.trans h0) hfull, hrec.trans hb.symm, fun n _ hn => absurd rfl hn⟩
  · obtain ⟨h0, hnext⟩ := ByteMem.ld64_eq_zero.mp hzero
    refine ⟨fun _ => Or.inr hnext, fun _ => ?_⟩
    have hseen : s'.seen = putSlot s.seen f (fInd s f) filebno.toNat b false b := by
      rw [hw.seen, putSlot, hptr]
    have hind : fInd s' f = fInd s f := by
      rw [fInd, hseen, ind_put hap hi hti hfirst.hi]
      rfl
    have hb0 : b ≠ 0 := by
      rintro rfl
      exact absurd hfirst.lo (by decide)
    have hbt : fInd s f ≠ 0 → b.toNat ≠ fInd s f := fun ht0 => hfirst.ne_used (ht.used ht0)
    have hap' : Apart N f fb (fInd s' f) := hind ▸ hap
    have hslot : ∀ j, j < NDIRECT → recorded s' f j =
        if j = filebno.toNat then b else recorded s f j := by
      intro j hj
      have hgiven : slotIn (putSlot s.seen f (fInd s f) filebno.toNat b false b) f (fInd s f) j =
          if j = filebno.toNat then b else slotIn s.seen f (fInd s f) j :=
        slotIn_put hap hi hti hfirst.hi (hj.trans (by decide))
      rw [recorded_direct hap' hj, recorded_direct hap hj, hseen]
      rwa [slotIn, if_pos hj, slotIn, if_pos hj] at hgiven
    have hnow : recorded s' f filebno.toNat = b := by rw [hslot _ hd, if_pos rfl]
    refine ⟨⟨fun j hj hji => ?_, fun a hfile htab hbits => ?_⟩, Or.inl hind,
      fun hne => absurd (hrec.trans h0) hne, fun _ => ⟨hb0, ⟨hfirst.hi, hfirst.free, ?_⟩, ?_⟩, hnow,
      fun n hn hne => ?_⟩
    · by_cases hjd : j < NDIRECT
      · rw [hslot j hjd, if_neg hji]
      · refine recorded_table_same hind hw.disk (fun ht0 => ?_) (fun ht0 => ?_) hjd hj
        · refine honly hm _ ?_
          rw [blockPage_eq, blockPage_eq]
          have := hbt ht0
          omega
        · rw [hseen]
          refine put_same hfirst.hi ?_ (Or.inr ?_)
          · have hout := hap.file_table (a := fDirect f filebno.toNat) (n := 4) ht0 ?_ ?_
            · rw [hptr]
              omega
            · rw [fDirect_eq]
              omega
            · rw [NDIRECT] at hd
              rw [fDirect_eq, BY2FILE]
              omega
          · have := (hap.table ht0).1
            rw [blockAddr_eq, blockAddr_eq]
            omega
    · rw [hseen]
      refine put_same (n := 1) hfirst.hi ?_ ?_ a (le_refl a) (Nat.lt_succ_self a)
      · rw [NDIRECT] at hd
        rw [InPointers, fDirect_eq, fIndirect_eq] at hfile
        rw [hptr, fDirect_eq]
        omega
      · rw [InBitmap] at hbits
        omega
    · rw [hseen, freeBit_put hap hi hti hfirst.hi, if_pos rfl]
    · rw [hind]
      by_cases ht0 : fInd s f = 0
      · rw [ht0]
        exact toNat_ne_zero hb0
      · exact hbt ht0
    · rw [hseen, freeBit_put hap hi hti hn] at hne
      by_cases hnb : n = b.toNat
      · exact Or.inl ⟨hrec.trans h0, hnb⟩
      · rw [if_neg hnb] at hne
        exact absurd rfl hne

/-! ## Slots of the table -/

theorem slotAddr_table (hd : ¬ i < NDIRECT) : slotAddr f t i = blockAddr t + 4 * i := if_neg hd

theorem slotIn_table (hd : ¬ j < NDIRECT) (ht : t ≠ 0) :
    slotIn m f t j = m.ld32 (blockAddr t + 4 * j) := by
  rw [slotIn, if_neg hd, if_neg ht]

theorem Walked.recorded (hw : Walked s s₁ N f fb t) (hst : Steady s₁ s') (hind : fInd s' f = t) :
    recorded s' f j = slotIn s'.seen f t j := by
  rw [recorded_of_mapped, hind]
  intro _
  rw [hind]
  exact hst.mapped _ hw.mapped

/-- What is not in the file, its table or the bitmap is not in the slot either. -/
theorem put_frame (hd : ¬ i < NDIRECT) (hi : i < NINDIRECT) (hb : b.toNat < N) {a : Nat}
    (htab : ¬ InBlock t a) (hbits : ¬ InBitmap N a) {free : Bool} {v : U32} :
    putSlot m f t i b free v a = m a := by
  rw [NINDIRECT] at hi
  rw [InBlock, BY2BLK] at htab
  rw [InBitmap] at hbits
  refine put_same (n := 1) hb ?_ (by omega) a (le_refl a) (Nat.lt_succ_self a)
  rw [slotAddr_table hd]
  omega

/-- With a table that is there. -/
theorem mapsBlock_table (hi : i < NINDIRECT) (hd : ¬ i < NDIRECT) (hwalk : Walked s s₁ N f fb t)
    (hold : fInd s f = t) (hseen : s₁.seen = s.loaded t)
    (hr : (mapPointer (slotAddr f t i) true >>= fun _ => load64 (slotAddr f t i) >>= fun v =>
      (pure (v.setWidth 32) : FsM U32)) s₁ = .ret b s') :
    MapsBlock s s' N f i b ↔ SlotReadable s N f i := by
  have hap := hwalk.apart
  have ht0 := hwalk.ne
  have hti : NDIRECT ≤ i → t ≠ 0 := fun _ => ht0
  have hind0 : fInd s f ≠ 0 := hold ▸ ht0
  have hwith : s.withTable f = s₁.seen := by rw [Fs.withTable, if_neg hind0, hold, hseen]
  have hrec : ∀ j, recorded s f j = slotIn s₁.seen f t j := by
    intro j
    rw [recorded, hwith, hold]
  have hslot : recorded s f i = s₁.seen.ld32 (slotAddr f t i) := by
    rw [hrec, slotIn_table hd ht0, slotAddr_table hd]
  have hnextw : nextWord s f i = s₁.seen.ld32 (slotAddr f t i + 4) := by
    rw [nextWord, if_neg hd, hwith, hold, slotAddr_table hd]
    rfl
  have hframe₁ : ∀ a, ¬ InBlock t a → s₁.seen a = s.seen a := by
    intro a ha
    rw [hseen]
    rw [InBlock, BY2BLK] at ha
    exact loaded_same (n := 1) (by omega) a (le_refl a) (Nat.lt_succ_self a)
  have hbits₁ : ∀ n, n < N → freeBit s₁.seen n = freeBit s.seen n := by
    intro n hn
    rw [hseen]
    exact loaded_bit (hap.table ht0).1 hn
  rw [SlotReadable, if_neg fun hc => hind0 hc.2, hslot, hnextw]
  rcases mapPointer_ret hwalk.mounted (slotAddr_out hap hi hti) hr with
    ⟨hne, hb, htouch, -⟩ | ⟨hzero, hfirst, hw, -⟩
  · have hind : fInd s' f = t := by rw [fInd, htouch.seen]; exact hwalk.ind
    have hrec' : ∀ j, recorded s' f j = recorded s f j := by
      intro j
      rw [hwalk.recorded htouch.steady hind, htouch.seen, hrec]
    constructor
    · intro hmaps
      by_contra hbad
      rw [not_or, not_not] at hbad
      exact (hmaps.new (hslot.trans hbad.1)).1 (hb.trans hbad.1)
    · intro hok
      have hfull : s₁.seen.ld32 (slotAddr f t i) ≠ 0 := by
        rcases hok with hfull | hnext
        · exact hfull
        · rcases ld64_slot_ne hne with hfull | hnext'
          · exact hfull
          · exact absurd hnext hnext'
      refine ⟨⟨fun j _ _ => hrec' j, fun a _ htab _ => ?_⟩, Or.inl (hind.trans hold.symm),
        fun _ => hb.trans hslot.symm, fun h0 => absurd (hslot.symm.trans h0) hfull,
        (hrec' i).trans (hslot.trans hb.symm), fun n hn hne => ?_⟩
      · rw [htouch.seen]
        refine hframe₁ a fun ha => htab ?_
        rw [hind]
        exact ⟨ht0, ha⟩
      · rw [htouch.seen, hbits₁ n hn] at hne
        exact absurd rfl hne
  · obtain ⟨h0, hnext⟩ := ByteMem.ld64_eq_zero.mp hzero
    refine ⟨fun _ => Or.inr hnext, fun _ => ?_⟩
    have hgiven : s'.seen = putSlot s₁.seen f t i b false b := hw.seen
    have hind : fInd s' f = t := by
      rw [fInd, hgiven, ind_put hap hi hti hfirst.hi]
      exact hwalk.ind
    have hb0 : b ≠ 0 := by
      rintro rfl
      exact absurd hfirst.lo (by decide)
    have hfreeb : freeBit s.seen b.toNat = true := by
      rw [← hbits₁ _ hfirst.hi]
      exact hfirst.free
    have hrec' : ∀ j, j < NINDIRECT → recorded s' f j = if j = i then b else recorded s f j := by
      intro j hj
      rw [hwalk.recorded hw.steady hind, hgiven, slotIn_put hap hi hti hfirst.hi hj, hrec]
    have hzero' : recorded s f i = 0 := hslot.trans h0
    refine ⟨⟨fun j hj hji => ?_, fun a _ htab hbits => ?_⟩, Or.inl (hind.trans hold.symm),
      fun hne => absurd hzero' hne, fun _ => ⟨hb0, ⟨hfirst.hi, hfreeb, ?_⟩, ?_⟩, ?_, fun n hn hne => ?_⟩
    · rw [hrec' j hj, if_neg hji]
    · rw [hind] at htab
      have hout : ¬ InBlock t a := fun ha => htab ⟨ht0, ha⟩
      rw [hgiven, put_frame hd hi hfirst.hi hout hbits, hframe₁ a hout]
    · rw [hgiven, freeBit_put hap hi hti hfirst.hi, if_pos rfl]
    · rw [hind]
      exact hfirst.ne_used hwalk.used
    · rw [hrec' i hi, if_pos rfl]
    · rw [hgiven, freeBit_put hap hi hti hn] at hne
      by_cases hnb : n = b.toNat
      · exact Or.inl ⟨hzero', hnb⟩
      · rw [if_neg hnb, hbits₁ n hn] at hne
        exact absurd rfl hne

/-- With a table that is made. -/
theorem mapsBlock_newTable {r : U32} (hi : i < NINDIRECT) (hd : ¬ i < NDIRECT)
    (hwalk : Walked s s₁ N f fb t) (hrt : r.toNat = t) (hold : fInd s f = 0)
    (hfree : FirstFree s.seen N t) (hseen : s₁.seen = (setBit s.seen r false).st32 (fIndirect f) r)
    (hr : (mapPointer (slotAddr f t i) true >>= fun _ => load64 (slotAddr f t i) >>= fun v =>
      (pure (v.setWidth 32) : FsM U32)) s₁ = .ret b s') :
    MapsBlock s s' N f i b ↔ SlotReadable s N f i := by
  have hap := hwalk.apart
  have ht0 := hwalk.ne
  have hti : NDIRECT ≤ i → t ≠ 0 := fun _ => ht0
  have hrN : r.toNat < N := hrt ▸ hfree.hi
  have hap₀ : Apart N f fb (fInd s f) := ⟨hap.lo, hap.hi, hap.place, fun h => absurd hold h⟩
  -- Before the slot is looked at only `f_indirect` and the bit of the table changed.
  have hsame₁ : ∀ a n, fIndirect f + 4 ≤ a ∨ a + n ≤ fIndirect f →
      (a + n ≤ blockAddr 2 ∨ blockAddr (firstData N) ≤ a) → ByteMem.Same s.seen s₁.seen a n := by
    intro a n hind hbits x hlo hhi
    rw [hseen, ByteMem.same_st32 r hind x hlo hhi]
    exact same_setBit false hrN hbits x hlo hhi
  have hdata := (hap.table ht0).1
  have htable₁ : ∀ k, k ≤ NINDIRECT → s₁.seen.ld32 (blockAddr t + 4 * k) =
      s.seen.ld32 (blockAddr t + 4 * k) := by
    intro k hk
    have hb := hap.lo
    have he := hap.hi
    have hne := (hap.table ht0).2
    rw [blockAddr_eq] at hb he
    rw [BY2FILE, BY2BLK] at he
    rw [NINDIRECT] at hk
    refine (hsame₁ _ _ ?_ (Or.inr ?_)).ld32
    · rw [fIndirect_eq, blockAddr_eq]
      omega
    · exact data_le_table hdata
  have hdirect₁ : ∀ j, j < NDIRECT → s₁.seen.ld32 (fDirect f j) = recorded s f j := by
    intro j hj
    rw [recorded_direct hap₀ hj]
    rw [NDIRECT] at hj
    have hsame : ByteMem.Same (setBit s.seen r false) s₁.seen (fDirect f j) 4 := by
      rw [hseen]
      apply ByteMem.same_st32
      rw [fIndirect_eq, fDirect_eq]
      omega
    have hbits : ByteMem.Same s.seen (setBit s.seen r false) (fDirect f j) 4 := by
      apply hap.file_setBit hrN <;> simp only [fDirect_eq, BY2FILE] <;> omega
    rw [hsame.ld32, hbits.ld32]
  have hnone : ∀ j, ¬ j < NDIRECT → recorded s f j = 0 := by
    intro j hj
    rw [recorded, slotIn, if_neg hj, if_pos hold]
  have hbits₁ : ∀ n, n < N → freeBit s₁.seen n = if n = t then false else freeBit s.seen n := by
    intro n hn
    have hfile := hap.file_bits hn
    rw [BY2FILE] at hfile
    have hsame : ByteMem.Same (setBit s.seen r false) s₁.seen (bitWord n) 8 := by
      rw [hseen]
      apply ByteMem.same_st32
      rw [fIndirect_eq]
      omega
    rw [freeBit_same hsame, freeBit_setBit, hrt]
  have hframe₁ : ∀ a, ¬ InPointers f a → ¬ InBitmap N a → s₁.seen a = s.seen a := by
    intro a hfile hbits
    rw [InPointers, fDirect_eq, fIndirect_eq] at hfile
    rw [InBitmap] at hbits
    refine hsame₁ a 1 ?_ (by omega) a (le_refl a) (Nat.lt_succ_self a)
    rw [fIndirect_eq]
    omega
  have hslot : ∀ j, ¬ j < NDIRECT → j < NINDIRECT →
      slotIn s₁.seen f t j = s.seen.ld32 (blockAddr t + 4 * j) := by
    intro j hj hlt
    rw [slotIn_table hj ht0, htable₁ j (Nat.le_of_lt hlt)]
  have hblank : SlotReadable s N f i ↔ (∀ j, NDIRECT ≤ j → j < NINDIRECT →
      slotIn s₁.seen f t j = 0) ∧ s₁.seen.ld32 (slotAddr f t i + 4) = 0 := by
    have hword : s₁.seen.ld32 (slotAddr f t i + 4) = s.seen.ld32 (blockAddr t + 4 * (i + 1)) := by
      rw [slotAddr_table hd, Nat.add_assoc, ← Nat.mul_succ]
      exact htable₁ (i + 1) hi
    rw [SlotReadable, if_pos ⟨Nat.le_of_not_lt hd, hold⟩, hword]
    constructor
    · intro h
      obtain ⟨hz, hnext⟩ := h t hfree
      exact ⟨fun j hj hlt => (hslot j (Nat.not_lt_of_le hj) hlt).trans (hz j hj hlt), hnext⟩
    · rintro ⟨hz, hnext⟩ t' ht'
      rw [ht'.unique hfree]
      exact ⟨fun j hj hlt => (hslot j (Nat.not_lt_of_le hj) hlt).symm.trans (hz j hj hlt), hnext⟩
  rw [hblank]
  rcases mapPointer_ret hwalk.mounted (slotAddr_out hap hi hti) hr with
    ⟨hne, hb, htouch, -⟩ | ⟨hzero, hfirst, hw, -⟩
  · -- What stands in the new table is taken for a block of the file.
    have hind : fInd s' f = t := by rw [fInd, htouch.seen]; exact hwalk.ind
    have hrec' : ∀ j, recorded s' f j = slotIn s₁.seen f t j := by
      intro j
      rw [hwalk.recorded htouch.steady hind, htouch.seen]
    have hb' : b = slotIn s₁.seen f t i := by rw [hb, slotIn_table hd ht0, slotAddr_table hd]
    constructor
    · intro hmaps
      have hnew := hmaps.new (hnone i hd)
      -- Only the bit of the table has changed, so `b` can only be the table.
      have hbt : b.toNat = t := by
        obtain ⟨hbN, hfreeb, hused⟩ := hnew.2.1
        rw [htouch.seen, hbits₁ _ hbN] at hused
        by_contra hbt
        rw [if_neg hbt, hfreeb] at hused
        cases hused
      exact absurd (hbt.trans hind.symm) hnew.2.2
    · rintro ⟨hz, hnext⟩
      have h0 := hz i (Nat.le_of_not_lt hd) hi
      rw [slotIn_table hd ht0, ← slotAddr_table (f := f) hd] at h0
      rcases ld64_slot_ne hne with hfull | hfull
      · exact absurd h0 hfull
      · exact absurd hnext hfull
  · obtain ⟨h0, hnext⟩ := ByteMem.ld64_eq_zero.mp hzero
    have hgiven : s'.seen = putSlot s₁.seen f t i b false b := hw.seen
    have hind : fInd s' f = t := by
      rw [fInd, hgiven, ind_put hap hi hti hfirst.hi]
      exact hwalk.ind
    have hb0 : b ≠ 0 := by
      rintro rfl
      exact absurd hfirst.lo (by decide)
    have hbt : b.toNat ≠ t := hfirst.ne_used hwalk.used
    have hfreeb : freeBit s.seen b.toNat = true := by
      have hbit := hfirst.free
      rwa [hbits₁ _ hfirst.hi, if_neg hbt] at hbit
    have hrec' : ∀ j, j < NINDIRECT → recorded s' f j = if j = i then b else slotIn s₁.seen f t j := by
      intro j hj
      rw [hwalk.recorded hw.steady hind, hgiven, slotIn_put hap hi hti hfirst.hi hj]
    have hbits' : ∀ n, n < N → freeBit s'.seen n =
        if n = b.toNat then false else if n = t then false else freeBit s.seen n := by
      intro n hn
      rw [hgiven, freeBit_put hap hi hti hn, hbits₁ n hn]
    constructor
    · intro hmaps
      refine ⟨fun j hj hlt => ?_, hnext⟩
      by_cases hji : j = i
      · rw [hji, slotIn_table hd ht0, ← slotAddr_table (f := f) hd]
        exact h0
      · have hkeep := hmaps.others.slots j hlt hji
        rwa [hrec' j hlt, if_neg hji, hnone j (Nat.not_lt_of_le hj)] at hkeep
    · rintro ⟨hz, -⟩
      refine ⟨⟨fun j hj hji => ?_, fun a hfile htab hbits => ?_⟩,
        Or.inr ⟨Nat.le_of_not_lt hd, hold, ?_⟩, fun hne => absurd (hnone i hd) hne,
        fun _ => ⟨hb0, ⟨hfirst.hi, hfreeb, ?_⟩, ?_⟩, ?_, fun n hn hne => ?_⟩
      · rw [hrec' j hj, if_neg hji]
        by_cases hjd : j < NDIRECT
        · rw [slotIn, if_pos hjd, hdirect₁ j hjd]
        · rw [hz j (Nat.le_of_not_lt hjd) hj, hnone j hjd]
      · rw [hind] at htab
        have hout : ¬ InBlock t a := fun ha => htab ⟨ht0, ha⟩
        rw [hgiven, put_frame hd hi hfirst.hi hout hbits, hframe₁ a hfile hbits]
      · rw [hind]
        exact ⟨hfree.hi, hfree.free, by rw [hbits' t hfree.hi, if_neg hbt.symm, if_pos rfl]⟩
      · rw [hbits' _ hfirst.hi, if_pos rfl]
      · rw [hind]
        exact hbt
      · rw [hrec' i hi, if_pos rfl]
      · rw [hbits' n hn] at hne
        by_cases hnb : n = b.toNat
        · exact Or.inl ⟨hnone i hd, hnb⟩
        · by_cases hnt : n = t
          · exact Or.inr ⟨hold, hnt.trans hind.symm⟩
          · rw [if_neg hnb, if_neg hnt] at hne
            exact absurd rfl hne

/-! ## The rest of `file_clear_block` -/

/-- A slot that is taken for empty is left; else its block is freed, and both words
    that the pointer covers are cleared. -/
theorem clearPointer_ret {u : Unit} {ptr : Nat} (h : Mounted s₁ N)
    (hr : (load64 ptr >>= fun v => if v = 0 then (pure () : FsM Unit) else
      freeBlock (v.setWidth 32) >>= fun _ => store64 ptr 0) s₁ = .ret u s') :
    (s₁.seen.ld64 ptr = 0 ∧ Touched s₁ s' ∧ (s₁.MappedOn ptr 8 → s' = s₁)) ∨
    (s₁.seen.ld64 ptr ≠ 0 ∧ s₁.seen.ld32 ptr ≠ 0 ∧ (s₁.seen.ld32 ptr).toNat < N ∧
      Wrote s₁ s' ((setBit s₁.seen (s₁.seen.ld32 ptr) true).st64 ptr 0) ∧
      (s₁.MappedOn ptr 8 → s'.mapped = s₁.mapped)) := by
  obtain ⟨v, s₂, hload, hr⟩ := bind_eq_ret.mp hr
  obtain ⟨hv, ht, hon⟩ := load64_ret hload
  by_cases h0 : v = 0
  · left
    rw [if_pos h0] at hr
    cases hr
    exact ⟨hv ▸ h0, ht, fun hm => load64_same hload hm⟩
  · right
    rw [if_neg h0] at hr
    obtain ⟨u₁, s₃, hfree, hstore⟩ := bind_eq_ret.mp hr
    have hx : v.setWidth 32 = s₁.seen.ld32 ptr := by rw [hv, ByteMem.ld64_setWidth]
    rw [hx] at hfree
    have hmount := h.touched ht
    by_cases hbad : s₁.seen.ld32 ptr = 0 ∨ N ≤ (s₁.seen.ld32 ptr).toNat
    · rw [freeBlock_stop hmount hbad] at hfree
      cases hfree
    · rw [not_or] at hbad
      have hlt := Nat.lt_of_not_le hbad.2
      rw [freeBlock_eq hmount hbad.1 hlt] at hfree
      cases hfree
      have hw := wrote_marked hmount hlt true
      have hst := store64_ret hstore
      rw [hw.seen, ht.seen] at hst
      rw [ht.seen] at hw
      refine ⟨hv ▸ h0, hbad.1, hlt, (ht.wrote_trans hw).trans hst, fun hm => ?_⟩
      have hs₂ : s₂ = s₁ := load64_same hload hm
      have hon₃ : (s₂.marked (s₁.seen.ld32 ptr) true).MappedOn ptr 8 := hon
      rw [store64_of_mapped hon₃] at hstore
      cases hstore
      rw [← hs₂]
      rfl

/-- What clearing slot `i` does is clearing a slot of 32 bits when the word behind
    it is null already. -/
theorem clear_eq_put {ptr : Nat} (hx : r.toNat < N)
    (hout : ptr + 8 ≤ blockAddr 2 ∨ blockAddr (firstData N) ≤ ptr) (hnext : m.ld32 (ptr + 4) = 0) :
    (setBit m r true).st64 ptr 0 = (setBit m r true).st32 ptr 0 := by
  have hup : (setBit m r true).ld32 (ptr + 4) = 0 := by
    have hsame : ByteMem.Same m (setBit m r true) (ptr + 4) 4 := same_setBit true hx (by omega)
    rw [hsame.ld32, hnext]
  exact ByteMem.st64_eq_st32 0 hup

/-- The word behind the slot is null afterwards. -/
theorem ld32_next_st64 (m : ByteMem) (ptr : Nat) : (m.st64 ptr 0).ld32 (ptr + 4) = 0 := by
  have h := ByteMem.ld64_st64 (m := m) (a := ptr) 0
  exact (ByteMem.ld64_eq_zero.mp h).2

theorem clearsBlock_direct {u : Unit} (h : Mounted s N) (hf : FileAt s N f fb)
    (ht : TableAt s N f fb) (hd : filebno.toNat < NDIRECT)
    (hr : fileClearBlock f filebno s = .ret u s') :
    ClearsBlock s s' N f filebno.toNat ↔ nextWord s f filebno.toNat = 0 := by
  have hap := hf.apart ht
  have hi : filebno.toNat < NINDIRECT := hd.trans (by decide)
  have hnot : ¬ NDIRECT ≤ filebno.toNat := Nat.not_le_of_lt hd
  have hti : NDIRECT ≤ filebno.toNat → fInd s f ≠ 0 := fun hle => absurd hle hnot
  have hrec := recorded_direct hap hd
  have hptr : slotAddr f (fInd s f) filebno.toNat = fDirect f filebno.toNat := slotAddr_direct hd
  have hm : s.MappedOn (fDirect f filebno.toNat) 8 := by
    rw [NDIRECT] at hd
    apply hf.mappedOn <;> simp only [fDirect_eq, BY2FILE] <;> omega
  have hout := hptr ▸ slotAddr_out hap hi hti
  rw [nextWord_direct hd]
  rw [fileClearBlock, fileBlockWalk, if_pos hd] at hr
  rcases clearPointer_ret h hr with ⟨hzero, -, hsame⟩ | ⟨-, hx, hlt, hw, hmapped⟩
  · obtain ⟨h0, hnext⟩ := ByteMem.ld64_eq_zero.mp hzero
    rw [hsame hm]
    refine ⟨fun _ => hnext, fun _ => ?_⟩
    have hrec0 : recorded s f filebno.toNat = 0 := hrec.trans h0
    exact ⟨⟨fun _ _ _ => rfl, fun _ _ _ _ => rfl⟩, rfl, hrec0, fun hne => absurd hrec0 hne,
      fun _ _ _ => rfl⟩
  · constructor
    · intro hclear
      by_contra hnext
      -- The word behind is the next slot or `f_indirect`, and it is null now.
      have hgone : s'.seen.ld32 (fDirect f filebno.toNat + 4) = 0 := by
        rw [hw.seen]
        exact ld32_next_st64 _ _
      have hap' : Apart N f fb (fInd s' f) := hclear.ind ▸ hap
      by_cases hlast : filebno.toNat + 1 < NDIRECT
      · have hkeep := hclear.others.slots (filebno.toNat + 1) (hlast.trans (by decide)) (by omega)
        rw [recorded_direct hap' hlast, recorded_direct hap hlast] at hkeep
        exact hnext (hkeep.symm.trans hgone)
      · have haddr : fDirect f filebno.toNat + 4 = fIndirect f := by
          rw [NDIRECT] at hd hlast
          rw [fDirect_eq, fIndirect_eq]
          omega
        have hind := hclear.ind
        rw [fInd, fInd, ← haddr, hgone] at hind
        exact hnext (BitVec.eq_of_toNat_eq hind.symm)
    · intro hnext
      have hseen : s'.seen = putSlot s.seen f (fInd s f) filebno.toNat
          (s.seen.ld32 (fDirect f filebno.toNat)) true 0 := by
        rw [hw.seen, clear_eq_put hlt hout hnext, putSlot, hptr]
      have hind : fInd s' f = fInd s f := by
        rw [fInd, hseen, ind_put hap hi hti hlt]
        rfl
      have hap' : Apart N f fb (fInd s' f) := hind ▸ hap
      have hslot : ∀ j, j < NDIRECT → recorded s' f j =
          if j = filebno.toNat then 0 else recorded s f j := by
        intro j hj
        have hput : slotIn (putSlot s.seen f (fInd s f) filebno.toNat
            (s.seen.ld32 (fDirect f filebno.toNat)) true 0) f (fInd s f) j =
            if j = filebno.toNat then 0 else slotIn s.seen f (fInd s f) j :=
          slotIn_put hap hi hti hlt (hj.trans (by decide))
        rw [recorded_direct hap' hj, recorded_direct hap hj, hseen]
        rwa [slotIn, if_pos hj, slotIn, if_pos hj] at hput
      refine ⟨⟨fun j hj hji => ?_, fun a hfile _ hbits => ?_⟩, hind, ?_, fun _ => ?_,
        fun n hn hne => ?_⟩
      · by_cases hjd : j < NDIRECT
        · rw [hslot j hjd, if_neg hji]
        · refine recorded_table_same hind hw.disk (fun _ => ?_) (fun ht0 => ?_) hjd hj
          · rw [hmapped hm]
          · rw [hseen]
            refine put_same hlt ?_ (Or.inr ?_)
            · rw [hptr]
              have hfile := hap.file_table (a := fDirect f filebno.toNat) (n := 4) ht0 ?_ ?_
              · omega
              · rw [fDirect_eq]
                omega
              · rw [NDIRECT] at hd
                rw [fDirect_eq, BY2FILE]
                omega
            · exact data_le_table (k := 0) (hap.table ht0).1
      · rw [hseen]
        refine put_same (n := 1) hlt ?_ ?_ a (le_refl a) (Nat.lt_succ_self a)
        · rw [NDIRECT] at hd
          rw [InPointers, fDirect_eq, fIndirect_eq] at hfile
          rw [hptr, fDirect_eq]
          omega
        · rw [InBitmap] at hbits
          omega
      · rw [hslot _ hd, if_pos rfl]
      · rw [hrec, hseen, freeBit_put hap hi hti hlt, if_pos rfl]
      · rw [hrec] at hne
        rw [hseen, freeBit_put hap hi hti hn, if_neg hne]

theorem clearsBlock_table {u : Unit} (hi : i < NINDIRECT) (hd : ¬ i < NDIRECT)
    (hwalk : Walked s s₁ N f fb t) (hold : fInd s f = t)
    (hr : (load64 (slotAddr f t i) >>= fun v => if v = 0 then (pure () : FsM Unit) else
      freeBlock (v.setWidth 32) >>= fun _ => store64 (slotAddr f t i) 0) s₁ = .ret u s') :
    ClearsBlock s s' N f i ↔ nextWord s f i = 0 := by
  have hap := hwalk.apart
  have ht0 := hwalk.ne
  have hti : NDIRECT ≤ i → t ≠ 0 := fun _ => ht0
  have hind0 : fInd s f ≠ 0 := hold ▸ ht0
  have hseen : s₁.seen = s.loaded t := by
    rcases hwalk.seen with ⟨-, hseen⟩ | ⟨r, -, h0, -⟩
    · exact hseen
    · exact absurd h0 hind0
  have hwith : s.withTable f = s₁.seen := by rw [Fs.withTable, if_neg hind0, hold, hseen]
  have hrec : ∀ j, recorded s f j = slotIn s₁.seen f t j := by
    intro j
    rw [recorded, hwith, hold]
  have hslot : recorded s f i = s₁.seen.ld32 (slotAddr f t i) := by
    rw [hrec, slotIn_table hd ht0, slotAddr_table hd]
  have hnextw : nextWord s f i = s₁.seen.ld32 (slotAddr f t i + 4) := by
    rw [nextWord, if_neg hd, hwith, hold, slotAddr_table hd]
    rfl
  have hframe₁ : ∀ a, ¬ InBlock t a → s₁.seen a = s.seen a := by
    intro a ha
    rw [hseen]
    rw [InBlock, BY2BLK] at ha
    exact loaded_same (n := 1) (by omega) a (le_refl a) (Nat.lt_succ_self a)
  have hbits₁ : ∀ n, n < N → freeBit s₁.seen n = freeBit s.seen n := by
    intro n hn
    rw [hseen]
    exact loaded_bit (hap.table ht0).1 hn
  rw [hnextw]
  rcases clearPointer_ret hwalk.mounted hr with ⟨hzero, htouch, -⟩ | ⟨-, hx, hlt, hw, -⟩
  · obtain ⟨h0, hnext⟩ := ByteMem.ld64_eq_zero.mp hzero
    refine ⟨fun _ => hnext, fun _ => ?_⟩
    have hind : fInd s' f = t := by rw [fInd, htouch.seen]; exact hwalk.ind
    have hrec' : ∀ j, recorded s' f j = recorded s f j := by
      intro j
      rw [hwalk.recorded htouch.steady hind, htouch.seen, hrec]
    have hrec0 : recorded s f i = 0 := hslot.trans h0
    refine ⟨⟨fun j _ _ => hrec' j, fun a _ htab _ => ?_⟩, hind.trans hold.symm, (hrec' i).trans hrec0,
      fun hne => absurd hrec0 hne, fun n hn _ => ?_⟩
    · rw [htouch.seen]
      refine hframe₁ a fun ha => htab ?_
      rw [hind]
      exact ⟨ht0, ha⟩
    · rw [htouch.seen, hbits₁ n hn]
  · constructor
    · intro hclear
      by_contra hnext
      have hind : fInd s' f = t := hclear.ind.trans hold
      have hgone : s'.seen.ld32 (slotAddr f t i + 4) = 0 := by
        rw [hw.seen]
        exact ld32_next_st64 _ _
      rw [slotAddr_table hd, Nat.add_assoc, ← Nat.mul_succ] at hgone hnext
      by_cases hlast : i + 1 < NINDIRECT
      · have hnd : ¬ i + 1 < NDIRECT := by omega
        have hkeep := hclear.others.slots (i + 1) hlast (by omega)
        rw [hwalk.recorded hw.steady hind, slotIn_table hnd ht0, hrec, slotIn_table hnd ht0] at hkeep
        exact hnext (hkeep.symm.trans hgone)
      · -- The first word of the block behind the table.
        have hb := hap.lo
        have he := hap.hi
        have hne := (hap.table ht0).2
        have hdata := (hap.table ht0).1
        rw [firstData_eq] at hdata
        rw [NINDIRECT] at hi hlast
        rw [blockAddr_eq, BY2FILE, BY2BLK] at he
        have hsame : ByteMem.Same s₁.seen s'.seen (blockAddr t + 4 * (i + 1)) 4 := by
          intro a hlo hhi
          rw [blockAddr_eq] at hb hlo hhi
          have hout : ¬ InBlock t a := by
            rw [InBlock, BY2BLK, blockAddr_eq]
            omega
          rw [hframe₁ a hout]
          refine hclear.others.frame a ?_ ?_ ?_
          · rw [InPointers, fDirect_eq, fIndirect_eq]
            omega
          · rw [hind]
            exact fun h => hout h.2
          · rw [InBitmap, firstData_eq, blockAddr_eq, blockAddr_eq]
            omega
        exact hnext (hsame.ld32.symm.trans hgone)
    · intro hnext
      have hput : s'.seen = putSlot s₁.seen f t i (s₁.seen.ld32 (slotAddr f t i)) true 0 := by
        rw [hw.seen, clear_eq_put hlt (slotAddr_out hap hi hti) hnext, putSlot]
      have hind : fInd s' f = t := by
        rw [fInd, hput, ind_put hap hi hti hlt]
        exact hwalk.ind
      have hrec' : ∀ j, j < NINDIRECT → recorded s' f j = if j = i then 0 else recorded s f j := by
        intro j hj
        rw [hwalk.recorded hw.steady hind, hput, slotIn_put hap hi hti hlt hj, hrec]
      refine ⟨⟨fun j hj hji => ?_, fun a _ htab hbits => ?_⟩, hind.trans hold.symm, ?_, fun _ => ?_,
        fun n hn hne => ?_⟩
      · rw [hrec' j hj, if_neg hji]
      · rw [hind] at htab
        have hout : ¬ InBlock t a := fun ha => htab ⟨ht0, ha⟩
        rw [hput, put_frame hd hi hlt hout hbits, hframe₁ a hout]
      · rw [hrec' i hi, if_pos rfl]
      · rw [hslot, hput, freeBit_put hap hi hti hlt, if_pos rfl]
      · rw [hslot] at hne
        rw [hput, freeBit_put hap hi hti hn, if_neg hne, hbits₁ n hn]

/-! ## The block map of a file -/

/-- When `file_map_block` and `file_clear_block` return, they have treated the
    block map as a map exactly when the word behind the slot did not matter. -/
theorem block_map_iff (h : Mounted s N) (hf : FileAt s N f fb) (ht : TableAt s N f fb)
    (hk : KnownUsed s N fb) (hi : filebno.toNat < NINDIRECT) :
    (∀ b s', fileMapBlock f filebno true s = .ret b s' →
      (MapsBlock s s' N f filebno.toNat b ↔ SlotReadable s N f filebno.toNat)) ∧
    ∀ s', fileClearBlock f filebno s = .ret () s' →
      (ClearsBlock s s' N f filebno.toNat ↔ nextWord s f filebno.toNat = 0) := by
  by_cases hd : filebno.toNat < NDIRECT
  · exact ⟨fun b s' hr => mapsBlock_direct h hf ht hd hr,
      fun s' hr => clearsBlock_direct h hf ht hd hr⟩
  · refine ⟨fun b s' hr => ?_, fun s' hr => ?_⟩
    · obtain ⟨ptr, s₁, hwalk, hr⟩ := bind_eq_ret.mp hr
      obtain ⟨t, rfl, hwalked, -⟩ := fileBlockWalk_ret h hf ht (fun _ => hk) hd hwalk
      rcases hwalked.seen with ⟨hold, hseen⟩ | ⟨r, hrt, hold, hfree, hseen⟩
      · exact mapsBlock_table hi hd hwalked hold hseen hr
      · exact mapsBlock_newTable hi hd hwalked hrt hold hfree hseen hr
    · obtain ⟨ptr, s₁, hwalk, hr⟩ := bind_eq_ret.mp hr
      obtain ⟨t, rfl, hwalked, hold⟩ := fileBlockWalk_ret h hf ht (fun _ => hk) hd hwalk
      exact clearsBlock_table hi hd hwalked (hold rfl) hr

/-! ### The root directory of a small disk -/

/-- The memory of a file system of 64 blocks, with two slots of the root set. -/
def smallMem (slot₀ slot₁ : U32) : ByteMem :=
  ((ByteMem.st32 (fun _ => 0) (blockAddr 1 + 4) 64).st32 (fDirect (sRoot (blockAddr 1)) 0) slot₀).st32
    (fDirect (sRoot (blockAddr 1)) 1) slot₁

def smallFs (slot₀ slot₁ : U32) : Fs where
  mem := smallMem slot₀ slot₁
  mapped := fun _ => true
  disk := fun _ => 0
  super := blockAddr 1
  bitmap := blockAddr 2
  nbitmap := 1
  memOk := fun _ => true
  allocs := 0

section Small

variable (slot₀ slot₁ : U32)

theorem smallFs_seen : (smallFs slot₀ slot₁).seen = smallMem slot₀ slot₁ := rfl

theorem smallFs_direct : (smallMem slot₀ slot₁).ld32 (fDirect (sRoot (blockAddr 1)) 0) = slot₀ ∧
    (smallMem slot₀ slot₁).ld32 (fDirect (sRoot (blockAddr 1)) 1) = slot₁ := by
  refine ⟨?_, ByteMem.ld32_st32 _⟩
  have hsame := ByteMem.same_st32 (m := (ByteMem.st32 (fun _ => 0) (blockAddr 1 + 4) 64).st32
    (fDirect (sRoot (blockAddr 1)) 0) slot₀) (a := fDirect (sRoot (blockAddr 1)) 1)
    (b := fDirect (sRoot (blockAddr 1)) 0) (n := 4) slot₁ (Or.inr (by simp only [fDirect_eq]; omega))
  rw [smallMem, hsame.ld32, ByteMem.ld32_st32]

/-- What is behind the super block's size and not a slot is zero. -/
theorem smallMem_zero {a : Nat} (ha : a < blockAddr 1 + 4 ∨ blockAddr 1 + 152 ≤ a) :
    smallMem slot₀ slot₁ a = 0 := by
  rw [blockAddr_eq] at ha
  rw [smallMem, ByteMem.st32_of_out, ByteMem.st32_of_out, ByteMem.st32_of_out]
  · rw [blockAddr_eq]
    omega
  · rw [fDirect_eq, sRoot, blockAddr_eq]
    omega
  · rw [fDirect_eq, sRoot, blockAddr_eq]
    omega

theorem smallFs_bit {b : Nat} (hb : b < 64) : freeBit (smallMem slot₀ slot₁) b = false := by
  have hword : bitWord b = blockAddr 2 := by
    rw [bitWord]
    omega
  have hzero : ByteMem.Same (fun _ => 0) (smallMem slot₀ slot₁) (bitWord b) 8 := by
    intro x hlo hhi
    apply smallMem_zero
    rw [hword, blockAddr_eq] at hlo
    rw [blockAddr_eq]
    omega
  rw [freeBit_same hzero]
  rw [freeBit, ByteMem.ld64_zero]
  exact BitVec.getLsbD_zero

theorem smallFs_mounted : Mounted (smallFs slot₀ slot₁) 64 := by
  refine ⟨rfl, rfl, ?_, by decide, rfl, fun _ _ => rfl⟩
  have hsame : ByteMem.Same (ByteMem.st32 (fun _ => 0) (blockAddr 1 + 4) 64) (smallMem slot₀ slot₁)
      (blockAddr 1 + 4) 4 := by
    intro x hlo hhi
    rw [smallMem, ByteMem.st32_of_out, ByteMem.st32_of_out]
    · rw [fDirect_eq, sRoot]
      omega
    · rw [fDirect_eq, sRoot]
      omega
  rw [smallFs_seen, hsame.ld32, ByteMem.ld32_st32]
  rfl

theorem smallFs_file : FileAt (smallFs slot₀ slot₁) 64 (sRoot (blockAddr 1)) 1 where
  lt := by decide
  lo := by decide
  hi := by decide
  place := Or.inl ⟨rfl, rfl⟩
  mapped := rfl

theorem smallFs_ind : fInd (smallFs slot₀ slot₁) (sRoot (blockAddr 1)) = 0 := by
  have hzero : ByteMem.Same (fun _ => 0) (smallMem slot₀ slot₁) (fIndirect (sRoot (blockAddr 1))) 4 := by
    intro x hlo hhi
    apply smallMem_zero
    rw [fIndirect_eq, sRoot] at hlo
    omega
  rw [fInd, smallFs_seen, hzero.ld32, ByteMem.ld32_zero]
  rfl

theorem smallFs_table : TableAt (smallFs slot₀ slot₁) 64 (sRoot (blockAddr 1)) 1 where
  lo h := absurd (smallFs_ind slot₀ slot₁) h
  ne h := absurd (smallFs_ind slot₀ slot₁) h
  used h := absurd (smallFs_ind slot₀ slot₁) h

theorem smallFs_used : KnownUsed (smallFs slot₀ slot₁) 64 1 := by
  refine ⟨fun b hb => ?_, smallFs_bit slot₀ slot₁ (by decide)⟩
  have hlt : b < 3 := hb
  exact smallFs_bit slot₀ slot₁ (by omega)

theorem smallFs_recorded {j : Nat} (hj : j < NDIRECT) :
    recorded (smallFs slot₀ slot₁) (sRoot (blockAddr 1)) j =
      (smallMem slot₀ slot₁).ld32 (fDirect (sRoot (blockAddr 1)) j) :=
  recorded_direct ((smallFs_file slot₀ slot₁).apart (smallFs_table slot₀ slot₁)) hj

/-- `file_map_block` of block 0 of the root, when its pointer covers a block. -/
theorem smallFs_map (h : (smallMem slot₀ slot₁).ld64 (fDirect (sRoot (blockAddr 1)) 0) ≠ 0) :
    fileMapBlock (sRoot (blockAddr 1)) 0 true (smallFs slot₀ slot₁) =
      .ret slot₀ (smallFs slot₀ slot₁) := by
  have hload := load64_of_mapped (s := smallFs slot₀ slot₁) (a := fDirect (sRoot (blockAddr 1)) 0)
    fun _ _ _ => rfl
  have hmap : mapPointer (fDirect (sRoot (blockAddr 1)) 0) true (smallFs slot₀ slot₁) =
      .ret () (smallFs slot₀ slot₁) := by
    rw [mapPointer, bind_ret hload]
    exact congrFun (if_neg h) _
  have hwalk : fileBlockWalk (sRoot (blockAddr 1)) 0 true (smallFs slot₀ slot₁) =
      .ret (fDirect (sRoot (blockAddr 1)) 0) (smallFs slot₀ slot₁) := rfl
  rw [fileMapBlock, bind_ret hwalk, bind_ret hmap, bind_ret hload, smallFs_seen]
  show Outcome.ret ((smallMem slot₀ slot₁).ld64 _ |>.setWidth 32) _ = _
  rw [ByteMem.ld64_setWidth, (smallFs_direct slot₀ slot₁).1]

end Small

/-- With block 5 in slot 0 and nothing behind it, slot 0 is read as it should be. -/
theorem smallFs_block_map : MapsBlock (smallFs 5 0) (smallFs 5 0) 64 (sRoot (blockAddr 1)) 0 5 := by
  have hdirect := smallFs_direct 5 0
  have hfull : (smallMem 5 0).ld64 (fDirect (sRoot (blockAddr 1)) 0) ≠ 0 := by
    intro h
    have h0 := (ByteMem.ld64_eq_zero.mp h).1
    rw [hdirect.1] at h0
    cases h0
  have hi : (0 : U32).toNat < NINDIRECT := by decide
  have hmap := block_map_iff (smallFs_mounted 5 0) (smallFs_file 5 0) (smallFs_table 5 0)
    (smallFs_used 5 0) hi
  refine (hmap.1 5 _ (smallFs_map 5 0 hfull)).mpr ?_
  have hrec : recorded (smallFs 5 0) (sRoot (blockAddr 1)) 0 ≠ 0 := by
    rw [smallFs_recorded 5 0 (by decide), hdirect.1]
    decide
  have hdirect₀ : ¬ (NDIRECT ≤ (0 : U32).toNat ∧ fInd (smallFs 5 0) (sRoot (blockAddr 1)) = 0) :=
    fun h => absurd h.1 (by decide)
  rw [SlotReadable, if_neg hdirect₀]
  exact Or.inl hrec

/-- With block 5 in slot 1 and nothing in slot 0, block 0 is said to be block 0 of
    the disk, and none is allocated. -/
theorem smallFs_block_lost :
    fileMapBlock (sRoot (blockAddr 1)) 0 true (smallFs 0 5) = .ret 0 (smallFs 0 5) ∧
      recorded (smallFs 0 5) (sRoot (blockAddr 1)) 0 = 0 ∧
      ¬ MapsBlock (smallFs 0 5) (smallFs 0 5) 64 (sRoot (blockAddr 1)) 0 0 := by
  have hdirect := smallFs_direct 0 5
  have hfull : (smallMem 0 5).ld64 (fDirect (sRoot (blockAddr 1)) 0) ≠ 0 := by
    intro h
    have h1 := (ByteMem.ld64_eq_zero.mp h).2
    have h2 : (smallMem 0 5).ld32 (fDirect (sRoot (blockAddr 1)) 1) = 0 := h1
    rw [hdirect.2] at h2
    cases h2
  have hrec : recorded (smallFs 0 5) (sRoot (blockAddr 1)) 0 = 0 := by
    rw [smallFs_recorded 0 5 (by decide), hdirect.1]
  exact ⟨smallFs_map 0 5 hfull, hrec, fun hmaps => (hmaps.new hrec).1 rfl⟩

end RpiMos
