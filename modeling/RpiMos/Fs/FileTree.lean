/-
  RpiMos.Fs.FileTree

  What the blocks hold as a tree of files over blocks, and what of it an edit of
  one file leaves as it is: the file itself, its table, the bitmap and blocks that
  are free are no part of any other file.
-/

import RpiMos.Fs.BlockView
import RpiMos.Lib.BlockTree

namespace RpiMos

open Lib Prog BlockTree

variable {s s' : Fs} {N f g d e b i j k x a n : Nat} {m m' m₁ m₂ : ByteMem} {F : Nat → Prop}

/-! ## The tree -/

def fileTree (m : ByteMem) : BlockTree where
  isDir f := isDir m f = true
  named f := m f ≠ 0
  nblk := blockCount m
  ind := tableOf m
  slot := blockNo m
  up f := (m.ld64 (fDir f)).toNat
  used b := freeBit m b = false

theorem firstData_pos (N : Nat) : 0 < firstData N := by
  rw [firstData]
  omega

theorem entryAt_inj {b' j' : Nat} (hj : j < FILE2BLK) (hj' : j' < FILE2BLK)
    (h : dirEntryAt b j = dirEntryAt b' j') : b = b' ∧ j = j' := by
  rw [FILE2BLK] at hj hj'
  rw [entryAt_eq, entryAt_eq] at h
  omega

theorem rootFile_ne (hb : firstData N ≤ b) (hj : j < FILE2BLK) : rootFile ≠ dirEntryAt b j := by
  rw [firstData_eq] at hb
  rw [rootFile_eq, blockAddr_eq, entryAt_eq]
  omega

/-- A disk of `N` blocks. -/
def fsShape (N : Nat) : TreeShape where
  root := rootFile
  entry := dirEntryAt
  perBlock := FILE2BLK
  ndirect := NDIRECT
  nslots := NINDIRECT
  lo := firstData N
  hi := N
  lo_pos := firstData_pos N
  entry_inj := entryAt_inj
  root_ne := rootFile_ne

abbrev LiveIn (m : ByteMem) (N f : Nat) : Prop := Live (fsShape N) (fileTree m) f

abbrev KnownIn (m : ByteMem) (N f : Nat) : Prop := Known (fsShape N) (fileTree m) f

abbrev EntryIn (m : ByteMem) (N d e : Nat) : Prop := Entry (fsShape N) (fileTree m) d e

/-- The file system is mounted, and its tree is in order. -/
structure TreeOk (s : Fs) (N : Nat) : Prop where
  mounted : Mounted s N
  wf : Wf (fsShape N) (fileTree s.blocks)

namespace Lib.BlockTree

section Wf

variable (h : Wf (fsShape N) (fileTree m))

include h

theorem Wf.lowUsed : LowUsed m N := h.ptrs.low

/-- The block of a slot. -/
theorem Wf.slotBlock (hf : KnownIn m N f) (h0 : blockNo m f k ≠ 0) : UsedBlock m N (blockNo m f k) := by
  obtain ⟨hlo, hhi, hu⟩ := h.ptrs.range (.slot f k) hf h0
  exact ⟨hlo, hhi, hu⟩

theorem Wf.tableBlock (hf : KnownIn m N f) (h0 : tableOf m f ≠ 0) : UsedBlock m N (tableOf m f) := by
  obtain ⟨hlo, hhi, hu⟩ := h.ptrs.range (.ind f) hf h0
  exact ⟨hlo, hhi, hu⟩

theorem Wf.inTree_iff : InTree m f ↔ LiveIn m N f := by
  constructor
  · intro hf
    induction hf with
    | root => exact .root
    | entry hd hdir he ih =>
        obtain ⟨i, j, hi, -, hj, rfl, hname⟩ := he
        exact .entry ih hdir hi hj hname
  · intro hf
    induction hf with
    | root => exact .root
    | @entry d k j hd hdir hk hj hname ih =>
        exact .entry ih hdir ⟨k, j, hk, h.dirs.dense d k hd hdir hk, hj, rfl, hname⟩

theorem Wf.dirGraph : DirGraph m N where
  block d i hd _ _ h0 := h.slotBlock (h.inTree_iff.mp hd).known h0
  table f hf h0 := h.tableBlock (h.inTree_iff.mp hf).known h0
  apart f d i hf hd hdir hi h0 := by
    have hd' := h.inTree_iff.mp hd
    exact h.ind_ne_place (h.inTree_iff.mp hf).known h0 hd' (h.dirs.dense d i hd' hdir hi)

/-- Where a file stands: in block 1, or in a block of its directory. -/
theorem Wf.known_place (hf : KnownIn m N f) : f = rootFile ∨ ∃ d k j, LiveIn m N d ∧
    RpiMos.isDir m d = true ∧ k < blockCount m d ∧ UsedBlock m N (blockNo m d k) ∧ blockNo m d k ≠ 0 ∧
    j < FILE2BLK ∧ f = dirEntryAt (blockNo m d k) j := by
  rcases hf with hroot | ⟨d, hd, hdir, k, j, hk, hj, hf⟩
  · exact Or.inl hroot
  · have h0 := h.dirs.dense d k hd hdir hk
    exact Or.inr ⟨d, k, j, hd, hdir, hk, h.slotBlock hd.known h0, h0, hj, hf⟩

theorem Wf.placed (hf : KnownIn m N f) : Placed N f := by
  rcases h.known_place hf with hroot | ⟨d, k, j, -, -, -, hu, -, hj, hf⟩
  · exact Or.inl hroot
  · exact Or.inr ⟨_, j, hu.lo, hu.hi, hj, hf⟩

end Wf

end Lib.BlockTree

/-- Two files do not overlap. -/
theorem Placed.apart (hf : Placed N f) (hg : Placed N g) (hne : f ≠ g) :
    f + BY2FILE ≤ g ∨ g + BY2FILE ≤ f := by
  rw [BY2FILE]
  rcases hf with rfl | ⟨b, j, hb, -, hj, rfl⟩
  · rcases hg with rfl | ⟨b', j', hb', -, -, rfl⟩
    · exact absurd rfl hne
    · rw [firstData_eq] at hb'
      rw [rootFile_eq, blockAddr_eq, entryAt_eq]
      omega
  · rw [firstData_eq] at hb
    rw [FILE2BLK] at hj
    rcases hg with rfl | ⟨b', j', hb', -, hj', rfl⟩
    · rw [rootFile_eq, blockAddr_eq, entryAt_eq]
      omega
    · rw [FILE2BLK] at hj'
      rw [entryAt_eq, entryAt_eq] at hne ⊢
      omega

theorem Placed.super_lt (h : Placed N f) : blockAddr 1 + 8 ≤ f := by
  rcases h with rfl | ⟨b, j, hb, -, -, rfl⟩
  · exact le_refl _
  · rw [firstData_eq] at hb
    rw [entryAt_eq, blockAddr_eq]
    omega

theorem Placed.high (h : Placed N f) : DISKMAP ≤ f := by
  have hlt := h.super_lt
  rw [blockAddr_eq] at hlt
  rw [DISKMAP]
  omega

theorem InBlock.high (h : InBlock b x) : DISKMAP ≤ x := by
  rw [InBlock, blockAddr] at h
  omega

theorem Placed.not_bitmap (hf : Placed N f) (hlo : f ≤ x) (hhi : x < f + BY2FILE) : ¬ InBitmap N x := by
  rw [InBitmap, firstData_eq, blockAddr_eq, blockAddr_eq]
  rw [BY2FILE] at hhi
  rcases hf with rfl | ⟨b, j, hb, -, -, rfl⟩
  · rw [rootFile_eq, blockAddr_eq] at hhi
    omega
  · rw [firstData_eq] at hb
    rw [entryAt_eq] at hlo
    omega

theorem UsedBlock.not_bitmap (hb : firstData N ≤ b) (hx : InBlock b x) : ¬ InBitmap N x := by
  rw [InBitmap, firstData_eq, blockAddr_eq, blockAddr_eq]
  rw [firstData_eq] at hb
  rw [InBlock, blockAddr_eq] at hx
  omega

theorem InBlock.unique {b' : Nat} (h : InBlock b x) (h' : InBlock b' x) : b = b' := by
  rw [inBlock_iff, blockPage_eq] at h h'
  omega

/-- A block from `lo` on that a file stands in is the block of the file. -/
theorem Placed.inBlock (hlo : dirEntryAt b j ≤ x) (hhi : x < dirEntryAt b j + BY2FILE)
    (hj : j < FILE2BLK) : InBlock b x := by
  rw [entryAt_eq] at hlo hhi
  rw [BY2FILE] at hhi
  rw [FILE2BLK] at hj
  rw [InBlock, blockAddr_eq, BY2BLK]
  omega

theorem root_inBlock (hlo : rootFile ≤ x) (hhi : x < rootFile + BY2FILE) (hb : firstData N ≤ b) :
    ¬ InBlock b x := by
  rw [firstData_eq] at hb
  rw [rootFile_eq, blockAddr_eq] at hlo hhi
  rw [BY2FILE] at hhi
  rw [InBlock, blockAddr_eq]
  omega

/-! ## Edits of one file -/

/-- All that is different is in `F`. -/
def Within (F : Nat → Prop) (m m' : ByteMem) : Prop := ∀ x, m' x ≠ m x → F x

theorem Within.refl (F : Nat → Prop) (m : ByteMem) : Within F m m := fun _ h => absurd rfl h

theorem Within.trans (h : Within F m m₁) (h' : Within F m₁ m₂) : Within F m m₂ := by
  intro x hx
  by_cases hmid : m₁ x = m x
  · exact h' x (hmid ▸ hx)
  · exact h x hmid

theorem Within.same (h : Within F m m') (hout : ∀ x, a ≤ x → x < a + n → ¬ F x) :
    ByteMem.Same m m' a n := by
  intro x hlo hhi
  by_contra hne
  exact hout x hlo hhi (h x hne)

/-- What may be written to when file `f` is edited: the bitmap, blocks that are free,
    the file and its table, and what is no block at all. -/
inductive Footprint (m : ByteMem) (N f x : Nat) : Prop
  | low (h : x < DISKMAP)
  | bitmap (h : InBitmap N x)
  | free {b : Nat} (hb : firstData N ≤ b) (hlt : b < N) (hfree : freeBit m b = true) (hx : InBlock b x)
  | file (hlo : f ≤ x) (hhi : x < f + BY2FILE)
  | table (h0 : tableOf m f ≠ 0) (hx : InBlock (tableOf m f) x)

/-- A file is what its head and its table hold. -/
theorem fileSame_of (hhead : ByteMem.Same m m' g 192)
    (htable : tableOf m g ≠ 0 → ByteMem.Same m m' (blockAddr (tableOf m g)) 4096) :
    FileSame (fileTree m) (fileTree m') g := by
  have hword : ∀ a, g ≤ a → a + 4 ≤ g + 192 → m'.ld32 a = m.ld32 a := fun a hlo hhi =>
    (hhead.mono hlo hhi).ld32
  have htype := hword (fType g) (by rw [fType]; omega) (by rw [fType]; omega)
  have hsize := hword (fSize g) (by rw [fSize]; omega) (by rw [fSize]; omega)
  have hind := hword (fIndirect g) (by rw [fIndirect_eq]; omega) (by rw [fIndirect_eq]; omega)
  have hdir : ByteMem.Same m m' (fDir g) 8 := hhead.mono (by rw [fDir_eq]; omega) (by rw [fDir_eq])
  refine ⟨?_, ?_, ?_, congrArg BitVec.toNat hind, fun k => ?_, ?_⟩
  · show isDir m' g = true ↔ isDir m g = true
    rw [isDir, isDir, htype]
  · show m' g ≠ 0 ↔ m g ≠ 0
    rw [hhead g (le_refl g) (by omega)]
  · show blockCount m' g = blockCount m g
    rw [blockCount, blockCount, hsize]
  · show blockNo m' g k = blockNo m g k
    have ht : tableOf m' g = tableOf m g := congrArg BitVec.toNat hind
    unfold blockNo
    by_cases hk : k < NINDIRECT
    · rw [if_pos hk, if_pos hk, ht]
      refine congrArg BitVec.toNat (slotIn_same (hhead.mono ?_ ?_) htable hk)
      · rw [fDirect_eq]
        omega
      · rw [fDirect_eq]
        omega
    · rw [if_neg hk, if_neg hk]
  · exact congrArg BitVec.toNat hdir.ld64

section Footprint

variable (h : Wf (fsShape N) (fileTree m)) (hf : KnownIn m N f)

include h hf

/-- No byte of another file is in the footprint of `f`. -/
theorem Footprint.not_head (hg : KnownIn m N g) (hne : g ≠ f) (hlo : g ≤ x) (hhi : x < g + BY2FILE) :
    ¬ Footprint m N f x := by
  have hpg := h.placed hg
  rintro (hl | hb | ⟨hb, -, hfree, hx⟩ | ⟨hlo', hhi'⟩ | ⟨h0, hx⟩)
  · have hhigh := hpg.high
    omega
  · exact hpg.not_bitmap hlo hhi hb
  · rcases h.known_place hg with rfl | ⟨d, k, j, -, -, -, hu, -, hj, rfl⟩
    · exact root_inBlock hlo hhi hb hx
    · have heq := (Placed.inBlock hlo hhi hj).unique hx
      rw [← heq, hu.used] at hfree
      cases hfree
  · rcases hpg.apart (h.placed hf) hne with hap | hap
    · omega
    · omega
  · rcases h.known_place hg with rfl | ⟨d, k, j, hd, -, -, -, hk, hj, rfl⟩
    · exact root_inBlock hlo hhi (h.tableBlock hf h0).lo hx
    · exact h.ind_ne_place hf h0 hd hk (hx.unique (Placed.inBlock hlo hhi hj))

/-- Nor is any byte of a table of another file. -/
theorem Footprint.not_table (hg : KnownIn m N g) (hne : g ≠ f) (h0 : tableOf m g ≠ 0)
    (hx : InBlock (tableOf m g) x) : ¬ Footprint m N f x := by
  have hu := h.tableBlock hg h0
  rintro (hl | hb | ⟨-, -, hfree, hx'⟩ | ⟨hlo, hhi⟩ | ⟨h0', hx'⟩)
  · exact Nat.not_lt.mpr hx.high hl
  · exact UsedBlock.not_bitmap hu.lo hx hb
  · rw [← hx.unique hx', hu.used] at hfree
    cases hfree
  · rcases h.known_place hf with rfl | ⟨d, k, j, hd, -, -, -, hk, hj, rfl⟩
    · exact root_inBlock hlo hhi hu.lo hx
    · exact h.ind_ne_place hg h0 hd hk (hx.unique (Placed.inBlock hlo hhi hj))
  · exact hne (h.ind_inj hg hf h0 (hx.unique hx'))

/-- Nor is any byte of the data of a file, be it `f` itself. -/
theorem Footprint.not_data (hg : LiveIn m N g) (hdir : isDir m g = false) (h0 : blockNo m g k ≠ 0)
    (hx : InBlock (blockNo m g k) x) : ¬ Footprint m N f x := by
  have hu := h.slotBlock hg.known h0
  rintro (hl | hb | ⟨-, -, hfree, hx'⟩ | ⟨hlo, hhi⟩ | ⟨h0', hx'⟩)
  · exact Nat.not_lt.mpr hx.high hl
  · exact UsedBlock.not_bitmap hu.lo hx hb
  · rw [← hx.unique hx', hu.used] at hfree
    cases hfree
  · rcases h.known_place hf with rfl | ⟨d, k', j, hd, hdd, -, -, hk, hj, rfl⟩
    · exact root_inBlock hlo hhi hu.lo hx
    · -- The file would stand in a block of data.
      have heq := hx.unique (Placed.inBlock hlo hhi hj)
      have hptr : Ptr.slot g k = .slot d k' := h.ptrs.inj _ _ hg.known hd.known h0 heq
      cases hptr
      rw [hdir] at hdd
      cases hdd
  · have hptr : Ptr.slot g k = .ind f := h.ptrs.inj _ _ hg.known hf h0 (hx.unique hx')
    cases hptr

theorem Within.rest (hw : Within (Footprint m N f) m m') :
    Rest (fsShape N) (fileTree m) (fileTree m') f := by
  intro g hg hne
  refine fileSame_of (hw.same fun x hlo hhi => ?_) fun h0 => hw.same fun x hlo hhi => ?_
  · exact Footprint.not_head h hf hg hne hlo (by rw [BY2FILE]; omega)
  · exact Footprint.not_table h hf hg hne h0 ⟨hlo, hhi⟩

/-- Nor is the magic number, or the number of blocks. -/
theorem Footprint.not_super (hlo : blockAddr 1 ≤ x) (hhi : x < blockAddr 1 + 8) : ¬ Footprint m N f x := by
  have hfree : ∀ b, firstData N ≤ b → ¬ InBlock b x := by
    intro b hb
    rw [firstData_eq] at hb
    rw [blockAddr_eq] at hlo hhi
    rw [InBlock, blockAddr_eq]
    omega
  rintro (hl | ⟨hb, -⟩ | ⟨hb, -, -, hx⟩ | ⟨hlo', hhi'⟩ | ⟨h0, hx⟩)
  · rw [DISKMAP] at hl
    rw [blockAddr_eq] at hlo
    omega
  · rw [blockAddr_eq] at hhi hb
    omega
  · exact hfree _ hb hx
  · have hlt := (h.placed hf).super_lt
    omega
  · exact hfree _ (h.tableBlock hf h0).lo hx

end Footprint

end RpiMos
