/-
  RpiMos.Fs.DirTree

  The directory tree that the blocks of the file system hold, whether they are in
  the cache or only on the disk: where the blocks and the entries of a directory
  are, which files the root leads to, and what of that a store to `f_dir` leaves
  as it is.
-/

import RpiMos.Fs.BlockMap
import RpiMos.Lib.NamePath

namespace RpiMos

open Lib Prog

variable {s s' s₀ : Fs} {m m' : ByteMem} {N d e f p b i j k x : Nat} {name : List (BitVec 8)}

/-! ## What the blocks hold -/

/-- The cache where a block is in it, and else the disk. -/
def Fs.blocks (s : Fs) : ByteMem := fun x =>
  if s.mapped (x / BY2PG) then s.mem x else s.disk (x - DISKMAP)

/-- `f->f_indirect`. -/
def tableOf (m : ByteMem) (f : Nat) : Nat := (m.ld32 (fIndirect f)).toNat

/-- The number of block `i` of file `f`, 0 when there is none. -/
def blockNo (m : ByteMem) (f i : Nat) : Nat :=
  if i < NINDIRECT then (slotIn m f (tableOf m f) i).toNat else 0

/-- `ROUND(f->f_size, BY2BLK) / BY2BLK`. -/
def blockCount (m : ByteMem) (f : Nat) : Nat := ROUND (m.ld32 (fSize f)).toNat BY2BLK / BY2BLK

def isDir (m : ByteMem) (f : Nat) : Bool := m.ld32 (fType f) == FTYPE_DIR

/-- `&((struct File *)blk)[j]`, for block `b`. -/
def dirEntryAt (b j : Nat) : Nat := blockAddr b + BY2FILE * j

/-- The string at `p` is `name`. -/
def named (m : ByteMem) (p : Nat) : List (BitVec 8) → Bool
  | [] => m p == 0
  | c :: name => m p == c && named m (p + 1) name

/-- The first entry in block `b` with that name. -/
def findIn (m : ByteMem) (b : Nat) (name : List (BitVec 8)) : Option Nat :=
  ((List.range FILE2BLK).map (dirEntryAt b)).find? fun e => named m e name

/-- The first entry of directory `d` with that name. -/
def lookupEntry (m : ByteMem) (d : Nat) (name : List (BitVec 8)) : Option Nat :=
  (List.range (blockCount m d)).findSome? fun i => findIn m (blockNo m d i) name

/-- The tree as paths see it. -/
def dirTree (m : ByteMem) : NameSpace Nat (List (BitVec 8)) where
  isDir := isDir m
  child := lookupEntry m
  fits name := decide (name.length < MAXNAMELEN)

def rootFile : Nat := sRoot (blockAddr 1)

/-! ## The files in the tree -/

/-- `e` is an entry of directory `d` with a name. -/
def EntryOf (m : ByteMem) (d e : Nat) : Prop :=
  ∃ i j, i < blockCount m d ∧ blockNo m d i ≠ 0 ∧ j < FILE2BLK ∧ e = dirEntryAt (blockNo m d i) j ∧ m e ≠ 0

inductive InTree (m : ByteMem) : Nat → Prop
  | root : InTree m rootFile
  | entry {d e : Nat} (h : InTree m d) (hdir : isDir m d = true) (he : EntryOf m d e) : InTree m e

/-- A block behind the bitmap that is in use. -/
structure UsedBlock (m : ByteMem) (N b : Nat) : Prop where
  lo : firstData N ≤ b
  hi : b < N
  used : freeBit m b = false

/-- The blocks of directories and the tables of block numbers are blocks in use,
    and no table is a block of a directory. -/
structure DirGraph (m : ByteMem) (N : Nat) : Prop where
  block : ∀ d i, InTree m d → isDir m d = true → i < blockCount m d → blockNo m d i ≠ 0 →
    UsedBlock m N (blockNo m d i)
  table : ∀ f, InTree m f → tableOf m f ≠ 0 → UsedBlock m N (tableOf m f)
  apart : ∀ f d i, InTree m f → InTree m d → isDir m d = true → i < blockCount m d →
    tableOf m f ≠ 0 → tableOf m f ≠ blockNo m d i

/-- Where a file can be: the root, or an entry of a block behind the bitmap. -/
def Placed (N f : Nat) : Prop :=
  f = rootFile ∨ ∃ b j, firstData N ≤ b ∧ b < N ∧ j < FILE2BLK ∧ f = dirEntryAt b j

theorem DirGraph.placed (hg : DirGraph m N) (h : InTree m f) : Placed N f := by
  cases h with
  | root => exact Or.inl rfl
  | entry hd hdir he =>
      obtain ⟨i, j, hi, h0, hj, rfl, -⟩ := he
      have hused := hg.block _ i hd hdir hi h0
      exact Or.inr ⟨_, j, hused.lo, hused.hi, hj, rfl⟩

/-! ## Stores to `f_dir` -/

/-- From `m` to `m'` nothing is different but `f_dir` of files in the tree. -/
def ButDir (m m' : ByteMem) : Prop :=
  ∀ x, m' x ≠ m x → ∃ e, InTree m e ∧ fDir e ≤ x ∧ x < fDir e + 8

theorem ButDir.refl (m : ByteMem) : ButDir m m := fun _ h => absurd rfl h

theorem ButDir.st64 (h : ButDir m m') (he : InTree m e) (v : Word) :
    ButDir m (m'.st64 (fDir e) v) := by
  intro x hx
  by_cases hin : fDir e ≤ x ∧ x < fDir e + 8
  · exact ⟨e, he, hin⟩
  · apply h x
    rw [← ByteMem.same_st64 (m := m') (a := fDir e) (b := x) (n := 1) v (by omega) x (le_refl x)
      (by omega)]
    exact hx

theorem rootFile_eq : rootFile = blockAddr 1 + 8 := rfl
theorem entryAt_eq (b j : Nat) : dirEntryAt b j = 8589934592 + b * 4096 + 256 * j := rfl
theorem fDir_eq (f : Nat) : fDir f = f + 184 := rfl

section ButDir

variable (hg : DirGraph m N) (h : ButDir m m')

include hg h

/-- What is not in `f_dir` of a place for a file is the same. -/
theorem ButDir.byte (hx : ∀ e, Placed N e → x < fDir e ∨ fDir e + 8 ≤ x) : m' x = m x := by
  by_contra hne
  obtain ⟨e, he, hlo, hhi⟩ := h x hne
  have hout := hx e (hg.placed he)
  omega

/-- The fields of an entry before `f_dir`. -/
theorem ButDir.entry (b j : Nat) : ByteMem.Same m m' (dirEntryAt b j) 184 := by
  intro x hlo hhi
  apply h.byte hg
  intro e he
  rw [entryAt_eq] at hlo hhi
  rw [fDir_eq]
  rcases he with rfl | ⟨b', j', -, -, -, rfl⟩
  · rw [rootFile_eq, blockAddr_eq]
    omega
  · rw [entryAt_eq]
    omega

theorem ButDir.root : ByteMem.Same m m' rootFile 184 := by
  intro x hlo hhi
  apply h.byte hg
  intro e he
  rw [rootFile_eq, blockAddr_eq] at hlo hhi
  rw [fDir_eq]
  rcases he with rfl | ⟨b', j', hb, -, -, rfl⟩
  · rw [rootFile_eq, blockAddr_eq]
    omega
  · rw [firstData_eq] at hb
    rw [entryAt_eq]
    omega

theorem ButDir.fields (hf : InTree m f) : ByteMem.Same m m' f 184 := by
  rcases hg.placed hf with rfl | ⟨b, j, -, -, -, rfl⟩
  · exact h.root hg
  · exact h.entry hg b j

/-- The super block's words before the root. -/
theorem ButDir.super : ByteMem.Same m m' (blockAddr 1) 8 := by
  intro x hlo hhi
  apply h.byte hg
  intro e he
  rw [blockAddr_eq] at hlo hhi
  rw [fDir_eq]
  rcases he with rfl | ⟨b', j', hb, -, -, rfl⟩
  · rw [rootFile_eq, blockAddr_eq]
    omega
  · rw [firstData_eq] at hb
    rw [entryAt_eq]
    omega

theorem ButDir.bits (hb : b < N) : freeBit m' b = freeBit m b := by
  apply freeBit_same
  intro x hlo hhi
  apply h.byte hg
  intro e he
  rw [bitWord, blockAddr_eq] at hlo hhi
  rw [fDir_eq]
  rcases he with rfl | ⟨b', j', hb', -, -, rfl⟩
  · rw [rootFile_eq, blockAddr_eq]
    omega
  · rw [firstData_eq] at hb'
    rw [entryAt_eq]
    omega

/-- A table is no place for entries. -/
theorem ButDir.table (hf : InTree m f) (h0 : tableOf m f ≠ 0) :
    ByteMem.Same m m' (blockAddr (tableOf m f)) 4096 := by
  have hused := (hg.table f hf h0).lo
  rw [firstData_eq] at hused
  intro x hlo hhi
  by_contra hne
  obtain ⟨e, he, hlo', hhi'⟩ := h x hne
  rw [blockAddr_eq] at hlo hhi
  rw [fDir_eq] at hlo' hhi'
  cases he with
  | root =>
      rw [rootFile_eq, blockAddr_eq] at hlo' hhi'
      omega
  | entry hd hdir he =>
      obtain ⟨i, j, hi, -, hj, rfl, -⟩ := he
      have hapart := hg.apart f _ i hf hd hdir hi h0
      rw [entryAt_eq] at hlo' hhi'
      rw [FILE2BLK] at hj
      omega

theorem ButDir.tableOf_eq (hf : InTree m f) : tableOf m' f = tableOf m f := by
  have hsame := (h.fields hg hf).mono (b := fIndirect f) (k := 4) (by rw [fIndirect_eq]; omega)
    (by rw [fIndirect_eq]; omega)
  rw [tableOf, tableOf, hsame.ld32]

theorem ButDir.blockNo_eq (hf : InTree m f) (i : Nat) : blockNo m' f i = blockNo m f i := by
  unfold blockNo
  by_cases hi : i < NINDIRECT
  · rw [if_pos hi, if_pos hi, h.tableOf_eq hg hf]
    refine congrArg BitVec.toNat (slotIn_same ?_ (fun h0 => h.table hg hf h0) hi)
    exact (h.fields hg hf).mono (by rw [fDirect_eq]; omega) (by rw [fDirect_eq]; omega)
  · rw [if_neg hi, if_neg hi]

theorem ButDir.size_eq (hf : InTree m f) : m'.ld32 (fSize f) = m.ld32 (fSize f) :=
  ((h.fields hg hf).mono (by rw [fSize]; omega) (by rw [fSize]; omega)).ld32

theorem ButDir.blockCount_eq (hf : InTree m f) : blockCount m' f = blockCount m f := by
  rw [blockCount, blockCount, h.size_eq hg hf]

theorem ButDir.isDir_eq (hf : InTree m f) : isDir m' f = isDir m f := by
  have hsame := (h.fields hg hf).mono (b := fType f) (k := 4) (by rw [fType]; omega)
    (by rw [fType]; omega)
  rw [isDir, isDir, hsame.ld32]

end ButDir

theorem named_same (h : ByteMem.Same m m' p (name.length + 1)) : named m' p name = named m p name := by
  induction name generalizing p with
  | nil => rw [named, named, h p (le_refl p) (by simp)]
  | cons c name ih =>
      rw [List.length_cons] at h
      rw [named, named, h p (le_refl p) (by omega), ih (h.mono (by omega) (by omega))]

theorem ButDir.findIn_eq (hg : DirGraph m N) (h : ButDir m m') (hname : name.length < MAXNAMELEN)
    (b : Nat) : findIn m' b name = findIn m b name := by
  unfold findIn
  rw [List.find?_map, List.find?_map]
  have hsame : ∀ j, named m' (dirEntryAt b j) name = named m (dirEntryAt b j) name := by
    intro j
    rw [MAXNAMELEN] at hname
    exact named_same ((h.entry hg b j).mono (le_refl _) (by omega))
  simp only [Function.comp_def, hsame]

theorem ButDir.lookup_eq (hg : DirGraph m N) (h : ButDir m m') (hd : InTree m d)
    (hname : name.length < MAXNAMELEN) : lookupEntry m' d name = lookupEntry m d name := by
  unfold lookupEntry
  rw [h.blockCount_eq hg hd]
  simp only [h.blockNo_eq hg hd, h.findIn_eq hg hname]

/-! ## Looking a name up -/

/-- An entry with a name that is not empty has one. -/
theorem named_ne_zero (h : named m p name = true) (hname : name ≠ []) (h0 : (0 : BitVec 8) ∉ name) :
    m p ≠ 0 := by
  cases name with
  | nil => exact absurd rfl hname
  | cons c name =>
      rw [named, Bool.and_eq_true, beq_iff_eq] at h
      intro hp
      apply h0
      rw [← hp, h.1]
      exact List.mem_cons_self

theorem findIn_some (h : findIn m b name = some e) :
    named m e name = true ∧ ∃ j, j < FILE2BLK ∧ e = dirEntryAt b j := by
  unfold findIn at h
  have hnamed := List.find?_some h
  obtain ⟨j, hj, rfl⟩ := List.mem_map.mp (List.mem_of_find?_eq_some h)
  exact ⟨hnamed, j, List.mem_range.mp hj, rfl⟩

theorem lookupEntry_some (h : lookupEntry m d name = some e) :
    ∃ i, i < blockCount m d ∧ findIn m (blockNo m d i) name = some e := by
  obtain ⟨i, hi, hfind⟩ := List.exists_of_findSome?_eq_some h
  exact ⟨i, List.mem_range.mp hi, hfind⟩

end RpiMos
