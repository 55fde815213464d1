/-
  RpiMos.Mm.PageTable

  The page tables of all environments as one forest of radix tables, the map
  from user pages to leaf entries that the forest implements, and the number of
  entries that name each page.  `PmapInv` collects what the operations of
  `RpiMos.Mm.Pmap` keep: table pages are pairwise distinct, every `ref` is the
  boot count plus the number of entries naming the page, and a page whose
  allocation bit is clear is unused.
-/

import RpiMos.Mm.Pmap
import RpiMos.Lib.RadixTable
import RpiMos.Lib.SlotCount
import Mathlib.Data.Finset.Prod
import Mathlib.Data.Finset.Range

namespace RpiMos

open Lib

/-! ## The forest -/

/-- The frame that word `i` of frame `t` names, when it is a valid entry. -/
def child (s : Pmap) (t i : Nat) : Option Nat :=
  if isValid (s.mem t i) then some (pteFrame (s.mem t i)) else none

/-- Page directories are the roots; their UVPT slot points back at them and
    leads to no further table. -/
def tableShape (dirs : Finset Nat) : RadixShape Nat Nat where
  root := (· ∈ dirs)
  slotOk n i := i < PTE2PT ∧ (n = 0 → i ≠ uvptIndex)

/-- `t` is a page directory or a level-2 or level-3 table below one. -/
def IsTable (s : Pmap) (dirs : Finset Nat) (t : Nat) : Prop :=
  (tableShape dirs).Node (child s) 2 t

/-- The page tables of `dirs`: distinct frames, each directory closed by its
    self-map slot. -/
structure TablesOk (s : Pmap) (dirs : Finset Nat) : Prop where
  dir_lt : ∀ d ∈ dirs, d < NPAGE
  dir_self : ∀ d ∈ dirs, child s d uvptIndex = some d
  forest : (tableShape dirs).Forest (child s) 2

open Classical in
/-- Every entry of every table page. -/
@[irreducible] noncomputable def tableSlots (s : Pmap) (dirs : Finset Nat) : Finset (Nat × Nat) :=
  ((Finset.range NPAGE) ×ˢ (Finset.range PTE2PT)).filter fun x => IsTable s dirs x.1

/-- How many valid entries (leaf entries and table slots) name page `p`. -/
noncomputable def entryCount (s : Pmap) (dirs : Finset Nat) (p : Nat) : Nat :=
  slotCount (tableSlots s dirs) (fun x => child s x.1 x.2) p

/-- Each `ref` equals the boot count plus the number of entries naming the page. -/
def RefsExact (boot : Nat → Nat) (dirs : Finset Nat) (s : Pmap) : Prop :=
  ∀ p < NPAGE, (s.pages p).ref.toNat = boot p + entryCount s dirs p

/-- The allocation bit of page `p`. -/
def visBit (s : Pmap) (p : Nat) : Bool := (s.vis (p / 64)).getLsbD (p % 64)

/-- Only unused pages can be allocated. -/
def AllocUnused (s : Pmap) : Prop :=
  ∀ p < NPAGE, visBit s p = false → (s.pages p).ref = 0

/-- The attributes that a user's `perm` argument decides. -/
def permBits : Word := PTE_USER ||| PTE_RO ||| PTE_LIBRARY

/-- `pa` is the address of page `p` with the attributes of a valid entry. -/
structure PaAttr (p : Nat) (pa : Word) : Prop where
  frame : pteFrame pa = p
  valid : isValid pa = true
  high : pa &&& highAddrBits = 0
  perm : pa &&& permBits = 0

/-- `pa` of each page is its own address with the attributes of a valid entry. -/
def PaOk (s : Pmap) : Prop := ∀ p < NPAGE, PaAttr p (s.pages p).pa

/-- Distinct tables and exact counts, over a boot count of at most 2 a page. -/
structure PmapWf (boot : Nat → Nat) (dirs : Finset Nat) (s : Pmap) : Prop where
  pa : PaOk s
  tables : TablesOk s dirs
  refs : RefsExact boot dirs s
  boot_le : ∀ p, boot p ≤ 2

structure PmapInv (boot : Nat → Nat) (dirs : Finset Nat) (s : Pmap) : Prop
    extends PmapWf boot dirs s where
  alloc : AllocUnused s

/-! ## The map from user pages to leaf entries -/

/-- The three indices of the page of `va`. -/
def pageIdx (va : Word) : Nat × Nat × Nat :=
  (GET_L1_INDEX va, GET_L2_INDEX va, GET_L3_INDEX va)

/-- The leaf slot of `va` below directory `d`, when both tables are there. -/
def leafSlot (s : Pmap) (d : Nat) (va : Word) : Option (Nat × Nat) :=
  (radixWalk (child s) d [GET_L1_INDEX va, GET_L2_INDEX va]).map fun t => (t, GET_L3_INDEX va)

/-- The valid leaf entry of `va` below directory `d`. -/
def mapping (s : Pmap) (d : Nat) (va : Word) : Option Word :=
  (leafSlot s d va).bind fun x => if isValid (s.mem x.1 x.2) then some (s.mem x.1 x.2) else none

theorem child_eq_some {s : Pmap} {t i u : Nat} :
    child s t i = some u ↔ isValid (s.mem t i) = true ∧ pteFrame (s.mem t i) = u := by
  unfold child
  split <;> simp_all

theorem child_eq_none {s : Pmap} {t i : Nat} :
    child s t i = none ↔ isValid (s.mem t i) = false := by
  unfold child
  split <;> simp_all

theorem child_congr {s s' : Pmap} {t i : Nat} (h : s'.mem t i = s.mem t i) :
    child s' t i = child s t i := by
  unfold child
  rw [h]

theorem child_lt {s : Pmap} {t i u : Nat} (h : child s t i = some u) : u < NPAGE :=
  (child_eq_some.mp h).2 ▸ pteFrame_lt _

theorem child_setPte_self (s : Pmap) (t i : Nat) (w : Word) :
    child (s.setPte t i w) t i = if isValid w then some (pteFrame w) else none := by
  simp [child]

theorem child_setPte_of_ne {s : Pmap} {t i t' i' : Nat} {w : Word} (h : ¬ (t' = t ∧ i' = i)) :
    child (s.setPte t i w) t' i' = child s t' i' :=
  child_congr (Pmap.setPte_mem_of_ne h)

theorem mapping_eq_some {s : Pmap} {d : Nat} {va w : Word} :
    mapping s d va = some w ↔
      ∃ t i, leafSlot s d va = some (t, i) ∧ isValid (s.mem t i) = true ∧ s.mem t i = w := by
  unfold mapping
  cases h : leafSlot s d va with
  | none => simp
  | some x =>
      obtain ⟨t, i⟩ := x
      by_cases hv : isValid (s.mem t i) = true
      · simp [hv]
      · simp only [Option.bind_some, hv, Bool.false_eq_true, if_false, reduceCtorEq, false_iff,
          Option.some.injEq, Prod.mk.injEq, not_exists]
        rintro t' i' ⟨⟨rfl, rfl⟩, h', -⟩
        exact hv h'

theorem mapping_of_leafSlot {s : Pmap} {d t i : Nat} {va : Word}
    (h : leafSlot s d va = some (t, i)) :
    mapping s d va = if isValid (s.mem t i) then some (s.mem t i) else none := by
  simp [mapping, h]

theorem mapping_of_leafSlot_none {s : Pmap} {d : Nat} {va : Word}
    (h : leafSlot s d va = none) : mapping s d va = none := by
  simp [mapping, h]

/-- Without `create`, `pgdir_walk` finds the leaf slot and changes nothing. -/
theorem pgdirWalk_false (s : Pmap) (d : Nat) (va : Word) :
    pgdirWalk s d va false =
      (match leafSlot s d va with | some x => .at x | none => .null, s) := by
  unfold pgdirWalk pgdirWalkStep leafSlot
  simp only [radixWalk]
  unfold child
  by_cases h₁ : isValid (s.mem d (GET_L1_INDEX va)) = true
  · by_cases h₂ : isValid (s.mem (pteFrame (s.mem d (GET_L1_INDEX va))) (GET_L2_INDEX va)) = true
    · simp [h₁, h₂]
    · simp [h₁, h₂]
  · simp [h₁]

/-- `page_lookup` returns the page `pa2page` reads out of the mapped entry. -/
theorem pageLookup_eq (s : Pmap) (d : Nat) (va : Word) :
    pageLookup s d va =
      (leafSlot s d va).bind fun x =>
        if isValid (s.mem x.1 x.2) then some (pa2page (s.mem x.1 x.2), x.1, x.2) else none := by
  unfold pageLookup
  rw [pgdirWalk_false]
  cases leafSlot s d va <;> rfl

theorem pageLookup_eq_none_iff (s : Pmap) (d : Nat) (va : Word) :
    pageLookup s d va = none ↔ mapping s d va = none := by
  rw [pageLookup_eq, mapping]
  cases leafSlot s d va with
  | none => simp
  | some x =>
      simp only [Option.bind_some]
      split <;> simp

/-! ## Levels -/

variable {s s' : Pmap} {dirs : Finset Nat} {boot : Nat → Nat} {d d' t i : Nat} {va va' : Word}

theorem pathOk_leaf (dirs : Finset Nat) (h : GET_L1_INDEX va ≠ uvptIndex) :
    (tableShape dirs).PathOk 0 [GET_L1_INDEX va, GET_L2_INDEX va] :=
  ⟨⟨GET_L1_INDEX_lt va, fun _ => h⟩, ⟨GET_L2_INDEX_lt va, fun h => absurd h (by omega)⟩, trivial⟩

/-- The table of a leaf slot stands at the lowest level. -/
theorem leafSlot_at (hd : d ∈ dirs) (hva : GET_L1_INDEX va ≠ uvptIndex)
    (h : leafSlot s d va = some (t, i)) :
    (tableShape dirs).At (child s) 2 t ∧ i = GET_L3_INDEX va := by
  obtain ⟨u, hu, hx⟩ := Option.map_eq_some_iff.mp h
  obtain ⟨rfl, rfl⟩ := Prod.mk.inj hx
  have hroot : (tableShape dirs).At (child s) 0 d := hd
  exact ⟨hroot.walk (pathOk_leaf dirs hva) hu, rfl⟩

theorem leafSlot_lt (h : leafSlot s d va = some (t, i)) : t < NPAGE ∧ i < PTE2PT := by
  obtain ⟨u, hu, hx⟩ := Option.map_eq_some_iff.mp h
  obtain ⟨rfl, rfl⟩ := Prod.mk.inj hx
  refine ⟨?_, GET_L3_INDEX_lt va⟩
  simp only [radixWalk] at hu
  obtain ⟨v, -, hv⟩ := Option.bind_eq_some_iff.mp hu
  obtain ⟨w, hw, hwu⟩ := Option.bind_eq_some_iff.mp hv
  cases hwu
  exact child_lt hw

/-- Two user pages with one leaf slot are one page of one directory. -/
theorem leafSlot_inj (ht : TablesOk s dirs) (hd : d ∈ dirs) (hd' : d' ∈ dirs)
    (hva : GET_L1_INDEX va ≠ uvptIndex) (hva' : GET_L1_INDEX va' ≠ uvptIndex)
    {x : Nat × Nat} (h : leafSlot s d va = some x) (h' : leafSlot s d' va' = some x) :
    d = d' ∧ pageIdx va = pageIdx va' := by
  obtain ⟨u, hu, rfl⟩ := Option.map_eq_some_iff.mp h
  obtain ⟨u', hu', hx⟩ := Option.map_eq_some_iff.mp h'
  obtain ⟨rfl, h3⟩ := Prod.mk.inj hx
  have hroot : (tableShape dirs).At (child s) 0 d := hd
  have hroot' : (tableShape dirs).At (child s) 0 d' := hd'
  have hlen : [GET_L1_INDEX va, GET_L2_INDEX va].length
      = [GET_L1_INDEX va', GET_L2_INDEX va'].length := rfl
  obtain ⟨rfl, hpath⟩ := ht.forest.walk_inj hlen (by simp) hroot hroot'
    (pathOk_leaf dirs hva) (pathOk_leaf dirs hva') hu hu'
  simp only [List.cons.injEq, and_true] at hpath
  exact ⟨rfl, by simp [pageIdx, hpath.1, hpath.2, h3]⟩

theorem isTable_of_at {n : Nat} (hn : n ≤ 2) (h : (tableShape dirs).At (child s) n t) :
    IsTable s dirs t := ⟨n, hn, h⟩

theorem TablesOk.isTable_lt (ht : TablesOk s dirs) (h : IsTable s dirs t) : t < NPAGE := by
  obtain ⟨n, -, hn⟩ := h
  cases n with
  | zero => exact ht.dir_lt t hn
  | succ n =>
      obtain ⟨p, i, -, -, hc⟩ := hn
      exact child_lt hc

theorem mem_tableSlots {x : Nat × Nat} :
    x ∈ tableSlots s dirs ↔ (x.1 < NPAGE ∧ x.2 < PTE2PT) ∧ IsTable s dirs x.1 := by
  classical
  rw [tableSlots, Finset.mem_filter, Finset.mem_product, Finset.mem_range, Finset.mem_range]

theorem TablesOk.mem_tableSlots (ht : TablesOk s dirs) (h : IsTable s dirs t) (hi : i < PTE2PT) :
    (t, i) ∈ tableSlots s dirs :=
  RpiMos.mem_tableSlots.mpr ⟨⟨ht.isTable_lt h, hi⟩, h⟩

theorem entryCount_le (s : Pmap) (dirs : Finset Nat) (p : Nat) : entryCount s dirs p ≤ 2 ^ 27 := by
  classical
  have h₁ := slotCount_le_card (tableSlots s dirs) (fun x => child s x.1 x.2) p
  have h₂ : (tableSlots s dirs).card ≤ NPAGE * PTE2PT := by
    rw [tableSlots]
    refine Nat.le_trans (Finset.card_filter_le _ _) (Nat.le_of_eq ?_)
    simp only [Finset.card_product, Finset.card_range]
  rw [NPAGE, PTE2PT] at h₂
  rw [entryCount]
  omega

/-- Every table is named by a slot of a table. -/
theorem TablesOk.isTable_named (ht : TablesOk s dirs) (h : IsTable s dirs t) :
    0 < entryCount s dirs t := by
  obtain ⟨n, hn, hat⟩ := h
  cases n with
  | zero =>
      exact slotCount_pos (ht.mem_tableSlots (isTable_of_at (by omega) hat)
        (GET_L1_INDEX_lt UVPT)) (ht.dir_self t hat)
  | succ n =>
      obtain ⟨p, i, hp, hi, hc⟩ := hat
      exact slotCount_pos (ht.mem_tableSlots (isTable_of_at (by omega) hp) hi.1) hc

/-- An allocatable page is named by no entry and is no table. -/
theorem PmapInv.unused (hI : PmapInv boot dirs s) {p : Nat} (hp : p < NPAGE)
    (hv : visBit s p = false) : (s.pages p).ref = 0 ∧ entryCount s dirs p = 0 ∧ ¬ IsTable s dirs p := by
  have hr := hI.alloc p hp hv
  have he := hI.refs p hp
  have h0 : entryCount s dirs p = 0 := by
    rw [hr] at he
    have hz : (0 : U32).toNat = 0 := rfl
    omega
  exact ⟨hr, h0, fun ht => by have := hI.tables.isTable_named ht; omega⟩

end RpiMos
