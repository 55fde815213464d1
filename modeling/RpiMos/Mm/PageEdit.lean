/-
  RpiMos.Mm.PageEdit

  What the operations of mm/pmap.c change, seen from all address spaces at once:
  one leaf entry at most.  `PmapSound` is the invariant they keep when no leaf
  entry has a bit that only `pa2page` reads.
-/

import RpiMos.Mm.PageOps

namespace RpiMos

open Lib RadixShape

variable {s s' s₁ : Pmap} {dirs : Finset Nat} {boot : Nat → Nat} {d t i pp : Nat}
  {va va' perm e : Word}

/-! ## Edits -/

/-- From `s` to `s'` at most the leaf entry of the page of `va` below `d` changed,
    of all that a user can read. -/
structure Edited (dirs : Finset Nat) (d : Nat) (va : Word) (s s' : Pmap) : Prop where
  other : ∀ {d' va'}, d' ∈ dirs → GET_L1_INDEX va' ≠ uvptIndex →
    ¬ (d' = d ∧ pageIdx va' = pageIdx va) → mapping s' d' va' = mapping s d' va'
  data : ∀ {p}, visBit s p = true → ¬ IsTable s dirs p → s'.mem p = s.mem p
  table : ∀ {p}, visBit s p = true → (IsTable s' dirs p ↔ IsTable s dirs p)

theorem LeafSet.edited {new : Option Word} (h : LeafSet dirs d va new s s') :
    Edited dirs d va s s' := ⟨h.other, h.data, h.table⟩

theorem Grown.edited (h : Grown dirs s s') : Edited dirs d va s s' :=
  ⟨fun hd hva _ => h.map_eq hd hva, h.data, h.table⟩

theorem Grown.trans_edited (hg : Grown dirs s s₁) (h : Edited dirs d va s₁ s') :
    Edited dirs d va s s' where
  other hd' hva' hne := (h.other hd' hva' hne).trans (hg.map_eq hd' hva')
  data hv hnt := (h.data (hg.vis hv) fun ht => hnt ((hg.table hv).mp ht)).trans (hg.data hv hnt)
  table hv := (h.table (hg.vis hv)).trans (hg.table hv)

/-! ## Addresses and permissions -/

/-- Rounding down to a page leaves the page. -/
theorem ROUNDDOWN_pageIdx (a : Word) : pageIdx (ROUNDDOWN a) = pageIdx a := by
  have h₁ : (~~~0xfff#64 >>> 30) &&& 0x1ff#64 = 0x1ff#64 := by decide
  have h₂ : (~~~0xfff#64 >>> 21) &&& 0x1ff#64 = 0x1ff#64 := by decide
  have h₃ : (~~~0xfff#64 >>> 12) &&& 0x1ff#64 = 0x1ff#64 := by decide
  simp only [pageIdx, GET_L1_INDEX, GET_L2_INDEX, GET_L3_INDEX, ROUNDDOWN,
    BitVec.ushiftRight_and_distrib, BitVec.and_assoc, h₁, h₂, h₃]

theorem ROUNDDOWN_L1 (a : Word) : GET_L1_INDEX (ROUNDDOWN a) = GET_L1_INDEX a :=
  congrArg Prod.fst (ROUNDDOWN_pageIdx a)

/-- Without page-number bits the entry has the address of the page, both ways. -/
theorem perm_tame (h : perm &&& pageNumberBits = 0) :
    PTE_ADDR perm = 0 ∧ perm &&& highAddrBits = 0 := by
  have h₁ : pageNumberBits &&& 0x3ffff000#64 = 0x3ffff000#64 := by decide
  have h₂ : pageNumberBits &&& highAddrBits = highAddrBits := by decide
  constructor
  · rw [PTE_ADDR, ← h₁, ← BitVec.and_assoc, h]
    simp
  · rw [← h₂, ← BitVec.and_assoc, h]
    simp

theorem pteFrame_PTE_ADDR (w : Word) : pteFrame (PTE_ADDR w) = pteFrame w := by
  have hmask : 0x3ffff000#64 &&& 0x3ffff000#64 = 0x3ffff000#64 := by decide
  rw [pteFrame, pteFrame, PTE_ADDR, PTE_ADDR, BitVec.and_assoc, hmask]

theorem pa2page_PTE_ADDR (w : Word) : pa2page (PTE_ADDR w) = pteFrame w := by
  have hhigh : 0x3ffff000#64 &&& highAddrBits = 0#64 := by decide
  rw [(pa2page_eq_pteFrame_iff _).mpr, pteFrame_PTE_ADDR]
  rw [PTE_ADDR, BitVec.and_assoc, hhigh]
  simp

/-! ## Pages that entries name -/

/-- No page that can be handed out is addressed by an entry. -/
def NoDangling (dirs : Finset Nat) (s : Pmap) : Prop :=
  ∀ p < NPAGE, visBit s p = false → ∀ x ∈ tableSlots s dirs, child s x.1 x.2 ≠ some p

theorem PmapInv.noDangling (hI : PmapInv boot dirs s) : NoDangling dirs s := by
  intro p hp hv
  exact not_named_of_slotCount_eq_zero (hI.unused hp hv).2.1

/-- Whatever the two indices, the walk of `page_lookup` ends in some table. -/
theorem leafSlot_isTable (ht : TablesOk s dirs) (hd : d ∈ dirs)
    (hx : leafSlot s d va = some (t, i)) : IsTable s dirs t := by
  have hat0 : (tableShape dirs).At (child s) 0 d := hd
  obtain ⟨u, hu, hux⟩ := Option.map_eq_some_iff.mp hx
  cases hux
  simp only [radixWalk] at hu
  obtain ⟨v, hv, hvu⟩ := Option.bind_eq_some_iff.mp hu
  obtain ⟨u', hu', hwu⟩ := Option.bind_eq_some_iff.mp hvu
  cases hwu
  -- The first index leads back to the directory or down to level 1.
  have hlevel : (tableShape dirs).At (child s) 0 v ∨ (tableShape dirs).At (child s) 1 v := by
    by_cases hself : GET_L1_INDEX va = uvptIndex
    · rw [hself, ht.dir_self d hd] at hv
      cases hv
      exact Or.inl hat0
    · exact Or.inr ⟨d, _, hat0, slotOk_l1 dirs hself, hv⟩
  rcases hlevel with h0 | h1
  · by_cases hself : GET_L2_INDEX va = uvptIndex
    · rw [hself, ht.dir_self v h0] at hu'
      cases hu'
      exact isTable_of_at (by omega) h0
    · have h1 : (tableShape dirs).At (child s) 1 t :=
        ⟨v, _, h0, ⟨GET_L2_INDEX_lt va, fun _ => hself⟩, hu'⟩
      exact isTable_of_at (by omega) h1
  · have h2 : (tableShape dirs).At (child s) 2 t := ⟨v, _, h1, slotOk_l2 dirs va, hu'⟩
    exact isTable_of_at (Nat.le_refl 2) h2

/-- A page that an entry names is not allocatable. -/
theorem PmapInv.visBit_named (hI : PmapInv boot dirs s) (ht : IsTable s dirs t) (hi : i < PTE2PT)
    (hv : isValid (s.mem t i) = true) : visBit s (pteFrame (s.mem t i)) = true := by
  by_contra hf
  rw [Bool.not_eq_true] at hf
  exact hI.noDangling _ (pteFrame_lt _) hf (t, i) (hI.tables.mem_tableSlots ht hi)
    (child_of_valid hv)

theorem pageLookup_slot {q : Nat} (h : pageLookup s d va = some (q, t, i)) :
    leafSlot s d va = some (t, i) ∧ isValid (s.mem t i) = true := by
  rw [pageLookup_eq] at h
  obtain ⟨y, hy, hyx⟩ := Option.bind_eq_some_iff.mp h
  by_cases hv : isValid (s.mem y.1 y.2) = true
  · rw [if_pos hv] at hyx
    cases hyx
    exact ⟨hy, hv⟩
  · rw [if_neg hv] at hyx
    cases hyx

/-! ## The invariant -/

/-- Tables, counts and allocator are in order, and every leaf entry reads the
    same both ways. -/
structure PmapSound (boot : Nat → Nat) (dirs : Finset Nat) (s : Pmap) : Prop
    extends PmapInv boot dirs s where
  clear : ∀ d ∈ dirs, ∀ va e, GET_L1_INDEX va ≠ uvptIndex → mapping s d va = some e →
    e &&& highAddrBits = 0

namespace PmapSound

/-- Writes outside the tables. -/
theorem of_tables (h : PmapSound boot dirs s) (hmem : ∀ t, IsTable s dirs t → s'.mem t = s.mem t)
    (hpages : s'.pages = s.pages) (hvis : s'.vis = s.vis) : PmapSound boot dirs s' := by
  refine ⟨⟨h.toPmapWf.of_tables hmem hpages, fun p hp hv => ?_⟩, fun d hd va e hva he => ?_⟩
  · rw [visBit, hvis, ← visBit] at hv
    rw [hpages]
    exact h.alloc p hp hv
  · rw [mapping_of_tables hmem hd hva] at he
    exact h.clear d hd va e hva he

/-- A mapped page is in use. -/
theorem mapped_used (h : PmapSound boot dirs s) (hd : d ∈ dirs) (hm : mapping s d va = some e) :
    visBit s (pteFrame e) = true := by
  obtain ⟨t, i, hx, hv, rfl⟩ := mapping_eq_some.mp hm
  exact h.visBit_named (leafSlot_isTable h.tables hd hx) (leafSlot_lt hx).2 hv

/-- `page_lookup` answers with the page that the leaf entry addresses. -/
theorem lookup_eq (h : PmapSound boot dirs s) (hd : d ∈ dirs) (hva : GET_L1_INDEX va ≠ uvptIndex)
    {q : Nat} (hl : pageLookup s d va = some (q, t, i)) :
    mapping s d va = some (s.mem t i) ∧ q = pteFrame (s.mem t i) := by
  obtain ⟨hslot, hv⟩ := pageLookup_slot hl
  have hm : mapping s d va = some (s.mem t i) := by rw [mapping_of_leafSlot hslot, if_pos hv]
  have hq : q = pa2page (s.mem t i) := by
    rw [pageLookup_eq, hslot, Option.bind_some, if_pos hv] at hl
    cases hl
    rfl
  exact ⟨hm, hq.trans ((pa2page_eq_pteFrame_iff _).mpr (h.clear d hd va _ hva hm))⟩

/-- After an edit that leaves an acceptable entry the leaf entries still read the same. -/
theorem of_edited (h : PmapSound boot dirs s) (hI : PmapInv boot dirs s')
    (hed : Edited dirs d va s s')
    (hnew : ∀ e, mapping s' d va = some e → e &&& highAddrBits = 0) : PmapSound boot dirs s' := by
  refine ⟨hI, fun d' hd' va' e hva' he => ?_⟩
  by_cases hsame : d' = d ∧ pageIdx va' = pageIdx va
  · obtain ⟨rfl, hidx⟩ := hsame
    rw [mapping_congr_page hidx] at he
    exact hnew e he
  · rw [hed.other hd' hva' hsame] at he
    exact h.clear d' hd' va' e hva' he

/-- A tame insertion of a page in use keeps the invariant and everything but the
    entry; that addresses the page when the insertion returns 0. -/
theorem pageInsert (h : PmapSound boot dirs s) (hd : d ∈ dirs) (hva : GET_L1_INDEX va ≠ uvptIndex)
    (hpp : pp < NPAGE) (hvis : visBit s pp = true) (hperm : perm &&& pageNumberBits = 0) :
    PmapSound boot dirs (RpiMos.pageInsert s d pp va perm).2 ∧
    Edited dirs d va s (RpiMos.pageInsert s d pp va perm).2 ∧
    ((RpiMos.pageInsert s d pp va perm).1 = true →
      mapping (RpiMos.pageInsert s d pp va perm).2 d va = some (leafEntry s pp perm) ∧
      pteFrame (leafEntry s pp perm) = pp) ∧
    ((RpiMos.pageInsert s d pp va perm).1 = false →
      mapping (RpiMos.pageInsert s d pp va perm).2 d va = mapping s d va) := by
  obtain ⟨haddr, hhigh⟩ := perm_tame hperm
  rcases pageInsert_spec h.toPmapInv hd hva hpp haddr (h.clear d hd va · hva) with
    ⟨s', hins, hwf, hl, halloc⟩ | ⟨s', hins, hI', hg⟩
  · rw [hins]
    refine ⟨h.of_edited ⟨hwf, halloc hvis⟩ hl.edited fun e he => ?_, hl.edited,
      fun _ => ⟨hl.here, pteFrame_leafEntry h.pa hpp haddr⟩, fun hf => absurd hf (by simp)⟩
    rw [hl.here] at he
    cases he
    rw [leafEntry_high h.pa hpp, hhigh]
  · rw [hins]
    refine ⟨h.of_edited hI' (hg.edited : Edited dirs d va s s') fun e he => ?_, hg.edited,
      fun hf => absurd hf (by simp), fun _ => hg.map_eq hd hva⟩
    rw [hg.map_eq hd hva] at he
    exact h.clear d hd va e hva he

/-- A removal keeps the invariant and everything but the entry, which goes. -/
theorem pageRemove (h : PmapSound boot dirs s) (hd : d ∈ dirs) (hva : GET_L1_INDEX va ≠ uvptIndex) :
    PmapSound boot dirs (RpiMos.pageRemove s d va) ∧ Edited dirs d va s (RpiMos.pageRemove s d va) ∧
    mapping (RpiMos.pageRemove s d va) d va = none := by
  obtain ⟨hwf, hl, halloc⟩ := pageRemove_spec h.toPmapWf hd hva (h.clear _ hd va · hva)
  refine ⟨h.of_edited ⟨hwf, halloc h.alloc⟩ hl.edited fun e he => ?_, hl.edited, hl.here⟩
  rw [hl.here] at he
  cases he

/-- An allocation keeps the invariant. -/
theorem pageAlloc (h : PmapSound boot dirs s) (halloc : RpiMos.pageAlloc s = some (pp, s₁)) :
    PmapSound boot dirs s₁ ∧ Grown dirs s s₁ := by
  obtain ⟨hI, hg, -⟩ := pageAlloc_inv h.toPmapInv halloc
  refine ⟨⟨hI, fun d hd va e hva he => ?_⟩, hg⟩
  rw [hg.map_eq hd hva] at he
  exact h.clear d hd va e hva he

end PmapSound

end RpiMos
