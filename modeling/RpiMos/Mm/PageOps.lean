/-
  RpiMos.Mm.PageOps

  `page_remove`, `page_insert` and `page_out` as operations on the map from
  user pages to leaf entries: what each does to the map, to the frames in use
  and to the reference counts, on every path through the code.
-/

import RpiMos.Mm.PageTableOps

namespace RpiMos

open Lib RadixShape

variable {s s' s₁ : Pmap} {dirs : Finset Nat} {boot : Nat → Nat} {d d' t i pp : Nat}
  {va va' perm w e : Word}

theorem mapping_eq_none_iff :
    mapping s d va = none ↔ ∀ t i, leafSlot s d va = some (t, i) → isValid (s.mem t i) = false := by
  cases hx : leafSlot s d va with
  | none => simp [mapping_of_leafSlot_none hx]
  | some x =>
      obtain ⟨t, i⟩ := x
      rw [mapping_of_leafSlot hx]
      cases h : isValid (s.mem t i) <;> simp [h]

/-- The entry of a mapping names its page. -/
theorem child_of_valid (hv : isValid (s.mem t i) = true) :
    child s t i = some (pteFrame (s.mem t i)) := by
  rw [child, if_pos hv]

/-! ## The reference counts under a leaf write -/

/-- Rewriting a leaf slot keeps the tables and the counts, when each `ref` moves
    by the difference of what the slot names. -/
theorem PmapWf.setLeaf (hI : PmapWf boot dirs s) (hd : d ∈ dirs)
    (hva : GET_L1_INDEX va ≠ uvptIndex) (hx : leafSlot s d va = some (t, i))
    (hmem : s'.mem = (s.setPte t i w).mem) (hpa : ∀ p, (s'.pages p).pa = (s.pages p).pa)
    (href : ∀ p < NPAGE, (s'.pages p).ref.toNat + (if child s t i = some p then 1 else 0)
      = (s.pages p).ref.toNat + (if isValid w = true ∧ pteFrame w = p then 1 else 0)) :
    PmapWf boot dirs s' := by
  obtain ⟨hat, -⟩ := leafSlot_at hd hva hx
  refine ⟨fun p hp => ?_, (hI.tables.setLeaf hat).of_mem hmem, fun p hp => ?_, hI.boot_le⟩
  · rw [hpa]
    exact hI.pa p hp
  · have hcount := entryCount_setLeaf (w := w) hat hI.tables (leafSlot_lt hx).2 p
    have hnew : (if child (s.setPte t i w) t i = some p then 1 else 0)
        = (if isValid w = true ∧ pteFrame w = p then 1 else 0) := by
      rw [child_setPte_self]
      by_cases hv : isValid w = true <;> simp [hv]
    have := href p hp
    have := hI.refs p hp
    rw [entryCount_eq_of_mem hmem]
    omega

/-- Conversely the counts cannot stay exact when some `ref` does not follow. -/
theorem RefsExact.ref_setLeaf (hI : PmapWf boot dirs s) (hd : d ∈ dirs)
    (hva : GET_L1_INDEX va ≠ uvptIndex) (hx : leafSlot s d va = some (t, i))
    (hmem : s'.mem = (s.setPte t i w).mem) (hr : RefsExact boot dirs s') :
    ∀ p < NPAGE, (s'.pages p).ref.toNat + (if child s t i = some p then 1 else 0)
      = (s.pages p).ref.toNat + (if isValid w = true ∧ pteFrame w = p then 1 else 0) := by
  intro p hp
  obtain ⟨hat, -⟩ := leafSlot_at hd hva hx
  have hcount := entryCount_setLeaf (w := w) hat hI.tables (leafSlot_lt hx).2 p
  have hnew : (if child (s.setPte t i w) t i = some p then 1 else 0)
      = (if isValid w = true ∧ pteFrame w = p then 1 else 0) := by
    rw [child_setPte_self]
    by_cases hv : isValid w = true <;> simp [hv]
  have hs' := hr p hp
  have := hI.refs p hp
  rw [entryCount_eq_of_mem hmem] at hs'
  omega

/-- A page that a valid leaf entry names has a reference. -/
theorem PmapWf.ref_pos (hI : PmapWf boot dirs s) (hd : d ∈ dirs)
    (hva : GET_L1_INDEX va ≠ uvptIndex) (hx : leafSlot s d va = some (t, i))
    (hv : isValid (s.mem t i) = true) : 0 < (s.pages (pteFrame (s.mem t i))).ref.toNat := by
  obtain ⟨hat, -⟩ := leafSlot_at hd hva hx
  have hpos : 0 < entryCount s dirs (pteFrame (s.mem t i)) :=
    slotCount_pos (hI.tables.mem_tableSlots (isTable_of_at (Nat.le_refl 2) hat) (leafSlot_lt hx).2)
      (child_of_valid hv)
  have := hI.refs _ (pteFrame_lt (s.mem t i))
  omega

/-! ## `page_remove` -/

theorem pageRemove_of_none (h : mapping s d va = none) : pageRemove s d va = s := by
  unfold pageRemove
  rw [(pageLookup_eq_none_iff s d va).mpr h]

theorem pageRemove_of_leafSlot (hx : leafSlot s d va = some (t, i))
    (hv : isValid (s.mem t i) = true) :
    pageRemove s d va =
      (pageFree (s.decRef (pa2page (s.mem t i))) (pa2page (s.mem t i))).setPte t i 0 := by
  unfold pageRemove
  rw [pageLookup_eq, hx, Option.bind_some, if_pos hv]

theorem pageRemove_mem (hx : leafSlot s d va = some (t, i)) (hv : isValid (s.mem t i) = true) :
    (pageRemove s d va).mem = (s.setPte t i 0).mem := by
  rw [pageRemove_of_leafSlot hx hv]
  simp only [Pmap.setPte, pageFree_mem, Pmap.decRef_mem]

theorem pageRemove_pages (hx : leafSlot s d va = some (t, i)) (hv : isValid (s.mem t i) = true) :
    (pageRemove s d va).pages = (s.decRef (pa2page (s.mem t i))).pages := by
  rw [pageRemove_of_leafSlot hx hv, Pmap.setPte_pages, pageFree_pages]

theorem pageRemove_pa (s : Pmap) (d : Nat) (va : Word) (p : Nat) :
    ((pageRemove s d va).pages p).pa = (s.pages p).pa := by
  unfold pageRemove
  split
  · rfl
  · rw [Pmap.setPte_pages, pageFree_pages, Pmap.decRef, Pmap.setRef_pa]

theorem decRef_ref (s : Pmap) (q p : Nat) :
    ((s.decRef q).pages p).ref = if p = q then (s.pages q).ref - 1 else (s.pages p).ref := by
  rw [Pmap.decRef, Pmap.setRef_ref]

theorem incRef_ref (s : Pmap) (q p : Nat) :
    ((s.incRef q).pages p).ref = if p = q then (s.pages q).ref + 1 else (s.pages p).ref := by
  rw [Pmap.incRef, Pmap.setRef_ref]

@[simp] theorem incRef_pa (s : Pmap) (q p : Nat) : ((s.incRef q).pages p).pa = (s.pages p).pa := by
  rw [Pmap.incRef, Pmap.setRef_pa]

@[simp] theorem decRef_pa (s : Pmap) (q p : Nat) : ((s.decRef q).pages p).pa = (s.pages p).pa := by
  rw [Pmap.decRef, Pmap.setRef_pa]

/-- `page_free` after dropping one reference keeps "allocatable means unused". -/
theorem AllocUnused.decref (ha : AllocUnused s) {q : Nat} (hq : q < NPAGE)
    (hpos : 0 < (s.pages q).ref.toNat)
    (hvis : s'.vis = (pageFree (s.decRef q) q).vis) (hpages : s'.pages = (s.decRef q).pages) :
    AllocUnused s' := by
  intro p hp hv
  have hv' : visBit (pageFree (s.decRef q) q) p = false := by rw [visBit, ← hvis]; exact hv
  rw [hpages]
  rcases visBit_pageFree hv' with hv₀ | ⟨rfl, h0⟩
  · have hr : (s.pages p).ref = 0 := ha p hp hv₀
    have hne : p ≠ q := by
      rintro rfl
      rw [hr] at hpos
      exact absurd hpos (by decide)
    rw [decRef_ref, if_neg hne]
    exact hr
  · exact h0

/-- A bit that `page_remove` finds set is only ever cleared. -/
theorem visBit_pageRemove {p : Nat} (h : visBit s p = false) :
    visBit (pageRemove s d va) p = false := by
  unfold pageRemove
  split
  · exact h
  · show visBit (pageFree _ _) p = false
    unfold pageFree
    split
    · exact h
    · rw [visBit]
      simp only [Pmap.setVis, Pmap.decRef_vis]
      split
      · rename_i hdiv
        have h' : (s.vis (p / 64)).getLsbD (p % 64) = false := h
        rw [BitVec.getLsbD_and, ← hdiv, h', Bool.false_and]
      · exact h

/-- `page_remove` of an entry that `pa2page` reads right: the mapping goes, its
    page loses one reference, and everything else stays. -/
theorem pageRemove_spec (hI : PmapWf boot dirs s) (hd : d ∈ dirs)
    (hva : GET_L1_INDEX va ≠ uvptIndex) (he : ∀ e, mapping s d va = some e → e &&& highAddrBits = 0) :
    PmapWf boot dirs (pageRemove s d va) ∧ LeafSet dirs d va none s (pageRemove s d va) ∧
    (AllocUnused s → AllocUnused (pageRemove s d va)) := by
  cases hm : mapping s d va with
  | none =>
      rw [pageRemove_of_none hm]
      exact ⟨hI, ⟨hm, fun _ _ _ => rfl, fun _ _ => rfl, fun _ => Iff.rfl, fun _ => rfl⟩, id⟩
  | some e =>
      obtain ⟨t, i, hx, hv, rfl⟩ := mapping_eq_some.mp hm
      have hpage : pa2page (s.mem t i) = pteFrame (s.mem t i) :=
        (pa2page_eq_pteFrame_iff _).mpr (he _ hm)
      have hmem := pageRemove_mem hx hv
      have hpages := pageRemove_pages hx hv
      have hpos := hI.ref_pos hd hva hx hv
      refine ⟨hI.setLeaf hd hva hx hmem (pageRemove_pa s d va) ?_, ?_, ?_⟩
      · intro p _
        rw [hpages, decRef_ref, child_of_valid hv, hpage]
        by_cases hp : p = pteFrame (s.mem t i)
        · subst hp
          rw [if_pos rfl, if_pos rfl, toNat_sub_one hpos]
          simp
          omega
        · rw [if_neg hp, if_neg (fun h => hp (Option.some.inj h).symm)]
          simp
      · simpa using leafSet_setPte hI.tables hd hva hx hmem (pageRemove_pa s d va)
      · intro ha
        refine ha.decref (pteFrame_lt (s.mem t i)) hpos ?_ ?_
        · rw [pageRemove_of_leafSlot hx hv, hpage, Pmap.setPte_vis]
        · rw [hpages, hpage]

/-! ## `page_insert` -/

/-- The entry `page_insert` writes. -/
def leafEntry (s : Pmap) (pp : Nat) (perm : Word) : Word := (s.pages pp).pa ||| (perm ||| VALID)

theorem isValid_leafEntry (s : Pmap) (pp : Nat) (perm : Word) :
    isValid (leafEntry s pp perm) = true := by
  rw [leafEntry, isValid_or, isValid_or_VALID, Bool.or_true]

theorem PTE_ADDR_or_VALID (perm : Word) : PTE_ADDR (perm ||| VALID) = PTE_ADDR perm := by
  rw [PTE_ADDR_or, show PTE_ADDR VALID = 0 by decide]
  simp

/-- The entry names the page inserted, when `perm` has no address bits. -/
theorem pteFrame_leafEntry (hpa : PaOk s) (hpp : pp < NPAGE) (hperm : PTE_ADDR perm = 0) :
    pteFrame (leafEntry s pp perm) = pp := by
  rw [leafEntry, pteFrame_or_of_clear (by rw [PTE_ADDR_or_VALID, hperm])]
  exact (hpa pp hpp).frame

theorem leafEntry_high (hpa : PaOk s) (hpp : pp < NPAGE) :
    leafEntry s pp perm &&& highAddrBits = perm &&& highAddrBits := by
  rw [leafEntry, BitVec.and_or_distrib_right, BitVec.and_or_distrib_right, (hpa pp hpp).high,
    show VALID &&& highAddrBits = 0 by decide]
  simp

/-- `page_insert` makes the mapping name the page by the number `pa2page` reads
    exactly when `perm` has neither of the bits that `PTE_ADDR` leaves out. -/
theorem pa2page_leafEntry_iff (hpa : PaOk s) (hpp : pp < NPAGE) (hperm : PTE_ADDR perm = 0) :
    pa2page (leafEntry s pp perm) = pp ↔ perm &&& highAddrBits = 0 := by
  rw [← leafEntry_high hpa hpp, ← pa2page_eq_pteFrame_iff, pteFrame_leafEntry hpa hpp hperm]

theorem leafEntry_congr (h : ∀ p, (s'.pages p).pa = (s.pages p).pa) (pp : Nat) (perm : Word) :
    leafEntry s' pp perm = leafEntry s pp perm := by
  rw [leafEntry, leafEntry, h]

/-- With both tables there, `pgdir_walk` finds the slot whatever `create` says. -/
theorem pgdirWalk_of_leafSlot (hx : leafSlot s d va = some (t, i)) (create : Bool) :
    pgdirWalk s d va create = (.at (t, i), s) := by
  obtain ⟨u, hu, hux⟩ := Option.map_eq_some_iff.mp hx
  cases hux
  simp only [radixWalk] at hu
  obtain ⟨v, hv, hvu⟩ := Option.bind_eq_some_iff.mp hu
  obtain ⟨u', hu', hwu⟩ := Option.bind_eq_some_iff.mp hvu
  cases hwu
  obtain ⟨hv₁, rfl⟩ := child_eq_some.mp hv
  obtain ⟨hv₂, rfl⟩ := child_eq_some.mp hu'
  simp [pgdirWalk, pgdirWalkStep, hv₁, hv₂]

theorem pageInsertNew_of_leafSlot (hx : leafSlot s d va = some (t, i)) :
    pageInsertNew s d pp va perm = (true, (s.setPte t i (leafEntry s pp perm)).incRef pp) := by
  rw [pageInsertNew, pgdirWalk_of_leafSlot hx]
  rfl

theorem LeafSet.of_grown {new : Option Word} (hg : Grown dirs s s₁)
    (h : LeafSet dirs d va new s₁ s') : LeafSet dirs d va new s s' where
  here := h.here
  other hd' hva' hne := (h.other hd' hva' hne).trans (hg.map_eq hd' hva')
  data hv hnt := (h.data (hg.vis hv) fun ht => hnt ((hg.table hv).mp ht)).trans (hg.data hv hnt)
  table hv := (h.table (hg.vis hv)).trans (hg.table hv)
  pa p := (h.pa p).trans (hg.pa p)

/-- Filling an invalid leaf slot. -/
theorem PmapWf.fillLeaf (hI : PmapWf boot dirs s) (hd : d ∈ dirs)
    (hva : GET_L1_INDEX va ≠ uvptIndex) (hx : leafSlot s d va = some (t, i))
    (hfree : isValid (s.mem t i) = false) (hpp : pp < NPAGE) (hw : isValid w = true)
    (hwpp : pteFrame w = pp) :
    PmapWf boot dirs ((s.setPte t i w).incRef pp) := by
  refine hI.setLeaf hd hva hx rfl (fun p => by rw [incRef_pa, Pmap.setPte_pages]) fun p hp => ?_
  rw [incRef_ref, Pmap.setPte_pages, child_eq_none.mpr hfree]
  by_cases hpp' : p = pp
  · subst hpp'
    rw [if_pos rfl, toNat_add_one (hI.ref_lt hp)]
    simp [hw, hwpp]
  · rw [if_neg hpp']
    simp [hwpp, Ne.symm hpp']

/-- Taking a reference to a page that is not allocatable. -/
theorem AllocUnused.incref (ha : AllocUnused s) {q : Nat} (hv : visBit s q = true)
    (hvis : s'.vis = s.vis) (hpages : s'.pages = (s.incRef q).pages) : AllocUnused s' := by
  intro p hp hvp
  rw [visBit, hvis] at hvp
  have hne : p ≠ q := by
    rintro rfl
    rw [visBit] at hv
    rw [hv] at hvp
    cases hvp
  rw [hpages, incRef_ref, if_neg hne]
  exact ha p hp hvp

/-- Whatever the perm, a new entry is what the page maps to afterwards. -/
theorem pageInsertNew_leafSet (hI : PmapInv boot dirs s) (hd : d ∈ dirs)
    (hva : GET_L1_INDEX va ≠ uvptIndex) (hins : pageInsertNew s d pp va perm = (true, s')) :
    LeafSet dirs d va (some (leafEntry s pp perm)) s s' := by
  obtain ⟨r, s₁, hwalk, hI₁, hg, ⟨⟨t, i⟩, rfl, hx⟩ | ⟨rfl, -⟩⟩ :=
    pgdirWalk_true hI hd hva
  · rw [pageInsertNew, hwalk] at hins
    obtain ⟨-, rfl⟩ := Prod.mk.inj hins
    have hl : LeafSet dirs d va _ s₁ ((s₁.setPte t i (leafEntry s₁ pp perm)).incRef pp) :=
      leafSet_setPte hI₁.tables hd hva hx rfl (fun p => by rw [incRef_pa, Pmap.setPte_pages])
    rw [if_pos (isValid_leafEntry s₁ pp perm), leafEntry_congr hg.pa] at hl
    rw [← leafEntry, leafEntry_congr hg.pa]
    exact hl.of_grown hg
  · rw [pageInsertNew, hwalk] at hins
    cases hins

/-- `page_insert` where nothing is mapped: it builds what tables are missing and
    writes the entry, or runs out of pages and leaves every mapping alone. -/
theorem pageInsertNew_spec (hI : PmapInv boot dirs s) (hd : d ∈ dirs)
    (hva : GET_L1_INDEX va ≠ uvptIndex) (hm : mapping s d va = none) (hpp : pp < NPAGE)
    (hperm : PTE_ADDR perm = 0) :
    (∃ s', pageInsertNew s d pp va perm = (true, s') ∧ PmapWf boot dirs s' ∧
      LeafSet dirs d va (some (leafEntry s pp perm)) s s' ∧
      (visBit s pp = true → AllocUnused s')) ∨
    (∃ s', pageInsertNew s d pp va perm = (false, s') ∧ PmapInv boot dirs s' ∧
      Grown dirs s s') := by
  obtain ⟨r, s₁, hwalk, hI₁, hg, ⟨⟨t, i⟩, rfl, hx⟩ | ⟨rfl, -⟩⟩ :=
    pgdirWalk_true hI hd hva
  · left
    have hfree : isValid (s₁.mem t i) = false := by
      have h := hg.map_eq hd hva
      rw [hm, mapping_eq_none_iff] at h
      exact h t i hx
    have hw := isValid_leafEntry s₁ pp perm
    have hins : pageInsertNew s d pp va perm =
        (true, (s₁.setPte t i (leafEntry s₁ pp perm)).incRef pp) := by
      rw [pageInsertNew, hwalk, leafEntry]
    refine ⟨_, hins, ?_, pageInsertNew_leafSet hI hd hva hins, ?_⟩
    · exact hI₁.fillLeaf hd hva hx hfree hpp hw (pteFrame_leafEntry hI₁.pa hpp hperm)
    · intro hv
      exact hI₁.alloc.incref (hg.vis hv) rfl rfl
  · right
    exact ⟨s₁, by rw [pageInsertNew, hwalk], hI₁, hg⟩

/-! ### The three ways through `page_insert` -/

theorem pageInsert_of_none (hm : mapping s d va = none) :
    pageInsert s d pp va perm = pageInsertNew s d pp va perm := by
  unfold pageInsert
  rw [pgdirWalk_false]
  cases hx : leafSlot s d va with
  | none => rfl
  | some x =>
      obtain ⟨t, i⟩ := x
      simp [mapping_eq_none_iff.mp hm t i hx]

theorem pageInsert_of_same (hx : leafSlot s d va = some (t, i)) (hv : isValid (s.mem t i) = true)
    (hpage : pa2page (s.mem t i) = pp) :
    pageInsert s d pp va perm = (true, s.setPte t i (leafEntry s pp perm)) := by
  unfold pageInsert
  rw [pgdirWalk_false, hx]
  simp [hv, hpage, leafEntry]

theorem pageInsert_of_other (hx : leafSlot s d va = some (t, i)) (hv : isValid (s.mem t i) = true)
    (hpage : pa2page (s.mem t i) ≠ pp) :
    pageInsert s d pp va perm = pageInsertNew (pageRemove s d va) d pp va perm := by
  unfold pageInsert
  rw [pgdirWalk_false, hx]
  simp [hv, hpage]

/-- A write to a leaf slot leaves the way to it. -/
theorem leafSlot_keep (ht : TablesOk s dirs) (hd : d ∈ dirs) (hva : GET_L1_INDEX va ≠ uvptIndex)
    (hx : leafSlot s d va = some (t, i)) (w : Word) :
    leafSlot (s.setPte t i w) d va = some (t, i) :=
  (leafSlot_setLeaf (leafSlot_at hd hva hx).1 ht hd hva).trans hx

/-- `page_insert` in one line each: what it returns, and the state it leaves
    when an entry was already there. -/
theorem pageInsert_of_mapped (pp : Nat) (perm : Word)
    (hkeep : ∀ w, leafSlot (s.setPte t i w) d va = some (t, i))
    (hx : leafSlot s d va = some (t, i)) (hv : isValid (s.mem t i) = true) :
    ∃ s', pageInsert s d pp va perm = (true, s') ∧
      s'.mem = (s.setPte t i (leafEntry s pp perm)).mem ∧
      (∀ p, (s'.pages p).pa = (s.pages p).pa) ∧
      (pa2page (s.mem t i) = pp ∧ s'.pages = s.pages ∧ s'.vis = s.vis ∨
       pa2page (s.mem t i) ≠ pp ∧
        s'.pages = ((s.decRef (pa2page (s.mem t i))).incRef pp).pages ∧
        s'.vis = (pageFree (s.decRef (pa2page (s.mem t i))) (pa2page (s.mem t i))).vis) := by
  by_cases hpage : pa2page (s.mem t i) = pp
  · exact ⟨_, pageInsert_of_same hx hv hpage, rfl, fun _ => rfl, Or.inl ⟨hpage, rfl, rfl⟩⟩
  · have hmem := pageRemove_mem hx hv
    have hpages := pageRemove_pages hx hv
    have hx' : leafSlot (pageRemove s d va) d va = some (t, i) := by
      rw [leafSlot_eq_of_mem hmem, hkeep]
    rw [pageInsert_of_other hx hv hpage, pageInsertNew_of_leafSlot hx',
      leafEntry_congr (pageRemove_pa s d va)]
    refine ⟨_, rfl, ?_, fun p => ?_, Or.inr ⟨hpage, ?_, ?_⟩⟩
    · rw [Pmap.incRef_mem]
      funext t' i'
      rw [Pmap.setPte_mem, Pmap.setPte_mem, hmem, Pmap.setPte_mem]
      by_cases h : t' = t ∧ i' = i <;> simp [h]
    · rw [incRef_pa, Pmap.setPte_pages, pageRemove_pa]
    · simp only [Pmap.incRef, Pmap.setRef, Pmap.setPte_pages, hpages]
    · rw [Pmap.incRef_vis, Pmap.setPte_vis, pageRemove_of_leafSlot hx hv, Pmap.setPte_vis]

/-- `page_insert` over an entry that `pa2page` reads right, or over none. -/
theorem pageInsert_spec (hI : PmapInv boot dirs s) (hd : d ∈ dirs)
    (hva : GET_L1_INDEX va ≠ uvptIndex) (hpp : pp < NPAGE) (hperm : PTE_ADDR perm = 0)
    (he : ∀ e, mapping s d va = some e → e &&& highAddrBits = 0) :
    (∃ s', pageInsert s d pp va perm = (true, s') ∧ PmapWf boot dirs s' ∧
      LeafSet dirs d va (some (leafEntry s pp perm)) s s' ∧
      (visBit s pp = true → AllocUnused s')) ∨
    (∃ s', pageInsert s d pp va perm = (false, s') ∧ PmapInv boot dirs s' ∧
      Grown dirs s s') := by
  cases hm : mapping s d va with
  | none =>
      rw [pageInsert_of_none hm]
      exact pageInsertNew_spec hI hd hva hm hpp hperm
  | some e =>
      left
      obtain ⟨t, i, hx, hv, rfl⟩ := mapping_eq_some.mp hm
      have hpage : pa2page (s.mem t i) = pteFrame (s.mem t i) :=
        (pa2page_eq_pteFrame_iff _).mpr (he _ hm)
      have hpos := hI.ref_pos hd hva hx hv
      have hw := isValid_leafEntry s pp perm
      have hwpp := pteFrame_leafEntry hI.pa hpp hperm
      obtain ⟨s', hins, hmem, hpa, hcase⟩ :=
        pageInsert_of_mapped pp perm (leafSlot_keep hI.tables hd hva hx) hx hv
      rw [hpage] at hcase
      have hleaf := leafSet_setPte hI.tables hd hva hx hmem hpa
      rw [if_pos hw] at hleaf
      refine ⟨s', hins, hI.setLeaf hd hva hx hmem hpa fun p hp => ?_, hleaf, fun hvis => ?_⟩
      · rw [child_of_valid hv, hwpp]
        rcases hcase with ⟨hsame, hpages, -⟩ | ⟨hother, hpages, -⟩
        · rw [hpages, hsame]
          simp [hw]
        · -- The old page loses the reference that the new one gains.
          rw [hpages, incRef_ref, decRef_ref, decRef_ref, if_neg (Ne.symm hother)]
          by_cases h₁ : p = pp
          · subst h₁
            rw [if_pos rfl, toNat_add_one (hI.ref_lt hp), if_neg (by simpa using hother)]
            simp [hw]
          · rw [if_neg h₁]
            by_cases h₂ : p = pteFrame (s.mem t i)
            · subst h₂
              rw [if_pos rfl, toNat_sub_one hpos, if_pos rfl, if_neg (fun h => h₁ h.2.symm)]
              omega
            · rw [if_neg h₂, if_neg (fun h => h₂ (Option.some.inj h).symm),
                if_neg (fun h => h₁ h.2.symm)]
      · rcases hcase with ⟨-, hpages, hviseq⟩ | ⟨hother, hpages, hviseq⟩
        · intro p hp hvp
          rw [visBit, hviseq] at hvp
          rw [hpages]
          exact hI.alloc p hp hvp
        · have hdec : AllocUnused (pageFree (s.decRef (pteFrame (s.mem t i))) (pteFrame (s.mem t i))) :=
            hI.alloc.decref (pteFrame_lt _) hpos rfl (pageFree_pages _ _)
          refine hdec.incref (q := pp) ?_ hviseq ?_
          · by_contra hf
            rw [Bool.not_eq_true] at hf
            rcases visBit_pageFree hf with h | ⟨h, -⟩
            · rw [visBit, Pmap.decRef_vis, ← visBit, hvis] at h
              cases h
            · exact hother h.symm
          · rw [hpages]
            simp only [Pmap.incRef, Pmap.setRef, pageFree_pages]

/-! ## `page_out` -/

/-- `page_alloc` can succeed `n` more times in a row. -/
def FreePages : Nat → Pmap → Prop
  | 0, _ => True
  | n + 1, s => ∃ pp s₁, pageAlloc s = some (pp, s₁) ∧ FreePages n s₁

/-- The allocator reads nothing but the bitmap. -/
theorem pageAlloc_of_vis (hvis : s'.vis = s.vis) (h : pageAlloc s = some (pp, s₁)) :
    ∃ s₁', pageAlloc s' = some (pp, s₁') ∧ s₁'.vis = s₁.vis := by
  unfold pageAlloc at h ⊢
  rw [hvis]
  split at h
  case h_2 => cases h
  case h_1 i j hscan =>
    simp only [Option.some.injEq, Prod.mk.injEq] at h
    obtain ⟨rfl, rfl⟩ := h
    refine ⟨_, rfl, ?_⟩
    simp only [Pmap.setVis, Pmap.bzeroPage_vis, hvis]

theorem FreePages.of_vis {n : Nat} (h : FreePages n s) (hvis : s'.vis = s.vis) :
    FreePages n s' := by
  induction n generalizing s s' with
  | zero => trivial
  | succ n ih =>
      obtain ⟨pp, s₁, halloc, hn⟩ := h
      obtain ⟨s₁', halloc', hvis'⟩ := pageAlloc_of_vis hvis halloc
      exact ⟨pp, s₁', halloc', ih hn hvis'⟩

theorem FreePages.mono {n : Nat} (h : FreePages (n + 1) s) : FreePages n s := by
  induction n generalizing s with
  | zero => trivial
  | succ n ih =>
      obtain ⟨pp, s₁, halloc, hn⟩ := h
      exact ⟨pp, s₁, halloc, ih hn⟩

theorem pgdirWalkStep_ok (t i : Nat) (va : Word) {n : Nat} (hf : FreePages (n + 1) s) :
    ∃ u s', pgdirWalkStep s t i va true = (.at u, s') ∧ FreePages n s' := by
  unfold pgdirWalkStep
  by_cases hv : isValid (s.mem t i) = true
  · exact ⟨_, s, by rw [if_pos hv], hf.mono⟩
  · obtain ⟨pp, s₁, halloc, hn⟩ := hf
    rw [if_neg hv, if_pos rfl, halloc]
    exact ⟨_, _, rfl, hn.of_vis rfl⟩

/-- With two pages to allocate the tables can always be built. -/
theorem pageInsertNew_ok (hf : FreePages 2 s) (d pp : Nat) (va perm : Word) :
    ∃ s', pageInsertNew s d pp va perm = (true, s') := by
  obtain ⟨t₂, s₁, hstep₁, hf₁⟩ := pgdirWalkStep_ok d (GET_L1_INDEX va) va hf
  obtain ⟨t₃, s₂, hstep₂, -⟩ := pgdirWalkStep_ok t₂ (GET_L2_INDEX va) va hf₁
  rw [pageInsertNew, pgdirWalk]
  simp only [hstep₁, hstep₂]
  exact ⟨_, rfl⟩

/-- The attributes `page_out` adds to the address of a user page. -/
def outAttr (va : Word) : Word := TABLE ||| VALID ||| (if va < KERNBASE then PTE_USER else 0)

theorem PTE_ADDR_outAttr (va : Word) : PTE_ADDR (outAttr va) = 0 := by
  unfold outAttr
  split <;> decide

theorem outEntry_eq (pa va : Word) :
    pa ||| TABLE ||| VALID ||| (if va < KERNBASE then PTE_USER else 0) = pa ||| outAttr va := by
  simp only [outAttr, BitVec.or_assoc]

/-- On an invalid entry `page_out` writes the address of a fresh page. -/
theorem pageOutStep_of_fault (level : Nat) (hv : isValid (s.mem t i) = false)
    (halloc : pageAlloc s = some (pp, s₁)) :
    pageOutStep s t i va level = some (pteFrame ((s₁.pages pp).pa ||| outAttr va),
      (s₁.setPte t i ((s₁.pages pp).pa ||| outAttr va)).incRef pp) := by
  unfold pageOutStep
  simp only [hv, Bool.not_false, Bool.true_or, if_true, halloc, outEntry_eq]
  rfl

/-- The first two levels of `page_out` hang missing tables, as `pgdir_walk` does. -/
theorem pageOutStep_table (va : Word) (level : Nat) {n f : Nat} (hI : PmapInv boot dirs s) (hn : n < 2)
    (hlevel : level ≠ 3) (hat : (tableShape dirs).At (child s) n t)
    (hslot : (tableShape dirs).slotOk n i) (hf : FreePages (f + 1) s) :
    ∃ u s', pageOutStep s t i va level = some (u, s') ∧ PmapInv boot dirs s' ∧
      Grown dirs s s' ∧ child s' t i = some u ∧ FreePages f s' := by
  have hl3 : (level == 3) = false := by simpa using hlevel
  unfold pageOutStep
  by_cases hv : isValid (s.mem t i) = true
  · exact ⟨_, s, by simp [hv, hl3], hI, .refl _ _, child_of_valid hv, hf.mono⟩
  · have hfree : child s t i = none := child_eq_none.mpr (by simpa using hv)
    obtain ⟨pp, s₁, halloc, hfs⟩ := hf
    obtain ⟨hw, hwpp⟩ := tableEntry_ok hI halloc (PTE_ADDR_outAttr va)
    obtain ⟨hI', hg, hc⟩ := hI.graft hn hat hslot hfree halloc hw hwpp
    refine ⟨_, _, pageOutStep_of_fault level (by simpa using hv) halloc, hI', hg, ?_, hfs.of_vis rfl⟩
    rw [hwpp]
    exact hc

/-- The last level of `page_out` on a translation fault: a fresh page of zeros. -/
theorem pageOutStep_leaf (hI : PmapInv boot dirs s) (hd : d ∈ dirs)
    (hva : GET_L1_INDEX va ≠ uvptIndex) (hx : leafSlot s d va = some (t, i))
    (hfault : isValid (s.mem t i) = false) (hf : FreePages 1 s) :
    ∃ pp s', pageOutStep s t i va 3 = some (pp, s') ∧ PmapInv boot dirs s' ∧
      visBit s pp = false ∧ pp < NPAGE ∧ s'.mem pp = (fun _ => 0) ∧ ¬ IsTable s' dirs pp ∧
      LeafSet dirs d va (some ((s.pages pp).pa ||| outAttr va)) s s' := by
  obtain ⟨pp, s₁, halloc, -⟩ := hf
  obtain ⟨hpp, hvis, hvis₁, -, hpages, hmem⟩ := pageAlloc_spec halloc
  obtain ⟨hI₁, hg, hnt⟩ := pageAlloc_inv hI halloc
  obtain ⟨hw, hwpp⟩ := tableEntry_ok hI halloc (PTE_ADDR_outAttr va)
  obtain ⟨hat, -⟩ := leafSlot_at hd hva hx
  have htt : IsTable s dirs t := isTable_of_at (Nat.le_refl 2) hat
  have hx₁ : leafSlot s₁ d va = some (t, i) := hg.leafSlot hd hva hx
  have htpp : pp ≠ t := by
    rintro rfl
    exact (hI.unused hpp hvis).2.2 htt
  have hfault₁ : isValid (s₁.mem t i) = false := by
    rw [congrFun (hmem) t]
    simpa [Ne.symm htpp] using hfault
  obtain ⟨hat₁, -⟩ := leafSlot_at hd hva hx₁
  rw [hpages] at hw hwpp
  refine ⟨pp, (s₁.setPte t i ((s.pages pp).pa ||| outAttr va)).incRef pp, ?_,
    ⟨hI₁.fillLeaf hd hva hx₁ hfault₁ hpp hw hwpp, hI₁.alloc.incref hvis₁ rfl rfl⟩, hvis, hpp,
    ?_, ?_, ?_⟩
  · rw [pageOutStep_of_fault 3 hfault halloc, hpages, hwpp]
  · funext k
    rw [Pmap.incRef_mem, Pmap.setPte_mem_of_ne (fun h => htpp h.1), hmem]
    simp
  · rw [isTable_eq_of_mem (Pmap.incRef_mem _ _), isTable_setLeaf hat₁ hI₁.tables]
    exact hnt
  · have hl : LeafSet dirs d va _ s₁ ((s₁.setPte t i ((s.pages pp).pa ||| outAttr va)).incRef pp) :=
      leafSet_setPte hI₁.tables hd hva hx₁ rfl (fun p => by rw [incRef_pa, Pmap.setPte_pages])
    rw [if_pos hw] at hl
    exact hl.of_grown hg

theorem and_bit39 {va : Word} (h : va.toNat < 2 ^ 39) : va &&& (1#64 <<< 39) = 0 := by
  ext k hk
  rw [BitVec.getElem_and, ← BitVec.getLsbD_eq_getElem, ← BitVec.getLsbD_eq_getElem,
    BitVec.getLsbD_shiftLeft]
  by_cases h39 : k = 39
  · subst h39
    have : va.getLsbD 39 = false := by
      rw [BitVec.getLsbD, Nat.testBit_eq_decide_div_mod_eq]
      simp only [decide_eq_false_iff_not]
      omega
    rw [this]
    simp
  · rcases Nat.lt_or_ge k 39 with hlt | hge
    · simp [hlt]
    · have hne : k - 39 ≠ 0 := by omega
      simp [hne]

/-- A user address lies below KERNBASE. -/
theorem lt_KERNBASE {va : Word} (h : va.toNat < 2 ^ 39) : va < KERNBASE := by
  rw [BitVec.lt_def, KERNBASE]
  simp
  omega

/-- `page_out` on a translation fault of a user page: three levels, each made on
    demand, then a fresh page of zeros that users may read and write. -/
theorem pageOut_spec {k : Nat} (hI : PmapInv boot dirs s) (hd : d ∈ dirs)
    (hva : GET_L1_INDEX va ≠ uvptIndex) (hlow : BitVec.ofNat 64 BY2PG ≤ VADDR va)
    (huser : va.toNat < 2 ^ 39) (hfault : mapping s d va = none) (hf : FreePages 3 s) :
    ∃ pp s', pageOut s d k va = some s' ∧ PmapInv boot dirs s' ∧ visBit s pp = false ∧
      pp < NPAGE ∧ s'.mem pp = (fun _ => 0) ∧ ¬ IsTable s' dirs pp ∧
      LeafSet dirs d va (some ((s.pages pp).pa ||| outAttr va)) s s' := by
  have hat0 : (tableShape dirs).At (child s) 0 d := hd
  obtain ⟨t₂, s₁, hstep₁, hI₁, hg₁, hc₁, hf₁⟩ :=
    pageOutStep_table va 1 hI (by omega) (by omega) hat0 (slotOk_l1 dirs hva) hf
  have hat1 : (tableShape dirs).At (child s₁) 1 t₂ :=
    ⟨d, _, (hd : (tableShape dirs).At (child s₁) 0 d), slotOk_l1 dirs hva, hc₁⟩
  obtain ⟨t₃, s₂, hstep₂, hI₂, hg₂, hc₂, hf₂⟩ :=
    pageOutStep_table va 2 hI₁ (by omega) (by omega) hat1 (slotOk_l2 dirs va) hf₁
  have hg := hg₁.trans hI hg₂
  have hx : leafSlot s₂ d va = some (t₃, GET_L3_INDEX va) := by
    have hat0₁ : (tableShape dirs).At (child s₁) 0 d := hd
    have hc₁' := hg₂.child_mono (isTable_of_at (by omega) hat0₁) hc₁
    simp [leafSlot, radixWalk, hc₁', hc₂]
  have hfault₂ : isValid (s₂.mem t₃ (GET_L3_INDEX va)) = false := by
    have h := hg.map_eq hd hva
    rw [hfault, mapping_eq_none_iff] at h
    exact h _ _ hx
  obtain ⟨pp, s₃, hstep₃, hI₃, hvis, hpp, hzero, hnt, hl⟩ :=
    pageOutStep_leaf hI₂ hd hva hx hfault₂ hf₂
  rw [hg.pa] at hl
  refine ⟨pp, s₃, ?_, hI₃, ?_, hpp, hzero, hnt, hl.of_grown hg⟩
  · unfold pageOut
    rw [if_neg (by rw [BitVec.not_lt]; exact hlow), and_bit39 huser]
    simp [hstep₁, hstep₂, hstep₃]
  · by_contra hv
    rw [Bool.not_eq_false] at hv
    rw [hg.vis hv] at hvis
    cases hvis

end RpiMos
