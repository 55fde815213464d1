/-
  RpiMos.Mm.PageMap

  The page tables as a map with exact reference counts.  `lookup` is what a
  caller of `page_lookup` sees; the abstract map takes a directory and a user
  page to it.  The three operations update the map at one page and keep the
  count equation, except that an entry carrying bits 30 or 31 is read back by
  `pa2page` as a page past the end of the `pages` array.
-/

import RpiMos.Mm.Boot

namespace RpiMos

open Lib RadixShape

variable {s s' s₁ : Pmap} {dirs : Finset Nat} {boot : Nat → Nat} {d d' t i pp : Nat}
  {va va' perm e : Word}

/-! ## The abstract map -/

/-- What `page_lookup` tells its caller: the page, and the entry behind `*ppte`. -/
def lookup (s : Pmap) (d : Nat) (va : Word) : Option (Nat × Word) :=
  (pageLookup s d va).map fun x => (x.1, s.mem x.2.1 x.2.2)

/-- A user address below `2 ^ 39` outside the UVPT window. -/
def UserVa (va : Word) : Prop := va.toNat < 2 ^ 39 ∧ GET_L1_INDEX va ≠ uvptIndex

/-- Every other user page, and every page of another directory, looks as before. -/
def OthersKept (dirs : Finset Nat) (d : Nat) (va : Word) (s s' : Pmap) : Prop :=
  ∀ d' ∈ dirs, ∀ va', UserVa va' → ¬ (d' = d ∧ va' >>> 12 = va >>> 12) →
    lookup s' d' va' = lookup s d' va'

/-- `page_insert` that returned 0: the page with that perm, and nothing else moved. -/
structure InsertMeets (boot : Nat → Nat) (dirs : Finset Nat) (d pp : Nat) (va perm : Word)
    (s s' : Pmap) : Prop where
  here : lookup s' d va = some (pp, leafEntry s pp perm)
  others : OthersKept dirs d va s s'
  refs : RefsExact boot dirs s'

/-- `page_insert` that returned -1 changes no lookup. -/
structure InsertFailMeets (boot : Nat → Nat) (dirs : Finset Nat) (s s' : Pmap) : Prop where
  all : ∀ d' ∈ dirs, ∀ va', UserVa va' → lookup s' d' va' = lookup s d' va'
  refs : RefsExact boot dirs s'

structure RemoveMeets (boot : Nat → Nat) (dirs : Finset Nat) (d : Nat) (va : Word)
    (s s' : Pmap) : Prop where
  here : lookup s' d va = none
  others : OthersKept dirs d va s s'
  refs : RefsExact boot dirs s'

/-- `page_out`: a page that was unused, now zeroed, with user permission. -/
structure PageOutMeets (boot : Nat → Nat) (dirs : Finset Nat) (d : Nat) (va : Word)
    (s s' : Pmap) : Prop where
  here : ∃ pp e, lookup s' d va = some (pp, e) ∧ (s.pages pp).ref = 0 ∧
    (∀ i, s'.mem pp i = 0) ∧ e &&& permBits = PTE_USER
  others : OthersKept dirs d va s s'
  refs : RefsExact boot dirs s'

/-- The entry that `va` already has, if any, carries neither bit 30 nor bit 31. -/
def OldEntryClear (s : Pmap) (d : Nat) (va : Word) : Prop :=
  ∀ pp e, lookup s d va = some (pp, e) → e &&& highAddrBits = 0

theorem lookup_eq (s : Pmap) (d : Nat) (va : Word) :
    lookup s d va = (mapping s d va).map fun e => (pa2page e, e) := by
  rw [lookup, pageLookup_eq, mapping]
  cases leafSlot s d va with
  | none => rfl
  | some x =>
      simp only [Option.bind_some]
      split <;> rfl

theorem lookup_eq_none_iff : lookup s d va = none ↔ mapping s d va = none := by
  rw [lookup_eq, Option.map_eq_none_iff]

theorem oldEntryClear_iff :
    OldEntryClear s d va ↔ ∀ e, mapping s d va = some e → e &&& highAddrBits = 0 := by
  unfold OldEntryClear
  simp only [lookup_eq, Option.map_eq_some_iff, Prod.mk.injEq]
  constructor
  · intro h e he
    exact h _ e ⟨e, he, rfl, rfl⟩
  · rintro h pp e ⟨e', he', -, rfl⟩
    exact h e' he'

/-- Below `2 ^ 39` the three indices determine the page number. -/
theorem pageIdx_inj (h : va.toNat < 2 ^ 39) (h' : va'.toNat < 2 ^ 39)
    (hidx : pageIdx va' = pageIdx va) : va' >>> 12 = va >>> 12 := by
  simp only [pageIdx, Prod.mk.injEq, GET_L1_INDEX_eq, GET_L2_INDEX_eq, GET_L3_INDEX_eq] at hidx
  obtain ⟨h₁, h₂, h₃⟩ := hidx
  rw [← BitVec.toNat_inj, BitVec.toNat_ushiftRight, BitVec.toNat_ushiftRight,
    Nat.shiftRight_eq_div_pow, Nat.shiftRight_eq_div_pow]
  omega

theorem LeafSet.othersKept {new : Option Word} (h : LeafSet dirs d va new s s')
    (hva : UserVa va) : OthersKept dirs d va s s' := by
  intro d' hd' va' hva' hne
  rw [lookup_eq, lookup_eq,
    h.other hd' hva'.2 fun hx => hne ⟨hx.1, pageIdx_inj hva.1 hva'.1 hx.2⟩]

theorem LeafSet.lookup_here {new : Option Word} (h : LeafSet dirs d va new s s') :
    lookup s' d va = new.map fun e => (pa2page e, e) := by
  rw [lookup_eq, h.here]

/-! ## `page_insert` -/

/-- The page number read from an entry with bit 30 or 31 lies past `pages`. -/
theorem NPAGE_le_pa2page (h : e &&& highAddrBits ≠ 0) : NPAGE ≤ pa2page e := by
  rw [ne_eq, highAddrBits_clear_iff] at h
  rw [pa2page_eq_pteFrame_add, NPAGE]
  omega

/-- Replacing an entry with a high bit leaves the count of its frame wrong: the
    reference is taken from a page past the array. -/
theorem not_refsExact_insert (hI : PmapInv boot dirs s) (hd : d ∈ dirs)
    (hva : GET_L1_INDEX va ≠ uvptIndex) (hpp : pp < NPAGE) (hperm : PTE_ADDR perm = 0)
    (hm : mapping s d va = some e) (he : e &&& highAddrBits ≠ 0) {ok : Bool}
    (hins : pageInsert s d pp va perm = (ok, s')) : ¬ RefsExact boot dirs s' := by
  intro hr
  obtain ⟨t, i, hx, hv, rfl⟩ := mapping_eq_some.mp hm
  obtain ⟨s'', hins', hmem, -, hcase⟩ :=
    pageInsert_of_mapped pp perm (leafSlot_keep hI.tables hd hva hx) hx hv
  obtain ⟨-, rfl⟩ := Prod.mk.inj (hins.symm.trans hins')
  have hpast := NPAGE_le_pa2page he
  have hframe := pteFrame_lt (s.mem t i)
  have href := hr.ref_setLeaf hI.toPmapWf hd hva hx hmem _ hframe
  rw [child_of_valid hv, pteFrame_leafEntry hI.pa hpp hperm] at href
  rcases hcase with ⟨hsame, -⟩ | ⟨-, hpages, -⟩
  · omega
  · have hne : pteFrame (s.mem t i) ≠ pa2page (s.mem t i) := by omega
    have hpp' : pp ≠ pa2page (s.mem t i) := by omega
    rw [hpages, incRef_ref, decRef_ref, decRef_ref, if_neg hpp', if_neg hne] at href
    have hw := isValid_leafEntry s pp perm
    by_cases hpf : pteFrame (s.mem t i) = pp
    · rw [if_pos hpf, if_pos rfl, if_pos ⟨hw, hpf.symm⟩, hpf, toNat_add_one (hI.ref_lt hpp)] at href
      omega
    · rw [if_neg hpf, if_pos rfl, if_neg (fun h => hpf h.2.symm)] at href
      omega

/-- An insertion that returns 0 meets the map's specification exactly when
    neither the perm nor the entry replaced has a bit that only `pa2page` reads. -/
theorem insertMeets_iff (hI : PmapInv boot dirs s) (hd : d ∈ dirs) (hva : UserVa va)
    (hpp : pp < NPAGE) (hperm : PTE_ADDR perm = 0)
    (hins : pageInsert s d pp va perm = (true, s')) :
    InsertMeets boot dirs d pp va perm s s' ↔
      perm &&& highAddrBits = 0 ∧ OldEntryClear s d va := by
  rw [oldEntryClear_iff]
  constructor
  · intro h
    constructor
    · have hhere := h.here
      rw [lookup_eq, Option.map_eq_some_iff] at hhere
      obtain ⟨e, -, he⟩ := hhere
      obtain ⟨hpage, rfl⟩ := Prod.mk.inj he
      exact (pa2page_leafEntry_iff hI.pa hpp hperm).mp hpage
    · intro e hm
      by_contra he
      exact not_refsExact_insert hI hd hva.2 hpp hperm hm he hins h.refs
  · rintro ⟨hclear, hold⟩
    rcases pageInsert_spec hI hd hva.2 hpp hperm hold with
      ⟨s'', hins', hwf, hl, -⟩ | ⟨s'', hins', -⟩
    · obtain ⟨-, rfl⟩ := Prod.mk.inj (hins.symm.trans hins')
      refine ⟨?_, hl.othersKept hva, hwf.refs⟩
      rw [hl.lookup_here, Option.map_some, (pa2page_leafEntry_iff hI.pa hpp hperm).mpr hclear]
    · exact absurd (hins.symm.trans hins') (by simp)

/-- An insertion that returns -1 found nothing mapped and only built tables. -/
theorem insertFailMeets (hI : PmapInv boot dirs s) (hd : d ∈ dirs) (hva : UserVa va)
    (hpp : pp < NPAGE) (hperm : PTE_ADDR perm = 0)
    (hins : pageInsert s d pp va perm = (false, s')) : InsertFailMeets boot dirs s s' := by
  cases hm : mapping s d va with
  | some e =>
      obtain ⟨t, i, hx, hv, -⟩ := mapping_eq_some.mp hm
      obtain ⟨s'', hins', -⟩ :=
        pageInsert_of_mapped pp perm (leafSlot_keep hI.tables hd hva.2 hx) hx hv
      exact absurd (hins.symm.trans hins') (by simp)
  | none =>
      rw [pageInsert_of_none hm] at hins
      rcases pageInsertNew_spec hI hd hva.2 hm hpp hperm with ⟨s'', hins', -⟩ | ⟨s'', hins', hI', hg⟩
      · exact absurd (hins.symm.trans hins') (by simp)
      · obtain ⟨-, rfl⟩ := Prod.mk.inj (hins.symm.trans hins')
        refine ⟨fun d' hd' va' hva' => ?_, hI'.refs⟩
        rw [lookup_eq, lookup_eq, hg.map_eq hd' hva'.2]

/-! ## `page_remove` and `page_out` -/

theorem removeMeets_iff (hI : PmapInv boot dirs s) (hd : d ∈ dirs) (hva : UserVa va) :
    RemoveMeets boot dirs d va s (pageRemove s d va) ↔ OldEntryClear s d va := by
  rw [oldEntryClear_iff]
  constructor
  · intro h e hm
    by_contra he
    obtain ⟨t, i, hx, hv, rfl⟩ := mapping_eq_some.mp hm
    have hpast := NPAGE_le_pa2page he
    have hframe := pteFrame_lt (s.mem t i)
    have href := h.refs.ref_setLeaf hI.toPmapWf hd hva.2 hx (pageRemove_mem hx hv) _ hframe
    have hne : pteFrame (s.mem t i) ≠ pa2page (s.mem t i) := by omega
    rw [pageRemove_pages hx hv, decRef_ref, if_neg hne, child_of_valid hv, if_pos rfl,
      if_neg (fun h => absurd h.1 (by simp))] at href
    omega
  · intro hold
    obtain ⟨hwf, hl, -⟩ := pageRemove_spec hI.toPmapWf hd hva.2 hold
    exact ⟨hl.lookup_here, hl.othersKept hva, hwf.refs⟩

theorem outEntry_permBits (hpa : PaOk s) (hpp : pp < NPAGE) (huser : va.toNat < 2 ^ 39) :
    ((s.pages pp).pa ||| outAttr va) &&& permBits = PTE_USER := by
  rw [BitVec.and_or_distrib_right, (hpa pp hpp).perm, outAttr, if_pos (lt_KERNBASE huser)]
  decide

theorem outEntry_page (hpa : PaOk s) (hpp : pp < NPAGE) :
    pa2page ((s.pages pp).pa ||| outAttr va) = pp := by
  have hframe : pteFrame ((s.pages pp).pa ||| outAttr va) = pp := by
    rw [pteFrame_or_of_clear (PTE_ADDR_outAttr va)]
    exact (hpa pp hpp).frame
  have hhigh : outAttr va &&& highAddrBits = 0 := by
    unfold outAttr
    split <;> decide
  rw [(pa2page_eq_pteFrame_iff _).mpr, hframe]
  rw [BitVec.and_or_distrib_right, (hpa pp hpp).high, hhigh]
  rfl

theorem pageOutMeets {k : Nat} (hI : PmapInv boot dirs s) (hd : d ∈ dirs) (hva : UserVa va)
    (hlow : BY2PG ≤ va.toNat) (hfault : lookup s d va = none) (hf : FreePages 3 s) :
    ∃ s', pageOut s d k va = some s' ∧ PageOutMeets boot dirs d va s s' := by
  have hvaddr : BitVec.ofNat 64 BY2PG ≤ VADDR va := by
    have hmask : (0x7fffffffff#64).toNat = 2 ^ 39 - 1 := by decide
    have heq : (VADDR va).toNat = va.toNat := by
      rw [VADDR, BitVec.toNat_and, hmask, Nat.and_two_pow_sub_one_eq_mod, Nat.mod_eq_of_lt hva.1]
    rw [BitVec.le_def, heq]
    exact hlow
  obtain ⟨pp, s', hout, hI', hvis, hpp, hzero, -, hl⟩ :=
    pageOut_spec (k := k) hI hd hva.2 hvaddr hva.1 (lookup_eq_none_iff.mp hfault) hf
  refine ⟨s', hout, ⟨pp, (s.pages pp).pa ||| outAttr va, ?_, hI.alloc pp hpp hvis, ?_, ?_⟩,
    hl.othersKept hva, hI'.refs⟩
  · rw [hl.lookup_here, Option.map_some, outEntry_page hI.pa hpp]
  · intro i
    rw [hzero]
  · exact outEntry_permBits hI.pa hpp hva.1

/-! ## The map -/

/-- In every state with distinct tables, exact counts and a truthful allocator,
    the operations implement the map: removal and a successful insertion do so
    exactly when no entry involved has bit 30 or 31, a failed insertion and
    `page_out` always. -/
theorem pageTables_implement_map_iff (initEnd imgEnd : Nat) (mem₀ : Nat → Nat → Word)
    (hpa : ∀ p < NPAGE, (s.pages p).pa = ((initBootPt initEnd imgEnd mem₀).pages p).pa)
    (htables : TablesOk s dirs) (hrefs : RefsExact (bootCount initEnd imgEnd mem₀) dirs s)
    (halloc : AllocUnused s) (hd : d ∈ dirs) (hva : UserVa va) (hpp : pp < NPAGE)
    (hperm : PTE_ADDR perm = 0) :
    (∀ s', pageInsert s d pp va perm = (true, s') →
      (InsertMeets (bootCount initEnd imgEnd mem₀) dirs d pp va perm s s' ↔
        perm &&& highAddrBits = 0 ∧ OldEntryClear s d va)) ∧
    (∀ s', pageInsert s d pp va perm = (false, s') →
      InsertFailMeets (bootCount initEnd imgEnd mem₀) dirs s s') ∧
    (RemoveMeets (bootCount initEnd imgEnd mem₀) dirs d va s (pageRemove s d va) ↔
      OldEntryClear s d va) ∧
    (∀ kpgdir, BY2PG ≤ va.toNat → lookup s d va = none → FreePages 3 s →
      ∃ s', pageOut s d kpgdir va = some s' ∧
        PageOutMeets (bootCount initEnd imgEnd mem₀) dirs d va s s') := by
  have hI : PmapInv (bootCount initEnd imgEnd mem₀) dirs s :=
    ⟨⟨initBootPt_paOk.congr hpa, htables, hrefs, bootCount_le⟩, halloc⟩
  exact ⟨fun _ h => insertMeets_iff hI hd hva hpp hperm h,
    fun _ h => insertFailMeets hI hd hva hpp hperm h, removeMeets_iff hI hd hva,
    fun _ hlow hfault hf => pageOutMeets hI hd hva hlow hfault hf⟩

/-! ## On a board -/

theorem userVa_0x10000000 : UserVa 0x10000000#64 := by
  refine ⟨by decide, ?_⟩
  rw [uvptIndex_eq, GET_L1_INDEX_eq]
  decide

/-- The map's specification at a first insertion into a new directory. -/
theorem pageTables_implement_map_boot :
    ∃ s₁ s', pageAlloc boardBoot = some (1024, s₁) ∧
      pageInsert (envNewDir s₁ 1024) 1024 60000 0x10000000#64 PTE_USER = (true, s') ∧
      InsertMeets boardCount {1024} 1024 60000 0x10000000#64 PTE_USER (envNewDir s₁ 1024) s' := by
  obtain ⟨s₁, halloc⟩ := boardBoot_alloc
  obtain ⟨hI, hnone, hf⟩ := boardDir_ok halloc
  have hm := hnone userVa_0x10000000.2
  obtain ⟨s', hins⟩ := pageInsertNew_ok hf.mono 1024 60000 0x10000000#64 PTE_USER
  rw [← pageInsert_of_none hm] at hins
  refine ⟨s₁, s', halloc, hins, ?_⟩
  refine ((pageTables_implement_map_iff 0x200000 0x400000 (fun _ _ => 0)
    (fun p _ => boardDir_pa halloc p) hI.tables hI.refs hI.alloc (Finset.mem_singleton_self 1024)
    userVa_0x10000000 (by rw [NPAGE]; decide) (by decide)).1 s' hins).mpr ⟨by decide, ?_⟩
  intro pp e he
  rw [lookup_eq, hm] at he
  cases he

/-- A perm with bit 30, which lies outside the `PTE_ADDR` mask: `page_insert`
    returns 0 and `page_lookup` then answers with a page past the array. -/
theorem pageInsert_bit30_misread :
    ∃ s₁ s' q, pageAlloc boardBoot = some (1024, s₁) ∧
      PmapInv boardCount {1024} (envNewDir s₁ 1024) ∧ PTE_ADDR 0x40000000#64 = 0 ∧
      pageInsert (envNewDir s₁ 1024) 1024 60000 0x10000000#64 0x40000000#64 = (true, s') ∧
      (lookup s' 1024 0x10000000#64).map Prod.fst = some q ∧ NPAGE ≤ q ∧
      ¬ InsertMeets boardCount {1024} 1024 60000 0x10000000#64 0x40000000#64
        (envNewDir s₁ 1024) s' := by
  obtain ⟨s₁, halloc⟩ := boardBoot_alloc
  obtain ⟨hI, hnone, hf⟩ := boardDir_ok halloc
  have hm := hnone userVa_0x10000000.2
  have hpp : 60000 < NPAGE := by rw [NPAGE]; decide
  obtain ⟨s', hins⟩ := pageInsertNew_ok hf.mono 1024 60000 0x10000000#64 0x40000000#64
  have hpast : NPAGE ≤ pa2page (leafEntry (envNewDir s₁ 1024) 60000 0x40000000#64) := by
    refine NPAGE_le_pa2page ?_
    rw [leafEntry_high hI.pa hpp]
    decide
  have hlook : (lookup s' 1024 0x10000000#64).map Prod.fst =
      some (pa2page (leafEntry (envNewDir s₁ 1024) 60000 0x40000000#64)) := by
    rcases pageInsertNew_spec hI (Finset.mem_singleton_self 1024) userVa_0x10000000.2 hm hpp
        (show PTE_ADDR 0x40000000#64 = 0 by decide) with ⟨s'', hins', -, hl, -⟩ | ⟨s'', hins', -⟩
    · obtain ⟨-, rfl⟩ := Prod.mk.inj (hins.symm.trans hins')
      rw [hl.lookup_here, Option.map_some, Option.map_some]
    · exact absurd (hins.symm.trans hins') (by simp)
  rw [← pageInsert_of_none hm] at hins
  refine ⟨s₁, s', _, halloc, hI, by decide, hins, hlook, hpast, fun h => ?_⟩
  rw [h.here, Option.map_some, Option.some.injEq] at hlook
  omega

end RpiMos
