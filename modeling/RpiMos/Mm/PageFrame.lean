/-
  RpiMos.Mm.PageFrame

  What an insertion leaves alone and what it may not lose: the pages of other
  address spaces' tables stay as they are, and every page that comes into use
  gets a reference.  `page_alloc` shifts an `int`, so that handing out bit 31 of
  a word also sets bits 32 to 63; those bits stand for pages that it never hands
  out.
-/

import RpiMos.Mm.PageEdit

namespace RpiMos

open Lib RadixShape

variable {boot : Nat → Nat} {dirs : Finset Nat} {s s' s₁ : Pmap} {d t i p u v n pp : Nat}
  {va perm w : Word}

/-! ## The tables of one directory -/

section Split

theorem at_split (hd : d ∈ dirs) {u : Nat} : (tableShape dirs).At (child s) n u ↔
    (tableShape (dirs.erase d)).At (child s) n u ∨ (tableShape {d}).At (child s) n u := by
  induction n generalizing u with
  | zero =>
      show u ∈ dirs ↔ u ∈ dirs.erase d ∨ u ∈ ({d} : Finset Nat)
      rw [Finset.mem_erase, Finset.mem_singleton]
      constructor
      · intro hu
        by_cases h : u = d
        · exact Or.inr h
        · exact Or.inl ⟨h, hu⟩
      · rintro (⟨-, hu⟩ | rfl)
        · exact hu
        · exact hd
  | succ n ih =>
      constructor
      · rintro ⟨p, i, hp, hi, hc⟩
        rcases ih.mp hp with hp | hp
        · exact Or.inl ⟨p, i, hp, hi, hc⟩
        · exact Or.inr ⟨p, i, hp, hi, hc⟩
      · rintro (⟨p, i, hp, hi, hc⟩ | ⟨p, i, hp, hi, hc⟩)
        · exact ⟨p, i, ih.mpr (Or.inl hp), hi, hc⟩
        · exact ⟨p, i, ih.mpr (Or.inr hp), hi, hc⟩

theorem isTable_split (hd : d ∈ dirs) {u : Nat} :
    IsTable s dirs u ↔ IsTable s (dirs.erase d) u ∨ IsTable s {d} u := by
  constructor
  · rintro ⟨n, hn, hu⟩
    rcases (at_split hd).mp hu with hu | hu
    · exact Or.inl ⟨n, hn, hu⟩
    · exact Or.inr ⟨n, hn, hu⟩
  · rintro (⟨n, hn, hu⟩ | ⟨n, hn, hu⟩)
    · exact ⟨n, hn, (at_split hd).mpr (Or.inl hu)⟩
    · exact ⟨n, hn, (at_split hd).mpr (Or.inr hu)⟩

theorem not_isTable_both (ht : TablesOk s dirs) (hd : d ∈ dirs) {u : Nat}
    (hu : IsTable s (dirs.erase d) u) : ¬ IsTable s {d} u := by
  have hroot₁ : ∀ t, (tableShape (dirs.erase d)).root t → (tableShape dirs).root t :=
    fun t ht => Finset.mem_of_mem_erase (show t ∈ dirs.erase d from ht)
  have hroot₂ : ∀ t, (tableShape {d}).root t → (tableShape dirs).root t := by
    intro t ht
    rw [Finset.mem_singleton.mp (show t ∈ ({d} : Finset Nat) from ht)]
    exact hd
  have hne : ∀ t, (tableShape (dirs.erase d)).root t → ¬ (tableShape {d}).root t :=
    fun t ht ht' => Finset.ne_of_mem_erase (show t ∈ dirs.erase d from ht)
      (Finset.mem_singleton.mp (show t ∈ ({d} : Finset Nat) from ht'))
  exact ht.forest.disjoint hroot₁ hroot₂ (fun _ _ h => h) (fun _ _ h => h) hne hu

/-- The references that one directory's tables hold, and those of all others. -/
theorem entryCount_split (ht : TablesOk s dirs) (hd : d ∈ dirs) (p : Nat) :
    entryCount s dirs p = entryCount s (dirs.erase d) p + entryCount s {d} p := by
  classical
  have hslots : tableSlots s dirs = tableSlots s (dirs.erase d) ∪ tableSlots s {d} := by
    ext x
    rw [Finset.mem_union, mem_tableSlots, mem_tableSlots, mem_tableSlots, isTable_split hd]
    tauto
  have hdisj : Disjoint (tableSlots s (dirs.erase d)) (tableSlots s {d}) := by
    rw [Finset.disjoint_left]
    intro x hx hx'
    exact not_isTable_both ht hd (mem_tableSlots.mp hx).2 (mem_tableSlots.mp hx').2
  rw [entryCount, hslots, slotCount_union hdisj]
  rfl

end Split

/-! ## One level of the walk -/

/-- The table is there, or a fresh page becomes it, or the walk ends. -/
theorem pgdirWalkStep_cases (hpa : PaOk s) (t i : Nat) (va : Word) (create : Bool) :
    (∃ v, child s t i = some v ∧ pgdirWalkStep s t i va create = (.at v, s)) ∨
    (∃ pp s₁ w, child s t i = none ∧ pageAlloc s = some (pp, s₁) ∧
      pgdirWalkStep s t i va create = (.at pp, (s₁.setPte t i w).incRef pp)) ∨
    (∃ r, (∀ v, r ≠ .at v) ∧ pgdirWalkStep s t i va create = (r, s)) := by
  unfold pgdirWalkStep
  by_cases hv : isValid (s.mem t i) = true
  · exact Or.inl ⟨_, child_eq_some.mpr ⟨hv, rfl⟩, by rw [if_pos hv]⟩
  rw [if_neg hv]
  by_cases hc : create = true
  · rw [if_pos hc]
    cases halloc : pageAlloc s with
    | none => exact Or.inr (Or.inr ⟨.fail, fun _ => by simp, rfl⟩)
    | some x =>
        obtain ⟨pp, s₁⟩ := x
        obtain ⟨hpp, -, -, -, hpages, -⟩ := pageAlloc_spec halloc
        have hframe : pteFrame ((s₁.pages pp).pa ||| (if va < KERNBASE then PTE_USER else 0)) = pp := by
          rw [hpages, pteFrame_or_of_clear (PTE_ADDR_user va), (hpa pp hpp).frame]
        refine Or.inr (Or.inl ⟨pp, s₁, (s₁.pages pp).pa ||| (if va < KERNBASE then PTE_USER else 0),
          child_eq_none.mpr (by simpa using hv), rfl, ?_⟩)
        simp only [hframe]
  · rw [if_neg hc]
    exact Or.inr (Or.inr ⟨.null, fun _ => by simp, rfl⟩)

theorem PaOk.graft (hpa : PaOk s) (halloc : pageAlloc s = some (pp, s₁)) :
    PaOk ((s₁.setPte t i w).incRef pp) := by
  obtain ⟨-, -, -, -, hpages, -⟩ := pageAlloc_spec halloc
  intro q hq
  rw [incRef_pa, Pmap.setPte_pages, hpages]
  exact hpa q hq

/-! ## Pages of other address spaces -/

theorem visBit_pageAlloc (halloc : pageAlloc s = some (pp, s₁)) (h : visBit s p = true) :
    visBit s₁ p = true := by
  obtain ⟨-, -, -, hmono, -⟩ := pageAlloc_spec halloc
  by_contra hv
  rw [hmono p ((Bool.not_eq_true _).mp hv)] at h
  cases h

/-- A page in use is no fresh page. -/
theorem ne_of_pageAlloc (halloc : pageAlloc s = some (pp, s₁)) (hu : visBit s u = true) : u ≠ pp := by
  obtain ⟨-, hfree, -⟩ := pageAlloc_spec halloc
  rintro rfl
  rw [hfree] at hu
  cases hu

theorem graft_mem_of_ne (halloc : pageAlloc s = some (pp, s₁)) (hu : visBit s u = true)
    (hut : u ≠ t) : ((s₁.setPte t i w).incRef pp).mem u = s.mem u := by
  obtain ⟨-, -, -, -, -, hmem⟩ := pageAlloc_spec halloc
  have hupp := ne_of_pageAlloc halloc hu
  funext k
  rw [Pmap.incRef_mem, Pmap.setPte_mem_of_ne fun h => hut h.1, hmem]
  simp [hupp]

/-- A walk below `d` touches no page in use but the tables of `d`. -/
theorem pgdirWalk_frame (hI : PmapInv boot dirs s) (hd : d ∈ dirs) (hva : GET_L1_INDEX va ≠ uvptIndex)
    (hu : visBit s u = true) (hnt : ¬ IsTable s {d} u) (create : Bool) :
    (pgdirWalk s d va create).2.mem u = s.mem u ∧
    ∀ t k, (pgdirWalk s d va create).1 = .at (t, k) → u ≠ t := by
  have hat0 : (tableShape {d}).At (child s) 0 d := Finset.mem_singleton_self d
  have hud : u ≠ d := by
    rintro rfl
    exact hnt (isTable_of_at (by omega) hat0)
  have hdused : visBit s d = true := hI.visBit_table ⟨0, by omega, hd⟩
  unfold pgdirWalk
  rcases pgdirWalkStep_cases hI.pa d (GET_L1_INDEX va) va create with
    ⟨t₂, hc₁, hstep₁⟩ | ⟨t₂, s₁, w, hc₁, halloc₁, hstep₁⟩ | ⟨r, hr, hstep₁⟩
  · -- The table of level 2 is there: it is one of `d`.
    have hat1 : (tableShape {d}).At (child s) 1 t₂ := ⟨d, _, hat0, slotOk_l1 {d} hva, hc₁⟩
    have hu₂ : u ≠ t₂ := by
      rintro rfl
      exact hnt (isTable_of_at (by omega) hat1)
    rw [hstep₁]
    rcases pgdirWalkStep_cases hI.pa t₂ (GET_L2_INDEX va) va create with
      ⟨t₃, hc₂, hstep₂⟩ | ⟨t₃, s₂, w, hc₂, halloc₂, hstep₂⟩ | ⟨r, hr, hstep₂⟩
    · have hat2 : (tableShape {d}).At (child s) 2 t₃ := ⟨t₂, _, hat1, slotOk_l2 {d} va, hc₂⟩
      simp only [hstep₂]
      refine ⟨trivial, ?_⟩
      rintro t k h rfl
      cases h
      exact hnt (isTable_of_at (by omega) hat2)
    · simp only [hstep₂]
      refine ⟨graft_mem_of_ne halloc₂ hu hu₂, ?_⟩
      rintro t k h
      cases h
      exact ne_of_pageAlloc halloc₂ hu
    · cases r with
      | fail =>
          simp only [hstep₂]
          exact ⟨trivial, fun t k h => by cases h⟩
      | null =>
          simp only [hstep₂]
          exact ⟨trivial, fun t k h => by cases h⟩
      | «at» x => exact absurd rfl (hr x)
  · -- A fresh table of level 2 has no entries, so that of level 3 is fresh as well.
    have hmem₁ := graft_mem_of_ne (i := GET_L1_INDEX va) (w := w) halloc₁ hu hud
    have hused₁ : visBit ((s₁.setPte d (GET_L1_INDEX va) w).incRef t₂) u = true := by
      have h : visBit s₁ u = true := visBit_pageAlloc halloc₁ hu
      exact h
    have hu₂ := ne_of_pageAlloc halloc₁ hu
    rw [hstep₁]
    rcases pgdirWalkStep_cases (hI.pa.graft halloc₁) t₂ (GET_L2_INDEX va) va create with
      ⟨t₃, hc₂, hstep₂⟩ | ⟨t₃, s₂, w', hc₂, halloc₂, hstep₂⟩ | ⟨r, hr, hstep₂⟩
    · obtain ⟨-, hfree, -, -, -, hmem⟩ := pageAlloc_spec halloc₁
      have hd₂ : t₂ ≠ d := fun h => ne_of_pageAlloc halloc₁ hdused h.symm
      have hnone : child ((s₁.setPte d (GET_L1_INDEX va) w).incRef t₂) t₂ (GET_L2_INDEX va) = none := by
        show child (s₁.setPte d (GET_L1_INDEX va) w) t₂ (GET_L2_INDEX va) = none
        rw [child_setPte_of_ne (fun h => hd₂ h.1), child_eq_none, hmem]
        simp
      rw [hnone] at hc₂
      cases hc₂
    · simp only [hstep₂]
      refine ⟨(graft_mem_of_ne halloc₂ hused₁ hu₂).trans hmem₁, ?_⟩
      rintro t k h
      cases h
      exact ne_of_pageAlloc halloc₂ hused₁
    · cases r with
      | fail =>
          simp only [hstep₂]
          exact ⟨hmem₁, fun t k h => by cases h⟩
      | null =>
          simp only [hstep₂]
          exact ⟨hmem₁, fun t k h => by cases h⟩
      | «at» x => exact absurd rfl (hr x)
  · rw [hstep₁]
    cases r with
    | fail => exact ⟨rfl, fun t k h => by cases h⟩
    | null => exact ⟨rfl, fun t k h => by cases h⟩
    | «at» x => exact absurd rfl (hr x)

theorem pageInsertNew_frame (hI : PmapInv boot dirs s) (hd : d ∈ dirs)
    (hva : GET_L1_INDEX va ≠ uvptIndex) (hu : visBit s u = true) (hnt : ¬ IsTable s {d} u) :
    (pageInsertNew s d pp va perm).2.mem u = s.mem u := by
  obtain ⟨hmem, hne⟩ := pgdirWalk_frame hI hd hva hu hnt true
  unfold pageInsertNew
  cases hwalk : pgdirWalk s d va true with
  | mk r s₁ =>
      rw [hwalk] at hmem hne
      cases r with
      | fail => exact hmem
      | null => exact hmem
      | «at» x =>
          obtain ⟨t, k⟩ := x
          have hut := hne t k rfl
          rw [← hmem]
          funext j
          show (s₁.setPte t k _).mem u j = s₁.mem u j
          exact Pmap.setPte_mem_of_ne fun h => hut h.1

/-- A removal below `d` leaves the tables of the other directories. -/
theorem pageRemove_frame (ht : TablesOk s dirs) (hd : d ∈ dirs) (hva : GET_L1_INDEX va ≠ uvptIndex)
    (hu : IsTable s (dirs.erase d) u) : (pageRemove s d va).mem u = s.mem u := by
  cases hm : mapping s d va with
  | none => rw [pageRemove_of_none hm]
  | some e =>
      obtain ⟨t, i, hx, hv, rfl⟩ := mapping_eq_some.mp hm
      have hat := (leafSlot_at (Finset.mem_singleton_self d) hva hx).1
      have hut : u ≠ t := by
        rintro rfl
        exact not_isTable_both ht hd hu (isTable_of_at (Nat.le_refl 2) hat)
      rw [pageRemove_mem hx hv]
      funext k
      exact Pmap.setPte_mem_of_ne fun h => hut h.1

/-- So does an insertion. -/
theorem PmapSound.pageInsert_frame (hs : PmapSound boot dirs s) (hd : d ∈ dirs)
    (hva : GET_L1_INDEX va ≠ uvptIndex) (hu : IsTable s (dirs.erase d) u) :
    (RpiMos.pageInsert s d pp va perm).2.mem u = s.mem u := by
  have hnew : ∀ s', PmapInv boot dirs s' → IsTable s' (dirs.erase d) u →
      (pageInsertNew s' d pp va perm).2.mem u = s'.mem u := by
    intro s' hI hu'
    exact pageInsertNew_frame hI hd hva (hI.visBit_table ((isTable_split hd).mpr (Or.inl hu')))
      (not_isTable_both hI.tables hd hu')
  cases hm : mapping s d va with
  | none =>
      rw [pageInsert_of_none hm]
      exact hnew s hs.toPmapInv hu
  | some e =>
      obtain ⟨t, i, hx, hv, rfl⟩ := mapping_eq_some.mp hm
      by_cases hsame : pa2page (s.mem t i) = pp
      · have hat := (leafSlot_at (Finset.mem_singleton_self d) hva hx).1
        have hut : u ≠ t := by
          rintro rfl
          exact not_isTable_both hs.tables hd hu (isTable_of_at (Nat.le_refl 2) hat)
        rw [pageInsert_of_same hx hv hsame]
        funext k
        exact Pmap.setPte_mem_of_ne fun h => hut h.1
      · have hkept : ∀ u, IsTable s (dirs.erase d) u → (RpiMos.pageRemove s d va).mem u = s.mem u :=
          fun u hu => pageRemove_frame hs.tables hd hva hu
        rw [pageInsert_of_other hx hv hsame,
          hnew _ (hs.pageRemove hd hva).1.toPmapInv ((isTable_of_tables hkept u).mpr hu)]
        exact hkept u hu

/-! ## Pages in use have references -/

/-- Every page in use that the allocator could hand out has a reference; page 0
    gets none at boot. -/
def NoLeak (s : Pmap) : Prop :=
  ∀ p < NPAGE, p % 64 < 32 → p ≠ 0 → visBit s p = true → (s.pages p).ref ≠ 0

/-- Of the low bits of a word only that of the page handed out is set. -/
theorem visBit_of_pageAlloc (halloc : pageAlloc s = some (pp, s₁)) (hlow : p % 64 < 32)
    (h : visBit s₁ p = true) : visBit s p = true ∨ p = pp := by
  unfold pageAlloc at halloc
  split at halloc
  case h_2 => cases halloc
  case h_1 a j hscan =>
    obtain ⟨k, -, hk, hin, -⟩ := scan_eq_some.mp hscan
    obtain ⟨j', hij, hj, -⟩ := pageAllocIn_spec hin
    obtain ⟨rfl, rfl⟩ := Prod.mk.inj hij
    simp only [Option.some.injEq, Prod.mk.injEq] at halloc
    obtain ⟨hpp, rfl⟩ := halloc
    rw [shiftLeft_six_or (by omega)] at hpp
    rw [visBit] at h ⊢
    simp only [Pmap.setVis, Pmap.bzeroPage_vis] at h
    split at h
    case isFalse => exact Or.inl h
    case isTrue hdiv =>
      rw [BitVec.getLsbD_or, Bool.or_eq_true] at h
      rcases h with h | h
      · rw [hdiv]
        exact Or.inl h
      · -- Below bit 32 the mask has the one bit.
        have hbit : ∀ a b : Fin 32, (shiftedInt a).getLsbD b = true → b.val = a.val := by decide
        have hpj := hbit ⟨j, hj⟩ ⟨p % 64, hlow⟩ h
        right
        simp only at hpj
        omega

/-- A fresh page that gets its first reference at once. -/
theorem NoLeak.alloc (hn : NoLeak s) (ha : AllocUnused s) (halloc : pageAlloc s = some (pp, s₁))
    (hvis : s'.vis = s₁.vis) (hpages : s'.pages = (s₁.incRef pp).pages) :
    AllocUnused s' ∧ NoLeak s' := by
  obtain ⟨hpp, hfree, hset, hmono, hsame, -⟩ := pageAlloc_spec halloc
  have hbit : ∀ q, visBit s' q = visBit s₁ q := fun q => by rw [visBit, hvis, ← visBit]
  refine ⟨fun q hq hv => ?_, fun q hq hlow hq0 hv => ?_⟩
  · rw [hbit] at hv
    have hne : q ≠ pp := by
      rintro rfl
      rw [hset] at hv
      cases hv
    rw [hpages, incRef_ref, if_neg hne, hsame]
    exact ha q hq (hmono q hv)
  · rw [hbit] at hv
    rw [hpages, incRef_ref, hsame]
    split
    · rw [ha pp hpp hfree]
      decide
    · rename_i h
      exact hn q hq hlow hq0 ((visBit_of_pageAlloc halloc hlow hv).resolve_right h)

theorem NoLeak.walkStep (hn : NoLeak s) (ha : AllocUnused s) (hpa : PaOk s) (t i : Nat) (va : Word)
    (create : Bool) : PaOk (pgdirWalkStep s t i va create).2 ∧
    AllocUnused (pgdirWalkStep s t i va create).2 ∧ NoLeak (pgdirWalkStep s t i va create).2 := by
  rcases pgdirWalkStep_cases hpa t i va create with
    ⟨v, -, hstep⟩ | ⟨pp, s₁, w, -, halloc, hstep⟩ | ⟨r, -, hstep⟩
  · rw [hstep]
    exact ⟨hpa, ha, hn⟩
  · rw [hstep]
    exact ⟨hpa.graft halloc, hn.alloc ha halloc rfl rfl⟩
  · rw [hstep]
    exact ⟨hpa, ha, hn⟩

theorem NoLeak.walk (hn : NoLeak s) (ha : AllocUnused s) (hpa : PaOk s) (d : Nat) (va : Word)
    (create : Bool) : NoLeak (pgdirWalk s d va create).2 := by
  obtain ⟨hpa₁, ha₁, hn₁⟩ := hn.walkStep ha hpa d (GET_L1_INDEX va) va create
  unfold pgdirWalk
  cases hstep₁ : pgdirWalkStep s d (GET_L1_INDEX va) va create with
  | mk r₁ s₁ =>
      rw [hstep₁] at hpa₁ ha₁ hn₁
      cases r₁ with
      | fail => exact hn₁
      | null => exact hn₁
      | «at» t₂ =>
          obtain ⟨-, -, hn₂⟩ := hn₁.walkStep ha₁ hpa₁ t₂ (GET_L2_INDEX va) va create
          cases hstep₂ : pgdirWalkStep s₁ t₂ (GET_L2_INDEX va) va create with
          | mk r₂ s₂ =>
              rw [hstep₂] at hn₂
              cases r₂ <;> simpa [hstep₂] using hn₂

theorem NoLeak.incRef (hn : NoLeak s) (hlt : (s.pages pp).ref.toNat < 2 ^ 31) :
    NoLeak (s.incRef pp) := by
  intro q hq hlow hq0 hv
  rw [incRef_ref]
  split
  · intro hz
    have hadd := toNat_add_one hlt
    rw [hz] at hadd
    have h0 : (0 : U32).toNat = 0 := rfl
    omega
  · exact hn q hq hlow hq0 hv

theorem NoLeak.insertNew (hn : NoLeak s) (hI : PmapInv boot dirs s) (hd : d ∈ dirs)
    (hva : GET_L1_INDEX va ≠ uvptIndex) (hpp : pp < NPAGE) (perm : Word) :
    NoLeak (pageInsertNew s d pp va perm).2 := by
  have hw := hn.walk hI.alloc hI.pa d va true
  obtain ⟨r, s₁, hwalk, hI₁, -⟩ := pgdirWalk_true hI hd hva
  rw [hwalk] at hw
  unfold pageInsertNew
  rw [hwalk]
  cases r with
  | fail => exact hw
  | null => exact hw
  | «at» x =>
      obtain ⟨t, k⟩ := x
      have hset : NoLeak (s₁.setPte t k ((s₁.pages pp).pa ||| (perm ||| VALID))) := hw
      exact hset.incRef (hI₁.ref_lt hpp)

end RpiMos
