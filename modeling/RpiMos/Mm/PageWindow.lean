/-
  RpiMos.Mm.PageWindow

  `page_insert` at any address, those of the window behind the self-map entry
  included: it returns 0 exactly when the tables it has to make can be allocated,
  and the address then leads to the page, unless the entry written is the
  self-map entry itself.
-/

import RpiMos.Mm.PageMap

namespace RpiMos

open Lib RadixShape

variable {s s' s₁ : Pmap} {dirs : Finset Nat} {boot : Nat → Nat} {d t i pp : Nat}
  {va perm w : Word}

/-- How many tables are missing on the way to the leaf entry of `va`. -/
def missingTables (s : Pmap) (d : Nat) (va : Word) : Nat :=
  match child s d (GET_L1_INDEX va) with
  | none => 2
  | some t => if (child s t (GET_L2_INDEX va)).isNone then 1 else 0

/-- The page at which a directory maps itself. -/
def IsSelfPage (va : Word) : Prop := pageIdx va = (uvptIndex, uvptIndex, uvptIndex)

theorem missingTables_zero (h : leafSlot s d va = some (t, i)) : missingTables s d va = 0 := by
  unfold leafSlot at h
  simp only [radixWalk] at h
  unfold missingTables
  cases hc : child s d (GET_L1_INDEX va) with
  | none => simp [hc] at h
  | some v =>
      cases hc₂ : child s v (GET_L2_INDEX va) with
      | none => simp [hc, hc₂] at h
      | some u => simp [hc₂]

/-- One level of the walk, told from the bitmap. -/
theorem pgdirWalkStep_exact (va : Word) (hI : PmapInv boot dirs s) {n : Nat} (hn : n < 2)
    (hat : (tableShape dirs).At (child s) n t) (hslot : (tableShape dirs).slotOk n i)
    (hfree : child s t i = none) :
    (pageAlloc s = none ∧ pgdirWalkStep s t i va true = (.fail, s)) ∨
    ∃ pp s₁ s', pageAlloc s = some (pp, s₁) ∧ s'.vis = s₁.vis ∧
      pgdirWalkStep s t i va true = (.at pp, s') ∧ PmapInv boot dirs s' ∧ Grown dirs s s' ∧
      child s' t i = some pp ∧ ∀ j, child s' pp j = none := by
  have hv : ¬ isValid (s.mem t i) = true := by
    rw [child_eq_none.mp hfree]
    exact Bool.false_ne_true
  unfold pgdirWalkStep
  rw [if_neg hv, if_pos rfl]
  cases halloc : pageAlloc s with
  | none => exact Or.inl ⟨rfl, rfl⟩
  | some x =>
      obtain ⟨pp, s₁⟩ := x
      obtain ⟨hw, hwpp⟩ := tableEntry_ok hI halloc (PTE_ADDR_user va)
      obtain ⟨hI', hg, hc⟩ := hI.graft hn hat hslot hfree halloc hw hwpp
      have g := graft_of_alloc hI hn hat hslot hfree halloc hw hwpp
      exact Or.inr ⟨pp, s₁, (s₁.setPte t i ((s₁.pages pp).pa |||
        if va < KERNBASE then PTE_USER else 0)).incRef pp, rfl, rfl, by simp only [hwpp], hI', hg,
        hc, g.empty⟩

/-- How a walk that makes tables ends: at the leaf slot when there is `room`, and
    otherwise short of it. -/
structure WalkEnds (boot : Nat → Nat) (dirs : Finset Nat) (d : Nat) (va : Word) (room : Prop)
    (s : Pmap) (r : Walk (Nat × Nat) × Pmap) : Prop where
  inv : PmapInv boot dirs r.2
  grown : Grown dirs s r.2
  ends : (∃ x, r.1 = .at x ∧ room ∧ leafSlot r.2 d va = some x) ∨
    r.1 = .fail ∧ ¬ room ∧ leafSlot r.2 d va = none

theorem pgdirWalkStep_of_child {v : Nat} (h : child s t i = some v) :
    pgdirWalkStep s t i va true = (.at v, s) := by
  obtain ⟨hv, rfl⟩ := child_eq_some.mp h
  unfold pgdirWalkStep
  rw [if_pos hv]

theorem freePages_one : FreePages 1 s ↔ ∃ x, pageAlloc s = some x := by
  constructor
  · rintro ⟨pp, s₁, halloc, -⟩
    exact ⟨_, halloc⟩
  · rintro ⟨⟨pp, s₁⟩, halloc⟩
    exact ⟨pp, s₁, halloc, trivial⟩

/-- The second level, with table `v` below the directory. -/
theorem pgdirWalk_second (hI : PmapInv boot dirs s) {v n : Nat} (hn : n < 2)
    (hc : child s d (GET_L1_INDEX va) = some v) (hat : (tableShape dirs).At (child s) n v)
    (hslot : child s v (GET_L2_INDEX va) = none →
      (tableShape dirs).slotOk n (GET_L2_INDEX va))
    (hkeep : ∀ s', Grown dirs s s' → child s' d (GET_L1_INDEX va) = some v) :
    WalkEnds boot dirs d va (child s v (GET_L2_INDEX va) = none → FreePages 1 s) s
      (pgdirWalk s d va true) := by
  have hat₂ : ∀ u s₂, pgdirWalkStep s v (GET_L2_INDEX va) va true = (.at u, s₂) →
      pgdirWalk s d va true = (.at (u, GET_L3_INDEX va), s₂) := by
    intro u s₂ h
    simp only [pgdirWalk, pgdirWalkStep_of_child hc, h]
  have hfail₂ : ∀ s₂, pgdirWalkStep s v (GET_L2_INDEX va) va true = (.fail, s₂) →
      pgdirWalk s d va true = (.fail, s₂) := by
    intro s₂ h
    simp only [pgdirWalk, pgdirWalkStep_of_child hc, h]
  cases hc₂ : child s v (GET_L2_INDEX va) with
  | some u =>
      rw [hat₂ u s (pgdirWalkStep_of_child hc₂)]
      refine ⟨hI, .refl _ _, Or.inl ⟨_, rfl, fun h => absurd h (by simp), ?_⟩⟩
      simp [leafSlot, radixWalk, hc, hc₂]
  | none =>
      rcases pgdirWalkStep_exact va hI hn hat (hslot hc₂) hc₂ with
        ⟨hnone, hstep⟩ | ⟨pp, s₁, s', halloc, -, hstep, hI', hg, hnew, -⟩
      · rw [hfail₂ s hstep]
        refine ⟨hI, .refl _ _, Or.inr ⟨rfl, fun h => ?_, ?_⟩⟩
        · obtain ⟨x, hx⟩ := freePages_one.mp (h rfl)
          rw [hnone] at hx
          cases hx
        · simp [leafSlot, radixWalk, hc, hc₂]
      · rw [hat₂ pp s' hstep]
        refine ⟨hI', hg, Or.inl ⟨_, rfl, fun _ => freePages_one.mpr ⟨_, halloc⟩, ?_⟩⟩
        simp [leafSlot, radixWalk, hkeep s' hg, hnew]

/-- A walk that makes tables needs as many pages as there are tables missing. -/
theorem pgdirWalk_exact (hI : PmapInv boot dirs s) (hd : d ∈ dirs) (va : Word) :
    WalkEnds boot dirs d va (FreePages (missingTables s d va) s) s (pgdirWalk s d va true) := by
  have hat0 : (tableShape dirs).At (child s) 0 d := hd
  by_cases hself : GET_L1_INDEX va = uvptIndex
  · -- The first index leads back to the directory.
    have hc : child s d (GET_L1_INDEX va) = some d := hself ▸ hI.tables.dir_self d hd
    have hslot : child s d (GET_L2_INDEX va) = none →
        (tableShape dirs).slotOk 0 (GET_L2_INDEX va) := by
      intro hfree
      refine ⟨GET_L2_INDEX_lt va, fun _ heq => ?_⟩
      rw [heq, hI.tables.dir_self d hd] at hfree
      cases hfree
    have hwalk := pgdirWalk_second hI (by omega) hc hat0 hslot fun s' hg =>
      hg.child_mono (isTable_of_at (by omega) hat0) hc
    have hroom : FreePages (missingTables s d va) s ↔
        (child s d (GET_L2_INDEX va) = none → FreePages 1 s) := by
      unfold missingTables
      simp only [hc]
      cases child s d (GET_L2_INDEX va) with
      | none => simp
      | some u => simp [FreePages]
    exact ⟨hwalk.inv, hwalk.grown, by rw [hroom]; exact hwalk.ends⟩
  · cases hc : child s d (GET_L1_INDEX va) with
    | some v =>
        have hat1 : (tableShape dirs).At (child s) 1 v := ⟨d, _, hat0, slotOk_l1 dirs hself, hc⟩
        have hwalk := pgdirWalk_second hI (by omega) hc hat1 (fun _ => slotOk_l2 dirs va)
          fun s' hg => hg.child_mono (isTable_of_at (by omega) hat0) hc
        have hroom : FreePages (missingTables s d va) s ↔
            (child s v (GET_L2_INDEX va) = none → FreePages 1 s) := by
          unfold missingTables
          simp only [hc]
          cases child s v (GET_L2_INDEX va) with
          | none => simp
          | some u => simp [FreePages]
        exact ⟨hwalk.inv, hwalk.grown, by rw [hroom]; exact hwalk.ends⟩
    | none =>
        have hmiss : missingTables s d va = 2 := by simp only [missingTables, hc]
        rcases pgdirWalkStep_exact va hI (by omega) hat0 (slotOk_l1 dirs hself) hc with
          ⟨hnone, hstep⟩ | ⟨pp, s₁, s', halloc, hvis, hstep, hI', hg, hnew, hempty⟩
        · have hfail : pgdirWalk s d va true = (.fail, s) := by
            unfold pgdirWalk
            rw [hstep]
          rw [hfail, hmiss]
          refine ⟨hI, .refl _ _, Or.inr ⟨rfl, fun h => ?_, by simp [leafSlot, radixWalk, hc]⟩⟩
          obtain ⟨_, _, halloc, -⟩ := h
          rw [hnone] at halloc
          cases halloc
        · -- With the first table made, the walk goes on as if it had been there.
          have hgo : pgdirWalk s d va true = pgdirWalk s' d va true := by
            unfold pgdirWalk
            rw [hstep, pgdirWalkStep_of_child hnew]
          have hat1 : (tableShape dirs).At (child s') 1 pp :=
            ⟨d, _, (hd : (tableShape dirs).At (child s') 0 d), slotOk_l1 dirs hself, hnew⟩
          have hdir : IsTable s' dirs d := ⟨0, by omega, hd⟩
          have hwalk := pgdirWalk_second hI' (by omega) hnew hat1 (fun _ => slotOk_l2 dirs va)
            fun s'' hg' => hg'.child_mono hdir hnew
          have hroom : FreePages 2 s ↔ (child s' pp (GET_L2_INDEX va) = none → FreePages 1 s') := by
            constructor
            · rintro ⟨_, _, halloc', hrest⟩ -
              rw [halloc] at halloc'
              cases halloc'
              exact hrest.of_vis hvis
            · intro h
              exact ⟨pp, s₁, halloc, (h (hempty _)).of_vis hvis.symm⟩
          rw [hgo, hmiss, hroom]
          exact ⟨hwalk.inv, hg.trans hI hwalk.grown, hwalk.ends⟩

/-- A write to a leaf slot leaves the way to it, unless the slot is the self-map
    entry itself. -/
theorem leafSlot_keep_window (ht : TablesOk s dirs) (hd : d ∈ dirs) (hself : ¬ IsSelfPage va)
    (hx : leafSlot s d va = some (t, i)) (w : Word) :
    leafSlot (s.setPte t i w) d va = some (t, i) := by
  by_cases hva : GET_L1_INDEX va = uvptIndex
  · have hat0 : (tableShape dirs).At (child s) 0 d := hd
    have hc : child s d (GET_L1_INDEX va) = some d := hva ▸ ht.dir_self d hd
    obtain ⟨u, hu, hux⟩ := Option.map_eq_some_iff.mp hx
    cases hux
    simp only [radixWalk, hc, Option.bind_some] at hu
    have hc₂ : child s d (GET_L2_INDEX va) = some t := by
      obtain ⟨u', hu', hwu⟩ := Option.bind_eq_some_iff.mp hu
      cases hwu
      exact hu'
    -- Only the self-map entry leads from a directory to itself.
    have hloop : d = t → GET_L2_INDEX va = uvptIndex := by
      rintro rfl
      by_contra hne
      have hat1 : (tableShape dirs).At (child s) 1 d :=
        ⟨d, _, hat0, ⟨GET_L2_INDEX_lt va, fun _ => hne⟩, hc₂⟩
      have := ht.forest.level_unique (by omega) (by omega) hat0 hat1
      omega
    have hne₁ : ¬ (d = t ∧ GET_L1_INDEX va = GET_L3_INDEX va) := by
      rintro ⟨rfl, h₃⟩
      refine hself ?_
      rw [IsSelfPage, pageIdx, ← h₃, hva, hloop rfl]
    have hne₂ : ¬ (d = t ∧ GET_L2_INDEX va = GET_L3_INDEX va) := by
      rintro ⟨rfl, h₃⟩
      refine hself ?_
      rw [IsSelfPage, pageIdx, ← h₃, hva, hloop rfl]
    simp only [leafSlot, radixWalk, child_setPte_of_ne hne₁, hc, Option.bind_some,
      child_setPte_of_ne hne₂, hc₂, Option.map_some]
  · exact leafSlot_keep ht hd hva hx w

/-- What `page_insert` leaves at the address: the entry for the page when it had
    room for the tables, and otherwise no entry, as before. -/
theorem pageInsert_exact (hI : PmapInv boot dirs s) (hd : d ∈ dirs) (hself : ¬ IsSelfPage va)
    (pp : Nat) (perm : Word) :
    (FreePages (missingTables s d va) s ∧
      mapping (pageInsert s d pp va perm).2 d va = some (leafEntry s pp perm)) ∨
    (¬ FreePages (missingTables s d va) s ∧
      mapping (pageInsert s d pp va perm).2 d va = none ∧
      Grown dirs s (pageInsert s d pp va perm).2) := by
  cases hm : mapping s d va with
  | some e =>
      obtain ⟨t, i, hx, hv, rfl⟩ := mapping_eq_some.mp hm
      have hkeep := leafSlot_keep_window hI.tables hd hself hx
      obtain ⟨s', hins, hmem, -⟩ := pageInsert_of_mapped pp perm hkeep hx hv
      refine Or.inl ⟨?_, ?_⟩
      · rw [missingTables_zero hx]
        trivial
      · rw [hins, mapping_eq_of_mem hmem, mapping_of_leafSlot (hkeep _), Pmap.setPte_mem_self,
          if_pos (isValid_leafEntry s pp perm)]
  | none =>
      rw [pageInsert_of_none hm]
      obtain ⟨hI₁, hg, ⟨⟨t, i⟩, hr, hroom, hx⟩ | ⟨hr, hroom, hx⟩⟩ := pgdirWalk_exact hI hd va
      · have hwalk : pgdirWalk s d va true = (.at (t, i), (pgdirWalk s d va true).2) :=
          Prod.ext hr rfl
        refine Or.inl ⟨hroom, ?_⟩
        rw [pageInsertNew, hwalk]
        have hkeep := leafSlot_keep_window hI₁.tables hd hself hx
        have hmem : ∀ w, ((((pgdirWalk s d va true).2).setPte t i w).incRef pp).mem =
            (((pgdirWalk s d va true).2).setPte t i w).mem := fun _ => rfl
        rw [mapping_eq_of_mem (hmem _), mapping_of_leafSlot (hkeep _), Pmap.setPte_mem_self,
          ← leafEntry, if_pos (isValid_leafEntry _ pp perm), leafEntry_congr hg.pa]
      · have hwalk : pgdirWalk s d va true = (.fail, (pgdirWalk s d va true).2) := Prod.ext hr rfl
        refine Or.inr ⟨hroom, ?_⟩
        rw [pageInsertNew, hwalk]
        exact ⟨mapping_of_leafSlot_none hx, hg⟩

/-- Inserting what is mapped already leaves memory as it is. -/
theorem pageInsert_mapped_mem (hI : PmapInv boot dirs s) (hd : d ∈ dirs) (hself : ¬ IsSelfPage va)
    (hm : mapping s d va = some (leafEntry s pp perm)) :
    (pageInsert s d pp va perm).2.mem = s.mem := by
  obtain ⟨t, i, hx, hv, hw⟩ := mapping_eq_some.mp hm
  obtain ⟨s', hins, hmem, -⟩ :=
    pageInsert_of_mapped pp perm (leafSlot_keep_window hI.tables hd hself hx) hx hv
  rw [hins, hmem]
  funext t' i'
  rw [Pmap.setPte_mem]
  split
  · rename_i heq
    rw [heq.1, heq.2, hw]
  · rfl

end RpiMos
