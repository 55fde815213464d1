/-
  RpiMos.Mm.PageCost

  How many pages `page_insert` takes for tables: told for one page, and for one
  page after others, from the tables that are there before the first.
-/

import RpiMos.Mm.PageWindow

namespace RpiMos

open Lib RadixShape

variable {s s' s₁ : Pmap} {dirs : Finset Nat} {boot : Nat → Nat} {d t i pp n : Nat}
  {va a perm w : Word}

/-! ## The allocator as a count -/

theorem freePages_pageAlloc (halloc : pageAlloc s = some (pp, s₁)) (hvis : s'.vis = s₁.vis) :
    FreePages n s' ↔ FreePages (n + 1) s := by
  constructor
  · intro h
    exact ⟨pp, s₁, halloc, h.of_vis hvis.symm⟩
  · rintro ⟨pp', s₁', halloc', h⟩
    rw [halloc] at halloc'
    cases halloc'
    exact h.of_vis hvis

theorem not_freePages_of_none (hnone : pageAlloc s = none) : ¬ FreePages (n + 1) s := by
  rintro ⟨pp, s₁, halloc, -⟩
  rw [hnone] at halloc
  cases halloc

theorem FreePages.le {m : Nat} (h : FreePages n s) (hle : m ≤ n) : FreePages m s := by
  induction hle with
  | refl => exact h
  | step _ ih => exact ih h.mono

/-! ## Which tables there are -/

/-- The tables of `s'` are those of `s` and those that lead to the pages of `prev`. -/
structure TablesAdded (d : Nat) (prev : List Word) (s s' : Pmap) : Prop where
  dir : ∀ a, GET_L1_INDEX a ≠ uvptIndex → (child s' d (GET_L1_INDEX a) = none ↔
    child s d (GET_L1_INDEX a) = none ∧ ∀ p ∈ prev, GET_L1_INDEX p ≠ GET_L1_INDEX a)
  leaf : ∀ a, GET_L1_INDEX a ≠ uvptIndex → (leafSlot s' d a = none ↔
    leafSlot s d a = none ∧
      ∀ p ∈ prev, ¬ (GET_L1_INDEX p = GET_L1_INDEX a ∧ GET_L2_INDEX p = GET_L2_INDEX a))

theorem TablesAdded.refl (d : Nat) (s : Pmap) : TablesAdded d [] s s where
  dir _ _ := ⟨fun h => ⟨h, fun _ hp => absurd hp List.not_mem_nil⟩, And.left⟩
  leaf _ _ := ⟨fun h => ⟨h, fun _ hp => absurd hp List.not_mem_nil⟩, And.left⟩

theorem TablesAdded.append {prev more : List Word} (h : TablesAdded d prev s s₁)
    (h' : TablesAdded d more s₁ s') : TablesAdded d (more ++ prev) s s' where
  dir a ha := by
    rw [h'.dir a ha, h.dir a ha]
    simp only [List.mem_append, or_imp, forall_and]
    tauto
  leaf a ha := by
    rw [h'.leaf a ha, h.leaf a ha]
    simp only [List.mem_append, or_imp, forall_and]
    tauto

/-- The tables that are missing for the page at `va` when those for the pages of
    `prev` are there. -/
def tablesFor (s : Pmap) (d : Nat) (prev : List Word) (va : Word) : Nat :=
  (if child s d (GET_L1_INDEX va) = none ∧ ∀ p ∈ prev, GET_L1_INDEX p ≠ GET_L1_INDEX va
    then 1 else 0) +
  if leafSlot s d va = none ∧
      ∀ p ∈ prev, ¬ (GET_L1_INDEX p = GET_L1_INDEX va ∧ GET_L2_INDEX p = GET_L2_INDEX va)
    then 1 else 0

/-- The pages that it takes to map new pages at the addresses `vas` one by one. -/
def pagesCost (s : Pmap) (d : Nat) (prev : List Word) : List Word → Nat
  | [] => 0
  | va :: vas => 1 + tablesFor s d prev va + pagesCost s d (va :: prev) vas

theorem leafSlot_eq_none : leafSlot s d va = none ↔
    ∀ v, child s d (GET_L1_INDEX va) = some v → child s v (GET_L2_INDEX va) = none := by
  rw [leafSlot, Option.map_eq_none_iff]
  simp only [radixWalk]
  cases hc : child s d (GET_L1_INDEX va) with
  | none => simp
  | some v =>
      cases hc₂ : child s v (GET_L2_INDEX va) with
      | none => simp [hc₂]
      | some u => simp [hc₂]

theorem missingTables_eq (s : Pmap) (d : Nat) (va : Word) :
    missingTables s d va = (if child s d (GET_L1_INDEX va) = none then 1 else 0) +
      if leafSlot s d va = none then 1 else 0 := by
  unfold missingTables
  cases hc : child s d (GET_L1_INDEX va) with
  | none =>
      have hleaf : leafSlot s d va = none := by
        rw [leafSlot_eq_none, hc]
        exact nofun
      simp [hleaf]
  | some v =>
      have hleaf : leafSlot s d va = none ↔ child s v (GET_L2_INDEX va) = none := by
        rw [leafSlot_eq_none, hc]
        simp
      simp [hleaf]

theorem TablesAdded.missing {prev : List Word} (h : TablesAdded d prev s s')
    (hva : GET_L1_INDEX va ≠ uvptIndex) : missingTables s' d va = tablesFor s d prev va := by
  rw [missingTables_eq, tablesFor]
  simp only [h.dir va hva, h.leaf va hva]

/-! ## What a walk adds -/

/-- A table hung in the directory. -/
theorem dir_hung (ht : TablesOk s dirs) (hd : d ∈ dirs)
    (g : (tableShape dirs).Graft (child s) (child s') 2 0 d (GET_L1_INDEX va) pp)
    (ha : GET_L1_INDEX a ≠ uvptIndex) :
    (child s' d (GET_L1_INDEX a) = none ↔
      child s d (GET_L1_INDEX a) = none ∧ GET_L1_INDEX va ≠ GET_L1_INDEX a) ∧
    (leafSlot s' d a = none ↔ leafSlot s d a = none) := by
  have hat0 : (tableShape dirs).At (child s) 0 d := hd
  by_cases hsame : GET_L1_INDEX va = GET_L1_INDEX a
  · have hc : child s' d (GET_L1_INDEX a) = some pp := hsame ▸ g.hung
    have hfree : child s d (GET_L1_INDEX a) = none := hsame ▸ g.free
    refine ⟨by simp [hc, hsame], ?_⟩
    rw [leafSlot_eq_none, leafSlot_eq_none, hc, hfree]
    simp [g.empty]
  · have hc : child s' d (GET_L1_INDEX a) = child s d (GET_L1_INDEX a) :=
      g.same (by omega) hat0 fun h => hsame h.2.symm
    refine ⟨by simp [hc, hsame], ?_⟩
    rw [leafSlot_eq_none, leafSlot_eq_none, hc]
    refine forall_congr' fun v => forall_congr' fun hv => ?_
    have hat1 : (tableShape dirs).At (child s) 1 v := ⟨d, _, hat0, slotOk_l1 dirs ha, hv⟩
    rw [g.same (by omega) hat1]
    rintro ⟨rfl, -⟩
    have := ht.forest.level_unique (by omega) (by omega) hat0 hat1
    omega

/-- A table hung in the second level, below `v`. -/
theorem leaf_hung (ht : TablesOk s dirs) (hd : d ∈ dirs) {v : Nat}
    (hva : GET_L1_INDEX va ≠ uvptIndex) (hc : child s d (GET_L1_INDEX va) = some v)
    (g : (tableShape dirs).Graft (child s) (child s') 2 1 v (GET_L2_INDEX va) pp)
    (ha : GET_L1_INDEX a ≠ uvptIndex) :
    child s' d (GET_L1_INDEX a) = child s d (GET_L1_INDEX a) ∧
    (leafSlot s' d a = none ↔ leafSlot s d a = none ∧
      ¬ (GET_L1_INDEX va = GET_L1_INDEX a ∧ GET_L2_INDEX va = GET_L2_INDEX a)) := by
  have hat0 : (tableShape dirs).At (child s) 0 d := hd
  have hat1 : (tableShape dirs).At (child s) 1 v := ⟨d, _, hat0, slotOk_l1 dirs hva, hc⟩
  have hdir : child s' d (GET_L1_INDEX a) = child s d (GET_L1_INDEX a) := by
    refine g.same (by omega) hat0 ?_
    rintro ⟨rfl, -⟩
    have := ht.forest.level_unique (by omega) (by omega) hat0 hat1
    omega
  refine ⟨hdir, ?_⟩
  rw [leafSlot_eq_none, leafSlot_eq_none, hdir]
  cases hca : child s d (GET_L1_INDEX a) with
  | none =>
      have hne : GET_L1_INDEX va ≠ GET_L1_INDEX a := by
        intro h
        rw [h, hca] at hc
        cases hc
      simp [hne]
  | some u =>
      have hat1' : (tableShape dirs).At (child s) 1 u := ⟨d, _, hat0, slotOk_l1 dirs ha, hca⟩
      simp only [Option.some.injEq, forall_eq']
      by_cases hsame : GET_L1_INDEX va = GET_L1_INDEX a ∧ GET_L2_INDEX va = GET_L2_INDEX a
      · have huv : u = v := by
          rw [← hsame.1, hc] at hca
          cases hca
          rfl
        rw [huv, ← hsame.2, g.hung]
        simp [hsame.1]
      · rw [g.same (by omega) hat1']
        · simp [hsame]
        · rintro ⟨rfl, hl2⟩
          refine hsame ⟨?_, hl2.symm⟩
          exact (ht.forest.inj (by omega) hat0 hat0 (slotOk_l1 dirs hva) (slotOk_l1 dirs ha)
            hc hca).2

/-- One level of a walk where the table is missing. -/
theorem pgdirWalkStep_hung (va : Word) (hI : PmapInv boot dirs s) (hn : n < 2)
    (hat : (tableShape dirs).At (child s) n t) (hslot : (tableShape dirs).slotOk n i)
    (hfree : child s t i = none) :
    (pageAlloc s = none ∧ pgdirWalkStep s t i va true = (.fail, s)) ∨
    ∃ pp s', pgdirWalkStep s t i va true = (.at pp, s') ∧ PmapInv boot dirs s' ∧ Grown dirs s s' ∧
      (tableShape dirs).Graft (child s) (child s') 2 n t i pp ∧
      ∀ m, FreePages m s' ↔ FreePages (m + 1) s := by
  have hv : ¬ isValid (s.mem t i) = true := by
    rw [child_eq_none.mp hfree]
    exact Bool.false_ne_true
  unfold pgdirWalkStep
  rw [if_neg hv, if_pos rfl]
  cases halloc : pageAlloc s with
  | none => exact .inl ⟨rfl, rfl⟩
  | some x =>
      obtain ⟨pp, s₁⟩ := x
      obtain ⟨hw, hwpp⟩ := tableEntry_ok hI halloc (PTE_ADDR_user va)
      obtain ⟨hI', hg, -⟩ := hI.graft hn hat hslot hfree halloc hw hwpp
      refine .inr ⟨pp, _, by simp only [hwpp], hI', hg,
        graft_of_alloc hI hn hat hslot hfree halloc hw hwpp, fun m => ?_⟩
      exact freePages_pageAlloc halloc rfl

/-- What a walk that makes tables has taken: as many pages as tables were missing, or
    all there were. -/
structure WalkTakes (d : Nat) (va : Word) (s : Pmap) (r : Walk (Nat × Nat) × Pmap) : Prop where
  made : ∀ x, r.1 = .at x → TablesAdded d [va] s r.2 ∧
    ∀ n, FreePages n r.2 ↔ FreePages (n + missingTables s d va) s
  spent : (∀ x, r.1 ≠ .at x) → ¬ FreePages 1 r.2

theorem tablesAdded_of_present (hleaf : leafSlot s d va ≠ none)
    (hdir : child s d (GET_L1_INDEX va) ≠ none) : TablesAdded d [va] s s where
  dir a _ := by
    refine ⟨fun h => ⟨h, fun p hp hidx => ?_⟩, And.left⟩
    rw [List.mem_singleton.mp hp] at hidx
    rw [← hidx] at h
    exact hdir h
  leaf a _ := by
    refine ⟨fun h => ⟨h, fun p hp hidx => ?_⟩, And.left⟩
    rw [List.mem_singleton.mp hp] at hidx
    rw [leafSlot, ← hidx.1, ← hidx.2, Option.map_eq_none_iff] at h
    rw [leafSlot, h] at hleaf
    exact hleaf rfl

/-- The second level, below `v`. -/
theorem pgdirWalk_takes_second (hI : PmapInv boot dirs s) (hd : d ∈ dirs) {v : Nat}
    (hva : GET_L1_INDEX va ≠ uvptIndex) (hc : child s d (GET_L1_INDEX va) = some v) :
    WalkTakes d va s (pgdirWalk s d va true) := by
  have hat1 : (tableShape dirs).At (child s) 1 v :=
    ⟨d, _, (hd : (tableShape dirs).At (child s) 0 d), slotOk_l1 dirs hva, hc⟩
  have hdir : child s d (GET_L1_INDEX va) ≠ none := by
    rw [hc]
    exact Option.some_ne_none v
  unfold pgdirWalk
  rw [pgdirWalkStep_of_child hc]
  simp only
  cases hc₂ : child s v (GET_L2_INDEX va) with
  | some u =>
      rw [pgdirWalkStep_of_child hc₂]
      have hleaf : leafSlot s d va ≠ none := by
        intro h
        rw [leafSlot_eq_none] at h
        rw [h v hc] at hc₂
        cases hc₂
      refine ⟨fun x _ => ⟨tablesAdded_of_present hleaf hdir, fun n => ?_⟩,
        fun h => absurd rfl (h _)⟩
      rw [missingTables_eq, if_neg hdir, if_neg hleaf]
      rfl
  | none =>
      have hleaf : leafSlot s d va = none := by
        rw [leafSlot_eq_none]
        intro v' hv'
        rw [hc] at hv'
        cases hv'
        exact hc₂
      rcases pgdirWalkStep_hung va hI (by omega) hat1 (slotOk_l2 dirs va) hc₂ with
        ⟨hnone, hstep⟩ | ⟨pp, s', hstep, -, -, hgraft, hfree⟩
      · rw [hstep]
        exact ⟨nofun, fun _ => not_freePages_of_none hnone⟩
      · rw [hstep]
        refine ⟨fun x _ => ⟨⟨fun a ha => ?_, fun a ha => ?_⟩, fun n => ?_⟩, fun h => absurd rfl (h _)⟩
        · rw [(leaf_hung hI.tables hd hva hc hgraft ha).1]
          refine ⟨fun h => ⟨h, fun p hp hidx => ?_⟩, And.left⟩
          rw [List.mem_singleton.mp hp] at hidx
          rw [hidx] at hdir
          exact hdir h
        · rw [(leaf_hung hI.tables hd hva hc hgraft ha).2]
          simp
        · rw [missingTables_eq, if_neg hdir, if_pos hleaf]
          exact hfree n

theorem pgdirWalk_takes (hI : PmapInv boot dirs s) (hd : d ∈ dirs)
    (hva : GET_L1_INDEX va ≠ uvptIndex) : WalkTakes d va s (pgdirWalk s d va true) := by
  have hat0 : (tableShape dirs).At (child s) 0 d := hd
  cases hc : child s d (GET_L1_INDEX va) with
  | some v => exact pgdirWalk_takes_second hI hd hva hc
  | none =>
      have hleaf : leafSlot s d va = none := by
        rw [leafSlot_eq_none, hc]
        exact nofun
      rcases pgdirWalkStep_hung va hI (by omega) hat0 (slotOk_l1 dirs hva) hc with
        ⟨hnone, hstep⟩ | ⟨pp, s', hstep, hI', -, hgraft, hfree⟩
      · have hfail : pgdirWalk s d va true = (.fail, s) := by
          unfold pgdirWalk
          rw [hstep]
        rw [hfail]
        exact ⟨nofun, fun _ => not_freePages_of_none hnone⟩
      · -- With the first table made, the walk goes on as if it had been there.
        have hgo : pgdirWalk s d va true = pgdirWalk s' d va true := by
          unfold pgdirWalk
          rw [hstep, pgdirWalkStep_of_child hgraft.hung]
        rw [hgo]
        obtain ⟨hmade, hspent⟩ := pgdirWalk_takes_second hI' hd hva hgraft.hung
        refine ⟨fun x hx => ?_, hspent⟩
        obtain ⟨hadded, hcount⟩ := hmade x hx
        refine ⟨⟨fun a ha => ?_, fun a ha => ?_⟩, fun n => ?_⟩
        · rw [hadded.dir a ha, (dir_hung hI.tables hd hgraft ha).1]
          simp
        · rw [hadded.leaf a ha, (dir_hung hI.tables hd hgraft ha).2]
        · have hleaf' : leafSlot s' d va = none := (dir_hung hI.tables hd hgraft hva).2.mpr hleaf
          have hdir' : child s' d (GET_L1_INDEX va) ≠ none := by
            rw [hgraft.hung]
            exact Option.some_ne_none pp
          rw [hcount, hfree, missingTables_eq, missingTables_eq, if_pos hc, if_pos hleaf,
            if_neg hdir', if_pos hleaf']

/-! ## `page_insert` at an address that is not mapped -/

/-- What a new entry has taken. -/
structure InsertTakes (d : Nat) (va : Word) (s : Pmap) (r : Bool × Pmap) : Prop where
  made : r.1 = true → TablesAdded d [va] s r.2 ∧
    ∀ n, FreePages n r.2 ↔ FreePages (n + missingTables s d va) s
  spent : r.1 = false → ¬ FreePages 1 r.2

theorem freePages_vis (hvis : s'.vis = s.vis) : FreePages n s' ↔ FreePages n s :=
  ⟨fun h => h.of_vis hvis.symm, fun h => h.of_vis hvis⟩

theorem pageInsert_takes (hI : PmapInv boot dirs s) (hd : d ∈ dirs)
    (hva : GET_L1_INDEX va ≠ uvptIndex) (hm : mapping s d va = none) (pp : Nat) (perm : Word) :
    InsertTakes d va s (pageInsert s d pp va perm) := by
  rw [pageInsert_of_none hm]
  obtain ⟨hmade, hspent⟩ := pgdirWalk_takes hI hd hva
  have hends := pgdirWalk_exact hI hd va
  unfold pageInsertNew
  cases hwalk : pgdirWalk s d va true with
  | mk x s₁ =>
      rw [hwalk] at hmade hspent hends
      cases x with
      | fail => exact ⟨nofun, fun _ => hspent nofun⟩
      | null => exact ⟨nofun, fun _ => hspent nofun⟩
      | «at» y =>
          obtain ⟨t, i⟩ := y
          obtain ⟨hadded, hcount⟩ := hmade _ rfl
          have hx : leafSlot s₁ d va = some (t, i) := by
            rcases hends.ends with ⟨y, hy, -, hleaf⟩ | ⟨hfail, -⟩
            · cases hy
              exact hleaf
            · cases hfail
          have hat0 : (tableShape dirs).At (child s₁) 0 d := hd
          have hat2 := (leafSlot_at hd hva hx).1
          refine ⟨fun _ => ⟨⟨fun a ha => ?_, fun a ha => ?_⟩, fun n => ?_⟩, nofun⟩
          · rw [← hadded.dir a ha]
            show child (s₁.setPte t i _) d _ = none ↔ _
            rw [child_setLeaf hat2 hends.inv.tables (by omega) hat0]
          · rw [← hadded.leaf a ha]
            show leafSlot (s₁.setPte t i _) d _ = none ↔ _
            rw [leafSlot_setLeaf hat2 hends.inv.tables hd ha]
          · rw [← hcount]
            exact freePages_vis rfl

end RpiMos
