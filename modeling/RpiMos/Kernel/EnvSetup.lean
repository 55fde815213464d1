/-
  RpiMos.Kernel.EnvSetup

  `env_setup_vm` over sound tables: a new directory that maps the boot code,
  page by page, each at its own address.  Along the way, what makes an
  insertion or a removal clear an allocation bit: it takes the last reference
  of a page away.
-/

import RpiMos.Kernel.Env
import RpiMos.Mm.PageFrame

namespace RpiMos

open Lib RadixShape

variable {boot : Nat → Nat} {dirs : Finset Nat} {s s' s₁ : Pmap} {d t i p pp n initEnd : Nat}
  {va perm e : Word}

/-! ## Allocation bits -/

/-- Walking with `create` set sets bits only. -/
theorem visBit_pgdirWalkStep (h : visBit s p = true) (t i : Nat) (va : Word) (create : Bool) :
    visBit (pgdirWalkStep s t i va create).2 p = true := by
  unfold pgdirWalkStep
  split
  · exact h
  · split
    · cases halloc : pageAlloc s with
      | none => exact h
      | some x =>
          obtain ⟨pp, s₁⟩ := x
          show visBit s₁ p = true
          exact visBit_pageAlloc halloc h
    · exact h

theorem visBit_pgdirWalk (h : visBit s p = true) (d : Nat) (va : Word) (create : Bool) :
    visBit (pgdirWalk s d va create).2 p = true := by
  have h₁ := visBit_pgdirWalkStep h d (GET_L1_INDEX va) va create
  unfold pgdirWalk
  cases hstep₁ : pgdirWalkStep s d (GET_L1_INDEX va) va create with
  | mk r₁ s₁ =>
      rw [hstep₁] at h₁
      cases r₁ with
      | fail => exact h₁
      | null => exact h₁
      | «at» t₂ =>
          have h₂ := visBit_pgdirWalkStep h₁ t₂ (GET_L2_INDEX va) va create
          cases hstep₂ : pgdirWalkStep s₁ t₂ (GET_L2_INDEX va) va create with
          | mk r₂ s₂ =>
              rw [hstep₂] at h₂
              cases r₂ <;> simpa [hstep₂] using h₂

theorem visBit_pageInsertNew (h : visBit s p = true) (d pp : Nat) (va perm : Word) :
    visBit (pageInsertNew s d pp va perm).2 p = true := by
  have hw := visBit_pgdirWalk h d va true
  unfold pageInsertNew
  split
  · rename_i heq
    rw [heq] at hw
    exact hw
  · rename_i heq
    rw [heq] at hw
    exact hw

/-- The entry of `va` holds the last reference to page `p`. -/
def LastRef (s : Pmap) (d : Nat) (va : Word) (p : Nat) : Prop :=
  ∃ e, mapping s d va = some e ∧ pteFrame e = p ∧ (s.pages p).ref = 1

/-- Unless it holds the last reference, removing an entry clears no bit. -/
theorem PmapSound.visBit_pageRemove (hs : PmapSound boot dirs s) (hd : d ∈ dirs)
    (hva : GET_L1_INDEX va ≠ uvptIndex) (hv : visBit s p = true) (hlast : ¬ LastRef s d va p) :
    visBit (RpiMos.pageRemove s d va) p = true := by
  cases hm : mapping s d va with
  | none =>
      rw [pageRemove_of_none hm]
      exact hv
  | some e =>
      obtain ⟨t, i, hx, hvalid, rfl⟩ := mapping_eq_some.mp hm
      have hpage := (pa2page_eq_pteFrame_iff _).mpr (hs.clear d hd va _ hva hm)
      have hpos := hs.ref_pos hd hva hx hvalid
      by_contra hf
      rw [Bool.not_eq_true, pageRemove_of_leafSlot hx hvalid, hpage] at hf
      rcases visBit_pageFree hf with h | ⟨rfl, h0⟩
      · exact absurd (hv.symm.trans h) (by simp)
      · -- The page freed had one reference.
        rw [decRef_ref, if_pos rfl] at h0
        refine hlast ⟨_, hm, rfl, BitVec.eq_of_toNat_eq ?_⟩
        have hsub := toNat_sub_one hpos
        rw [h0] at hsub
        have h1 : (1 : U32).toNat = 1 := rfl
        have hz : (0 : U32).toNat = 0 := rfl
        omega

/-- The same for an insertion, which may replace an entry for the same page. -/
theorem PmapSound.visBit_pageInsert (hs : PmapSound boot dirs s) (hd : d ∈ dirs)
    (hva : GET_L1_INDEX va ≠ uvptIndex) (hv : visBit s p = true)
    (hlast : ¬ (LastRef s d va p ∧ p ≠ pp)) :
    visBit (RpiMos.pageInsert s d pp va perm).2 p = true := by
  cases hm : mapping s d va with
  | none =>
      rw [pageInsert_of_none hm]
      exact visBit_pageInsertNew hv d pp va perm
  | some e =>
      obtain ⟨t, i, hx, hvalid, rfl⟩ := mapping_eq_some.mp hm
      have hpage := (pa2page_eq_pteFrame_iff _).mpr (hs.clear d hd va _ hva hm)
      by_cases hsame : pa2page (s.mem t i) = pp
      · rw [pageInsert_of_same hx hvalid hsame]
        exact hv
      · rw [pageInsert_of_other hx hvalid hsame]
        refine visBit_pageInsertNew (hs.visBit_pageRemove hd hva hv fun hl => ?_) d pp va perm
        refine hlast ⟨hl, ?_⟩
        rintro rfl
        obtain ⟨e, he, hframe, -⟩ := hl
        rw [hm, Option.some.injEq] at he
        rw [← he] at hframe
        exact hsame (hpage.trans hframe)

/-! ## `env_setup_vm` -/

/-- A new directory joins sound tables. -/
theorem PmapSound.newDir (h : PmapSound boot dirs s) (halloc : RpiMos.pageAlloc s = some (pp, s₁)) :
    PmapSound boot (insert pp dirs) (envNewDir s₁ pp) := by
  refine ⟨envNewDir_inv h.toPmapInv halloc, fun d hd va e hva he => ?_⟩
  rw [mapping_envNewDir h.toPmapInv halloc hd hva] at he
  split at he
  · cases he
  · rename_i hne
    exact h.clear d ((Finset.mem_insert.mp hd).resolve_left hne) va e hva he

theorem pageIdx_bootVa {i : Nat} (hi : i < NPAGE) :
    pageIdx (BitVec.ofNat 64 (i <<< 12)) = (0, i / 512, i % 512) := by
  have hval := toNat_ofNat_shift hi
  rw [NPAGE] at hi
  rw [pageIdx, GET_L1_INDEX_eq, GET_L2_INDEX_eq, GET_L3_INDEX_eq, hval]
  simp only [Prod.mk.injEq]
  omega

theorem bootVa_L1 {i : Nat} (hi : i < NPAGE) : GET_L1_INDEX (BitVec.ofNat 64 (i <<< 12)) ≠ uvptIndex := by
  have h := congrArg Prod.fst (pageIdx_bootVa hi)
  rw [uvptIndex_eq]
  have h0 : GET_L1_INDEX (BitVec.ofNat 64 (i <<< 12)) = 0 := h
  omega

/-- After `n` turns of the loop over the boot code, begun in `s₀`. -/
structure BootMapped (boot : Nat → Nat) (dirs : Finset Nat) (d n : Nat) (s₀ s : Pmap) : Prop where
  sound : PmapSound boot dirs s
  vis : ∀ p, visBit s₀ p = true → visBit s p = true
  rest : ∀ j, n ≤ j → j < NPAGE → mapping s d (BitVec.ofNat 64 (j <<< 12)) = none
  first : 0 < n → FreePages 2 s₀ →
    ∃ e, mapping s d (BitVec.ofNat 64 (0 <<< 12)) = some e ∧ pteFrame e = 0
  kept : ∀ t, IsTable s₀ (dirs.erase d) t → s.mem t = s₀.mem t
  noLeak : NoLeak s₀ → NoLeak s

theorem BootMapped.turn {s₀ : Pmap} (h : BootMapped boot dirs d n s₀ s)
    (hs₀ : PmapSound boot dirs s₀) (hd : d ∈ dirs) (hn : n < NPAGE) (hvis : visBit s₀ n = true)
    (h0 : n = 0 → s = s₀) : BootMapped boot dirs d (n + 1) s₀ (envMapBoot d s n) := by
  have hva := bootVa_L1 hn
  have hperm : (PTE_RW ||| PTE_USER ||| PTE_LIBRARY) &&& pageNumberBits = 0 := by decide
  have hnone := h.rest n (Nat.le_refl n) hn
  obtain ⟨hsound, hed, hok, -⟩ := h.sound.pageInsert hd hva hn (h.vis n hvis) hperm
  have hne : ∀ {j}, j < NPAGE → j ≠ n →
      ¬ (d = d ∧ pageIdx (BitVec.ofNat 64 (j <<< 12)) = pageIdx (BitVec.ofNat 64 (n <<< 12))) := by
    rintro j hj hjn ⟨-, hidx⟩
    rw [pageIdx_bootVa hj, pageIdx_bootVa hn] at hidx
    simp only [Prod.mk.injEq, true_and] at hidx
    omega
  refine ⟨hsound, fun p hp => ?_, fun j hj hjn => ?_, fun _ hf => ?_, fun t ht => ?_, fun hl => ?_⟩
  · refine h.sound.visBit_pageInsert hd hva (h.vis p hp) fun hl => ?_
    obtain ⟨⟨e, he, -⟩, -⟩ := hl
    rw [hnone] at he
    cases he
  · rw [envMapBoot, hed.other hd (bootVa_L1 hjn) (hne hjn (by omega))]
    exact h.rest j (by omega) hjn
  · have hlt : 0 < NPAGE := by
      rw [NPAGE]
      decide
    rcases Nat.eq_zero_or_pos n with hz | hpos
    · -- The first page is inserted while there is memory for its tables.
      subst hz
      obtain ⟨s', hins⟩ := pageInsertNew_ok (h0 rfl ▸ hf) d 0 (BitVec.ofNat 64 (0 <<< 12))
        (PTE_RW ||| PTE_USER ||| PTE_LIBRARY)
      rw [← pageInsert_of_none hnone] at hins
      obtain ⟨he, hframe⟩ := hok (by rw [hins])
      exact ⟨_, he, hframe⟩
    · obtain ⟨e, he, hframe⟩ := h.first hpos hf
      refine ⟨e, ?_, hframe⟩
      rw [envMapBoot, hed.other hd (bootVa_L1 hlt) (hne hlt (by omega))]
      exact he
  · -- A table of another directory is in use, and none of the tables of `d`.
    have hused : visBit s₀ t = true :=
      hs₀.visBit_table ((isTable_split hd).mpr (Or.inl ht))
    have ht' : IsTable s (dirs.erase d) t := (isTable_of_tables h.kept t).mpr ht
    rw [envMapBoot, pageInsert_of_none hnone, pageInsertNew_frame h.sound.toPmapInv hd hva
      (h.vis t hused) (not_isTable_both h.sound.tables hd ht')]
    exact h.kept t ht
  · rw [envMapBoot, pageInsert_of_none hnone]
    exact (h.noLeak hl).insertNew h.sound.toPmapInv hd hva hn _

/-- `env_setup_vm` when the boot code lies in memory and is in use. -/
theorem envSetupVm_spec (hs : PmapSound boot dirs s) (hend : initEnd / 4096 ≤ NPAGE)
    (hvis : ∀ p < initEnd / 4096, visBit s p = true) (hvm : envSetupVm initEnd s = some (d, s')) :
    d ∉ dirs ∧ d < NPAGE ∧ ∃ s₁, pageAlloc s = some (d, s₁) ∧
      BootMapped boot (insert d dirs) d (initEnd / 4096) (envNewDir s₁ d) s' := by
  unfold envSetupVm at hvm
  cases halloc : pageAlloc s with
  | none =>
      rw [halloc] at hvm
      cases hvm
  | some x =>
      obtain ⟨pp, s₁⟩ := x
      rw [halloc, Option.some.injEq, Prod.mk.injEq] at hvm
      obtain ⟨rfl, rfl⟩ := hvm
      obtain ⟨hpp, hfree, -⟩ := pageAlloc_spec halloc
      refine ⟨fun hd => ?_, hpp, s₁, rfl, ?_⟩
      · exact (hs.unused hpp hfree).2.2 ⟨0, by omega, hd⟩
      have hd : pp ∈ insert pp dirs := Finset.mem_insert_self pp dirs
      have hkeep : ∀ p, visBit s p = true → visBit (envNewDir s₁ pp) p = true := by
        intro p hp
        have h₁ : visBit s₁ p = true := visBit_pageAlloc halloc hp
        exact h₁
      have hloop := foldl_range_invariant (n := initEnd / 4096) (f := envMapBoot pp)
        (P := fun n s => BootMapped boot (insert pp dirs) pp n (envNewDir s₁ pp) s ∧
          (n = 0 → s = envNewDir s₁ pp))
        (s := envNewDir s₁ pp) ⟨⟨hs.newDir halloc, fun _ h => h, fun j _ hj => ?_, fun h => ?_,
          fun _ _ => rfl, id⟩, fun _ => rfl⟩ fun n s hn h => ?_
      · exact hloop.1
      · rw [mapping_envNewDir hs.toPmapInv halloc hd (bootVa_L1 hj), if_pos rfl]
      · exact absurd h (Nat.lt_irrefl 0)
      · exact ⟨h.1.turn (hs.newDir halloc) hd (by omega) (hkeep n (hvis n hn)) h.2,
          fun h => absurd h (Nat.succ_ne_zero n)⟩

/-- The tables of the other address spaces stay, and no page is lost. -/
theorem BootMapped.others (hs : PmapSound boot dirs s) (halloc : pageAlloc s = some (d, s₁))
    (hd : d ∉ dirs) (h : BootMapped boot (insert d dirs) d n (envNewDir s₁ d) s') :
    (∀ t, IsTable s dirs t → s'.mem t = s.mem t) ∧ (NoLeak s → NoLeak s') := by
  have hdir : ∀ t, IsTable s dirs t → (envNewDir s₁ d).mem t = s.mem t := by
    intro t ht
    have htd : t ≠ d := ne_of_pageAlloc halloc (hs.visBit_table ht)
    funext k
    rw [envNewDir_mem halloc, if_neg htd]
  refine ⟨fun t ht => ?_, fun hl => h.noLeak ?_⟩
  · rw [h.kept t, hdir t ht]
    rw [Finset.erase_insert hd, isTable_of_tables hdir]
    exact ht
  · have hnew : AllocUnused (envNewDir s₁ d) ∧ NoLeak (envNewDir s₁ d) :=
      hl.alloc hs.alloc halloc rfl rfl
    exact hnew.2

end RpiMos
