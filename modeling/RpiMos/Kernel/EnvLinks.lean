/-
  RpiMos.Kernel.EnvLinks

  The upper entries of the page tables are links: `env_setup_vm` installs the
  self-map entry, `pgdir_walk` writes every other one, and no insertion or removal
  of a user page touches them.  This is what the processor's walk of
  Mm.Translate needs of a directory.
-/

import RpiMos.Kernel.EnvSetup
import RpiMos.Mm.Translate
import RpiMos.Mm.PageWindow

namespace RpiMos

open Lib RadixShape

variable {s s' s₁ : Pmap} {dirs : Finset Nat} {boot : Nat → Nat} {d t i n pp p : Nat}
  {va perm w : Word}

/-! ## The address of a page as a link -/

/-- The `pa` of every page, with `PTE_USER`, is a link. -/
def PaLinks (s : Pmap) : Prop := ∀ p < NPAGE, IsLink ((s.pages p).pa ||| PTE_USER)

theorem PaLinks.congr (h : PaLinks s) (hpa : ∀ p, (s'.pages p).pa = (s.pages p).pa) : PaLinks s' := by
  intro p hp
  rw [hpa]
  exact h p hp

/-- A frame address has only address bits. -/
theorem ofNat_shift_and {m : Word} (hi : i < NPAGE) (hm : PTE_ADDR m = 0) :
    BitVec.ofNat 64 (i <<< 12) &&& m = 0 := by
  have haddr : PTE_ADDR (BitVec.ofNat 64 (i <<< 12)) = BitVec.ofNat 64 (i <<< 12) := by
    have hmask : ∀ k : Fin 64, (0x3ffff000#64).getLsbD k = decide (12 ≤ k.val ∧ k.val < 30) := by
      decide
    rw [NPAGE] at hi
    ext k hk
    rw [PTE_ADDR, BitVec.getElem_and, ← BitVec.getLsbD_eq_getElem hk,
      ← BitVec.getLsbD_eq_getElem hk, hmask ⟨k, hk⟩, BitVec.getLsbD_ofNat, Nat.testBit_shiftLeft]
    by_cases hlow : 12 ≤ k
    · by_cases hhigh : k < 30
      · simp [hlow, hhigh]
      · have hzero : i.testBit (k - 12) = false := by
          apply Nat.testBit_lt_two_pow
          have hpow : 2 ^ 18 ≤ 2 ^ (k - 12) := Nat.pow_le_pow_right (by decide) (by omega)
          omega
        simp [hzero]
    · simp [hlow]
  rw [← haddr, PTE_ADDR, BitVec.and_assoc]
  have hcomm : 0x3ffff000#64 &&& m = PTE_ADDR m := BitVec.and_comm _ _
  rw [hcomm, hm]
  exact BitVec.and_zero

theorem bootAttr_link (i : Nat) (b : Bool) :
    (bootAttr i b ||| PTE_USER) &&& 0x3 = 0x3 ∧ (bootAttr i b ||| PTE_USER) &&& ACCESSED ≠ 0 ∧
    (bootAttr i b ||| PTE_USER) &&& PTE_USER ≠ 0 ∧
    (bootAttr i b ||| PTE_USER) &&& APTABLE_NO_EL0 = 0 ∧
    (bootAttr i b ||| PTE_USER).toNat / 2 ^ 30 % 2 ^ 18 = 0 := by
  unfold bootAttr
  split <;> cases b <;> decide

/-- `init_boot_pt` gives every page such an address. -/
theorem initBootPt_paLinks (initEnd imgEnd : Nat) (mem₀ : Nat → Nat → Word) :
    PaLinks (initBootPt initEnd imgEnd mem₀) := by
  intro p hp
  have hsplit : ((initBootPt initEnd imgEnd mem₀).pages p).pa ||| PTE_USER =
      BitVec.ofNat 64 (p <<< 12) |||
        (bootAttr p (decide (inBootCode initEnd p ∧ p > 0)) ||| PTE_USER) := by
    rw [initBootPt_pages, initPa, bootAttr]
    simp only [BitVec.or_assoc, decide_eq_true_eq]
  obtain ⟨hdesc, hacc, huser, hel0, haddr⟩ :=
    bootAttr_link p (decide (inBootCode initEnd p ∧ p > 0))
  generalize bootAttr p (decide (inBootCode initEnd p ∧ p > 0)) ||| PTE_USER = b at *
  rw [hsplit]
  have hand {m : Word} (hm : PTE_ADDR m = 0) : (BitVec.ofNat 64 (p <<< 12) ||| b) &&& m = b &&& m := by
    rw [BitVec.and_or_distrib_right, ofNat_shift_and hp hm]
    exact BitVec.zero_or
  refine ⟨?_, ?_, ?_, ?_, ?_⟩
  · exact decide_eq_true ((hand (by decide)).trans hdesc)
  · rw [hand (by decide)]
    exact hacc
  · rw [hand (by decide)]
    exact huser
  · rw [hand (by decide)]
    exact hel0
  · have hval := toNat_ofNat_shift hp
    rw [NPAGE] at hp
    rw [BitVec.toNat_or, Nat.or_div_two_pow, Nat.or_mod_two_pow, haddr, hval]
    have hzero : p * 4096 / 2 ^ 30 % 2 ^ 18 = 0 := by omega
    rw [hzero]
    rfl

/-! ## The upper entries of all directories -/

/-- Every valid entry of a level-1 or level-2 table is a link. -/
def LinksOk (s : Pmap) (dirs : Finset Nat) : Prop :=
  ∀ n < 2, ∀ t, (tableShape dirs).At (child s) n t → ∀ i < PTE2PT,
    isValid (s.mem t i) = true → IsLink (s.mem t i)

theorem LinksOk.linked (h : LinksOk s dirs) (hd : d ∈ dirs) : Linked s d where
  dir i hi hv := h 0 (by omega) d hd i hi hv
  table i hi t hc hne j hj hv :=
    h 1 (by omega) t ⟨d, i, hd, ⟨hi, fun _ => hne⟩, hc⟩ j hj hv

/-- Edits that keep the upper tables. -/
theorem LinksOk.of_upper (h : LinksOk s dirs)
    (hmem : ∀ m < 2, ∀ u, (tableShape dirs).At (child s) m u → s'.mem u = s.mem u) :
    LinksOk s' dirs := by
  intro m hm u hu k hk hv
  have hu₀ : (tableShape dirs).At (child s) m u := by
    refine (At.congr_iff fun l q j hl hq _ => ?_).mp hu
    exact child_congr (by rw [hmem l (by omega) q hq])
  rw [hmem m hm u hu₀] at hv ⊢
  exact h m hm u hu₀ k hk hv

/-- A write to a leaf table. -/
theorem LinksOk.setLeaf (h : LinksOk s dirs) (ht : TablesOk s dirs)
    (hat : (tableShape dirs).At (child s) 2 t) (hmem : s'.mem = (s.setPte t i w).mem) :
    LinksOk s' dirs := by
  apply h.of_upper
  intro m hm u hu
  have hne : u ≠ t := by
    rintro rfl
    have := ht.forest.level_unique (by omega) (by omega) hu hat
    omega
  funext k
  rw [hmem, Pmap.setPte_mem_of_ne fun hk => hne hk.1]

section Edits

variable (hI : PmapInv boot dirs s) (hl : LinksOk s dirs) (hp : PaLinks s) (huser : va < KERNBASE)

include hI hl hp huser

/-- One level of a walk that makes tables: the new table is empty, and its slot
    holds a link. -/
theorem LinksOk.walkStep (hn : n < 2) (hat : (tableShape dirs).At (child s) n t)
    (hslot : (tableShape dirs).slotOk n i) : LinksOk (pgdirWalkStep s t i va true).2 dirs := by
  cases hc : child s t i with
  | some v =>
      rw [pgdirWalkStep_of_child hc]
      exact hl
  | none =>
      have hinvalid := child_eq_none.mp hc
      cases halloc : pageAlloc s with
      | none =>
          have hstep : pgdirWalkStep s t i va true = (.fail, s) := by
            simp [pgdirWalkStep, hinvalid, halloc]
          rw [hstep]
          exact hl
      | some x =>
          obtain ⟨pp, s₁⟩ := x
          obtain ⟨hpp, hfree, -, -, hpages, hmem⟩ := pageAlloc_spec halloc
          obtain ⟨hw, hwpp⟩ := tableEntry_ok hI halloc (PTE_ADDR_user va)
          have hlink : IsLink ((s₁.pages pp).pa ||| (if va < KERNBASE then PTE_USER else 0)) := by
            rw [if_pos huser, hpages]
            exact hp pp hpp
          generalize hg : (s₁.pages pp).pa ||| (if va < KERNBASE then PTE_USER else 0) = w at *
          have hstep : (pgdirWalkStep s t i va true).2 = (s₁.setPte t i w).incRef pp := by
            simp only [pgdirWalkStep, hinvalid, halloc, Bool.false_eq_true, if_false, if_true]
            rw [hg]
          have g := graft_of_alloc hI hn hat hslot hc halloc hw hwpp
          rw [hstep]
          intro m hm u hu k hk hv
          obtain ⟨v, hv'⟩ : ∃ v, child ((s₁.setPte t i w).incRef pp) u k = some v :=
            ⟨_, child_eq_some.mpr ⟨hv, rfl⟩⟩
          rcases g.child_cases hI.tables.forest hm hu hv' with ⟨-, rfl, rfl, -⟩ | ⟨hu₀, hc₀⟩
          · rw [Pmap.incRef_mem, Pmap.setPte_mem_self]
            exact hlink
          · have hne : ¬ (u = t ∧ k = i) := by
              rintro ⟨rfl, rfl⟩
              rw [hc] at hc₀
              cases hc₀
            have hupp : u ≠ pp := by
              rintro rfl
              exact g.fresh ⟨m, by omega, hu₀⟩
            have hsame : ((s₁.setPte t i w).incRef pp).mem u k = s.mem u k := by
              rw [Pmap.incRef_mem, Pmap.setPte_mem_of_ne hne, hmem]
              exact if_neg hupp
            rw [hsame] at hv ⊢
            exact hl m hm u hu₀ k hk hv

theorem LinksOk.walk (hd : d ∈ dirs) (hva : GET_L1_INDEX va ≠ uvptIndex) :
    LinksOk (pgdirWalk s d va true).2 dirs := by
  have hat0 : (tableShape dirs).At (child s) 0 d := hd
  have h₁ := LinksOk.walkStep hI hl hp huser (by omega) hat0 (slotOk_l1 dirs hva)
  rcases pgdirWalkStep_true va hI (by omega) hat0 (slotOk_l1 dirs hva) with
    ⟨u, s₁, hstep, hI₁, hg, hc⟩ | ⟨hstep, -⟩
  · rw [hstep] at h₁
    have hat1 : (tableShape dirs).At (child s₁) 1 u :=
      ⟨d, _, (hd : (tableShape dirs).At (child s₁) 0 d), slotOk_l1 dirs hva, hc⟩
    have h₂ := LinksOk.walkStep hI₁ h₁ (hp.congr hg.pa) huser (by omega) hat1 (slotOk_l2 dirs va)
    rw [pgdirWalk, hstep]
    simp only
    cases hstep₂ : pgdirWalkStep s₁ u (GET_L2_INDEX va) va true with
    | mk r s₂ =>
        rw [hstep₂] at h₂
        cases r <;> exact h₂
  · rw [hstep] at h₁
    rw [pgdirWalk, hstep]
    exact h₁

theorem LinksOk.pageInsert (hd : d ∈ dirs) (hva : GET_L1_INDEX va ≠ uvptIndex) :
    LinksOk (RpiMos.pageInsert s d pp va perm).2 dirs := by
  cases hm : mapping s d va with
  | some e =>
      obtain ⟨t, i, hx, hv, rfl⟩ := mapping_eq_some.mp hm
      obtain ⟨s', hins, hmem, -⟩ :=
        pageInsert_of_mapped pp perm (leafSlot_keep hI.tables hd hva hx) hx hv
      rw [hins]
      exact hl.setLeaf hI.tables (leafSlot_at hd hva hx).1 hmem
  | none =>
      have hwalk := LinksOk.walk hI hl hp huser hd hva
      obtain ⟨r, s₁, heq, hI₁, -, hends⟩ := pgdirWalk_true hI hd hva
      rw [heq] at hwalk
      rw [pageInsert_of_none hm, pageInsertNew, heq]
      rcases hends with ⟨⟨t, i⟩, rfl, hx⟩ | ⟨rfl, -⟩
      · exact hwalk.setLeaf hI₁.tables (leafSlot_at hd hva hx).1 rfl
      · exact hwalk

end Edits

theorem LinksOk.pageRemove (hI : PmapInv boot dirs s) (hl : LinksOk s dirs) (hd : d ∈ dirs)
    (hva : GET_L1_INDEX va ≠ uvptIndex) : LinksOk (RpiMos.pageRemove s d va) dirs := by
  cases hm : mapping s d va with
  | none =>
      rw [pageRemove_of_none hm]
      exact hl
  | some e =>
      obtain ⟨t, i, hx, hv, rfl⟩ := mapping_eq_some.mp hm
      exact hl.setLeaf hI.tables (leafSlot_at hd hva hx).1 (pageRemove_mem hx hv)

/-- A new directory has one entry, the link to itself. -/
theorem LinksOk.newDir (hI : PmapInv boot dirs s) (hl : LinksOk s dirs) (hp : PaLinks s)
    (halloc : pageAlloc s = some (pp, s₁)) : LinksOk (envNewDir s₁ pp) (insert pp dirs) := by
  obtain ⟨hpp, hfree, -⟩ := pageAlloc_spec halloc
  have hself : IsLink ((s.pages pp).pa ||| PTE_RW ||| PTE_USER) := by
    have hrw : (s.pages pp).pa ||| PTE_RW = (s.pages pp).pa := BitVec.or_zero
    rw [hrw]
    exact hp pp hpp
  have hnot := (hI.unused hpp hfree).2.2
  have hold : ∀ m ≤ 2, ∀ u, (tableShape (insert pp dirs)).At (child (envNewDir s₁ pp)) m u →
      u = pp ∧ m = 0 ∨ (tableShape dirs).At (child s) m u := by
    intro m hm
    induction m with
    | zero =>
        intro u hu
        have hmem : u ∈ insert pp dirs := hu
        rcases Finset.mem_insert.mp hmem with rfl | hd
        · exact Or.inl ⟨rfl, rfl⟩
        · exact Or.inr hd
    | succ m ih =>
        rintro u ⟨q, j, hq, hj, hc⟩
        right
        rcases ih (by omega) q hq with ⟨rfl, rfl⟩ | hq₀
        · -- Below the new directory there is nothing outside its window.
          have hempty : child (envNewDir s₁ q) q j = none := by
            apply child_eq_none.mpr
            rw [envNewDir_mem halloc, if_pos rfl, if_neg (hj.2 rfl)]
            exact isValid_zero
          rw [hempty] at hc
          cases hc
        · have hqpp : q ≠ pp := by
            rintro rfl
            exact hnot ⟨m, by omega, hq₀⟩
          refine ⟨q, j, hq₀, hj, ?_⟩
          rw [← hc]
          refine (child_congr ?_).symm
          rw [envNewDir_mem halloc, if_neg hqpp]
  intro m hm u hu k hk hv
  rcases hold m (by omega) u hu with ⟨rfl, -⟩ | hu₀
  · rw [envNewDir_mem halloc, if_pos rfl] at hv ⊢
    split at hv
    · rw [if_pos ‹_›]
      exact hself
    · exact absurd hv (by simp)
  · have hne : u ≠ pp := by
      rintro rfl
      exact hnot ⟨m, by omega, hu₀⟩
    rw [envNewDir_mem halloc, if_neg hne] at hv ⊢
    exact hl m hm u hu₀ k hk hv

/-- `env_setup_vm` makes a directory whose self-map entry leads back to it, and
    whose upper entries are links. -/
theorem envSetupVm_linked {initEnd : Nat} (hs : PmapSound boot dirs s) (hl : LinksOk s dirs)
    (hp : PaLinks s) (hend : initEnd / 4096 ≤ NPAGE)
    (hvis : ∀ p < initEnd / 4096, visBit s p = true) (hvm : envSetupVm initEnd s = some (d, s')) :
    child s' d uvptIndex = some d ∧ Linked s' d := by
  obtain ⟨-, -, s₁, -, hdone⟩ := envSetupVm_spec hs hend hvis hvm
  have hd : d ∈ insert d dirs := Finset.mem_insert_self d dirs
  refine ⟨hdone.sound.tables.dir_self d hd, ?_⟩
  unfold envSetupVm at hvm
  cases halloc : pageAlloc s with
  | none =>
      rw [halloc] at hvm
      cases hvm
  | some x =>
      obtain ⟨pp, s₁⟩ := x
      rw [halloc, Option.some.injEq, Prod.mk.injEq] at hvm
      obtain ⟨rfl, rfl⟩ := hvm
      obtain ⟨-, -, -, -, hpages, -⟩ := pageAlloc_spec halloc
      have hkeep : ∀ p, visBit s p = true → visBit (envNewDir s₁ pp) p = true := by
        intro p hv
        have h₁ : visBit s₁ p = true := visBit_pageAlloc halloc hv
        exact h₁
      have hnew := hs.newDir halloc
      -- Each turn inserts one page of the boot code.
      have hloop := foldl_range_invariant (n := initEnd / 4096) (f := envMapBoot pp)
        (P := fun n s => (PmapSound boot (insert pp dirs) s ∧
          (∀ p, visBit (envNewDir s₁ pp) p = true → visBit s p = true) ∧
          ∀ j, n ≤ j → j < NPAGE → mapping s pp (BitVec.ofNat 64 (j <<< 12)) = none) ∧
          LinksOk s (insert pp dirs) ∧ PaLinks s)
        (s := envNewDir s₁ pp) ⟨⟨hnew, fun _ h => h, fun j _ hj => ?_⟩,
          hl.newDir hs.toPmapInv hp halloc, hp.congr fun p => ?_⟩ fun n s₂ hn h => ?_
      · exact hloop.2.1.linked hd
      · rw [mapping_envNewDir hs.toPmapInv halloc hd (bootVa_L1 hj), if_pos rfl]
      · rw [envNewDir_pages, incRef_pa, hpages]
      · obtain ⟨⟨hs₂, hused, hrest⟩, hl₂, hp₂⟩ := h
        have hnp : n < NPAGE := by omega
        have hva := bootVa_L1 hnp
        have huser : BitVec.ofNat 64 (n <<< 12) < KERNBASE := by
          apply lt_KERNBASE
          have hval := toNat_ofNat_shift hnp
          rw [NPAGE] at hnp
          omega
        have hperm : (PTE_RW ||| PTE_USER ||| PTE_LIBRARY) &&& pageNumberBits = 0 := by decide
        have hvisn := hused n (hkeep n (hvis n hn))
        obtain ⟨hsound, hed, -⟩ := hs₂.pageInsert hd hva hnp hvisn hperm
        refine ⟨⟨hsound, fun p hv => ?_, fun j hj hjn => ?_⟩,
          hl₂.pageInsert hs₂.toPmapInv hp₂ huser hd hva, hp₂.congr fun p => ?_⟩
        · refine hs₂.visBit_pageInsert hd hva (hused p hv) fun hlast => ?_
          obtain ⟨⟨e, he, -⟩, -⟩ := hlast
          rw [hrest n (Nat.le_refl n) hnp] at he
          cases he
        · rw [envMapBoot, hed.other hd (bootVa_L1 hjn)]
          · exact hrest j (by omega) hjn
          · rintro ⟨-, hidx⟩
            rw [pageIdx_bootVa hjn, pageIdx_bootVa hnp] at hidx
            simp only [Prod.mk.injEq, true_and] at hidx
            omega
        · have hPTE : PTE_ADDR (PTE_RW ||| PTE_USER ||| PTE_LIBRARY) = 0 := (perm_tame hperm).1
          rw [envMapBoot]
          rcases pageInsert_spec hs₂.toPmapInv hd hva hnp hPTE (hs₂.clear pp hd _ · hva) with
            ⟨s₃, hins, -, hleaf, -⟩ | ⟨s₃, hins, -, hg⟩
          · rw [hins]
            exact hleaf.pa p
          · rw [hins]
            exact hg.pa p

end RpiMos
