/-
  RpiMos.Kernel.AllocFail

  What a `sys_mem_alloc` that fails leaves behind.  The page is taken before
  `page_insert` walks to its slot, and a walk that cannot make a table returns -1
  over it: nothing gives the page back.  A failed call therefore leaks nothing
  exactly when it fails before it takes a page.
-/

import RpiMos.Kernel.IpcReport
import RpiMos.Mm.PageFrame
import RpiMos.Mm.PageSet

namespace RpiMos

open Lib

variable {k k' : Kernel} {s s' s₁ : Pmap} {dirs : Finset Nat} {boot : Nat → Nat} {d p pp q t i : Nat}
  {envid : U32} {va perm : Word} {create : Bool}

/-! ## A page in use under a walk and an insertion -/

/-- Page `p` is in use in both states, with the same `ref`. -/
def StaysHeld (p : Nat) (s s' : Pmap) : Prop :=
  visBit s' p = true ∧ (s'.pages p).ref = (s.pages p).ref

theorem StaysHeld.trans (h : StaysHeld p s s₁) (h' : StaysHeld p s₁ s') : StaysHeld p s s' :=
  ⟨h'.1, h'.2.trans h.2⟩

/-- A walk counts only pages that were free. -/
theorem pgdirWalkStep_held (t i : Nat) (va : Word) (create : Bool) (h : visBit s p = true) :
    StaysHeld p s (pgdirWalkStep s t i va create).2 := by
  unfold pgdirWalkStep
  split
  · exact ⟨h, rfl⟩
  · split
    · cases halloc : pageAlloc s with
      | none => exact ⟨h, rfl⟩
      | some x =>
          obtain ⟨pp, s₁⟩ := x
          obtain ⟨-, -, -, -, hpages, -⟩ := pageAlloc_spec halloc
          have hne : p ≠ pp := ne_of_pageAlloc halloc h
          have hvis : visBit s₁ p = true := visBit_pageAlloc halloc h
          refine ⟨hvis, ?_⟩
          simp only [incRef_ref, if_neg hne, Pmap.setPte_pages, hpages]
    · exact ⟨h, rfl⟩

theorem pgdirWalk_held (d : Nat) (va : Word) (create : Bool) (h : visBit s p = true) :
    StaysHeld p s (pgdirWalk s d va create).2 := by
  unfold pgdirWalk
  have h₁ := pgdirWalkStep_held d (GET_L1_INDEX va) va create h
  cases hstep : pgdirWalkStep s d (GET_L1_INDEX va) va create with
  | mk r s₁ =>
      rw [hstep] at h₁
      cases r with
      | fail => exact h₁
      | null => exact h₁
      | «at» t₂ =>
          have h₂ := pgdirWalkStep_held t₂ (GET_L2_INDEX va) va create h₁.1
          simp only
          cases hstep₂ : pgdirWalkStep s₁ t₂ (GET_L2_INDEX va) va create with
          | mk r₂ s₂ =>
              rw [hstep₂] at h₂
              cases r₂ <;> exact h₁.trans h₂

/-- Unmapping another page. -/
theorem pageRemove_held (h : visBit s p = true)
    (hother : ∀ q t i, pageLookup s d va = some (q, t, i) → q ≠ p) :
    StaysHeld p s (pageRemove s d va) := by
  unfold pageRemove
  cases hl : pageLookup s d va with
  | none => exact ⟨h, rfl⟩
  | some x =>
      obtain ⟨q, t, i⟩ := x
      have hne : p ≠ q := (hother q t i hl).symm
      refine ⟨?_, ?_⟩
      · have hdec : visBit (s.decRef q) p = true := h
        have hfree : visBit (pageFree (s.decRef q) q) p = true := by
          rw [visBit_pageFree_eq, hdec]
          simp [hne]
        exact hfree
      · rw [Pmap.setPte_pages, pageFree_pages, decRef_ref, if_neg hne]

theorem pageInsertNew_held (h : visBit s p = true)
    (hfail : (pageInsertNew s d pp va perm).1 = false) :
    StaysHeld p s (pageInsertNew s d pp va perm).2 := by
  have hwalk := pgdirWalk_held d va true h
  unfold pageInsertNew at hfail ⊢
  cases hw : pgdirWalk s d va true with
  | mk r s₁ =>
      rw [hw] at hwalk hfail
      cases r with
      | fail => exact hwalk
      | null => exact hwalk
      | «at» x => cases hfail

/-- The page that a failed `page_insert` was given is in use still, and counted
    no further. -/
theorem pageInsert_held (h : visBit s pp = true) (hfail : (pageInsert s d pp va perm).1 = false) :
    StaysHeld pp s (pageInsert s d pp va perm).2 := by
  cases hm : mapping s d va with
  | none =>
      rw [pageInsert_of_none hm] at hfail ⊢
      exact pageInsertNew_held h hfail
  | some e =>
      obtain ⟨t, i, hx, hv, rfl⟩ := mapping_eq_some.mp hm
      by_cases hpage : pa2page (s.mem t i) = pp
      · rw [pageInsert_of_same hx hv hpage] at hfail
        cases hfail
      · rw [pageInsert_of_other hx hv hpage] at hfail ⊢
        have hremove : StaysHeld pp s (pageRemove s d va) := by
          apply pageRemove_held h
          intro q t' i' hl
          rw [pageLookup_eq, hx, Option.bind_some, if_pos hv] at hl
          cases hl
          exact hpage
        exact hremove.trans (pageInsertNew_held hremove.1 hfail)

/-! ## When `page_insert` fails -/

/-- Outside the page of the self-map entry `page_insert` fails for want of pages
    for the missing tables. -/
theorem pageInsert_returns (hI : PmapInv boot dirs s) (hd : d ∈ dirs) (hself : ¬ IsSelfPage va)
    (pp : Nat) (perm : Word) :
    (pageInsert s d pp va perm).1 = true ↔ FreePages (missingTables s d va) s := by
  cases hm : mapping s d va with
  | some e =>
      obtain ⟨t, i, hx, hv, rfl⟩ := mapping_eq_some.mp hm
      obtain ⟨s', hins, -⟩ :=
        pageInsert_of_mapped pp perm (leafSlot_keep_window hI.tables hd hself hx) hx hv
      rw [hins, missingTables_zero hx]
      exact iff_of_true rfl trivial
  | none =>
      rw [pageInsert_of_none hm, pageInsertNew]
      obtain ⟨-, -, ⟨x, hr, hroom, -⟩ | ⟨hr, hroom, -⟩⟩ := pgdirWalk_exact hI hd va
      · have hwalk : pgdirWalk s d va true = (.at x, (pgdirWalk s d va true).2) := Prod.ext hr rfl
        rw [hwalk]
        exact iff_of_true rfl hroom
      · have hwalk : pgdirWalk s d va true = (.fail, (pgdirWalk s d va true).2) := Prod.ext hr rfl
        rw [hwalk]
        exact iff_of_false (by rintro ⟨⟩) hroom

/-- `page_insert` over the self-map entry of `d` can build its way back: it takes
    the directory out of its own slot first, and the walk then needs a table for
    level 1, and one for level 2 unless the first is the directory itself. -/
def SelfSlotFits (s : Pmap) (d : Nat) : Prop :=
  ∃ p s', pageAlloc (pageFree (s.decRef (pa2page (s.mem d uvptIndex)))
      (pa2page (s.mem d uvptIndex))) = some (p, s') ∧ (p = d ∨ FreePages 1 s')

/-- The level-1 slot that was emptied, walked again. -/
theorem pgdirWalk_emptied (hpa : PaOk s) (hidx : IsSelfPage va)
    (hempty : s.mem d uvptIndex = 0) :
    (∃ x, (pgdirWalk s d va true).1 = .at x) ↔
      ∃ p s', pageAlloc s = some (p, s') ∧ (p = d ∨ FreePages 1 s') := by
  obtain ⟨h₁, h₂, -⟩ : GET_L1_INDEX va = uvptIndex ∧ GET_L2_INDEX va = uvptIndex ∧
      GET_L3_INDEX va = uvptIndex := by simpa [IsSelfPage, pageIdx] using hidx
  have hinvalid : isValid (s.mem d (GET_L1_INDEX va)) = false := by
    rw [h₁, hempty]
    exact isValid_zero
  cases halloc : pageAlloc s with
  | none =>
      have hstep : pgdirWalkStep s d (GET_L1_INDEX va) va true = (.fail, s) := by
        simp [pgdirWalkStep, hinvalid, halloc]
      simp [pgdirWalk, hstep]
  | some x =>
      obtain ⟨p, s₁⟩ := x
      obtain ⟨hp, -, -, -, hpages, hmem⟩ := pageAlloc_spec halloc
      have hattr := hpa p hp
      generalize hw : (s₁.pages p).pa ||| (if va < KERNBASE then PTE_USER else 0) = w
      have hvalid : isValid w = true := by
        rw [← hw, isValid_or, hpages, hattr.valid, Bool.true_or]
      have hframe : pteFrame w = p := by
        rw [← hw, pteFrame_or_of_clear (PTE_ADDR_user va), hpages]
        exact hattr.frame
      have hstep : pgdirWalkStep s d (GET_L1_INDEX va) va true =
          (.at p, (s₁.setPte d uvptIndex w).incRef p) := by
        rw [h₁] at hinvalid ⊢
        simp only [pgdirWalkStep, hinvalid, halloc, Bool.false_eq_true, if_false, if_true]
        rw [hw, hframe]
      simp only [pgdirWalk, hstep, h₂, Option.some.injEq, Prod.mk.injEq]
      by_cases hpd : p = d
      · -- The directory is its own table again.
        subst hpd
        have hstep₂ : pgdirWalkStep ((s₁.setPte p uvptIndex w).incRef p) p uvptIndex va true =
            (.at p, (s₁.setPte p uvptIndex w).incRef p) := by
          simp [pgdirWalkStep, hvalid, hframe]
        rw [hstep₂]
        exact iff_of_true ⟨_, rfl⟩ ⟨p, s₁, ⟨rfl, rfl⟩, Or.inl rfl⟩
      · have hzero : ((s₁.setPte d uvptIndex w).incRef p).mem p uvptIndex = 0 := by
          rw [Pmap.incRef_mem, Pmap.setPte_mem_of_ne (fun h => hpd h.1), hmem]
          simp
        have hvis : ((s₁.setPte d uvptIndex w).incRef p).vis = s₁.vis := rfl
        cases halloc₂ : pageAlloc ((s₁.setPte d uvptIndex w).incRef p) with
        | none =>
            have hstep₂ : pgdirWalkStep ((s₁.setPte d uvptIndex w).incRef p) p uvptIndex va true =
                (.fail, (s₁.setPte d uvptIndex w).incRef p) := by
              simp [pgdirWalkStep, hzero, halloc₂]
            rw [hstep₂]
            refine iff_of_false (by rintro ⟨x, ⟨⟩⟩) ?_
            rintro ⟨p', s', ⟨rfl, rfl⟩, h | h⟩
            · exact hpd h
            · obtain ⟨y, hy⟩ := freePages_one.mp (h.of_vis hvis)
              rw [halloc₂] at hy
              cases hy
        | some y =>
            have hfree : FreePages 1 s₁ :=
              (freePages_one.mpr ⟨y, halloc₂⟩).of_vis hvis.symm
            have hstep₂ : ∃ u s₂, pgdirWalkStep ((s₁.setPte d uvptIndex w).incRef p) p uvptIndex
                va true = (.at u, s₂) := by
              simp [pgdirWalkStep, hzero, halloc₂]
            obtain ⟨u, s₂, hstep₂⟩ := hstep₂
            rw [hstep₂]
            exact iff_of_true ⟨_, rfl⟩ ⟨p, s₁, ⟨rfl, rfl⟩, Or.inr hfree⟩

/-- Over the self-map entry of its directory `page_insert` fails for want of the
    pages that lead back to the slot. -/
theorem pageInsert_self_returns (hI : PmapInv boot dirs s) (hd : d ∈ dirs) (hself : IsSelfPage va)
    (hpp : pp < NPAGE) (hne : pp ≠ d) (perm : Word) :
    (pageInsert s d pp va perm).1 = true ↔ SelfSlotFits s d := by
  obtain ⟨h₁, h₂, h₃⟩ : GET_L1_INDEX va = uvptIndex ∧ GET_L2_INDEX va = uvptIndex ∧
      GET_L3_INDEX va = uvptIndex := by simpa [IsSelfPage, pageIdx] using hself
  have hc := hI.tables.dir_self d hd
  obtain ⟨hv, hframe⟩ := child_eq_some.mp hc
  have hx : leafSlot s d va = some (d, uvptIndex) := by
    simp [leafSlot, radixWalk, h₁, h₂, h₃, hc]
  -- The slot names the directory, or no page of the array at all.
  have hpage : pa2page (s.mem d uvptIndex) ≠ pp := by
    rw [pa2page_eq_pteFrame_add, hframe]
    rw [NPAGE] at hpp
    omega
  rw [pageInsert_of_other hx hv hpage, pageRemove_of_leafSlot hx hv, pageInsertNew]
  generalize hs₂ : (pageFree (s.decRef (pa2page (s.mem d uvptIndex)))
    (pa2page (s.mem d uvptIndex))) = s₂
  have hpa : PaOk (s₂.setPte d uvptIndex 0) := by
    intro p hp
    rw [Pmap.setPte_pages, ← hs₂, pageFree_pages, decRef_pa]
    exact hI.pa p hp
  have hwalk := pgdirWalk_emptied hpa hself (Pmap.setPte_mem_self s₂ d uvptIndex 0)
  have hfits : (∃ p s', pageAlloc (s₂.setPte d uvptIndex 0) = some (p, s') ∧
      (p = d ∨ FreePages 1 s')) ↔ SelfSlotFits s d := by
    have hvis₂ : (s₂.setPte d uvptIndex 0).vis = s₂.vis := rfl
    rw [SelfSlotFits, hs₂]
    constructor
    · rintro ⟨p, s', halloc, h⟩
      obtain ⟨s'', halloc', hvis⟩ := pageAlloc_of_vis hvis₂.symm halloc
      exact ⟨p, s'', halloc', h.imp_right fun hf => hf.of_vis hvis⟩
    · rintro ⟨p, s', halloc, h⟩
      obtain ⟨s'', halloc', hvis⟩ := pageAlloc_of_vis hvis₂ halloc
      exact ⟨p, s'', halloc', h.imp_right fun hf => hf.of_vis hvis⟩
  rw [← hfits, ← hwalk]
  cases hw : pgdirWalk (s₂.setPte d uvptIndex 0) d va true with
  | mk r s₃ =>
      cases r with
      | fail => simp
      | null => simp
      | «at» x => simp

/-! ## The call -/

/-- Taking a free page leaves the tables that are there. -/
theorem missingTables_pageAlloc (hI : PmapInv boot dirs s) (hd : d ∈ dirs)
    (halloc : pageAlloc s = some (pp, s₁)) (va : Word) :
    missingTables s₁ d va = missingTables s d va := by
  obtain ⟨hpp, hfree, -, -, -, hmem⟩ := pageAlloc_spec halloc
  have hnot := (hI.unused hpp hfree).2.2
  have hkeep : ∀ u, IsTable s dirs u → ∀ j, child s₁ u j = child s u j := by
    intro u hu j
    apply child_congr
    have hne : u ≠ pp := by
      rintro rfl
      exact hnot hu
    rw [hmem]
    simp [hne]
  have hat : (tableShape dirs).At (child s) 0 d := hd
  have hdir : IsTable s dirs d := isTable_of_at (by omega) hat
  unfold missingTables
  rw [hkeep d hdir]
  cases hc : child s d (GET_L1_INDEX va) with
  | none => rfl
  | some v =>
      have hv : IsTable s dirs v := by
        by_cases hself : GET_L1_INDEX va = uvptIndex
        · have hvd : some v = some d := by
            rw [← hc, hself]
            exact hI.tables.dir_self d hd
          cases hvd
          exact hdir
        · have hat₁ : (tableShape dirs).At (child s) 1 v := ⟨d, _, hat, slotOk_l1 dirs hself, hc⟩
          exact isTable_of_at (by omega) hat₁
      simp only [hkeep v hv]

/-- Once its page is taken, `page_insert` has the pages for the tables it needs. -/
structure AllocFits (s : Pmap) (d : Nat) (va : Word) : Prop where
  tables : ¬ IsSelfPage va → FreePages (1 + missingTables s d va) s
  self : IsSelfPage va → ∀ pp s₁, pageAlloc s = some (pp, s₁) → SelfSlotFits s₁ d

/-- What a failed call must leave: pages in use are in use, mappings are as they
    were, and a page newly in use is a table of the target that one entry names. -/
structure AllocFailKeeps (k k' : Kernel) (envid : U32) : Prop where
  used : ∀ p < NPAGE, visBit k.pm p = true → visBit k'.pm p = true
  maps : ∀ e, (k.envs e).status ≠ .ENV_FREE → ∀ va, GET_L1_INDEX va ≠ uvptIndex →
    mapping k'.pm (k'.pgdir e) va = mapping k.pm (k.pgdir e) va
  fresh : ∀ p < NPAGE, visBit k.pm p = false → visBit k'.pm p = true →
    ∃ e, envid2env k envid true = some e ∧ IsTable k'.pm {k.pgdir e} p ∧ (k'.pm.pages p).ref = 1

/-- A call that takes a page returns 0 exactly when its tables fit. -/
theorem pageInsert_fits (hI : PmapInv boot dirs s) (hd : d ∈ dirs)
    (halloc : pageAlloc s = some (pp, s₁)) (va perm : Word) :
    (pageInsert s₁ d pp va perm).1 = true ↔ AllocFits s d va := by
  obtain ⟨hI₁, -, hnot⟩ := pageAlloc_inv hI halloc
  obtain ⟨hpp, -⟩ := pageAlloc_spec halloc
  have hne : pp ≠ d := by
    rintro rfl
    exact hnot ⟨0, by omega, hd⟩
  by_cases hself : IsSelfPage va
  · rw [pageInsert_self_returns hI₁ hd hself hpp hne]
    constructor
    · intro h
      refine ⟨fun hn => absurd hself hn, ?_⟩
      rintro - q s₂ halloc'
      rw [halloc] at halloc'
      cases halloc'
      exact h
    · intro h
      exact h.self hself pp s₁ halloc
  · rw [pageInsert_returns hI₁ hd hself, missingTables_pageAlloc hI hd halloc]
    constructor
    · intro h
      refine ⟨fun _ => ?_, fun hs => absurd hs hself⟩
      rw [Nat.add_comm]
      exact ⟨pp, s₁, halloc, h⟩
    · intro h
      have hroom := h.tables hself
      rw [Nat.add_comm] at hroom
      obtain ⟨_, _, halloc', hrest⟩ := hroom
      rw [halloc] at halloc'
      cases halloc'
      exact hrest

/-- A call that fails in `page_insert` has lost the page it took: it is in use,
    and no entry names it. -/
theorem failed_insert_leaks {e : EnvPtr} (envid : U32) (hI : PmapInv boot dirs k.pm)
    (halloc : pageAlloc k.pm = some (pp, s₁))
    (hins : (pageInsert s₁ (k.pgdir e) pp va perm).1 = false) :
    ((k.setPm (pageInsert s₁ (k.pgdir e) pp va perm).2).setReg0
      (if (pageInsert s₁ (k.pgdir e) pp va perm).1 then 0 else ERR)).ReturnsError ∧
    ¬ AllocFailKeeps k ((k.setPm (pageInsert s₁ (k.pgdir e) pp va perm).2).setReg0
      (if (pageInsert s₁ (k.pgdir e) pp va perm).1 then 0 else ERR)) envid := by
  obtain ⟨hpp, hfree, hused, -, hpages, -⟩ := pageAlloc_spec halloc
  have hheld := pageInsert_held hused hins
  have herr : ERR.msb = true := by decide
  rw [hins]
  refine ⟨herr, fun h => ?_⟩
  obtain ⟨-, -, -, hone⟩ := h.fresh pp hpp hfree hheld.1
  have hzero : ((pageInsert s₁ (k.pgdir e) pp va perm).2.pages pp).ref = 0 := by
    rw [hheld.2, hpages]
    exact hI.alloc pp hpp hfree
  rw [Kernel.setReg0_pm, Kernel.setPm_pm, hzero] at hone
  exact absurd hone (by decide)

/-- A failed `sys_mem_alloc` leaks nothing exactly when memory is full from the
    start or has room for the page and its tables. -/
theorem failed_alloc_keeps_iff (hI : PmapInv boot dirs k.pm)
    (hdir : ∀ e, envid2env k envid true = some e → k.pgdir e ∈ dirs) :
    ((sysMemAlloc k envid va perm).ReturnsError →
      AllocFailKeeps k (sysMemAlloc k envid va perm) envid) ↔
    ∀ e, va < KERNBASE → envid2env k envid true = some e → FreePages 1 k.pm →
      AllocFits k.pm (k.pgdir e) va := by
  have hrefused : AllocFailKeeps k (k.setReg0 ERR) envid := by
    refine ⟨fun _ _ h => h, fun _ _ _ _ => rfl, fun p _ h h' => ?_⟩
    rw [Kernel.setReg0_pm, h] at h'
    cases h'
  unfold sysMemAlloc
  by_cases hva : va ≥ KERNBASE
  · rw [if_pos hva]
    refine iff_of_true (fun _ => hrefused) fun e hlt => ?_
    exact absurd hlt (BitVec.not_lt.mpr hva)
  · rw [if_neg hva]
    have hlt : va < KERNBASE := BitVec.not_le.mp hva
    cases henv : envid2env k envid true with
    | none =>
        refine iff_of_true (fun _ => hrefused) ?_
        rintro e - ⟨⟩
    | some e =>
        have hd := hdir e henv
        cases halloc : pageAlloc k.pm with
        | none =>
            refine iff_of_true (fun _ => hrefused) fun _ _ _ hfree => ?_
            obtain ⟨x, hx⟩ := freePages_one.mp hfree
            rw [halloc] at hx
            cases hx
        | some x =>
            obtain ⟨pp, s₁⟩ := x
            have hfits := pageInsert_fits hI hd halloc va perm
            simp only
            cases hins : (pageInsert s₁ (k.pgdir e) pp va perm).1 with
            | true =>
                refine iff_of_true (fun h => ?_) ?_
                · simp [Kernel.ReturnsError] at h
                · rintro e' - ⟨⟩ -
                  exact hfits.mp hins
            | false =>
                refine iff_of_false (fun h => ?_) fun h => ?_
                · obtain ⟨herr, hleak⟩ := failed_insert_leaks envid hI halloc hins
                  rw [hins] at herr hleak
                  exact hleak (h herr)
                · have hroom := h e hlt rfl (freePages_one.mpr ⟨_, halloc⟩)
                  rw [hfits.mpr hroom] at hins
                  cases hins

/-! ## A board with one page left -/

/-- Memory with other allocation bits. -/
def withVis (s : Pmap) (v : Nat → Word) : Pmap := { s with vis := v }

theorem PmapInv.withVis (hI : PmapInv boot dirs s) {v : Nat → Word}
    (hv : AllocUnused (withVis s v)) : PmapInv boot dirs (withVis s v) := by
  have hmem : (RpiMos.withVis s v).mem = s.mem := rfl
  have hpages : (RpiMos.withVis s v).pages = s.pages := rfl
  exact ⟨hI.toPmapWf.of_tables (fun _ _ => by rw [hmem]) hpages, hv⟩

/-- Only page 59969 can be allocated. -/
def onePageLeft (i : Nat) : Word := if i = 937 then ~~~2#64 else BitVec.allOnes 64

theorem visBit_onePageLeft (s : Pmap) (p : Nat) :
    visBit (withVis s onePageLeft) p = false ↔ p = 59969 := by
  have hbit : ∀ j : Fin 64, (~~~2#64).getLsbD j = false ↔ j.val = 1 := by decide
  have hlt : p % 64 < 64 := Nat.mod_lt _ (by decide)
  unfold visBit withVis onePageLeft
  simp only
  split
  · rename_i h
    rw [hbit ⟨p % 64, hlt⟩]
    simp only
    omega
  · rename_i h
    rw [BitVec.getLsbD_allOnes]
    simp only [decide_eq_false_iff_not]
    omega

theorem onePageLeft_alloc (s : Pmap) : ∃ s₁, pageAlloc (withVis s onePageLeft) = some (59969, s₁) := by
  cases halloc : pageAlloc (withVis s onePageLeft) with
  | none =>
      have hspent := pageAlloc_eq_none.mp halloc 937 (by decide)
      have hword : (withVis s onePageLeft).vis 937 = ~~~2#64 := rfl
      rw [hword] at hspent
      exact absurd ⟨1, by decide, by decide⟩ hspent.1
  | some x =>
      obtain ⟨p, s₁⟩ := x
      obtain ⟨-, hfree, -⟩ := pageAlloc_spec halloc
      rw [(visBit_onePageLeft s p).mp hfree]
      exact ⟨s₁, rfl⟩

theorem onePageLeft_spent (s : Pmap) {n : Nat} (hn : 2 ≤ n) :
    ¬ FreePages n (withVis s onePageLeft) := by
  obtain ⟨n, rfl⟩ : ∃ m, n = m + 2 := ⟨n - 2, by omega⟩
  rintro ⟨p, s₁, halloc, q, s₂, halloc₂, -⟩
  obtain ⟨-, hfree, hused, hmono, -⟩ := pageAlloc_spec halloc
  obtain ⟨-, hfree₂, -⟩ := pageAlloc_spec halloc₂
  have hp := (visBit_onePageLeft s p).mp hfree
  have hq := (visBit_onePageLeft s q).mp (hmono q hfree₂)
  rw [hq, ← hp, hused] at hfree₂
  cases hfree₂

/-- Environment 0 runs, with the directory that the board's first page holds. -/
def oneEnv (pm : Pmap) : Kernel :=
  { boardKernel with
    pm := pm
    envs := fun e =>
      if e = 0 then { zeroEnv with id := 0x800, status := .ENV_RUNNABLE, pgdir := some 1024 }
      else zeroEnv
    curenv := some 0 }

/-- With one page left, the call takes it, finds none for the table and returns
    an error; the page is never given back. -/
theorem last_page_leaks : ∃ k, PmapInv boardCount {1024} k.pm ∧
    (sysMemAlloc k 0 0x10000000 PTE_USER).ReturnsError ∧
    ¬ AllocFailKeeps k (sysMemAlloc k 0 0x10000000 PTE_USER) 0 := by
  obtain ⟨s₁, hboard⟩ := boardBoot_alloc
  obtain ⟨hI₀, hnone, -⟩ := boardDir_ok hboard
  have hunused : AllocUnused (withVis (envNewDir s₁ 1024) onePageLeft) := by
    intro p hp hv
    rw [(visBit_onePageLeft _ p).mp hv]
    obtain ⟨-, -, -, -, hpages, -⟩ := pageAlloc_spec hboard
    have hboot : PmapInv boardCount ∅ boardBoot := initBootPt_inv
    have hclear : visBit boardBoot 59969 = false := by
      rw [visBit, boardBoot_vis_zero (by decide) (by decide)]
      simp
    have hzero := hboot.alloc 59969 (by rw [NPAGE]; decide) hclear
    have hsame : (withVis (envNewDir s₁ 1024) onePageLeft).pages = (s₁.incRef 1024).pages := rfl
    rw [hsame, incRef_ref, if_neg (by decide), hpages]
    exact hzero
  have hI := hI₀.withVis hunused
  obtain ⟨s₂, halloc⟩ := onePageLeft_alloc (envNewDir s₁ 1024)
  have hd : 1024 ∈ ({1024} : Finset Nat) := Finset.mem_singleton_self 1024
  have hself : ¬ IsSelfPage 0x10000000 := by
    unfold IsSelfPage pageIdx
    decide
  have hmissing : missingTables (withVis (envNewDir s₁ 1024) onePageLeft) 1024 0x10000000 = 2 := by
    have hc : child (withVis (envNewDir s₁ 1024) onePageLeft) 1024 (GET_L1_INDEX 0x10000000)
        = none := by
      apply child_eq_none.mpr
      have hzero : (envNewDir s₁ 1024).mem 1024 (GET_L1_INDEX 0x10000000) = 0 := by
        rw [envNewDir, Pmap.setPte_mem_of_ne (fun h => absurd h.2 (by decide))]
        simp [Pmap.bzeroPage]
      have hmem : (withVis (envNewDir s₁ 1024) onePageLeft).mem = (envNewDir s₁ 1024).mem := rfl
      rw [hmem, hzero]
      exact isValid_zero
    simp only [missingTables, hc]
  have hins : (pageInsert s₂ 1024 59969 0x10000000 PTE_USER).1 = false := by
    rw [← Bool.not_eq_true, pageInsert_fits hI hd halloc]
    intro hfits
    have hroom := hfits.tables hself
    rw [hmissing] at hroom
    exact onePageLeft_spent _ (by decide) hroom
  have hcall : sysMemAlloc (oneEnv (withVis (envNewDir s₁ 1024) onePageLeft)) 0 0x10000000 PTE_USER
      = ((oneEnv (withVis (envNewDir s₁ 1024) onePageLeft)).setPm
          (pageInsert s₂ 1024 59969 0x10000000 PTE_USER).2).setReg0
          (if (pageInsert s₂ 1024 59969 0x10000000 PTE_USER).1 then 0 else ERR) := by
    have hlow : ¬ (0x10000000 : Word) ≥ KERNBASE := by decide
    have henv : envid2env (oneEnv (withVis (envNewDir s₁ 1024) onePageLeft)) 0 true = some 0 := rfl
    have hpm : pageAlloc (oneEnv (withVis (envNewDir s₁ 1024) onePageLeft)).pm = some (59969, s₂) :=
      halloc
    have hdir : (oneEnv (withVis (envNewDir s₁ 1024) onePageLeft)).pgdir 0 = 1024 := rfl
    rw [sysMemAlloc, if_neg hlow, henv]
    simp only [hpm, hdir]
  refine ⟨oneEnv (withVis (envNewDir s₁ 1024) onePageLeft), hI, ?_⟩
  rw [hcall]
  have hdir : (oneEnv (withVis (envNewDir s₁ 1024) onePageLeft)).pgdir 0 = 1024 := rfl
  rw [← hdir] at hins ⊢
  exact failed_insert_leaks 0 hI halloc hins

/-- With no page left, the call fails and leaves everything as it was. -/
theorem full_board_keeps : ∃ k, (sysMemAlloc k 0 0x10000000 PTE_USER).ReturnsError ∧
    AllocFailKeeps k (sysMemAlloc k 0 0x10000000 PTE_USER) 0 := by
  obtain ⟨s₁, hboard⟩ := boardBoot_alloc
  have hset : ∀ p, visBit (withVis (envNewDir s₁ 1024) fun _ => BitVec.allOnes 64) p = true := by
    intro p
    have hlt : p % 64 < 64 := Nat.mod_lt _ (by decide)
    rw [visBit, withVis, BitVec.getLsbD_allOnes]
    exact decide_eq_true hlt
  have hI := (boardDir_ok hboard).1.withVis (v := fun _ => BitVec.allOnes 64) fun p _ hv => by
    rw [hset] at hv
    cases hv
  have hnone : pageAlloc (withVis (envNewDir s₁ 1024) fun _ => BitVec.allOnes 64) = none := by
    cases halloc : pageAlloc (withVis (envNewDir s₁ 1024) fun _ => BitVec.allOnes 64) with
    | none => rfl
    | some x =>
        obtain ⟨p, s₂⟩ := x
        obtain ⟨-, hfree, -⟩ := pageAlloc_spec halloc
        rw [hset] at hfree
        cases hfree
  have herr : (sysMemAlloc (oneEnv (withVis (envNewDir s₁ 1024) fun _ => BitVec.allOnes 64)) 0
      0x10000000 PTE_USER).ReturnsError := by
    have hlow : ¬ (0x10000000 : Word) ≥ KERNBASE := by decide
    have henv : envid2env (oneEnv (withVis (envNewDir s₁ 1024) fun _ => BitVec.allOnes 64)) 0 true
        = some 0 := rfl
    have hpm : pageAlloc (oneEnv (withVis (envNewDir s₁ 1024) fun _ => BitVec.allOnes 64)).pm
        = none := hnone
    rw [sysMemAlloc, if_neg hlow, henv]
    simp only [hpm]
    have hneg : ERR.msb = true := by decide
    exact hneg
  have hpm : PmapInv boardCount {1024}
      (oneEnv (withVis (envNewDir s₁ 1024) fun _ => BitVec.allOnes 64)).pm := hI
  refine ⟨_, herr, (failed_alloc_keeps_iff hpm ?_).mpr ?_ herr⟩
  · rintro e he
    cases he
    exact Finset.mem_singleton_self 1024
  · rintro e - - hfree
    obtain ⟨x, hx⟩ := freePages_one.mp hfree
    exact absurd (hnone.symm.trans hx) (by rintro ⟨⟩)

end RpiMos
