/-
  RpiMos.Mm.PageTableOps

  One specification lemma for each operation of `RpiMos.Mm.Pmap`, against the
  map and the counts of `RpiMos.Mm.PageTable`.  Everything is derived from two
  primitive changes: hanging a fresh table under a free slot
  (`PmapInv.graft`), and rewriting one leaf slot (`leafSet_setPte`).
-/

import RpiMos.Mm.PageTable

namespace RpiMos

open Lib RadixShape

variable {s s' s₁ : Pmap} {dirs : Finset Nat} {boot : Nat → Nat} {d d' t i pp : Nat}
  {va va' perm w : Word}

/-! ## The allocator -/

theorem shiftedInt_mod (j : Nat) : shiftedInt (j % 32) = shiftedInt j := by
  simp [shiftedInt]

theorem shiftedInt_getLsbD_self (j : Nat) (hj : j < 32) : (shiftedInt j).getLsbD j = true := by
  have h : ∀ k : Fin 32, (shiftedInt k).getLsbD k = true := by decide
  exact h ⟨j, hj⟩

theorem getLsbD_of_and_shiftedInt {w : Word} {j : Nat} (hj : j < 32)
    (h : w &&& shiftedInt j = 0) : w.getLsbD j = false := by
  have hb : (w &&& shiftedInt j).getLsbD j = false := by rw [h]; simp
  rwa [BitVec.getLsbD_and, shiftedInt_getLsbD_self j hj, Bool.and_true] at hb

/-- A bit found in an allocation word is one of its low 32 bits and is clear:
    the shift count of a higher index wraps to an index already tried. -/
theorem pageAllocIn_spec {w : Word} {i : Nat} {x : Nat × Nat} (h : pageAllocIn w i = some x) :
    ∃ j, x = (i, j) ∧ j < 32 ∧ w.getLsbD j = false := by
  unfold pageAllocIn at h
  split at h
  case isFalse => cases h
  case isTrue =>
    obtain ⟨j, -, hj, hfound, hfirst⟩ := scan_eq_some.mp h
    split at hfound
    case isFalse => cases hfound
    case isTrue hclear =>
      cases hfound
      have hj32 : j < 32 := by
        by_contra hge
        have hprev := hfirst (j % 32) (Nat.zero_le _) (by omega)
        rw [shiftedInt_mod, if_pos hclear] at hprev
        cases hprev
      exact ⟨j, rfl, hj32, getLsbD_of_and_shiftedInt hj32 hclear⟩

theorem shiftLeft_six_or {i j : Nat} (hj : j < 64) : i <<< 6 ||| j = i * 64 + j := by
  rw [Nat.shiftLeft_eq, Nat.mul_comm i (2 ^ 6),
    ← Nat.two_pow_add_eq_or_of_lt (by omega : j < 2 ^ 6) i]

/-- `page_alloc` hands out a page whose bit was clear, zero-fills it, and sets
    its bit; no set bit is lost. -/
theorem pageAlloc_spec (h : pageAlloc s = some (pp, s₁)) :
    pp < NPAGE ∧ visBit s pp = false ∧ visBit s₁ pp = true ∧
    (∀ q, visBit s₁ q = false → visBit s q = false) ∧
    s₁.pages = s.pages ∧ s₁.mem = fun t i => if t = pp then 0 else s.mem t i := by
  unfold pageAlloc at h
  split at h
  case h_2 => cases h
  case h_1 i j hscan =>
    obtain ⟨k, -, hk, hin, -⟩ := scan_eq_some.mp hscan
    obtain ⟨j', hij, hj, hclear⟩ := pageAllocIn_spec hin
    obtain ⟨rfl, rfl⟩ := Prod.mk.inj hij
    simp only [Option.some.injEq, Prod.mk.injEq] at h
    obtain ⟨hpp, rfl⟩ := h
    rw [shiftLeft_six_or (by omega)] at hpp ⊢
    subst hpp
    have hdiv : (i * 64 + j) / 64 = i := by omega
    have hmod : (i * 64 + j) % 64 = j := by omega
    refine ⟨by rw [NPAGE]; omega, ?_, ?_, ?_, rfl, rfl⟩
    · rw [visBit, hdiv, hmod, hclear]
    · rw [visBit, hdiv, hmod]
      simp [Pmap.setVis, BitVec.getLsbD_or, shiftedInt_getLsbD_self j hj]
    · intro q hq
      rw [visBit] at hq ⊢
      simp only [Pmap.setVis] at hq
      split at hq
      case isTrue heq =>
        rw [BitVec.getLsbD_or, Bool.or_eq_false_iff] at hq
        rw [heq]
        exact hq.1
      case isFalse => exact hq

/-- `page_free` of page `pp` clears at most the bit of `pp`, and only when the
    page has no references. -/
theorem visBit_pageFree {q : Nat} (h : visBit (pageFree s pp) q = false) :
    visBit s q = false ∨ (q = pp ∧ (s.pages pp).ref = 0) := by
  unfold pageFree at h
  split at h
  case isTrue => exact Or.inl h
  case isFalse hr =>
    have hr0 : (s.pages pp).ref = 0 := by
      simpa [BitVec.pos_iff_ne_zero] using hr
    rw [visBit] at h ⊢
    simp only [Pmap.setVis] at h
    split at h
    case isFalse => exact Or.inl h
    case isTrue heq =>
      have hmask : pp &&& 63 = pp % 64 := Nat.and_two_pow_sub_one_eq_mod pp 6
      have hdiv : pp >>> 6 = pp / 64 := Nat.shiftRight_eq_div_pow pp 6
      rw [BitVec.getLsbD_and, Bool.and_eq_false_iff] at h
      rcases h with h | h
      · rw [heq]; exact Or.inl h
      · right
        refine ⟨?_, hr0⟩
        have hlt : q % 64 < 64 := Nat.mod_lt _ (by decide)
        rw [BitVec.getLsbD_not] at h
        simp only [hlt, decide_true, Bool.true_and] at h
        rw [BitVec.getLsbD_shiftLeft, hmask] at h
        simp at h
        omega

theorem visBit_pageFree_eq (s : Pmap) (q p : Nat) :
    visBit (pageFree s q) p = (visBit s p && !decide (p = q ∧ (s.pages q).ref = 0)) := by
  unfold pageFree
  by_cases hr : (s.pages q).ref > 0
  · rw [if_pos hr]
    have hne : (s.pages q).ref ≠ 0 := by
      intro h0
      rw [h0] at hr
      exact absurd hr (by decide)
    simp only [hne, and_false, decide_false, Bool.not_false, Bool.and_true]
  · rw [if_neg hr]
    have h0 : (s.pages q).ref = 0 := by
      apply BitVec.eq_of_toNat_eq
      rw [gt_iff_lt, BitVec.lt_def] at hr
      have hz : (0 : U32).toNat = 0 := rfl
      omega
    have hmask : q &&& 63 = q % 64 := Nat.and_two_pow_sub_one_eq_mod q 6
    have hdiv : q >>> 6 = q / 64 := Nat.shiftRight_eq_div_pow q 6
    have hlt : p % 64 < 64 := Nat.mod_lt _ (by decide)
    simp only [visBit, Pmap.setVis, hmask, hdiv, h0, and_true]
    by_cases hd : p / 64 = q / 64
    · rw [if_pos hd, BitVec.getLsbD_and, BitVec.getLsbD_not, BitVec.getLsbD_shiftLeft, hd]
      by_cases hm : p % 64 = q % 64
      · have hpq : p = q := by omega
        simp [hpq, Nat.mod_lt]
      · have hpq : p ≠ q := fun h => hm (by rw [h])
        have hbit : (1#64).getLsbD (p % 64 - q % 64) = false ∨ p % 64 < q % 64 := by
          by_cases hlt' : p % 64 < q % 64
          · exact Or.inr hlt'
          · left
            rw [BitVec.getLsbD_one]
            simp
            omega
        rcases hbit with hbit | hbit <;> simp [hlt, hpq, hbit]
    · have hpq : p ≠ q := fun h => hd (by rw [h])
      rw [if_neg hd]
      simp [hpq]

@[simp] theorem pageFree_mem (s : Pmap) (pp : Nat) : (pageFree s pp).mem = s.mem := by
  unfold pageFree; split <;> rfl

@[simp] theorem pageFree_pages (s : Pmap) (pp : Nat) : (pageFree s pp).pages = s.pages := by
  unfold pageFree; split <;> rfl

/-! ## Hanging a fresh table -/

/-- The tables grew from `s` to `s'`: no mapping, no page in use and none of the
    slots already there changed. -/
structure Grown (dirs : Finset Nat) (s s' : Pmap) : Prop where
  map_eq : ∀ {d va}, d ∈ dirs → GET_L1_INDEX va ≠ uvptIndex → mapping s' d va = mapping s d va
  child_mono : ∀ {t i u}, IsTable s dirs t → child s t i = some u → child s' t i = some u
  data : ∀ {p}, visBit s p = true → ¬ IsTable s dirs p → s'.mem p = s.mem p
  ref : ∀ {p}, visBit s p = true → (s'.pages p).ref = (s.pages p).ref
  vis : ∀ {p}, visBit s p = true → visBit s' p = true
  table : ∀ {p}, visBit s p = true → (IsTable s' dirs p ↔ IsTable s dirs p)
  pa : ∀ p, (s'.pages p).pa = (s.pages p).pa

theorem Grown.refl (dirs : Finset Nat) (s : Pmap) : Grown dirs s s where
  map_eq _ _ := rfl
  child_mono _ h := h
  data _ _ := rfl
  ref _ := rfl
  vis h := h
  table _ := Iff.rfl
  pa _ := rfl

/-- A table is in use. -/
theorem PmapInv.visBit_table (hI : PmapInv boot dirs s) (h : IsTable s dirs t) :
    visBit s t = true := by
  by_contra hv
  rw [Bool.not_eq_true] at hv
  exact (hI.unused (hI.tables.isTable_lt h) hv).2.2 h

theorem Grown.trans (hI : PmapInv boot dirs s) {s'' : Pmap} (h : Grown dirs s s')
    (h' : Grown dirs s' s'') : Grown dirs s s'' where
  map_eq hd hva := (h'.map_eq hd hva).trans (h.map_eq hd hva)
  child_mono ht hc := h'.child_mono ((h.table (hI.visBit_table ht)).mpr ht) (h.child_mono ht hc)
  data hv ht := (h'.data (h.vis hv) (fun ht' => ht ((h.table hv).mp ht'))).trans (h.data hv ht)
  ref hv := (h'.ref (h.vis hv)).trans (h.ref hv)
  vis hv := h'.vis (h.vis hv)
  table hv := (h'.table (h.vis hv)).trans (h.table hv)
  pa p := (h'.pa p).trans (h.pa p)

theorem Grown.leafSlot (h : Grown dirs s s') (hd : d ∈ dirs)
    (hva : GET_L1_INDEX va ≠ uvptIndex) {x : Nat × Nat} (hx : leafSlot s d va = some x) :
    leafSlot s' d va = some x := by
  obtain ⟨u, hu, rfl⟩ := Option.map_eq_some_iff.mp hx
  simp only [radixWalk] at hu
  obtain ⟨v, hv, hvu⟩ := Option.bind_eq_some_iff.mp hu
  obtain ⟨w, hw, hwu⟩ := Option.bind_eq_some_iff.mp hvu
  cases hwu
  have hat0 : (tableShape dirs).At (child s) 0 d := hd
  have hat1 : (tableShape dirs).At (child s) 1 v :=
    ⟨d, _, hat0, (pathOk_leaf dirs hva).1, hv⟩
  have hv' := h.child_mono (isTable_of_at (by omega) hat0) hv
  have hw' := h.child_mono (isTable_of_at (by omega) hat1) hw
  simp [RpiMos.leafSlot, radixWalk, hv', hw']

theorem toNat_add_one {r : U32} (h : r.toNat < 2 ^ 31) : (r + 1).toNat = r.toNat + 1 := by
  rw [BitVec.toNat_add]
  have : (1 : U32).toNat = 1 := rfl
  omega

theorem toNat_sub_one {r : U32} (h : 0 < r.toNat) : (r - 1).toNat = r.toNat - 1 := by
  have h1 : (1 : U32).toNat = 1 := rfl
  have hlt := r.isLt
  rw [BitVec.toNat_sub]
  omega

theorem PmapWf.ref_lt (hI : PmapWf boot dirs s) {p : Nat} (hp : p < NPAGE) :
    (s.pages p).ref.toNat < 2 ^ 31 := by
  have := hI.refs p hp
  have := hI.boot_le p
  have := entryCount_le s dirs p
  omega

section Graft

variable {n : Nat}

/-- The state after a fresh page `pp` became the table named by slot `i` of `t`. -/
theorem graft_of_alloc (hI : PmapInv boot dirs s) (hn : n < 2)
    (hat : (tableShape dirs).At (child s) n t) (hslot : (tableShape dirs).slotOk n i)
    (hfree : child s t i = none) (halloc : pageAlloc s = some (pp, s₁))
    (hw : isValid w = true) (hwpp : pteFrame w = pp) :
    (tableShape dirs).Graft (child s) (child ((s₁.setPte t i w).incRef pp)) 2 n t i pp := by
  obtain ⟨hpp, hvis, -, -, -, hmem⟩ := pageAlloc_spec halloc
  have hfresh := (hI.unused hpp hvis).2.2
  have htpp : t ≠ pp := fun h => hfresh (h ▸ isTable_of_at (by omega) hat)
  refine
    { lt := hn, parent := hat, slot := hslot, free := hfree, fresh := hfresh, hung := ?_,
      empty := ?_, same := ?_ }
  · show child (s₁.setPte t i w) t i = some pp
    rw [child_setPte_self, if_pos hw, hwpp]
  · intro k
    show child (s₁.setPte t i w) pp k = none
    rw [child_setPte_of_ne (fun h => htpp h.1.symm), child_eq_none, hmem]
    simp
  · intro m p k hm hp hne
    show child (s₁.setPte t i w) p k = child s p k
    rw [child_setPte_of_ne hne]
    refine child_congr ?_
    have hppp : p ≠ pp := fun h => hfresh (h ▸ isTable_of_at hm hp)
    rw [hmem]
    simp [hppp]

/-- Hanging a fresh table adds an empty table and moves no mapping. -/
theorem mapping_graft (ht : TablesOk s dirs) {s' : Pmap}
    (g : (tableShape dirs).Graft (child s) (child s') 2 n t i pp)
    (hmem : ∀ {t' k}, IsTable s dirs t' → ¬ (t' = t ∧ k = i) → s'.mem t' k = s.mem t' k)
    (hd : d ∈ dirs) (hva : GET_L1_INDEX va ≠ uvptIndex) :
    mapping s' d va = mapping s d va := by
  have hat0 : (tableShape dirs).At (child s) 0 d := hd
  have hat0' : (tableShape dirs).At (child s') 0 d := hd
  cases hx : leafSlot s d va with
  | some x =>
      obtain ⟨t₃, k⟩ := x
      obtain ⟨hat3, rfl⟩ := leafSlot_at hd hva hx
      have hne : ¬ (t₃ = t ∧ GET_L3_INDEX va = i) := by
        rintro ⟨rfl, -⟩
        have := ht.forest.level_unique (Nat.le_refl 2) (Nat.le_of_lt g.lt) hat3 g.parent
        have := g.lt
        omega
      have hx' : leafSlot s' d va = some (t₃, GET_L3_INDEX va) := by
        obtain ⟨u, hu, hux⟩ := Option.map_eq_some_iff.mp hx
        cases hux
        simp only [radixWalk] at hu
        obtain ⟨v, hv, hvu⟩ := Option.bind_eq_some_iff.mp hu
        obtain ⟨u', hu', hwu⟩ := Option.bind_eq_some_iff.mp hvu
        cases hwu
        have hat1 : (tableShape dirs).At (child s) 1 v :=
          ⟨d, _, hat0, (pathOk_leaf dirs hva).1, hv⟩
        have hkeep : ∀ {m p k u}, m ≤ 2 → (tableShape dirs).At (child s) m p →
            child s p k = some u → child s' p k = some u := by
          intro m p k u hm hp hc
          rw [g.same hm hp, hc]
          rintro ⟨rfl, rfl⟩
          rw [g.free] at hc
          cases hc
        simp [leafSlot, radixWalk, hkeep (by omega) hat0 hv, hkeep (by omega) hat1 hu']
      rw [mapping_of_leafSlot hx, mapping_of_leafSlot hx',
        hmem (isTable_of_at (Nat.le_refl 2) hat3) hne]
  | none =>
      rw [mapping_of_leafSlot_none hx]
      cases hx' : leafSlot s' d va with
      | none => exact mapping_of_leafSlot_none hx'
      | some x =>
          -- A leaf slot that was not there before lies in the fresh, empty table.
          obtain ⟨t₃, k⟩ := x
          rw [mapping_of_leafSlot hx']
          obtain ⟨u, hu, hux⟩ := Option.map_eq_some_iff.mp hx'
          cases hux
          simp only [radixWalk] at hu
          obtain ⟨v, hv, hvu⟩ := Option.bind_eq_some_iff.mp hu
          obtain ⟨u', hu', hwu⟩ := Option.bind_eq_some_iff.mp hvu
          cases hwu
          have hat1' : (tableShape dirs).At (child s') 1 v :=
            ⟨d, _, hat0', (pathOk_leaf dirs hva).1, hv⟩
          have hpp : t₃ = pp := by
            rcases g.child_cases ht.forest (by omega) hat1' hu' with ⟨-, -, -, h⟩ | ⟨hat1, hc⟩
            · exact h
            · rcases g.child_cases ht.forest (by omega) hat0' hv with ⟨-, -, -, h⟩ | ⟨-, hc0⟩
              · exact absurd ⟨1, by omega, h ▸ hat1⟩ g.fresh
              · simp [leafSlot, radixWalk, hc0, hc] at hx
          rw [hpp, if_neg]
          rw [Bool.not_eq_true, ← child_eq_none]
          exact g.empty _

/-- A fresh empty table adds one to the count of its own page and nothing else. -/
theorem entryCount_graft (ht : TablesOk s dirs) {s' : Pmap}
    (g : (tableShape dirs).Graft (child s) (child s') 2 n t i pp) (p : Nat) :
    entryCount s' dirs p = entryCount s dirs p + if p = pp then 1 else 0 := by
  have hnode : ∀ {u}, IsTable s' dirs u ↔ IsTable s dirs u ∨ u = pp := g.node_iff ht.forest _
  have hsub : tableSlots s dirs ⊆ tableSlots s' dirs := by
    intro x hx
    rw [mem_tableSlots] at hx ⊢
    exact ⟨hx.1, hnode.mpr (Or.inl hx.2)⟩
  have hti : (t, i) ∈ tableSlots s dirs :=
    ht.mem_tableSlots (isTable_of_at (Nat.le_of_lt g.lt) g.parent) g.slot.1
  have hfresh : entryCount s' dirs p
      = slotCount (tableSlots s dirs) (fun x => child s' x.1 x.2) p := by
    refine slotCount_of_fresh hsub ?_ p
    intro x hx hxn
    rw [mem_tableSlots] at hx hxn
    rcases hnode.mp hx.2 with h | h
    · exact absurd ⟨hx.1, h⟩ hxn
    · rw [h]
      exact g.empty _
  have hwrite := slotCount_write hti (f := fun x => child s x.1 x.2)
    (g := fun x => child s' x.1 x.2) (fun x hx hne => ?_) p
  · have hold : slotShare (fun x : Nat × Nat => child s x.1 x.2) (t, i) p = 0 := by
      simp [slotShare, g.free]
    have hnew : slotShare (fun x : Nat × Nat => child s' x.1 x.2) (t, i) p
        = if p = pp then 1 else 0 := by
      simp [slotShare, g.hung, eq_comm]
    rw [hfresh, entryCount]
    omega
  · rw [mem_tableSlots] at hx
    obtain ⟨m, hm, hat⟩ := hx.2
    refine g.same hm hat ?_
    rintro ⟨h₁, h₂⟩
    exact hne (Prod.ext h₁ h₂)

/-- Both primitive facts about a fresh table, for the states of the code. -/
theorem PmapInv.graft (hI : PmapInv boot dirs s) (hn : n < 2)
    (hat : (tableShape dirs).At (child s) n t) (hslot : (tableShape dirs).slotOk n i)
    (hfree : child s t i = none) (halloc : pageAlloc s = some (pp, s₁))
    (hw : isValid w = true) (hwpp : pteFrame w = pp) :
    PmapInv boot dirs ((s₁.setPte t i w).incRef pp) ∧
    Grown dirs s ((s₁.setPte t i w).incRef pp) ∧
    child ((s₁.setPte t i w).incRef pp) t i = some pp := by
  have g := graft_of_alloc hI hn hat hslot hfree halloc hw hwpp
  obtain ⟨hpp, hvis, hvis₁, hmono, hpages, hmem⟩ := pageAlloc_spec halloc
  obtain ⟨href, hcount, hnt⟩ := hI.unused hpp hvis
  have htt : IsTable s dirs t := isTable_of_at (by omega) hat
  have hnode : ∀ {u}, IsTable ((s₁.setPte t i w).incRef pp) dirs u ↔ IsTable s dirs u ∨ u = pp :=
    g.node_iff hI.tables.forest _
  have hmem' : ∀ {t' k}, IsTable s dirs t' → ¬ (t' = t ∧ k = i) →
      ((s₁.setPte t i w).incRef pp).mem t' k = s.mem t' k := by
    intro t' k ht' hne
    have : t' ≠ pp := fun h => hnt (h ▸ ht')
    rw [Pmap.incRef_mem, Pmap.setPte_mem_of_ne hne, hmem]
    simp [this]
  have hrefs : ∀ q, (((s₁.setPte t i w).incRef pp).pages q).ref
      = if q = pp then 1 else (s.pages q).ref := by
    intro q
    rw [Pmap.incRef, Pmap.setRef_ref, Pmap.setPte_pages, hpages, href]
    rfl
  have hpa : ∀ q, (((s₁.setPte t i w).incRef pp).pages q).pa = (s.pages q).pa := by
    intro q
    rw [Pmap.incRef, Pmap.setRef_pa, Pmap.setPte_pages, hpages]
  refine ⟨{ pa := ?_, tables := ⟨hI.tables.dir_lt, ?_, g.forest hI.tables.forest⟩, refs := ?_,
            boot_le := hI.boot_le, alloc := ?_ },
    { map_eq := fun hd hva => mapping_graft hI.tables g hmem' hd hva
      child_mono := ?_, data := ?_, ref := ?_, vis := ?_, table := ?_, pa := hpa }, g.hung⟩
  · intro p hp
    rw [hpa]
    exact hI.pa p hp
  · intro d hd
    have hd0 : (tableShape dirs).At (child s) 0 d := hd
    rw [g.same (by omega) hd0, hI.tables.dir_self d hd]
    rintro ⟨rfl, rfl⟩
    exact absurd g.free (by rw [hI.tables.dir_self d hd]; simp)
  · intro p hp
    rw [hrefs, entryCount_graft hI.tables g p]
    by_cases hpp' : p = pp
    · subst hpp'
      have := hI.refs p hp
      rw [href] at this
      have hz : (0 : U32).toNat = 0 := rfl
      have h1 : (1 : U32).toNat = 1 := rfl
      rw [if_pos rfl, if_pos rfl]
      omega
    · rw [if_neg hpp', if_neg hpp', Nat.add_zero]
      exact hI.refs p hp
  · intro p hp hv
    have hv₁ : visBit s₁ p = false := hv
    have hne : p ≠ pp := by
      rintro rfl
      rw [hvis₁] at hv₁
      cases hv₁
    rw [hrefs, if_neg hne]
    exact hI.alloc p hp (hmono p hv₁)
  · intro t' k u ht' hc
    obtain ⟨m, hm, hat'⟩ := ht'
    rw [g.same hm hat', hc]
    rintro ⟨rfl, rfl⟩
    rw [g.free] at hc
    cases hc
  · intro p hv hnt'
    have hne : p ≠ pp := fun h => by rw [h, hvis] at hv; cases hv
    have hnet : p ≠ t := fun h => hnt' (h ▸ htt)
    funext k
    rw [Pmap.incRef_mem, Pmap.setPte_mem_of_ne (fun h => hnet h.1), hmem]
    simp [hne]
  · intro p hv
    have hne : p ≠ pp := fun h => by rw [h, hvis] at hv; cases hv
    rw [hrefs, if_neg hne]
  · intro p hv
    by_contra hv'
    rw [Bool.not_eq_true] at hv'
    have := hmono p hv'
    rw [hv] at this
    cases this
  · intro p hv
    rw [hnode]
    have hne : p ≠ pp := fun h => by rw [h, hvis] at hv; cases hv
    simp [hne]

end Graft

/-! ## `pgdir_walk` -/

/-- The entry written for a fresh table names it. -/
theorem tableEntry_ok (hI : PmapInv boot dirs s) (halloc : pageAlloc s = some (pp, s₁))
    {b : Word} (hb : PTE_ADDR b = 0) :
    isValid ((s₁.pages pp).pa ||| b) = true ∧ pteFrame ((s₁.pages pp).pa ||| b) = pp := by
  obtain ⟨hpp, -, -, -, hpages, -⟩ := pageAlloc_spec halloc
  obtain ⟨hfr, hv, -, -⟩ := hI.pa pp hpp
  rw [hpages, isValid_or, hv, pteFrame_or_of_clear hb]
  exact ⟨rfl, hfr⟩

theorem PTE_ADDR_user (va : Word) : PTE_ADDR (if va < KERNBASE then PTE_USER else 0) = 0 := by
  split <;> decide

/-- One level of the walk: the next table is there afterwards, unless no page
    was free. -/
theorem pgdirWalkStep_true (va : Word) (hI : PmapInv boot dirs s) {n : Nat} (hn : n < 2)
    (hat : (tableShape dirs).At (child s) n t) (hslot : (tableShape dirs).slotOk n i) :
    (∃ u s', pgdirWalkStep s t i va true = (.at u, s') ∧ PmapInv boot dirs s' ∧
      Grown dirs s s' ∧ child s' t i = some u) ∨
    (pgdirWalkStep s t i va true = (.fail, s) ∧ child s t i = none) := by
  unfold pgdirWalkStep
  by_cases hv : isValid (s.mem t i) = true
  · left
    exact ⟨_, s, by rw [if_pos hv], hI, .refl _ _, child_eq_some.mpr ⟨hv, rfl⟩⟩
  · have hfree : child s t i = none := child_eq_none.mpr (by simpa using hv)
    rw [if_neg hv, if_pos rfl]
    cases halloc : pageAlloc s with
    | none => exact Or.inr ⟨rfl, hfree⟩
    | some x =>
        obtain ⟨pp, s₁⟩ := x
        obtain ⟨hw, hwpp⟩ := tableEntry_ok hI halloc (PTE_ADDR_user va)
        obtain ⟨hI', hg, hc⟩ := hI.graft hn hat hslot hfree halloc hw hwpp
        exact Or.inl ⟨_, _, rfl, hI', hg, by rw [hwpp]; exact hc⟩

theorem slotOk_l1 (dirs : Finset Nat) (hva : GET_L1_INDEX va ≠ uvptIndex) :
    (tableShape dirs).slotOk 0 (GET_L1_INDEX va) := ⟨GET_L1_INDEX_lt va, fun _ => hva⟩

theorem slotOk_l2 (dirs : Finset Nat) (va : Word) :
    (tableShape dirs).slotOk 1 (GET_L2_INDEX va) :=
  ⟨GET_L2_INDEX_lt va, fun h => absurd h (by omega)⟩

/-- With `create`, `pgdir_walk` only ever grows the tables; when it fails the
    leaf slot was not there. -/
theorem pgdirWalk_true (hI : PmapInv boot dirs s) (hd : d ∈ dirs)
    (hva : GET_L1_INDEX va ≠ uvptIndex) :
    ∃ r s', pgdirWalk s d va true = (r, s') ∧ PmapInv boot dirs s' ∧ Grown dirs s s' ∧
      ((∃ x, r = .at x ∧ leafSlot s' d va = some x) ∨ (r = .fail ∧ leafSlot s d va = none)) := by
  have hat0 : (tableShape dirs).At (child s) 0 d := hd
  unfold pgdirWalk
  rcases pgdirWalkStep_true va hI (by omega) hat0 (slotOk_l1 dirs hva) with
    ⟨t₂, s₁, hstep₁, hI₁, hg₁, hc₁⟩ | ⟨hstep₁, hc₁⟩
  · have hat1 : (tableShape dirs).At (child s₁) 1 t₂ :=
      ⟨d, _, (hd : (tableShape dirs).At (child s₁) 0 d), slotOk_l1 dirs hva, hc₁⟩
    rw [hstep₁]
    rcases pgdirWalkStep_true va hI₁ (by omega) hat1 (slotOk_l2 dirs va) with
      ⟨t₃, s₂, hstep₂, hI₂, hg₂, hc₂⟩ | ⟨hstep₂, hc₂⟩
    · refine ⟨.at (t₃, GET_L3_INDEX va), s₂, by simp only [hstep₂], hI₂, hg₁.trans hI hg₂, Or.inl ⟨_, rfl, ?_⟩⟩
      have hat0₁ : (tableShape dirs).At (child s₁) 0 d := hd
      have hc₁' := hg₂.child_mono (isTable_of_at (by omega) hat0₁) hc₁
      simp [leafSlot, radixWalk, hc₁', hc₂]
    · refine ⟨_, s₁, by simp only [hstep₂], hI₁, hg₁, Or.inr ⟨rfl, ?_⟩⟩
      -- Had the slot been there before, it would be there after the first level.
      cases hx : leafSlot s d va with
      | none => rfl
      | some x =>
          have := hg₁.leafSlot hd hva hx
          simp [leafSlot, radixWalk, hc₁, hc₂] at this
  · refine ⟨_, s, by rw [hstep₁], hI, .refl _ _, Or.inr ⟨rfl, ?_⟩⟩
    simp [leafSlot, radixWalk, hc₁]

/-! ## Rewriting a leaf slot -/

section SetLeaf

variable (hat : (tableShape dirs).At (child s) 2 t)

include hat

/-- No slot above the leaves changes. -/
theorem child_setLeaf (ht : TablesOk s dirs) {m p k : Nat} (hm : m < 2)
    (hp : (tableShape dirs).At (child s) m p) :
    child (s.setPte t i w) p k = child s p k := by
  refine child_setPte_of_ne ?_
  rintro ⟨rfl, -⟩
  have := ht.forest.level_unique (Nat.le_of_lt hm) (Nat.le_refl 2) hp hat
  omega

theorem at_setLeaf (ht : TablesOk s dirs) {m u : Nat} (hm : m ≤ 2) :
    (tableShape dirs).At (child (s.setPte t i w)) m u ↔ (tableShape dirs).At (child s) m u :=
  At.congr_iff fun _ _ _ hlt hp _ => child_setLeaf hat ht (by omega) hp

theorem isTable_setLeaf (ht : TablesOk s dirs) (u : Nat) :
    IsTable (s.setPte t i w) dirs u ↔ IsTable s dirs u := by
  constructor
  · rintro ⟨m, hm, hu⟩
    exact ⟨m, hm, (at_setLeaf hat ht hm).mp hu⟩
  · rintro ⟨m, hm, hu⟩
    exact ⟨m, hm, (at_setLeaf hat ht hm).mpr hu⟩

theorem TablesOk.setLeaf (ht : TablesOk s dirs) : TablesOk (s.setPte t i w) dirs where
  dir_lt := ht.dir_lt
  dir_self d hd := by
    have hat0 : (tableShape dirs).At (child s) 0 d := hd
    rw [child_setLeaf hat ht (by omega) hat0]
    exact ht.dir_self d hd
  forest := ht.forest.congr fun _ _ _ hm hp _ => child_setLeaf hat ht hm hp

theorem leafSlot_setLeaf (ht : TablesOk s dirs) (hd : d ∈ dirs)
    (hva : GET_L1_INDEX va ≠ uvptIndex) :
    leafSlot (s.setPte t i w) d va = leafSlot s d va := by
  have hat0 : (tableShape dirs).At (child s) 0 d := hd
  unfold leafSlot
  simp only [radixWalk]
  rw [child_setLeaf hat ht (by omega) hat0]
  cases hc : child s d (GET_L1_INDEX va) with
  | none => rfl
  | some v =>
      have hat1 : (tableShape dirs).At (child s) 1 v := ⟨d, _, hat0, slotOk_l1 dirs hva, hc⟩
      simp only [Option.bind_some]
      rw [child_setLeaf hat ht (by omega) hat1]

/-- The count of a page moves by the difference of what the slot names. -/
theorem entryCount_setLeaf (ht : TablesOk s dirs) (hi : i < PTE2PT) (p : Nat) :
    entryCount (s.setPte t i w) dirs p + (if child s t i = some p then 1 else 0)
      = entryCount s dirs p +
        (if child (s.setPte t i w) t i = some p then 1 else 0) := by
  have hslots : tableSlots (s.setPte t i w) dirs = tableSlots s dirs := by
    ext x
    rw [mem_tableSlots, mem_tableSlots, isTable_setLeaf hat ht]
  have hx := ht.mem_tableSlots (isTable_of_at (Nat.le_refl 2) hat) hi
  have h := slotCount_write hx (f := fun x => child s x.1 x.2)
    (g := fun x => child (s.setPte t i w) x.1 x.2)
    (fun y _ hne => child_setPte_of_ne fun h => hne (Prod.ext h.1 h.2)) p
  rw [entryCount, hslots]
  exact h

end SetLeaf

/-- From `s` to `s'` the leaf entry of the page of `va` below `d` became `new`,
    and nothing else that a user can read changed. -/
structure LeafSet (dirs : Finset Nat) (d : Nat) (va : Word) (new : Option Word)
    (s s' : Pmap) : Prop where
  here : mapping s' d va = new
  other : ∀ {d' va'}, d' ∈ dirs → GET_L1_INDEX va' ≠ uvptIndex →
    ¬ (d' = d ∧ pageIdx va' = pageIdx va) → mapping s' d' va' = mapping s d' va'
  data : ∀ {p}, visBit s p = true → ¬ IsTable s dirs p → s'.mem p = s.mem p
  table : ∀ {p}, visBit s p = true → (IsTable s' dirs p ↔ IsTable s dirs p)
  pa : ∀ p, (s'.pages p).pa = (s.pages p).pa

theorem mapping_congr_page (h : pageIdx va' = pageIdx va) : mapping s d va' = mapping s d va := by
  simp only [pageIdx, Prod.mk.injEq] at h
  simp only [mapping, leafSlot, h.1, h.2.1, h.2.2]

/-- Tables, mappings and counts read physical memory only. -/
theorem child_eq_of_mem (h : s'.mem = s.mem) : child s' = child s := by
  funext t i
  exact child_congr (by rw [h])

theorem mapping_eq_of_mem (h : s'.mem = s.mem) (d : Nat) (va : Word) :
    mapping s' d va = mapping s d va := by
  simp only [mapping, leafSlot, child_eq_of_mem h, h]

theorem leafSlot_eq_of_mem (h : s'.mem = s.mem) (d : Nat) (va : Word) :
    leafSlot s' d va = leafSlot s d va := by
  simp only [leafSlot, child_eq_of_mem h]

theorem isTable_eq_of_mem (h : s'.mem = s.mem) (u : Nat) :
    IsTable s' dirs u ↔ IsTable s dirs u := by
  simp only [IsTable, child_eq_of_mem h]

theorem entryCount_eq_of_mem (h : s'.mem = s.mem) (p : Nat) :
    entryCount s' dirs p = entryCount s dirs p := by
  have hslots : tableSlots s' dirs = tableSlots s dirs := by
    ext x
    rw [mem_tableSlots, mem_tableSlots, isTable_eq_of_mem h]
  rw [entryCount, entryCount, hslots, child_eq_of_mem h]

theorem TablesOk.of_mem (ht : TablesOk s dirs) (h : s'.mem = s.mem) : TablesOk s' dirs where
  dir_lt := ht.dir_lt
  dir_self := by rw [child_eq_of_mem h]; exact ht.dir_self
  forest := by rw [child_eq_of_mem h]; exact ht.forest

/-- Writing the leaf slot of a user page sets the mapping of that page. -/
theorem leafSet_setPte (ht : TablesOk s dirs) (hd : d ∈ dirs)
    (hva : GET_L1_INDEX va ≠ uvptIndex) (hx : leafSlot s d va = some (t, i))
    (hmem : s'.mem = (s.setPte t i w).mem) (hpa : ∀ p, (s'.pages p).pa = (s.pages p).pa) :
    LeafSet dirs d va (if isValid w then some w else none) s s' := by
  obtain ⟨hat, -⟩ := leafSlot_at hd hva hx
  constructor
  · rw [mapping_eq_of_mem hmem, mapping_of_leafSlot ((leafSlot_setLeaf hat ht hd hva).trans hx),
      Pmap.setPte_mem_self]
  · intro d' va' hd' hva' hne
    have hslot := leafSlot_setLeaf (i := i) (w := w) hat ht hd' hva'
    rw [mapping_eq_of_mem hmem]
    cases hx' : leafSlot s d' va' with
    | none =>
        rw [mapping_of_leafSlot_none (hslot.trans hx'), mapping_of_leafSlot_none hx']
    | some x =>
        obtain ⟨t', i'⟩ := x
        have hti : ¬ (t' = t ∧ i' = i) := by
          rintro ⟨rfl, rfl⟩
          exact hne (leafSlot_inj ht hd' hd hva' hva hx' hx)
        rw [mapping_of_leafSlot (hslot.trans hx'), mapping_of_leafSlot hx',
          Pmap.setPte_mem_of_ne hti]
  · intro p _ hnt
    have hne : p ≠ t := fun h => hnt (h ▸ isTable_of_at (Nat.le_refl 2) hat)
    funext k
    rw [hmem]
    exact Pmap.setPte_mem_of_ne fun h => hne h.1
  · intro p _
    rw [isTable_eq_of_mem hmem]
    exact isTable_setLeaf hat ht p
  · exact hpa

/-! ## Writes outside the tables -/

section OutsideTables

variable (h : ∀ t, IsTable s dirs t → s'.mem t = s.mem t)

include h

theorem at_of_tables {m u : Nat} (hm : m ≤ 2) :
    (tableShape dirs).At (child s') m u ↔ (tableShape dirs).At (child s) m u :=
  At.congr_iff fun _ p _ hlt hp _ =>
    child_congr (congrFun (h p (isTable_of_at (by omega) hp)) _)

theorem isTable_of_tables (u : Nat) : IsTable s' dirs u ↔ IsTable s dirs u := by
  constructor
  · rintro ⟨m, hm, hu⟩
    exact ⟨m, hm, (at_of_tables h hm).mp hu⟩
  · rintro ⟨m, hm, hu⟩
    exact ⟨m, hm, (at_of_tables h hm).mpr hu⟩

theorem TablesOk.of_tables (ht : TablesOk s dirs) : TablesOk s' dirs where
  dir_lt := ht.dir_lt
  dir_self d hd := by
    have hat0 : (tableShape dirs).At (child s) 0 d := hd
    rw [child_congr (congrFun (h d (isTable_of_at (by omega) hat0)) _)]
    exact ht.dir_self d hd
  forest := ht.forest.congr fun _ p _ hm hp _ =>
    child_congr (congrFun (h p (isTable_of_at (by omega) hp)) _)

theorem leafSlot_of_tables (hd : d ∈ dirs) (hva : GET_L1_INDEX va ≠ uvptIndex) :
    leafSlot s' d va = leafSlot s d va := by
  have hat0 : (tableShape dirs).At (child s) 0 d := hd
  unfold leafSlot
  simp only [radixWalk]
  rw [child_congr (congrFun (h d (isTable_of_at (by omega) hat0)) _)]
  cases hc : child s d (GET_L1_INDEX va) with
  | none => rfl
  | some v =>
      have hat1 : (tableShape dirs).At (child s) 1 v := ⟨d, _, hat0, slotOk_l1 dirs hva, hc⟩
      simp only [Option.bind_some]
      rw [child_congr (congrFun (h v (isTable_of_at (by omega) hat1)) _)]

theorem mapping_of_tables (hd : d ∈ dirs) (hva : GET_L1_INDEX va ≠ uvptIndex) :
    mapping s' d va = mapping s d va := by
  have hslot := leafSlot_of_tables h hd hva
  cases hx : leafSlot s d va with
  | none => rw [mapping_of_leafSlot_none (hslot.trans hx), mapping_of_leafSlot_none hx]
  | some x =>
      obtain ⟨t, i⟩ := x
      have hat := (leafSlot_at hd hva hx).1
      rw [mapping_of_leafSlot (hslot.trans hx), mapping_of_leafSlot hx,
        h t (isTable_of_at (Nat.le_refl 2) hat)]

theorem entryCount_of_tables (p : Nat) : entryCount s' dirs p = entryCount s dirs p := by
  have hslots : tableSlots s' dirs = tableSlots s dirs := by
    ext x
    rw [mem_tableSlots, mem_tableSlots, isTable_of_tables h]
  rw [entryCount, entryCount, hslots]
  refine slotCount_congr p fun x hx => child_congr ?_
  rw [h x.1 (mem_tableSlots.mp hx).2]

theorem PmapWf.of_tables (hI : PmapWf boot dirs s) (hpages : s'.pages = s.pages) :
    PmapWf boot dirs s' where
  pa p hp := by rw [hpages]; exact hI.pa p hp
  tables := hI.tables.of_tables h
  refs p hp := by
    rw [hpages, entryCount_of_tables h]
    exact hI.refs p hp
  boot_le := hI.boot_le

end OutsideTables

/-- `page_alloc` marks and clears a page that nothing names: no table and no
    mapping changes. -/
theorem pageAlloc_inv (hI : PmapInv boot dirs s) (halloc : pageAlloc s = some (pp, s₁)) :
    PmapInv boot dirs s₁ ∧ Grown dirs s s₁ ∧ ¬ IsTable s₁ dirs pp := by
  obtain ⟨hpp, hvis, -, hmono, hpages, hmem⟩ := pageAlloc_spec halloc
  obtain ⟨-, -, hnt⟩ := hI.unused hpp hvis
  have hne : ∀ {p}, visBit s p = true → p ≠ pp := by
    rintro p hv rfl
    rw [hvis] at hv
    cases hv
  have htab : ∀ t, IsTable s dirs t → s₁.mem t = s.mem t := by
    intro t ht
    funext k
    rw [hmem]
    simp [hne (hI.visBit_table ht)]
  refine ⟨⟨hI.of_tables htab hpages, ?_⟩,
    { map_eq := fun hd hva => mapping_of_tables htab hd hva
      child_mono := ?_, data := ?_, ref := ?_, vis := ?_, table := ?_, pa := ?_ }, ?_⟩
  · intro p hp hv
    rw [hpages]
    exact hI.alloc p hp (hmono p hv)
  · intro t i u ht hc
    rw [child_congr (congrFun (htab t ht) i), hc]
  · intro p hv _
    funext k
    rw [hmem]
    simp [hne hv]
  · intro p _
    rw [hpages]
  · intro p hv
    by_contra hf
    rw [Bool.not_eq_true] at hf
    rw [hmono p hf] at hv
    cases hv
  · intro p _
    exact isTable_of_tables htab p
  · intro p
    rw [hpages]
  · rwa [isTable_of_tables htab]

end RpiMos
