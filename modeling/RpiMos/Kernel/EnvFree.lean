/-
  RpiMos.Kernel.EnvFree

  `env_free`: the loops that take an address space apart, leaf entries first,
  then the tables, then the directory.  Each turn drops one slot that names a
  page and gives that page one reference less (`dropSlot`), so the counts stay
  exact all the way down.
-/

import RpiMos.Kernel.Env
import RpiMos.Mm.PageFrame

namespace RpiMos

open Lib RadixShape

variable {boot : Nat → Nat} {dirs : Finset Nat} {s s' s₀ s₁ : Pmap} {d t i p q n : Nat} {w va : Word}

/-! ## What is given back -/

/-- From `s` to `s'` references were only dropped, and exactly the pages that
    lost their last one became allocatable. -/
structure Freed (s s' : Pmap) : Prop where
  le : ∀ p, (s'.pages p).ref.toNat ≤ (s.pages p).ref.toNat
  vis : ∀ p, visBit s' p =
    (visBit s p && !decide ((s'.pages p).ref = 0 ∧ (s.pages p).ref ≠ 0))

theorem Freed.refl (s : Pmap) : Freed s s :=
  ⟨fun _ => Nat.le_refl _, fun p => by simp⟩

theorem Freed.trans (h : Freed s s₁) (h' : Freed s₁ s') : Freed s s' := by
  refine ⟨fun p => Nat.le_trans (h'.le p) (h.le p), fun p => ?_⟩
  have hle := h'.le p
  have hle₀ := h.le p
  rw [h'.vis, h.vis, Bool.and_assoc]
  congr 1
  -- A count that is 0 stays 0.
  have hzero : (s₁.pages p).ref = 0 → (s'.pages p).ref = 0 := by
    intro h0
    rw [h0] at hle
    exact BitVec.eq_of_toNat_eq (Nat.le_zero.mp hle)
  have hzero₀ : (s.pages p).ref = 0 → (s₁.pages p).ref = 0 := by
    intro h0
    rw [h0] at hle₀
    exact BitVec.eq_of_toNat_eq (Nat.le_zero.mp hle₀)
  by_cases h₀ : (s.pages p).ref = 0 <;> by_cases h₁ : (s₁.pages p).ref = 0 <;>
    by_cases h₂ : (s'.pages p).ref = 0 <;> simp_all

/-- Freed pages are read off the counts and the bitmap. -/
theorem Freed.congr (h : Freed s s₁) (hpages : s'.pages = s₁.pages) (hvis : s'.vis = s₁.vis) :
    Freed s s' := by
  refine ⟨fun p => by rw [hpages]; exact h.le p, fun p => ?_⟩
  rw [visBit, hvis, hpages]
  exact h.vis p

/-! ## Dropping a slot -/

/-- The slot is cleared and the page it named loses a reference. -/
def dropSlot (s : Pmap) (t i p : Nat) : Pmap := (pageFree (s.decRef p) p).setPte t i 0

theorem dropSlot_mem (s : Pmap) (t i p : Nat) : (dropSlot s t i p).mem = (s.setPte t i 0).mem := by
  simp only [dropSlot, Pmap.setPte, pageFree_mem, Pmap.decRef_mem]

theorem dropSlot_pages (s : Pmap) (t i p : Nat) : (dropSlot s t i p).pages = (s.decRef p).pages := by
  rw [dropSlot, Pmap.setPte_pages, pageFree_pages]

/-- The turns for tables write the slot first. -/
theorem pageDecref_setPte (s : Pmap) (t i p : Nat) :
    pageDecref (s.setPte t i 0) p = dropSlot s t i p := by
  have hpages : (s.setPte t i 0).decRef p = (s.decRef p).setPte t i 0 := rfl
  rw [pageDecref, dropSlot, hpages]
  unfold pageFree
  rw [Pmap.setPte_pages]
  split <;> rfl

theorem dropSlot_freed (hpos : 0 < (s.pages p).ref.toNat) : Freed s (dropSlot s t i p) := by
  have hsub := toNat_sub_one hpos
  refine ⟨fun q => ?_, fun q => ?_⟩
  · rw [dropSlot_pages, decRef_ref]
    split
    · rename_i hq
      rw [hq, hsub]
      omega
    · exact Nat.le_refl _
  · have hvis : visBit (dropSlot s t i p) q = visBit (pageFree (s.decRef p) p) q := rfl
    rw [hvis, visBit_pageFree_eq, dropSlot_pages, decRef_ref, decRef_ref, if_pos rfl]
    have hold : visBit (s.decRef p) q = visBit s q := rfl
    rw [hold]
    congr 1
    by_cases hq : q = p
    · subst hq
      have hne : (s.pages q).ref ≠ 0 := by
        intro h0
        rw [h0] at hpos
        exact absurd hpos (by decide)
      simp only [hne, if_true, true_and, ne_eq, not_false_eq_true, and_true]
    · have hsame : ¬ ((s.pages q).ref = 0 ∧ (s.pages q).ref ≠ 0) := fun h => h.2 h.1
      simp only [hq, if_false, false_and, hsame]

section DropSlot

variable (hs : PmapSound boot dirs s) (hn : n ≤ 2) (hat : (tableShape dirs).At (child s) n t)
  (hslot : (tableShape dirs).slotOk n i) (hc : child s t i = some p)
  (hempty : n < 2 → ∀ k < PTE2PT, child s p k = none)

theorem child_dropSlot_self (s : Pmap) (t i p : Nat) : child (dropSlot s t i p) t i = none := by
  have hv : isValid 0 = false := by decide
  rw [child_eq_of_mem (dropSlot_mem s t i p), child_setPte_self, hv]
  rfl

theorem child_dropSlot_of_ne {t' i' : Nat} (h : ¬ (t' = t ∧ i' = i)) :
    child (dropSlot s t i p) t' i' = child s t' i' := by
  rw [child_eq_of_mem (dropSlot_mem s t i p), child_setPte_of_ne h]

include hs hat hslot hc hn in
theorem ref_pos_of_slot : 0 < (s.pages p).ref.toNat := by
  have hpos : 0 < entryCount s dirs p :=
    slotCount_pos (hs.tables.mem_tableSlots (isTable_of_at hn hat) hslot.1) hc
  have := hs.refs p (child_lt hc)
  omega

include hs hn hat hslot hc hempty

omit hs in
theorem dropSlot_prune :
    (tableShape dirs).Prune (child s) (child (dropSlot s t i p)) 2 n t i p where
  le := hn
  parent := hat
  slot := hslot
  named := hc
  clear := child_dropSlot_self s t i p
  empty hlt k hk := hempty hlt k hk.1
  same _ _ h := child_dropSlot_of_ne h

theorem tablesOk_dropSlot : TablesOk (dropSlot s t i p) dirs := by
  have g := dropSlot_prune hn hat hslot hc hempty
  refine ⟨hs.tables.dir_lt, fun d hd => ?_, g.forest hs.tables.forest⟩
  rw [child_dropSlot_of_ne]
  · exact hs.tables.dir_self d hd
  · -- The slot dropped is no self-map slot.
    rintro ⟨rfl, rfl⟩
    have hat0 : (tableShape dirs).At (child s) 0 d := hd
    have h0 : 0 = n := hs.tables.forest.level_unique (by omega) hn hat0 hat
    exact hslot.2 h0.symm rfl

/-- The page named loses one in its count, and no other page does. -/
theorem entryCount_dropSlot (q : Nat) :
    entryCount (dropSlot s t i p) dirs q + (if q = p then 1 else 0) = entryCount s dirs q := by
  have g := dropSlot_prune hn hat hslot hc hempty
  have hsub : tableSlots (dropSlot s t i p) dirs ⊆ tableSlots s dirs := by
    intro x hx
    rw [mem_tableSlots] at hx ⊢
    obtain ⟨hlt, m, hm, hat⟩ := hx
    exact ⟨hlt, m, hm, hat.mono g.sub⟩
  have hti : (t, i) ∈ tableSlots (dropSlot s t i p) dirs :=
    (tablesOk_dropSlot hs hn hat hslot hc hempty).mem_tableSlots
      (isTable_of_at hn (g.parent' hs.tables.forest)) hslot.1
  -- The slots of the table that is lost name nothing.
  have hfresh : entryCount s dirs q =
      slotCount (tableSlots (dropSlot s t i p) dirs) (fun x => child s x.1 x.2) q := by
    refine slotCount_of_fresh hsub (fun x hx hxn => ?_) q
    rw [mem_tableSlots] at hx hxn
    obtain ⟨hlt, m, hm, hat⟩ := hx
    rcases (g.at_iff hs.tables.forest hm x.1).mp hat with h | ⟨hmn, hx⟩
    · exact absurd ⟨hlt, m, hm, h⟩ hxn
    · rw [hx]
      exact hempty (by omega) x.2 hlt.2
  have hwrite := slotCount_write hti (f := fun x => child s x.1 x.2)
    (g := fun x => child (dropSlot s t i p) x.1 x.2)
    (fun x _ hne => child_dropSlot_of_ne fun h => hne (Prod.ext h.1 h.2)) q
  have hold : slotShare (fun x : Nat × Nat => child s x.1 x.2) (t, i) q =
      if q = p then 1 else 0 := by
    simp [slotShare, hc, eq_comm]
  have hnew : slotShare (fun x : Nat × Nat => child (dropSlot s t i p) x.1 x.2) (t, i) q = 0 := by
    simp [slotShare, child_dropSlot_self]
  rw [hfresh, entryCount]
  omega

/-- No mapping appears. -/
theorem mapping_dropSlot {d : Nat} {e : Word} (he : mapping (dropSlot s t i p) d va = some e) :
    mapping s d va = some e := by
  have g := dropSlot_prune hn hat hslot hc hempty
  obtain ⟨t', i', hx, hv, rfl⟩ := mapping_eq_some.mp he
  have hne : ¬ (t' = t ∧ i' = i) := by
    rintro ⟨rfl, rfl⟩
    have hnone := child_dropSlot_self s t' i' p
    rw [child_eq_none, hv] at hnone
    cases hnone
  rw [dropSlot_mem, Pmap.setPte_mem_of_ne hne] at hv ⊢
  refine mapping_eq_some.mpr ⟨t', i', ?_, hv, rfl⟩
  obtain ⟨u, hu, hux⟩ := Option.map_eq_some_iff.mp hx
  cases hux
  simp only [radixWalk] at hu
  obtain ⟨v, hv₁, hvu⟩ := Option.bind_eq_some_iff.mp hu
  obtain ⟨u', hu', hwu⟩ := Option.bind_eq_some_iff.mp hvu
  cases hwu
  simp [leafSlot, radixWalk, g.sub _ _ _ hv₁, g.sub _ _ _ hu']

theorem PmapSound.dropSlot : PmapSound boot dirs (RpiMos.dropSlot s t i p) := by
  have hpos := ref_pos_of_slot hs hn hat hslot hc
  refine ⟨⟨⟨fun q hq => ?_, tablesOk_dropSlot hs hn hat hslot hc hempty, fun q hq => ?_,
    hs.boot_le⟩, ?_⟩, fun d hd va e hva he => ?_⟩
  · rw [dropSlot_pages, decRef_pa]
    exact hs.pa q hq
  · have hcount := entryCount_dropSlot hs hn hat hslot hc hempty q
    have href := hs.refs q hq
    rw [dropSlot_pages, decRef_ref]
    by_cases hqp : q = p
    · subst hqp
      rw [if_pos rfl] at hcount
      rw [if_pos rfl, toNat_sub_one hpos]
      omega
    · rw [if_neg hqp] at hcount
      rw [if_neg hqp]
      omega
  · exact hs.alloc.decref (child_lt hc) hpos rfl (dropSlot_pages s t i p)
  · exact hs.clear d hd va e hva (mapping_dropSlot hs hn hat hslot hc hempty he)

end DropSlot

/-! ## The loops -/

section Teardown

/-- The address space of directory `d` is being taken apart: its self-map slot
    `w` is cleared already, and with it back in place everything is in order. -/
structure Teardown (boot : Nat → Nat) (dirs : Finset Nat) (d : Nat) (w : Word) (s₀ s : Pmap) :
    Prop where
  sound : PmapSound boot dirs (s.setPte d uvptIndex w)
  self : isValid (s.mem d uvptIndex) = false
  freed : Freed s₀ s
  sub : ∀ t i u, child s t i = some u → child s₀ t i = some u
  kept : ∀ t, IsTable s₀ (dirs.erase d) t → s.mem t = s₀.mem t

variable (hd : d ∈ dirs) (ht₀ : TablesOk s₀ dirs)

/-- Slots that lead down do not show the difference. -/
theorem child_mask (h : ¬ (t = d ∧ i = uvptIndex)) :
    child (s.setPte d uvptIndex w) t i = child s t i := child_setPte_of_ne h

include hd in
theorem Teardown.at_mask (h : Teardown boot dirs d w s₀ s)
    (hat : (tableShape {d}).At (child s) n t) (hn : n ≤ 2) :
    (tableShape dirs).At (child (s.setPte d uvptIndex w)) n t := by
  induction n generalizing t with
  | zero =>
      rw [Finset.mem_singleton.mp hat]
      exact hd
  | succ n ih =>
      obtain ⟨p, i, hp, hi, hc⟩ := hat
      have hp' := ih hp (by omega)
      refine ⟨p, i, hp', hi, (child_mask ?_).trans hc⟩
      rintro ⟨rfl, rfl⟩
      have hat0 : (tableShape dirs).At (child (s.setPte p uvptIndex w)) 0 p := hd
      have h0 : 0 = n := h.sound.tables.forest.level_unique (by omega) (by omega) hat0 hp'
      exact hi.2 h0.symm rfl

/-- A slot below `d` is not the self-map slot. -/
theorem Teardown.slot_ne (h : Teardown boot dirs d w s₀ s) (hd : d ∈ dirs)
    (hat : (tableShape {d}).At (child s) n t) (hn : n ≤ 2)
    (hslot : (tableShape dirs).slotOk n i) : ¬ (t = d ∧ i = uvptIndex) := by
  rintro ⟨rfl, rfl⟩
  have hat' := h.at_mask hd hat hn
  have hat0 : (tableShape dirs).At (child (s.setPte t uvptIndex w)) 0 t := hd
  have h0 : 0 = n := h.sound.tables.forest.level_unique (by omega) hn hat0 hat'
  exact hslot.2 h0.symm rfl

include hd ht₀ in
/-- One turn: a slot below `d` is dropped, when nothing hangs below it any more. -/
theorem Teardown.drop (h : Teardown boot dirs d w s₀ s) (hn : n ≤ 2)
    (hat : (tableShape {d}).At (child s) n t) (hslot : (tableShape dirs).slotOk n i)
    (hc : child s t i = some p) (hempty : n < 2 → ∀ k < PTE2PT, child s p k = none) :
    Teardown boot dirs d w s₀ (dropSlot s t i p) := by
  have hne := h.slot_ne hd hat hn hslot
  have hat' := h.at_mask hd hat hn
  have hc' : child (s.setPte d uvptIndex w) t i = some p := (child_mask hne).trans hc
  have hcomm : (dropSlot s t i p).setPte d uvptIndex w =
      dropSlot (s.setPte d uvptIndex w) t i p := by
    unfold dropSlot pageFree
    have hpages : ((s.setPte d uvptIndex w).decRef p).pages = (s.decRef p).pages := rfl
    rw [hpages]
    have hmem : ∀ x : Pmap, (x.setPte t i 0).setPte d uvptIndex w =
        (x.setPte d uvptIndex w).setPte t i 0 := by
      intro x
      simp only [Pmap.setPte, Pmap.mk.injEq, and_true]
      funext t' i'
      by_cases h₁ : t' = d ∧ i' = uvptIndex
      · have h₂ : ¬ (t' = t ∧ i' = i) :=
          fun h₂ => hne ⟨h₂.1.symm.trans h₁.1, h₂.2.symm.trans h₁.2⟩
        rw [if_pos h₁, if_neg h₂, if_pos h₁]
      · rw [if_neg h₁, if_neg h₁]
    split <;> exact hmem _
  have hempty' : n < 2 → ∀ k < PTE2PT, child (s.setPte d uvptIndex w) p k = none := by
    intro hlt k hk
    rw [child_mask]
    · exact hempty hlt k hk
    · rintro ⟨rfl, rfl⟩
      have hat0 : (tableShape dirs).At (child (s.setPte p uvptIndex w)) 0 p := hd
      have hatp : (tableShape dirs).At (child (s.setPte p uvptIndex w)) (n + 1) p :=
        ⟨t, i, hat', hslot, hc'⟩
      have h0 := h.sound.tables.forest.level_unique (by omega) hlt hat0 hatp
      omega
  have hpos : 0 < ((s.setPte d uvptIndex w).pages p).ref.toNat :=
    ref_pos_of_slot h.sound hn hat' hslot hc'
  refine ⟨?_, ?_, h.freed.trans (dropSlot_freed hpos), fun t' i' u hu => ?_, fun t' ht' => ?_⟩
  · rw [hcomm]
    exact h.sound.dropSlot hn hat' hslot hc' hempty'
  · rw [dropSlot_mem, Pmap.setPte_mem_of_ne fun hx => hne ⟨hx.1.symm, hx.2.symm⟩]
    exact h.self
  · refine h.sub t' i' u ?_
    rw [← child_dropSlot_of_ne (p := p), hu]
    rintro ⟨rfl, rfl⟩
    rw [child_dropSlot_self] at hu
    cases hu
  · -- A table below `d` is no table of another directory.
    have hbelow : IsTable s₀ {d} t := ⟨n, hn, hat.mono h.sub⟩
    have htt : t' ≠ t := by
      rintro rfl
      exact not_isTable_both ht₀ hd ht' hbelow
    rw [← h.kept t' ht', dropSlot_mem]
    funext k
    exact Pmap.setPte_mem_of_ne fun hx => htt hx.1

/-- The address that the loops build for slot `k` of slot `j` of slot `i`. -/
theorem pageIdx_loopVa {i j k : Nat} (hi : i < PTE2PT) (hj : j < PTE2PT) (hk : k < PTE2PT) :
    pageIdx (BitVec.ofNat 64 (i <<< 30 ||| j <<< 21 ||| k <<< 12)) = (i, j, k) := by
  rw [PTE2PT] at hi hj hk
  have hval : i <<< 30 ||| j <<< 21 ||| k <<< 12 = i * 2 ^ 30 + j * 2 ^ 21 + k * 2 ^ 12 := by
    have hlow : j <<< 21 ||| k <<< 12 = 2 ^ 21 * j + k * 2 ^ 12 := by
      rw [Nat.shiftLeft_eq, Nat.shiftLeft_eq, Nat.mul_comm j,
        Nat.two_pow_add_eq_or_of_lt (by omega)]
    rw [Nat.or_assoc, hlow, Nat.shiftLeft_eq, Nat.mul_comm i,
      ← Nat.two_pow_add_eq_or_of_lt (by omega)]
    omega
  have hnat : (BitVec.ofNat 64 (i <<< 30 ||| j <<< 21 ||| k <<< 12)).toNat =
      i * 2 ^ 30 + j * 2 ^ 21 + k * 2 ^ 12 := by
    rw [hval, BitVec.toNat_ofNat, Nat.mod_eq_of_lt (by omega)]
  rw [pageIdx, GET_L1_INDEX_eq, GET_L2_INDEX_eq, GET_L3_INDEX_eq, hnat]
  simp only [Prod.mk.injEq]
  omega

theorem leafSlot_of_path {u v : Nat} (h₁ : child s d (GET_L1_INDEX va) = some u)
    (h₂ : child s u (GET_L2_INDEX va) = some v) : leafSlot s d va = some (v, GET_L3_INDEX va) := by
  simp [leafSlot, radixWalk, h₁, h₂]

/-- Removing a leaf entry that is there drops its slot. -/
theorem pageRemove_eq_dropSlot (hx : leafSlot s d va = some (t, i))
    (hv : isValid (s.mem t i) = true) (hclear : s.mem t i &&& highAddrBits = 0) :
    pageRemove s d va = dropSlot s t i (pteFrame (s.mem t i)) := by
  rw [pageRemove_of_leafSlot hx hv, (pa2page_eq_pteFrame_iff _).mpr hclear, dropSlot]

section Loops

variable {pt1 pt2 j k : Nat} (h : Teardown boot dirs d w s₀ s) (hi : i < PTE2PT)
  (hiu : i ≠ uvptIndex) (hj : j < PTE2PT) (hc₁ : child s d i = some pt1)
  (hc₂ : child s pt1 j = some pt2)

include hi hiu hj hc₁ hc₂ in
/-- The tables that the loops are at stand at levels 1 and 2 below `d`. -/
theorem at_path : (tableShape {d}).At (child s) 1 pt1 ∧ (tableShape {d}).At (child s) 2 pt2 := by
  have hat0 : (tableShape {d}).At (child s) 0 d := Finset.mem_singleton_self d
  have hat1 : (tableShape {d}).At (child s) 1 pt1 := ⟨d, i, hat0, ⟨hi, fun _ => hiu⟩, hc₁⟩
  exact ⟨hat1, pt1, j, hat1, ⟨hj, fun h => absurd h (by decide)⟩, hc₂⟩

include hd in
/-- Tables at different levels below `d` are different. -/
theorem Teardown.ne_of_level (h : Teardown boot dirs d w s₀ s) {m n t u : Nat} (hm : m ≤ 2)
    (hn : n ≤ 2) (hmn : m ≠ n) (ht : (tableShape {d}).At (child s) m t)
    (hu : (tableShape {d}).At (child s) n u) : t ≠ u := by
  rintro rfl
  exact hmn (h.sound.tables.forest.level_unique hm hn (h.at_mask hd ht hm) (h.at_mask hd hu hn))

include hd ht₀ h hi hiu hj hc₁ hc₂

/-- One turn of the innermost loop empties slot `k` and touches no other word. -/
theorem Teardown.leafTurn (hk : k < PTE2PT) :
    ∃ s', (if isValid (s.mem pt2 k) then
        pageRemove s d (BitVec.ofNat 64 (i <<< 30 ||| j <<< 21 ||| k <<< 12)) else s) = s' ∧
      Teardown boot dirs d w s₀ s' ∧ child s' pt2 k = none ∧
      ∀ t' k', ¬ (t' = pt2 ∧ k' = k) → s'.mem t' k' = s.mem t' k' := by
  have hidx := pageIdx_loopVa hi hj hk
  generalize BitVec.ofNat 64 (i <<< 30 ||| j <<< 21 ||| k <<< 12) = va at hidx ⊢
  obtain ⟨h₁, h₂, h₃⟩ : GET_L1_INDEX va = i ∧ GET_L2_INDEX va = j ∧ GET_L3_INDEX va = k := by
    simpa [pageIdx] using hidx
  by_cases hv : isValid (s.mem pt2 k) = true
  · obtain ⟨hat1, hat2⟩ := at_path hi hiu hj hc₁ hc₂
    have hslot : leafSlot s d va = some (pt2, k) := by
      rw [← h₃]
      exact leafSlot_of_path (h₁ ▸ hc₁) (h₂ ▸ hc₂)
    have hok : (tableShape dirs).slotOk 2 k := ⟨hk, fun h => absurd h (by decide)⟩
    -- With the self-map entry back in place the entry is one that a user can read.
    have hclear : s.mem pt2 k &&& highAddrBits = 0 := by
      have hne := h.slot_ne hd hat2 (Nat.le_refl 2) hok
      have hat0 : (tableShape {d}).At (child s) 0 d := Finset.mem_singleton_self d
      have hpt1 := h.ne_of_level hd (by omega) (by omega) (by omega) hat1 hat0
      have hd₁ : child (s.setPte d uvptIndex w) d i = some pt1 :=
        (child_mask fun hx => hiu hx.2).trans hc₁
      have hd₂ : child (s.setPte d uvptIndex w) pt1 j = some pt2 :=
        (child_mask fun hx => hpt1 hx.1).trans hc₂
      have hmask : leafSlot (s.setPte d uvptIndex w) d va = some (pt2, k) := by
        rw [← h₃]
        exact leafSlot_of_path (h₁ ▸ hd₁) (h₂ ▸ hd₂)
      have hmem := Pmap.setPte_mem_of_ne (s := s) (w := w) hne
      refine h.sound.clear d hd _ _ (by rw [h₁]; exact hiu) (mapping_eq_some.mpr ⟨pt2, k, hmask, ?_, hmem⟩)
      rw [hmem]
      exact hv
    rw [if_pos hv, pageRemove_eq_dropSlot hslot hv hclear]
    refine ⟨_, rfl, h.drop hd ht₀ (Nat.le_refl 2) hat2 hok (child_of_valid hv)
      (fun h => absurd h (by decide)), child_dropSlot_self _ _ _ _, fun t' k' hne => ?_⟩
    rw [dropSlot_mem, Pmap.setPte_mem_of_ne hne]
  · rw [if_neg hv]
    exact ⟨s, rfl, h, child_eq_none.mpr (by simpa using hv), fun _ _ _ => rfl⟩

/-- The innermost loop empties its table and touches no other. -/
theorem Teardown.leaves : Teardown boot dirs d w s₀ (envFreeLeaves d pt2 i j s) ∧
    (∀ k < PTE2PT, child (envFreeLeaves d pt2 i j s) pt2 k = none) ∧
    ∀ t, t ≠ pt2 → (envFreeLeaves d pt2 i j s).mem t = s.mem t := by
  obtain ⟨hat1, hat2⟩ := at_path hi hiu hj hc₁ hc₂
  have hat0 : (tableShape {d}).At (child s) 0 d := Finset.mem_singleton_self d
  have hd2 := h.ne_of_level hd (by omega) (by omega) (by omega) hat0 hat2
  have h12 := h.ne_of_level hd (by omega) (by omega) (by omega) hat1 hat2
  unfold envFreeLeaves
  refine foldl_range_invariant (n := PTE2PT) (P := fun k s' => Teardown boot dirs d w s₀ s' ∧
    (∀ m < k, child s' pt2 m = none) ∧ ∀ t, t ≠ pt2 → s'.mem t = s.mem t)
    ⟨h, fun m hm => absurd hm (Nat.not_lt_zero m), fun _ _ => rfl⟩ ?_
  rintro k s₁ hk ⟨h₁, hnone, hkeep⟩
  have hc₁' : child s₁ d i = some pt1 := (child_congr (congrFun (hkeep d hd2) i)).trans hc₁
  have hc₂' : child s₁ pt1 j = some pt2 := (child_congr (congrFun (hkeep pt1 h12) j)).trans hc₂
  obtain ⟨s₂, heq, h₂, hnone₂, hsame⟩ := Teardown.leafTurn hd ht₀ h₁ hi hiu hj hc₁' hc₂' hk
  rw [heq]
  refine ⟨h₂, fun m hm => ?_, fun t ht => ?_⟩
  · rcases Nat.lt_succ_iff_lt_or_eq.mp hm with hlt | rfl
    · rw [child_congr (hsame pt2 m fun hx => absurd hx.2 (Nat.ne_of_lt hlt))]
      exact hnone m hlt
    · exact hnone₂
  · rw [← hkeep t ht]
    funext k'
    exact hsame t k' fun hx => ht hx.1

omit hj hc₂

/-- The middle loop empties its table and leaves the directory alone. -/
theorem Teardown.tables : Teardown boot dirs d w s₀ (envFreeTables d pt1 i s) ∧
    (∀ k < PTE2PT, child (envFreeTables d pt1 i s) pt1 k = none) ∧
    (envFreeTables d pt1 i s).mem d = s.mem d := by
  unfold envFreeTables
  refine foldl_range_invariant (n := PTE2PT) (P := fun j s' => Teardown boot dirs d w s₀ s' ∧
    (∀ m < j, child s' pt1 m = none) ∧ s'.mem d = s.mem d)
    ⟨h, fun m hm => absurd hm (Nat.not_lt_zero m), rfl⟩ ?_
  rintro j s₁ hj ⟨h₁, hnone, hkeep⟩
  have hc₁' : child s₁ d i = some pt1 := (child_congr (congrFun hkeep i)).trans hc₁
  by_cases hv : isValid (s₁.mem pt1 j) = true
  · simp only [hv, if_true]
    have hc₂ : child s₁ pt1 j = some (pteFrame (s₁.mem pt1 j)) := child_of_valid hv
    obtain ⟨hat1, hat2⟩ := at_path hi hiu hj hc₁' hc₂
    have hat0 : (tableShape {d}).At (child s₁) 0 d := Finset.mem_singleton_self d
    have hd1 := h₁.ne_of_level hd (by omega) (by omega) (by omega) hat0 hat1
    have hd2 := h₁.ne_of_level hd (by omega) (by omega) (by omega) hat0 hat2
    have h12 := h₁.ne_of_level hd (by omega) (by omega) (by omega) hat1 hat2
    have hframe : pteFrame (PTE_ADDR (s₁.mem pt1 j)) = pteFrame (s₁.mem pt1 j) :=
      pteFrame_PTE_ADDR _
    rw [hframe, pa2page_PTE_ADDR, pageDecref_setPte]
    obtain ⟨h₂, hempty, hsame⟩ := Teardown.leaves hd ht₀ h₁ hi hiu hj hc₁' hc₂
    have hc₁'' : child (envFreeLeaves d (pteFrame (s₁.mem pt1 j)) i j s₁) d i = some pt1 :=
      (child_congr (congrFun (hsame d hd2) i)).trans hc₁'
    have hc₂' := (child_congr (congrFun (hsame pt1 h12) j)).trans hc₂
    obtain ⟨hat1', -⟩ := at_path hi hiu hj hc₁'' hc₂'
    refine ⟨h₂.drop hd ht₀ (by omega) hat1' ⟨hj, fun h => absurd h (by decide)⟩ hc₂'
      (fun _ => hempty), fun m hm => ?_, ?_⟩
    · rcases Nat.lt_succ_iff_lt_or_eq.mp hm with hlt | rfl
      · rw [child_dropSlot_of_ne (fun hx => absurd hx.2 (Nat.ne_of_lt hlt)),
          child_congr (congrFun (hsame pt1 h12) m)]
        exact hnone m hlt
      · exact child_dropSlot_self _ _ _ _
    · rw [← hkeep, ← hsame d hd2, dropSlot_mem]
      funext k'
      exact Pmap.setPte_mem_of_ne fun hx => hd1 hx.1
  · simp only [hv, Bool.false_eq_true, if_false]
    refine ⟨h₁, fun m hm => ?_, hkeep⟩
    rcases Nat.lt_succ_iff_lt_or_eq.mp hm with hlt | rfl
    · exact hnone m hlt
    · exact child_eq_none.mpr (by simpa using hv)

end Loops

include hd ht₀ in
/-- The outer loop empties the directory. -/
theorem Teardown.directory (h : Teardown boot dirs d w s₀ s) :
    ∃ s₁, (List.range PTE2PT).foldl (fun s i =>
        if isValid (s.mem d i) then
          let pa1 := PTE_ADDR (s.mem d i)
          let s₁ := envFreeTables d (pteFrame pa1) i s
          pageDecref (s₁.setPte d i 0) (pa2page pa1)
        else s) s = s₁ ∧
      Teardown boot dirs d w s₀ s₁ ∧ ∀ k < PTE2PT, child s₁ d k = none := by
  refine ⟨_, rfl, ?_⟩
  refine foldl_range_invariant (n := PTE2PT) (P := fun i s' => Teardown boot dirs d w s₀ s' ∧
    ∀ m < i, child s' d m = none) ⟨h, fun m hm => absurd hm (Nat.not_lt_zero m)⟩ ?_
  rintro i s₁ hi ⟨h₁, hnone⟩
  have hlast : ∀ {s' : Pmap}, (∀ m < i, child s' d m = none) → child s' d i = none →
      ∀ m < i + 1, child s' d m = none := by
    intro s' hlt hi m hm
    rcases Nat.lt_succ_iff_lt_or_eq.mp hm with hm | rfl
    · exact hlt m hm
    · exact hi
  by_cases hv : isValid (s₁.mem d i) = true
  · simp only [hv, if_true]
    -- The self-map slot is cleared, so this is another one.
    have hiu : i ≠ uvptIndex := by
      rintro rfl
      rw [h₁.self] at hv
      cases hv
    have hc₁ : child s₁ d i = some (pteFrame (s₁.mem d i)) := child_of_valid hv
    rw [pteFrame_PTE_ADDR, pa2page_PTE_ADDR, pageDecref_setPte]
    obtain ⟨h₂, hempty, hsame⟩ := Teardown.tables hd ht₀ h₁ hi hiu hc₁
    have hat0 : (tableShape {d}).At
        (child (envFreeTables d (pteFrame (s₁.mem d i)) i s₁)) 0 d := Finset.mem_singleton_self d
    have hc₁' := (child_congr (congrFun hsame i)).trans hc₁
    refine ⟨h₂.drop hd ht₀ (by omega) hat0 ⟨hi, fun _ => hiu⟩ hc₁' (fun _ => hempty),
      hlast (fun m hm => ?_) (child_dropSlot_self _ _ _ _)⟩
    rw [child_dropSlot_of_ne (fun hx => absurd hx.2 (Nat.ne_of_lt hm)),
      child_congr (congrFun hsame m)]
    exact hnone m hm
  · simp only [hv, Bool.false_eq_true, if_false]
    exact ⟨h₁, hlast hnone (child_eq_none.mpr (by simpa using hv))⟩

/-! ## The directory itself -/

theorem pageDecref_freed (hpos : 0 < (s.pages p).ref.toNat) : Freed s (pageDecref s p) :=
  (dropSlot_freed (t := 0) (i := 0) hpos).congr rfl rfl

theorem TablesOk.erase (ht : TablesOk s dirs) (d : Nat) : TablesOk s (dirs.erase d) where
  dir_lt x hx := ht.dir_lt x (Finset.mem_of_mem_erase hx)
  dir_self x hx := ht.dir_self x (Finset.mem_of_mem_erase hx)
  forest := ht.forest.of_roots (fun x hx => Finset.mem_of_mem_erase (show x ∈ dirs.erase d from hx))
    fun _ _ h => h

section LastSlot

variable (hempty : ∀ k < PTE2PT, k ≠ uvptIndex → child s d k = none)

include hempty

/-- A directory with no entry but its self-map entry has no tables below it. -/
theorem at_of_empty {u : Nat} (hat : (tableShape {d}).At (child s) n u) : n = 0 ∧ u = d := by
  induction n generalizing u with
  | zero => exact ⟨rfl, Finset.mem_singleton.mp hat⟩
  | succ n ih =>
      obtain ⟨p, i, hp, hi, hc⟩ := hat
      obtain ⟨rfl, rfl⟩ := ih hp
      rw [hempty i hi.1 (hi.2 rfl)] at hc
      cases hc

/-- Its one entry is the reference held for the directory. -/
theorem entryCount_of_empty (hd : d < NPAGE) (hself : child s d uvptIndex = some d) (p : Nat) :
    entryCount s {d} p = if p = d then 1 else 0 := by
  have htab : IsTable s {d} d := ⟨0, by omega, Finset.mem_singleton_self d⟩
  have hmem : (d, uvptIndex) ∈ tableSlots s {d} :=
    mem_tableSlots.mpr ⟨⟨hd, GET_L1_INDEX_lt UVPT⟩, htab⟩
  have hnone : slotCount (tableSlots s {d}) (fun _ => (none : Option Nat)) p = 0 := by
    rw [slotCount_of_fresh (S := ∅) (Finset.empty_subset _) (fun _ _ _ => rfl) p, slotCount_empty]
  have hwrite := slotCount_write hmem (f := fun x => child s x.1 x.2) (g := fun _ => none)
    (fun x hx hne => ?_) p
  · rw [hnone] at hwrite
    have hshare : slotShare (fun x : Nat × Nat => child s x.1 x.2) (d, uvptIndex) p =
        if p = d then 1 else 0 := by
      simp [slotShare, hself, eq_comm]
    have hshare' : slotShare (fun _ : Nat × Nat => (none : Option Nat)) (d, uvptIndex) p = 0 := by
      simp [slotShare]
    rw [entryCount]
    omega
  · obtain ⟨⟨-, hlt⟩, m, -, hat⟩ := mem_tableSlots.mp hx
    obtain ⟨-, hxd⟩ := at_of_empty hempty hat
    show none = child s x.1 x.2
    rw [hxd, hempty x.2 hlt fun hu => hne (Prod.ext hxd hu)]

end LastSlot

/-- What taking an address space apart does to memory: every page loses one
    reference for each entry of the tables of `d` that names it, and the tables
    of the other directories are left alone. -/
structure VmFreed (boot : Nat → Nat) (dirs : Finset Nat) (d : Nat) (s s' : Pmap) : Prop where
  sound : PmapSound boot (dirs.erase d) s'
  freed : Freed s s'
  refs : ∀ p < NPAGE, (s'.pages p).ref.toNat + entryCount s {d} p = (s.pages p).ref.toNat
  kept : ∀ t, IsTable s (dirs.erase d) t → s'.mem t = s.mem t

include hd in
/-- Before the first turn only the self-map entry is gone. -/
theorem teardown_start (hs : PmapSound boot dirs s) :
    Teardown boot dirs d (s.mem d uvptIndex) s (s.setPte d uvptIndex 0) := by
  refine ⟨?_, ?_, (Freed.refl s).congr rfl rfl, fun t i u hu => ?_, fun t ht => ?_⟩
  · have hback : (s.setPte d uvptIndex 0).setPte d uvptIndex (s.mem d uvptIndex) = s := by
      cases s
      simp only [Pmap.setPte, Pmap.mk.injEq, and_true]
      funext t i
      split
      · rename_i hx
        rw [hx.1, hx.2]
      · rfl
    rw [hback]
    exact hs
  · rw [Pmap.setPte_mem_self]
    decide
  · rw [← hu, child_setPte_of_ne]
    rintro ⟨rfl, rfl⟩
    rw [child_setPte_self] at hu
    cases hu
  · have htd : t ≠ d := by
      rintro rfl
      exact not_isTable_both hs.tables hd ht ⟨0, by omega, Finset.mem_singleton_self t⟩
    funext k
    exact Pmap.setPte_mem_of_ne fun hx => htd hx.1

include hd in
theorem envFreeVm_spec (hs : PmapSound boot dirs s) {pgdir_pa : Word} (hpa : pa2page pgdir_pa = d) :
    VmFreed boot dirs d s (envFreeVm d pgdir_pa s) := by
  obtain ⟨s₁, heq, h₁, hempty⟩ := (teardown_start hd hs).directory hd hs.tables
  have hvm : envFreeVm d pgdir_pa s = pageDecref s₁ d := by
    unfold envFreeVm
    simp only [hpa, heq]
  have hmem : (pageDecref s₁ d).mem = s₁.mem := by rw [pageDecref, pageFree_mem, Pmap.decRef_mem]
  have hpages : (pageDecref s₁ d).pages = (s₁.decRef d).pages := pageFree_pages _ _
  have hdlt := hs.tables.dir_lt d hd
  have hkept : ∀ t, IsTable s (dirs.erase d) t → (pageDecref s₁ d).mem t = s.mem t := by
    intro t ht
    rw [hmem]
    exact h₁.kept t ht
  -- The last entry that names the directory is its self-map entry.
  have hself := h₁.sound.tables.dir_self d hd
  have hlast : ∀ p, entryCount (s₁.setPte d uvptIndex (s.mem d uvptIndex)) dirs p =
      entryCount s (dirs.erase d) p + if p = d then 1 else 0 := by
    intro p
    have hother : entryCount (s₁.setPte d uvptIndex (s.mem d uvptIndex)) (dirs.erase d) p =
        entryCount s (dirs.erase d) p := by
      refine entryCount_of_tables (fun t ht => ?_) p
      have htd : t ≠ d := by
        rintro rfl
        exact not_isTable_both hs.tables hd ht ⟨0, by omega, Finset.mem_singleton_self t⟩
      rw [← h₁.kept t ht]
      funext k
      exact Pmap.setPte_mem_of_ne fun hx => htd hx.1
    rw [entryCount_split h₁.sound.tables hd, hother,
      entryCount_of_empty (fun k hk hku => (child_mask fun hx => hku hx.2).trans (hempty k hk))
        hdlt hself]
  have href : ∀ p < NPAGE, (s₁.pages p).ref.toNat =
      boot p + entryCount s (dirs.erase d) p + if p = d then 1 else 0 := by
    intro p hp
    rw [Nat.add_assoc, ← hlast]
    exact h₁.sound.refs p hp
  have hpos : 0 < (s₁.pages d).ref.toNat := by
    rw [href d hdlt, if_pos rfl]
    omega
  have href' : ∀ p < NPAGE, ((pageDecref s₁ d).pages p).ref.toNat =
      boot p + entryCount s (dirs.erase d) p := by
    intro p hp
    have h := href p hp
    rw [hpages, decRef_ref]
    by_cases hpd : p = d
    · rw [hpd, if_pos rfl] at h
      rw [hpd, if_pos rfl, toNat_sub_one hpos, h, Nat.add_sub_cancel]
    · rw [if_neg hpd] at h
      rw [if_neg hpd, h, Nat.add_zero]
  rw [hvm]
  refine ⟨⟨⟨⟨fun p hp => ?_, (hs.tables.erase d).of_tables hkept, fun p hp => ?_, hs.boot_le⟩, ?_⟩,
    fun d' hd' va e hva he => ?_⟩, h₁.freed.trans (pageDecref_freed hpos), fun p hp => ?_, hkept⟩
  · rw [hpages, decRef_pa]
    exact h₁.sound.pa p hp
  · rw [href' p hp, entryCount_of_tables hkept]
  · have halloc : AllocUnused s₁ := h₁.sound.alloc
    exact halloc.decref hdlt hpos rfl hpages
  · rw [mapping_of_tables hkept hd' hva] at he
    exact hs.clear d' (Finset.mem_of_mem_erase hd') va e hva he
  · have h := hs.refs p hp
    rw [entryCount_split hs.tables hd] at h
    rw [href' p hp]
    omega

end Teardown

end RpiMos
