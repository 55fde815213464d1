/-
  RpiMos.Mm.PageSet

  The allocation bitmap as the set of the pages in use.  `page_alloc` tests and
  sets bits with `1 << j`, an `int`, where `page_free` clears them with
  `1ul << (idx & 63)`: bits 32 to 63 of a word are never handed out by
  themselves, and bit 31 is handed out together with all of them.
-/

import RpiMos.Mm.Boot
import RpiMos.Lib.Allocator
import RpiMos.Lib.Run

namespace RpiMos

open Lib

variable {s s' s₁ : Pmap} {w : Word} {i j k p q : Nat}

/-! ## One word of the bitmap -/

theorem getLsbD_shiftedInt (hj : j < 32) (hk : k < 64) :
    (shiftedInt j).getLsbD k = if k < 32 then decide (k = j) else decide (j = 31) := by
  have hbit : ∀ m, m < 32 → (1#32 <<< j).getLsbD m = decide (m = j) := by
    intro m hm
    rw [BitVec.getLsbD_shiftLeft, BitVec.getLsbD_one]
    simp only [hm, decide_true, Bool.true_and]
    by_cases hmj : m = j
    · subst hmj
      simp
    · rw [decide_eq_false hmj]
      by_cases hlt : m < j
      · simp [hlt]
      · simp
        omega
  have hmsb : (1#32 <<< j).msb = decide (j = 31) := by
    rw [BitVec.msb_eq_getLsbD_last, hbit 31 (by omega)]
    exact decide_eq_decide.mpr eq_comm
  rw [shiftedInt, Nat.mod_eq_of_lt hj, BitVec.getLsbD_signExtend, hmsb]
  simp only [hk, decide_true, Bool.true_and]
  by_cases hlt : k < 32
  · rw [if_pos hlt, if_pos hlt, hbit k hlt]
  · rw [if_neg hlt, if_neg hlt]

/-- One of the low 31 bits is clear. -/
def LowClear (w : Word) : Prop := ∃ j < 31, w.getLsbD j = false

/-- All bits from bit 31 on are clear. -/
def HighClear (w : Word) : Prop := ∀ j, 31 ≤ j → j < 64 → w.getLsbD j = false

/-- A mask tests clear when the word has none of its bits. -/
theorem and_shiftedInt_eq_zero :
    w &&& shiftedInt j = 0 ↔ ∀ k < 64, (shiftedInt j).getLsbD k = true → w.getLsbD k = false := by
  constructor
  · intro h k _ hbit
    have hand := congrArg (fun x => BitVec.getLsbD x k) h
    simp only [BitVec.getLsbD_and, hbit, Bool.and_true] at hand
    rw [hand]
    exact BitVec.getLsbD_zero
  · intro h
    apply BitVec.eq_of_getLsbD_eq
    intro k hk
    rw [BitVec.getLsbD_and]
    cases hbit : (shiftedInt j).getLsbD k with
    | false => simp
    | true => simp [h k hk hbit]

theorem and_shiftedInt_low (hj : j < 31) : w &&& shiftedInt j = 0 ↔ w.getLsbD j = false := by
  rw [and_shiftedInt_eq_zero]
  constructor
  · intro h
    exact h j (by omega) (shiftedInt_getLsbD_self j (by omega))
  · intro h k hk hbit
    rw [getLsbD_shiftedInt (by omega) hk] at hbit
    split at hbit
    · rw [of_decide_eq_true hbit]
      exact h
    · have := of_decide_eq_true hbit
      omega

/-- `1 << 31` is negative as an `int`, and its sign fills the upper half. -/
theorem and_shiftedInt_31 : w &&& shiftedInt 31 = 0 ↔ HighClear w := by
  rw [and_shiftedInt_eq_zero]
  constructor
  · intro h k hle hk
    refine h k hk ?_
    rw [getLsbD_shiftedInt (by decide) hk]
    split
    · exact decide_eq_true (by omega)
    · rfl
  · intro h k hk hbit
    rw [getLsbD_shiftedInt (by decide) hk] at hbit
    refine h k ?_ hk
    split at hbit
    · have := of_decide_eq_true hbit
      omega
    · omega

/-- The search of a word ends at a clear bit below bit 31, or at bit 31 when
    all bits below are set and all others clear. -/
theorem pageAllocIn_some {x : Nat × Nat} (h : pageAllocIn w i = some x) :
    ∃ j, x = (i, j) ∧ ((j < 31 ∧ w.getLsbD j = false) ∨ j = 31 ∧ ¬ LowClear w ∧ HighClear w) := by
  obtain ⟨j, rfl, hj, hbit⟩ := pageAllocIn_spec h
  refine ⟨j, rfl, ?_⟩
  by_cases hlow : j < 31
  · exact Or.inl ⟨hlow, hbit⟩
  · have h31 : j = 31 := by omega
    subst h31
    unfold pageAllocIn at h
    split at h
    case isFalse => cases h
    case isTrue =>
      obtain ⟨k, -, -, hfound, hfirst⟩ := scan_eq_some.mp h
      split at hfound
      case isFalse => cases hfound
      case isTrue hclear =>
        cases hfound
        refine Or.inr ⟨rfl, ?_, and_shiftedInt_31.mp hclear⟩
        rintro ⟨m, hm, hmbit⟩
        have hprev := hfirst m (Nat.zero_le _) hm
        rw [if_pos ((and_shiftedInt_low hm).mpr hmbit)] at hprev
        cases hprev

theorem pageAllocIn_eq_none : pageAllocIn w i = none ↔ ¬ LowClear w ∧ ¬ HighClear w := by
  have hfull : w = BitVec.allOnes 64 → ¬ LowClear w ∧ ¬ HighClear w := by
    rintro rfl
    constructor
    · rintro ⟨j, hj, hbit⟩
      rw [BitVec.getLsbD_allOnes, decide_eq_false_iff_not] at hbit
      omega
    · intro h
      have hbit := h 31 (by omega) (by omega)
      rw [BitVec.getLsbD_allOnes] at hbit
      cases hbit
  unfold pageAllocIn
  by_cases hw : w = BitVec.allOnes 64
  · rw [if_neg (not_not.mpr hw)]
    exact iff_of_true rfl (hfull hw)
  · rw [if_pos hw, scan_eq_none]
    constructor
    · intro h
      constructor
      · rintro ⟨j, hj, hbit⟩
        have hnone := h j (Nat.zero_le _) (by omega)
        rw [if_pos ((and_shiftedInt_low hj).mpr hbit)] at hnone
        cases hnone
      · intro hhigh
        have hnone := h 31 (Nat.zero_le _) (by omega)
        rw [if_pos (and_shiftedInt_31.mpr hhigh)] at hnone
        cases hnone
    · rintro ⟨hlow, hhigh⟩ k - -
      apply if_neg
      -- The count of the shift is taken modulo 32.
      rw [← shiftedInt_mod]
      have hk : k % 32 < 31 ∨ k % 32 = 31 := by omega
      rcases hk with hk | hk
      · rw [and_shiftedInt_low hk]
        exact fun hbit => hlow ⟨k % 32, hk, hbit⟩
      · rw [hk, and_shiftedInt_31]
        exact hhigh

/-! ## The whole bitmap -/

/-- `page_alloc` finds no page in the word. -/
def Spent (w : Word) : Prop := ¬ LowClear w ∧ ¬ HighClear w

/-- What `page_alloc` does: it takes a bit below bit 31 of the first word that is
    not spent, or there bits 31 to 63 together. -/
theorem pageAlloc_some (h : pageAlloc s = some (p, s₁)) :
    ∃ i j, i < 2 ^ 12 ∧ p = i * 64 + j ∧ (∀ m < i, Spent (s.vis m)) ∧
      s₁.mem = (fun t k => if t = p then 0 else s.mem t k) ∧
      ((j < 31 ∧ (s.vis i).getLsbD j = false ∧
          ∀ q, visBit s₁ q = (visBit s q || decide (q = p))) ∨
        (j = 31 ∧ ¬ LowClear (s.vis i) ∧ HighClear (s.vis i) ∧
          ∀ q, visBit s₁ q = (visBit s q || decide (q / 64 = i ∧ 31 ≤ q % 64)))) := by
  unfold pageAlloc at h
  split at h
  case h_2 => cases h
  case h_1 i j hscan =>
    obtain ⟨k, -, hk, hin, hfirst⟩ := scan_eq_some.mp hscan
    obtain ⟨j', hij, hcase⟩ := pageAllocIn_some hin
    obtain ⟨rfl, rfl⟩ := Prod.mk.inj hij
    have hj : j < 32 := by omega
    simp only [Option.some.injEq, Prod.mk.injEq] at h
    obtain ⟨rfl, rfl⟩ := h
    rw [shiftLeft_six_or (by omega)]
    have hvis : ∀ q, visBit ((s.bzeroPage (i * 64 + j)).setVis i (s.vis i ||| shiftedInt j)) q =
        (visBit s q || decide (q / 64 = i ∧ (shiftedInt j).getLsbD (q % 64) = true)) := by
      intro q
      by_cases hq : q / 64 = i
      · simp [visBit, Pmap.setVis, hq, BitVec.getLsbD_or]
      · simp [visBit, Pmap.setVis, hq]
    refine ⟨i, j, by omega, rfl, fun m hm => pageAllocIn_eq_none.mp (hfirst m (Nat.zero_le _) hm),
      rfl, ?_⟩
    rcases hcase with ⟨hlow, hbit⟩ | ⟨rfl, hlow, hhigh⟩
    · refine Or.inl ⟨hlow, hbit, fun q => ?_⟩
      rw [hvis, getLsbD_shiftedInt hj (Nat.mod_lt _ (by decide))]
      congr 1
      apply decide_eq_decide.mpr
      split
      · rw [decide_eq_true_iff]
        omega
      · rw [decide_eq_true_iff]
        omega
    · refine Or.inr ⟨rfl, hlow, hhigh, fun q => ?_⟩
      rw [hvis, getLsbD_shiftedInt hj (Nat.mod_lt _ (by decide))]
      congr 1
      apply decide_eq_decide.mpr
      split
      · rw [decide_eq_true_iff]
        omega
      · rw [decide_eq_true_iff]
        omega

theorem pageAlloc_eq_none : pageAlloc s = none ↔ ∀ i < 2 ^ 12, Spent (s.vis i) := by
  have hscan : pageAlloc s = none ↔ scan (fun i => pageAllocIn (s.vis i) i) 0 (2 ^ 12) = none := by
    unfold pageAlloc
    split
    · rename_i heq
      rw [heq]
      simp
    · rename_i heq
      rw [heq]
      simp
  rw [hscan, scan_eq_none]
  constructor
  · intro h i hi
    exact pageAllocIn_eq_none.mp (h i (Nat.zero_le _) (by omega))
  · intro h i _ hi
    exact pageAllocIn_eq_none.mpr (h i (by omega))

/-- `page_alloc` hands out and zero-fills one unused page and marks it alone, or
    says that every page is in use. -/
def AllocMeets (s : Pmap) : Prop :=
  match pageAlloc s with
  | some (p, s') => p < NPAGE ∧ visBit s p = false ∧ (∀ i, s'.mem p i = 0) ∧
      visBit s' p = true ∧ ∀ q < NPAGE, q ≠ p → visBit s' q = visBit s q
  | none => ∀ p < NPAGE, visBit s p = true

/-- `page_free` clears the bit of the page and no other. -/
def FreeMeets (s : Pmap) (p : Nat) : Prop :=
  ∀ q < NPAGE, visBit (pageFree s p) q = if q = p then false else visBit s q

/-- All bits are set, or the first word that is not spent has one of its low 31
    bits clear. -/
def AllocOk (s : Pmap) : Prop :=
  (∀ p < NPAGE, visBit s p = true) ∨
  ∃ i < 2 ^ 12, LowClear (s.vis i) ∧ ∀ m < i, Spent (s.vis m)

theorem allocMeets_iff : AllocMeets s ↔ AllocOk s := by
  unfold AllocMeets
  cases halloc : pageAlloc s with
  | none =>
      have hspent := pageAlloc_eq_none.mp halloc
      refine ⟨Or.inl, ?_⟩
      rintro (hall | ⟨i, hi, hlow, -⟩)
      · exact hall
      · exact absurd hlow (hspent i hi).1
  | some x =>
      obtain ⟨p, s'⟩ := x
      obtain ⟨i, j, hi, rfl, hfirst, hmem, hcase⟩ := pageAlloc_some halloc
      have hpage : i * 64 + j < NPAGE := (pageAlloc_spec halloc).1
      have hclear : visBit s (i * 64 + j) = false := (pageAlloc_spec halloc).2.1
      rcases hcase with ⟨hj, hbit, hvis⟩ | ⟨rfl, hlow, hhigh, hvis⟩
      · refine iff_of_true ⟨hpage, hclear, fun k => ?_, ?_, fun q _ hq => ?_⟩
          (Or.inr ⟨i, hi, ⟨j, hj, hbit⟩, hfirst⟩)
        · rw [hmem]
          exact if_pos rfl
        · rw [hvis, decide_eq_true rfl, Bool.or_true]
        · rw [hvis, decide_eq_false hq, Bool.or_false]
      · -- Page `i * 64 + 32` was free and is marked without being handed out.
        have hnext : i * 64 + 32 < NPAGE := by
          rw [NPAGE]
          omega
        refine iff_of_false ?_ ?_
        · rintro ⟨-, -, -, -, hothers⟩
          have hkept := hothers (i * 64 + 32) hnext (by omega)
          have hold : visBit s (i * 64 + 32) = false := by
            rw [visBit, show (i * 64 + 32) / 64 = i by omega]
            exact hhigh _ (by omega) (by omega)
          rw [hvis, hold, decide_eq_true (by omega)] at hkept
          cases hkept
        · rintro (hall | ⟨m, hm, hmlow, hmfirst⟩)
          · rw [hall _ hpage] at hclear
            cases hclear
          · rcases Nat.lt_trichotomy m i with hlt | rfl | hgt
            · exact (hfirst m hlt).1 hmlow
            · exact hlow hmlow
            · exact (hmfirst i hgt).2 hhigh

theorem freeMeets_of_ref (h : (s.pages p).ref = 0) : FreeMeets s p := by
  intro q _
  rw [visBit_pageFree_eq, h]
  by_cases hq : q = p
  · rw [if_pos hq, decide_eq_true ⟨hq, rfl⟩]
    simp
  · rw [if_neg hq, decide_eq_false fun hx => hq hx.1]
    simp

/-! ## Sequences of calls -/

/-- The calls of the allocator, and what happens between them: references are
    taken and dropped and pages are written. -/
inductive PageStep : Pmap → AllocEvent Nat → Pmap → Prop
  | page_alloc {s s' : Pmap} {p : Nat} (h : pageAlloc s = some (p, s')) : PageStep s (.alloc p) s'
  | page_alloc_none {s : Pmap} (h : pageAlloc s = none) : PageStep s .other s
  | page_free {s : Pmap} {p : Nat} (hp : p < NPAGE) (href : (s.pages p).ref = 0) :
      PageStep s (.free p) (pageFree s p)
  | page_free_held {s : Pmap} {p : Nat} (href : (s.pages p).ref ≠ 0) :
      PageStep s .other (pageFree s p)
  | other {s s' : Pmap} (hvis : s'.vis = s.vis) : PageStep s .other s'

/-- A page that is handed out is handed out by a call that meets `AllocOk`. -/
def PageStepOk (s : Pmap) (e : AllocEvent Nat) : Prop := ∀ p, e = .alloc p → AllocOk s

/-- The set bits are the pages in use. -/
def BitsAre (U : Nat → Prop) (s : Pmap) : Prop := ∀ p < NPAGE, visBit s p = true ↔ U p

theorem pageStep_bits {U : Nat → Prop} {e : AllocEvent Nat} (h : BitsAre U s)
    (hok : PageStepOk s e) (hstep : PageStep s e s') : BitsAre (e.apply U) s' := by
  cases hstep with
  | @page_alloc _ p halloc =>
      have hmeets := allocMeets_iff.mpr (hok p rfl)
      unfold AllocMeets at hmeets
      rw [halloc] at hmeets
      obtain ⟨-, -, -, hset, hothers⟩ := hmeets
      intro q hq
      show _ ↔ q = p ∨ U q
      by_cases hqp : q = p
      · rw [hqp, hset]
        exact iff_of_true rfl (Or.inl rfl)
      · rw [hothers q hq hqp, h q hq]
        exact (or_iff_right hqp).symm
  | page_alloc_none => exact h
  | @page_free p hp href =>
      intro q hq
      show _ ↔ q ≠ p ∧ U q
      rw [freeMeets_of_ref href q hq, ← h q hq]
      by_cases hqp : q = p
      · rw [if_pos hqp]
        exact iff_of_false Bool.false_ne_true fun hx => hx.1 hqp
      · rw [if_neg hqp]
        exact (and_iff_right hqp).symm
  | @page_free_held p href =>
      intro q hq
      show _ ↔ U q
      rw [visBit_pageFree_eq, decide_eq_false fun hx => href hx.2, Bool.not_false, Bool.and_true]
      exact h q hq
  | other hvis =>
      intro q hq
      show _ ↔ U q
      rw [visBit, hvis]
      exact h q hq

theorem run_bits {U : Nat → Prop} {tr : List (AllocEvent Nat)} (h : BitsAre U s)
    (hrun : Run (restrict PageStep PageStepOk) s tr s') : BitsAre (inUse U tr) s' := by
  refine hrun.invariant_trace (P := fun tr s => BitsAre (inUse U tr) s) h ?_
  intro tr s e s' hbits hstep
  show BitsAre (inUse U (tr ++ [e])) s'
  rw [inUse_snoc]
  exact pageStep_bits hbits hstep.2 hstep.1

/-! ## Allocating a page again -/

def AllocStep (s : Pmap) (p : Nat) (s' : Pmap) : Prop := pageAlloc s = some (p, s')

/-- After some calls of `page_alloc` the next one hands out page `p`. -/
def CanBeAllocated (s : Pmap) (p : Nat) : Prop := ∃ tr s', Run AllocStep s (tr ++ [p]) s'

/-- Bit 31 is taken only together with the bits above it, and these never alone. -/
def Takeable (s : Pmap) (p : Nat) : Prop :=
  p % 64 < 31 ∨ p % 64 = 31 ∧ HighClear (s.vis (p / 64))

theorem highClear_iff : HighClear (s.vis i) ↔ ∀ q, q / 64 = i → 31 ≤ q % 64 → visBit s q = false := by
  constructor
  · rintro h q rfl hq
    exact h _ hq (Nat.mod_lt _ (by decide))
  · intro h j hle hj
    have hbit := h (i * 64 + j) (by omega) (by omega)
    rwa [visBit, show (i * 64 + j) / 64 = i by omega, show (i * 64 + j) % 64 = j by omega] at hbit

/-- The pages that are not in use. -/
def clearPages (s : Pmap) : Finset Nat := (Finset.range NPAGE).filter fun p => visBit s p = false

theorem clearPages_lt (h : pageAlloc s = some (p, s₁)) :
    (clearPages s₁).card < (clearPages s).card := by
  obtain ⟨hp, hclear, hset, hmono, -⟩ := pageAlloc_spec h
  apply Finset.card_lt_card
  rw [Finset.ssubset_iff_of_subset]
  · refine ⟨p, Finset.mem_filter.mpr ⟨Finset.mem_range.mpr hp, hclear⟩, fun hmem => ?_⟩
    rw [(Finset.mem_filter.mp hmem).2] at hset
    cases hset
  · intro q hq
    obtain ⟨hlt, hbit⟩ := Finset.mem_filter.mp hq
    exact Finset.mem_filter.mpr ⟨hlt, hmono q hbit⟩

/-- While another page is handed out, a page that can be taken stays so. -/
theorem Takeable.alloc (h : Takeable s p) (hclear : visBit s p = false)
    (halloc : pageAlloc s = some (q, s₁)) (hne : q ≠ p) :
    visBit s₁ p = false ∧ Takeable s₁ p := by
  obtain ⟨i, j, -, rfl, -, -, hcase⟩ := pageAlloc_some halloc
  rcases hcase with ⟨hj, -, hvis⟩ | ⟨rfl, hlow, -, hvis⟩
  · refine ⟨by rw [hvis, hclear, decide_eq_false fun hx => hne hx.symm, Bool.or_false], ?_⟩
    refine h.imp_right fun ⟨h31, hhigh⟩ => ⟨h31, highClear_iff.mpr fun r hr hle => ?_⟩
    rw [hvis, highClear_iff.mp hhigh r hr hle, decide_eq_false (by omega), Bool.or_false]
  · -- The page stands in another word: here it would be one of the low bits.
    have hword : p / 64 ≠ i := by
      intro hi
      rcases h with hlt | ⟨h31, -⟩
      · refine hlow ⟨p % 64, hlt, ?_⟩
        rw [← hi]
        exact hclear
      · exact hne (by omega)
    refine ⟨by rw [hvis, hclear, decide_eq_false fun hx => hword hx.1, Bool.or_false], ?_⟩
    refine h.imp_right fun ⟨h31, hhigh⟩ => ⟨h31, highClear_iff.mpr fun r hr hle => ?_⟩
    rw [hvis, highClear_iff.mp hhigh r hr hle, Bool.false_or, decide_eq_false]
    exact fun hx => hword (hr.symm.trans hx.1)

theorem canBeAllocated_of_takeable (hp : p < NPAGE) (hclear : visBit s p = false)
    (h : Takeable s p) : CanBeAllocated s p := by
  induction hn : (clearPages s).card using Nat.strong_induction_on generalizing s with
  | _ n ih =>
    -- The word of the page is not spent, so that the next call finds some page.
    have hword : p / 64 < 2 ^ 12 := by
      rw [NPAGE] at hp
      omega
    cases halloc : pageAlloc s with
    | none =>
        obtain ⟨hlow, hhigh⟩ := pageAlloc_eq_none.mp halloc _ hword
        rcases h with hlt | ⟨-, hh⟩
        · exact absurd ⟨p % 64, hlt, hclear⟩ hlow
        · exact absurd hh hhigh
    | some x =>
        obtain ⟨q, s₁⟩ := x
        by_cases hq : q = p
        · subst hq
          exact ⟨[], s₁, .single halloc⟩
        · obtain ⟨hclear₁, h₁⟩ := h.alloc hclear halloc hq
          obtain ⟨tr, s', hrun⟩ := ih _ (hn ▸ clearPages_lt halloc) hclear₁ h₁ rfl
          exact ⟨q :: tr, s', .cons halloc hrun⟩

theorem canBeAllocated_iff (hp : p < NPAGE) (hclear : visBit s p = false) :
    CanBeAllocated s p ↔ Takeable s p := by
  refine ⟨?_, canBeAllocated_of_takeable hp hclear⟩
  rintro ⟨tr, s', hrun⟩
  obtain ⟨s₁, hrun, hlast⟩ := hrun.split
  have halloc : AllocStep s₁ p s' := hlast.of_single
  -- No bit is cleared on the way to the last call.
  have hmono : ∀ q, visBit s₁ q = false → visBit s q = false := by
    intro q hq
    refine hrun.invariant (P := fun t => visBit t q = false → visBit s q = false) id ?_ hq
    intro t r t' ih hstep hbit
    exact ih ((pageAlloc_spec hstep).2.2.2.1 q hbit)
  obtain ⟨i, j, -, rfl, -, -, hcase⟩ := pageAlloc_some halloc
  rcases hcase with ⟨hj, -, -⟩ | ⟨rfl, -, hhigh, -⟩
  · exact Or.inl (by omega)
  · refine Or.inr ⟨by omega, highClear_iff.mpr fun q hq hle => hmono q ?_⟩
    exact highClear_iff.mp hhigh q (by omega) hle

/-! ## The allocator -/

/-- The allocator is a set of pages: `page_alloc` meets this exactly where
    `AllocOk` holds, `page_free` of an unreferenced page always does; in a run
    whose pages are all handed out so, the set bits are the pages reserved at
    boot and those handed out, without the ones given back; and a page given back
    can be handed out again exactly when it is `Takeable`. -/
theorem pageAlloc_as_set (s : Pmap) (p : Nat) :
    (AllocMeets s ↔ AllocOk s) ∧
    ((s.pages p).ref = 0 → FreeMeets s p) ∧
    (∀ initEnd imgEnd mem₀ tr,
      Run (restrict PageStep PageStepOk) (initBootPt initEnd imgEnd mem₀) tr s → p < NPAGE →
        (visBit s p = true ↔ ((inBootCode initEnd p ∨ inImage initEnd imgEnd p) ∧ .free p ∉ tr) ∨
          HandedOut tr p)) ∧
    (p < NPAGE → (s.pages p).ref = 0 →
      (CanBeAllocated (pageFree s p) p ↔ Takeable (pageFree s p) p)) := by
  refine ⟨allocMeets_iff, freeMeets_of_ref, ?_, ?_⟩
  · intro initEnd imgEnd mem₀ tr hrun hp
    have hboot : BitsAre (fun q => inBootCode initEnd q ∨ inImage initEnd imgEnd q)
        (initBootPt initEnd imgEnd mem₀) := by
      intro q _
      rw [initBootPt_visBit, decide_eq_true_iff]
    rw [run_bits hboot hrun p hp, inUse_iff]
  · intro hp href
    refine canBeAllocated_iff hp ?_
    rw [freeMeets_of_ref href p hp, if_pos rfl]

/-- Pages 0 to 30 are in use, and all from page 64 on. -/
def lowInUse : Pmap where
  mem := fun _ _ => 0
  pages := fun _ => ⟨0, 0⟩
  vis := fun i => if i = 0 then 0x7fffffff else BitVec.allOnes 64

/-- The same with page 31 and the upper half of the word but for page 63. -/
def page63Free : Pmap :=
  { lowInUse with vis := fun i => if i = 0 then 0x7fffffffffffffff else BitVec.allOnes 64 }

/-- The call that hands out page 31 takes page 32 as well, which nobody gets; and
    with page 63 free `page_alloc` says that there is no page. -/
theorem pageAlloc_leaks :
    (∃ s', pageAlloc lowInUse = some (31, s') ∧ visBit lowInUse 32 = false ∧ visBit s' 32 = true) ∧
    pageAlloc page63Free = none ∧ visBit page63Free 63 = false := by
  refine ⟨?_, ?_, by decide⟩
  · have hlow : ¬ LowClear (lowInUse.vis 0) := by
      rintro ⟨j, hj, hbit⟩
      have hset : ∀ j : Fin 31, (lowInUse.vis 0).getLsbD j = true := by decide
      rw [hset ⟨j, hj⟩] at hbit
      cases hbit
    have hhigh : HighClear (lowInUse.vis 0) := by
      intro j hle hj
      have hclear : ∀ j : Fin 64, 31 ≤ j.val → (lowInUse.vis 0).getLsbD j = false := by decide
      exact hclear ⟨j, hj⟩ hle
    cases halloc : pageAlloc lowInUse with
    | none => exact absurd hhigh (pageAlloc_eq_none.mp halloc 0 (by decide)).2
    | some x =>
        obtain ⟨p, s'⟩ := x
        obtain ⟨i, j, -, hp, hfirst, -, hcase⟩ := pageAlloc_some halloc
        have hi : i = 0 := by
          by_contra hne
          exact (hfirst 0 (by omega)).2 hhigh
        subst hi
        rcases hcase with ⟨hj, hbit, -⟩ | ⟨rfl, -, -, hvis⟩
        · exact absurd ⟨j, hj, hbit⟩ hlow
        · subst hp
          refine ⟨s', rfl, by decide, ?_⟩
          rw [hvis]
          decide
  · rw [pageAlloc_eq_none]
    intro i _
    apply pageAllocIn_eq_none.mp
    by_cases hi : i = 0
    · rw [hi]
      exact (by decide : pageAllocIn (page63Free.vis 0) 0 = none)
    · rw [show page63Free.vis i = BitVec.allOnes 64 from if_neg hi]
      exact (by decide : pageAllocIn (BitVec.allOnes 64) 0 = none)

/-- On the board page 1024 is free and page 5 belongs to the boot code; a page
    below bit 31 that is given back can be handed out again. -/
theorem boardBoot_as_set : AllocMeets boardBoot ∧ FreeMeets lowInUse 5 ∧
    (visBit boardBoot 5 = true ↔ ((inBootCode 0x200000 5 ∨ inImage 0x200000 0x400000 5) ∧
      AllocEvent.free 5 ∉ ([] : List (AllocEvent Nat))) ∨ HandedOut [] 5) ∧
    CanBeAllocated (pageFree lowInUse 5) 5 := by
  have h5 : 5 < NPAGE := by
    rw [NPAGE]
    decide
  have hok : AllocOk boardBoot := by
    obtain ⟨s₁, halloc⟩ := boardBoot_alloc
    obtain ⟨i, j, hi, hp, hfirst, -, ⟨hj, hbit, -⟩ | ⟨rfl, -⟩⟩ := pageAlloc_some halloc
    · exact Or.inr ⟨i, hi, ⟨j, hj, hbit⟩, hfirst⟩
    · omega
  exact ⟨(pageAlloc_as_set boardBoot 5).1.mpr hok, (pageAlloc_as_set lowInUse 5).2.1 rfl,
    (pageAlloc_as_set boardBoot 5).2.2.1 0x200000 0x400000 (fun _ _ => 0) [] .nil h5,
    ((pageAlloc_as_set lowInUse 5).2.2.2 h5 rfl).mpr (Or.inl (by decide))⟩

end RpiMos
