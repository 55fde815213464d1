/-
  RpiMos.Lib.SlotCount

  Counting the slots of a finite table that name a given object.  A reference
  count is exact when it equals such a count; the lemmas say how the count
  moves when one slot is written and when fresh empty slots are added.
-/

import Mathlib.Data.Finset.Card
import Mathlib.Logic.Function.Basic

namespace RpiMos.Lib

variable {σ ν : Type _} [DecidableEq ν]

/-- How many slots of `S` name `p`. -/
def slotCount (S : Finset σ) (f : σ → Option ν) (p : ν) : Nat :=
  (S.filter fun x => f x = some p).card

/-- All slots there are.  Irreducible, so that no long list of slots is ever
    written out. -/
@[irreducible] def allSlots (σ : Type _) [Fintype σ] : Finset σ := Finset.univ

theorem mem_allSlots [Fintype σ] (x : σ) : x ∈ allSlots σ := by
  rw [allSlots]
  exact Finset.mem_univ x

@[simp] theorem slotCount_empty (f : σ → Option ν) (p : ν) : slotCount ∅ f p = 0 := by
  simp [slotCount]

theorem slotCount_congr {S : Finset σ} {f g : σ → Option ν} (p : ν)
    (h : ∀ x ∈ S, f x = g x) : slotCount S f p = slotCount S g p := by
  unfold slotCount
  congr 1
  exact Finset.filter_congr fun x hx => by rw [h x hx]

theorem slotCount_pos {S : Finset σ} {f : σ → Option ν} {p : ν} {x : σ}
    (hx : x ∈ S) (h : f x = some p) : 0 < slotCount S f p :=
  Finset.card_pos.mpr ⟨x, Finset.mem_filter.mpr ⟨hx, h⟩⟩

theorem not_named_of_slotCount_eq_zero {S : Finset σ} {f : σ → Option ν} {p : ν}
    (h : slotCount S f p = 0) : ∀ x ∈ S, f x ≠ some p := by
  intro x hx hf
  have := slotCount_pos hx hf
  omega

theorem slotCount_le_card (S : Finset σ) (f : σ → Option ν) (p : ν) :
    slotCount S f p ≤ S.card :=
  Finset.card_filter_le _ _

/-- What slot `x` itself contributes to the count of `p`. -/
def slotShare (f : σ → Option ν) (x : σ) (p : ν) : Nat :=
  if f x = some p then 1 else 0

/-- Taking one slot out of the table takes its share out of the count. -/
theorem slotCount_erase_add [DecidableEq σ] {S : Finset σ} {x : σ} (hx : x ∈ S) (f : σ → Option ν) (p : ν) :
    slotCount (S.erase x) f p + slotShare f x p = slotCount S f p := by
  unfold slotCount slotShare
  rw [Finset.filter_erase]
  by_cases hp : f x = some p
  · rw [if_pos hp, Finset.card_erase_of_mem (Finset.mem_filter.mpr ⟨hx, hp⟩)]
    have : 0 < (S.filter fun y => f y = some p).card :=
      Finset.card_pos.mpr ⟨x, Finset.mem_filter.mpr ⟨hx, hp⟩⟩
    omega
  · rw [if_neg hp, Nat.add_zero, Finset.erase_eq_of_notMem]
    exact fun h => hp (Finset.mem_filter.mp h).2

/-- Writing slot `x` replaces its old share by its new one. -/
theorem slotCount_write [DecidableEq σ] {S : Finset σ} {x : σ} (hx : x ∈ S) {f g : σ → Option ν}
    (hfg : ∀ y ∈ S, y ≠ x → g y = f y) (p : ν) :
    slotCount S g p + slotShare f x p = slotCount S f p + slotShare g x p := by
  have hrest : slotCount (S.erase x) g p = slotCount (S.erase x) f p :=
    slotCount_congr p fun y hy => hfg y (Finset.mem_of_mem_erase hy) (Finset.ne_of_mem_erase hy)
  rw [← slotCount_erase_add hx f p, ← slotCount_erase_add hx g p, hrest]
  omega

/-- Two tables without a common slot are counted one by one. -/
theorem slotCount_union [DecidableEq σ] {S T : Finset σ} (h : Disjoint S T) (f : σ → Option ν)
    (p : ν) : slotCount (S ∪ T) f p = slotCount S f p + slotCount T f p := by
  unfold slotCount
  rw [Finset.filter_union, Finset.card_union_of_disjoint (Finset.disjoint_filter_filter h)]

/-- Slots that name nothing do not count. -/
theorem slotCount_of_fresh {S T : Finset σ} (hST : S ⊆ T) {f : σ → Option ν}
    (hfresh : ∀ x ∈ T, x ∉ S → f x = none) (p : ν) : slotCount T f p = slotCount S f p := by
  unfold slotCount
  congr 1
  ext x
  simp only [Finset.mem_filter]
  constructor
  · rintro ⟨hxT, hp⟩
    refine ⟨?_, hp⟩
    by_contra hxS
    rw [hfresh x hxT hxS] at hp
    cases hp
  · rintro ⟨hxS, hp⟩
    exact ⟨hST hxS, hp⟩

/-- When every slot that names `p` or `q` has a partner of its own that names
    `d`, there are at least as many of the latter. -/
theorem slotCount_add_le {S : Finset σ} {f : σ → Option ν} {p q d : ν} (hpq : p ≠ q) (g : σ → σ)
    (hg : ∀ x ∈ S, f x = some p ∨ f x = some q → g x ∈ S ∧ f (g x) = some d)
    (hinj : ∀ x ∈ S, ∀ y ∈ S, f x = some p ∨ f x = some q → f y = some p ∨ f y = some q →
      g x = g y → x = y) : slotCount S f p + slotCount S f q ≤ slotCount S f d := by
  classical
  have hdisj : Disjoint (S.filter fun x => f x = some p) (S.filter fun x => f x = some q) := by
    refine Finset.disjoint_filter.mpr fun x _ hp hq => hpq ?_
    exact Option.some.inj (hp.symm.trans hq)
  unfold slotCount
  rw [← Finset.card_union_of_disjoint hdisj]
  have hmem : ∀ x, x ∈ (S.filter fun x => f x = some p) ∪ (S.filter fun x => f x = some q) →
      x ∈ S ∧ (f x = some p ∨ f x = some q) := by
    intro x hx
    rcases Finset.mem_union.mp hx with hx | hx
    · exact ⟨(Finset.mem_filter.mp hx).1, Or.inl (Finset.mem_filter.mp hx).2⟩
    · exact ⟨(Finset.mem_filter.mp hx).1, Or.inr (Finset.mem_filter.mp hx).2⟩
  refine Finset.card_le_card_of_injOn g (fun x hx => ?_) fun x hx y hy heq => ?_
  · obtain ⟨hxS, hxf⟩ := hmem x hx
    exact Finset.mem_filter.mpr (hg x hxS hxf)
  · obtain ⟨hxS, hxf⟩ := hmem x hx
    obtain ⟨hyS, hyf⟩ := hmem y hy
    exact hinj x hxS y hyS hxf hyf heq

end RpiMos.Lib
