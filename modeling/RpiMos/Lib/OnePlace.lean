/-
  RpiMos.Lib.OnePlace

  The history of a one-place buffer: the list of what was put into it, the list
  of what was taken out, and the item still in it.  `R a b` says that taking `a`
  out shows as `b`.
-/

import Mathlib.Data.List.Forall2
import RpiMos.Lib.Run

namespace RpiMos.Lib

variable {α β : Type _} {R : α → β → Prop} {puts : List α} {takes : List β} {a : α} {b : β}

/-- A history read off a trace grows by what the last event contributes. -/
theorem filterMap_snoc (f : α → Option β) (l : List α) (a : α) :
    (l ++ [a]).filterMap f = l.filterMap f ++ (f a).toList := by
  rw [List.filterMap_append]
  cases h : f a <;> simp [h]

/-- Everything put has been taken, once and in order, but for the item `held`. -/
def OnePlace (R : α → β → Prop) (puts : List α) (takes : List β) (held : Option α) : Prop :=
  ∃ done, puts = done ++ held.toList ∧ List.Forall₂ R done takes

namespace OnePlace

theorem nil : OnePlace R [] [] none := ⟨[], rfl, .nil⟩

theorem put (h : OnePlace R puts takes none) (a : α) : OnePlace R (puts ++ [a]) takes (some a) := by
  obtain ⟨done, hputs, hdone⟩ := h
  refine ⟨done, ?_, hdone⟩
  rw [hputs]
  simp

theorem take (h : OnePlace R puts takes (some a)) (hab : R a b) :
    OnePlace R puts (takes ++ [b]) none := by
  obtain ⟨done, hputs, hdone⟩ := h
  refine ⟨done ++ [a], ?_, List.rel_append hdone (.cons hab .nil)⟩
  rw [hputs]
  simp

theorem length {held : Option α} (h : OnePlace R puts takes held) :
    puts.length = takes.length + held.toList.length := by
  obtain ⟨done, hputs, hdone⟩ := h
  rw [hputs, List.length_append, hdone.length_eq]

theorem length_le {held : Option α} (h : OnePlace R puts takes held) :
    takes.length ≤ puts.length ∧ puts.length ≤ takes.length + 1 := by
  have hlen := h.length
  cases held <;> simp at hlen <;> omega

end OnePlace

end RpiMos.Lib
