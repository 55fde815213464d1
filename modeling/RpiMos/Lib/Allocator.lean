/-
  RpiMos.Lib.Allocator

  An allocator of single units as the set of the units in use.  A history of
  allocations and releases says which units are in use after it: those handed
  out and not given back since, and those in use from the start that were never
  given back.
-/

import Mathlib.Data.List.Induction
import Mathlib.Tactic.Tauto

namespace RpiMos.Lib

/-- What an allocator does, as its history records it. -/
inductive AllocEvent (ν : Type _) where
  | alloc (u : ν)
  | free (u : ν)
  | other

variable {ν : Type _} {U : ν → Prop} {u v : ν} {tr : List (AllocEvent ν)}

/-- The units in use after an event. -/
def AllocEvent.apply (U : ν → Prop) : AllocEvent ν → ν → Prop
  | .alloc u => fun v => v = u ∨ U v
  | .free u => fun v => v ≠ u ∧ U v
  | .other => U

/-- The units in use after a history that starts with those of `U`. -/
def inUse (U : ν → Prop) (tr : List (AllocEvent ν)) : ν → Prop := tr.foldl AllocEvent.apply U

/-- Handed out, and not given back since. -/
def HandedOut (tr : List (AllocEvent ν)) (v : ν) : Prop :=
  ∃ tr₁ tr₂, tr = tr₁ ++ .alloc v :: tr₂ ∧ .free v ∉ tr₂

theorem inUse_snoc (e : AllocEvent ν) : inUse U (tr ++ [e]) = e.apply (inUse U tr) := by
  rw [inUse, List.foldl_append, List.foldl_cons, List.foldl_nil, inUse]

theorem not_handedOut_nil : ¬ HandedOut [] v := by
  rintro ⟨tr₁, tr₂, h, -⟩
  cases tr₁ with
  | nil => cases h
  | cons a tr₁ => cases h

theorem handedOut_snoc {e : AllocEvent ν} :
    HandedOut (tr ++ [e]) v ↔ e = .alloc v ∨ e ≠ .free v ∧ HandedOut tr v := by
  constructor
  · rintro ⟨tr₁, tr₂, h, hfree⟩
    rcases List.eq_nil_or_concat tr₂ with rfl | ⟨tr₃, b, rfl⟩
    · obtain ⟨-, he⟩ := List.append_inj' h rfl
      exact Or.inl (List.cons.inj he).1
    · rw [List.concat_eq_append, ← List.cons_append, ← List.append_assoc] at h
      obtain ⟨htr, he⟩ := List.append_inj' h rfl
      cases he
      rw [List.concat_eq_append, List.mem_append, not_or, List.mem_singleton] at hfree
      exact Or.inr ⟨fun heq => hfree.2 heq.symm, tr₁, tr₃, htr, hfree.1⟩
  · rintro (rfl | ⟨he, tr₁, tr₂, rfl, hfree⟩)
    · exact ⟨tr, [], rfl, List.not_mem_nil⟩
    · refine ⟨tr₁, tr₂ ++ [e], by rw [List.append_assoc, List.cons_append], ?_⟩
      rw [List.mem_append, not_or, List.mem_singleton]
      exact ⟨hfree, fun heq => he heq.symm⟩

/-- The units in use, told from the history. -/
theorem inUse_iff : inUse U tr v ↔ (U v ∧ .free v ∉ tr) ∨ HandedOut tr v := by
  induction tr using List.reverseRecOn with
  | nil =>
      show U v ↔ _
      simp [not_handedOut_nil]
  | append_singleton tr e ih =>
      rw [inUse_snoc, handedOut_snoc, List.mem_append, not_or, List.mem_singleton]
      cases e with
      | alloc u =>
          show v = u ∨ inUse U tr v ↔ _
          rw [ih]
          simp only [AllocEvent.alloc.injEq, reduceCtorEq, not_false_eq_true, and_true, ne_eq, true_and]
          rw [eq_comm]
          exact or_left_comm
      | free u =>
          show v ≠ u ∧ inUse U tr v ↔ _
          rw [ih]
          simp only [AllocEvent.free.injEq, reduceCtorEq, false_or, ne_eq, eq_comm (a := u)]
          tauto
      | other =>
          show inUse U tr v ↔ _
          rw [ih]
          simp

end RpiMos.Lib
