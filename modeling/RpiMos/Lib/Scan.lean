/-
  RpiMos.Lib.Scan

  The bounded search loop `for (i = start; i < start + n; i++) if (p(i)) return ..;`
  as a structurally recursive function, with its two-sided specification, and
  the invariant rule of the counted loop `for (i = 0; i < n; i++) ..`.
-/

import Mathlib.Data.List.Basic

namespace RpiMos.Lib

variable {β : Type _}

/-- The first answer of `p` on `i, i + 1, .., i + n - 1`. -/
def scan (p : Nat → Option β) : Nat → Nat → Option β
  | _, 0 => none
  | i, n + 1 =>
      match p i with
      | some b => some b
      | none => scan p (i + 1) n

theorem scan_eq_none {p : Nat → Option β} {i n : Nat} :
    scan p i n = none ↔ ∀ k, i ≤ k → k < i + n → p k = none := by
  induction n generalizing i with
  | zero => simp only [scan, true_iff]; omega
  | succ n ih =>
      cases hp : p i with
      | some b =>
          simp only [scan, hp, reduceCtorEq, false_iff]
          intro h
          have := h i (Nat.le_refl i) (by omega)
          simp [hp] at this
      | none =>
          simp only [scan, hp, ih]
          constructor
          · intro h k hik hk
            rcases Nat.eq_or_lt_of_le hik with rfl | hlt
            · exact hp
            · exact h k hlt (by omega)
          · intro h k hik hk
            exact h k (by omega) (by omega)

/-- A successful search stops at the first index with an answer. -/
theorem scan_eq_some {p : Nat → Option β} {i n : Nat} {b : β} :
    scan p i n = some b ↔
      ∃ k, i ≤ k ∧ k < i + n ∧ p k = some b ∧ ∀ m, i ≤ m → m < k → p m = none := by
  induction n generalizing i with
  | zero => simp only [scan, reduceCtorEq, false_iff, not_exists]; omega
  | succ n ih =>
      cases hp : p i with
      | some c =>
          simp only [scan, hp, Option.some.injEq]
          constructor
          · rintro rfl
            exact ⟨i, Nat.le_refl i, by omega, hp, fun m _ _ => by omega⟩
          · rintro ⟨k, hik, _, hk, hfirst⟩
            rcases Nat.eq_or_lt_of_le hik with rfl | hlt
            · simpa [hp] using hk
            · simp [hfirst i (Nat.le_refl i) hlt] at hp
      | none =>
          simp only [scan, hp, ih]
          constructor
          · rintro ⟨k, hik, hk, hpk, hfirst⟩
            refine ⟨k, by omega, by omega, hpk, fun m him hm => ?_⟩
            rcases Nat.eq_or_lt_of_le him with rfl | hlt
            · exact hp
            · exact hfirst m hlt hm
          · rintro ⟨k, hik, hk, hpk, hfirst⟩
            have hne : i ≠ k := by
              rintro rfl
              simp [hp] at hpk
            exact ⟨k, by omega, by omega, hpk, fun m him hm => hfirst m (by omega) hm⟩

/-- The invariant rule of a counted loop: `P k` before turn `k`. -/
theorem foldl_range_invariant {σ : Type _} {f : σ → Nat → σ} {P : Nat → σ → Prop} {s : σ} {n : Nat}
    (hinit : P 0 s) (hturn : ∀ k s, k < n → P k s → P (k + 1) (f s k)) :
    P n ((List.range n).foldl f s) := by
  induction n with
  | zero => exact hinit
  | succ n ih =>
      rw [List.range_succ, List.foldl_append, List.foldl_cons, List.foldl_nil]
      exact hturn n _ (Nat.lt_succ_self n) (ih fun k s hk => hturn k s (by omega))

end RpiMos.Lib
