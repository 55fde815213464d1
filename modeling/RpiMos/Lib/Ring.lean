/-
  RpiMos.Lib.Ring

  A ring of `cap` cells behind two counters that are never reset.  `RingHolds` says
  that the cells still have the elements between the counters; a cell may be
  prepared before the element in it is counted.
-/

import Mathlib.Algebra.Group.Nat.Defs
import Mathlib.Data.List.Basic

namespace RpiMos.Lib

variable {α : Type _} {cap lo j : Nat} {buf buf' : Nat → α} {l : List α} {b : α}

/-- The elements of `l` from index `lo` on are in their cells. -/
def RingHolds (cap : Nat) (buf : Nat → α) (l : List α) (lo : Nat) : Prop :=
  ∀ j, lo ≤ j → ∀ h : j < l.length, buf (j % cap) = l[j]

theorem RingHolds.nil (cap : Nat) (buf : Nat → α) : RingHolds cap buf [] 0 := fun j _ h =>
  absurd h (Nat.not_lt_zero j)

/-- Within one round of the ring two positions have two cells. -/
theorem mod_ne_of_window (hlo : lo ≤ j) (hj : j < l.length) (hroom : l.length < lo + cap) :
    j % cap ≠ l.length % cap := by
  intro h
  have hlt : l.length - j < cap := by omega
  have hmod : (l.length - j) % cap = 0 := Nat.sub_mod_eq_zero_of_mod_eq h.symm
  rw [Nat.mod_eq_of_lt hlt] at hmod
  omega

/-- With room left the next cell can be written. -/
theorem RingHolds.prepare (h : RingHolds cap buf l lo) (hroom : l.length < lo + cap) (b : α) :
    RingHolds cap (Function.update buf (l.length % cap) b) l lo := by
  intro j hlo hj
  rw [Function.update_of_ne (mod_ne_of_window hlo hj hroom)]
  exact h j hlo hj

/-- A prepared cell is counted. -/
theorem RingHolds.push (h : RingHolds cap buf l lo) (hb : buf (l.length % cap) = b) :
    RingHolds cap buf (l ++ [b]) lo := by
  intro j hlo hj
  rw [List.length_append, List.length_singleton] at hj
  rcases Nat.lt_succ_iff_lt_or_eq.mp hj with hlt | rfl
  · rw [List.getElem_append_left hlt]
    exact h j hlo hlt
  · rw [hb]
    simp

theorem RingHolds.pop (h : RingHolds cap buf l lo) : RingHolds cap buf l (lo + 1) :=
  fun j hlo hj => h j (by omega) hj

/-! ## Counters modulo a power of two -/

section Counters

variable {w m n : Nat}

/-- The distance of two counters is read off their remainders. -/
theorem toNat_counter_sub (hle : m ≤ n) (hlt : n - m < 2 ^ w) :
    (BitVec.ofNat w n - BitVec.ofNat w m).toNat = n - m := by
  have h : BitVec.ofNat w n - BitVec.ofNat w m = BitVec.ofNat w (n - m) := by
    have hsum : BitVec.ofNat w n = BitVec.ofNat w (n - m) + BitVec.ofNat w m := by
      rw [← BitVec.ofNat_add, Nat.sub_add_cancel hle]
    rw [hsum, BitVec.add_sub_cancel]
  rw [h, BitVec.toNat_ofNat, Nat.mod_eq_of_lt hlt]

theorem counter_eq_iff (hle : m ≤ n) (hlt : n - m < 2 ^ w) :
    BitVec.ofNat w m = BitVec.ofNat w n ↔ m = n := by
  constructor
  · intro h
    have hsub := toNat_counter_sub (w := w) hle hlt
    rw [h, BitVec.sub_self] at hsub
    have hz : (0#w).toNat = 0 := by simp
    omega
  · rintro rfl
    rfl

/-- The cell of a counter does not depend on how often it wrapped. -/
theorem counter_mod (hdvd : cap ∣ 2 ^ w) (n : Nat) : (BitVec.ofNat w n).toNat % cap = n % cap := by
  rw [BitVec.toNat_ofNat, Nat.mod_mod_of_dvd n hdvd]

end Counters

end RpiMos.Lib
