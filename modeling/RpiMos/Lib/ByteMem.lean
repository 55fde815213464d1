/-
  RpiMos.Lib.ByteMem

  A memory of bytes with little-endian loads and stores of 8, 32 and 64 bits at
  any address: what a load sees after a store to the same place and after one
  elsewhere.
-/

import Mathlib.Data.Nat.Bits
import Mathlib.Order.Interval.Finset.Nat
import Mathlib.Tactic.Ring

namespace RpiMos.Lib

abbrev ByteMem := Nat → BitVec 8

namespace ByteMem

def ld8 (m : ByteMem) (a : Nat) : BitVec 8 := m a

def ld32 (m : ByteMem) (a : Nat) : BitVec 32 := m (a + 3) ++ m (a + 2) ++ m (a + 1) ++ m a

def ld64 (m : ByteMem) (a : Nat) : BitVec 64 := m.ld32 (a + 4) ++ m.ld32 a

def st8 (m : ByteMem) (a : Nat) (v : BitVec 8) : ByteMem := fun x => if x = a then v else m x

def st32 (m : ByteMem) (a : Nat) (v : BitVec 32) : ByteMem := fun x =>
  if a ≤ x ∧ x < a + 4 then v.extractLsb' (8 * (x - a)) 8 else m x

def st64 (m : ByteMem) (a : Nat) (v : BitVec 64) : ByteMem :=
  (m.st32 a (v.setWidth 32)).st32 (a + 4) ((v >>> 32).setWidth 32)

/-- A string and its terminating null, byte by byte. -/
def stStr : ByteMem → Nat → List (BitVec 8) → ByteMem
  | m, a, [] => m.st8 a 0
  | m, a, c :: str => stStr (m.st8 a c) (a + 1) str

/-- The `n` bytes from `dst` on become those of `m'` that start at `src`. -/
def fill (m m' : ByteMem) (src dst n : Nat) : ByteMem := fun x =>
  if dst ≤ x ∧ x < dst + n then m' (x - dst + src) else m x

/-- `n` bytes from `a` on become null. -/
def zero (m : ByteMem) (a n : Nat) : ByteMem := fun x => if a ≤ x ∧ x < a + n then 0 else m x

/-- The two memories hold the same `n` bytes from `a` on. -/
def Same (m m' : ByteMem) (a n : Nat) : Prop := ∀ x, a ≤ x → x < a + n → m' x = m x

variable {m m' : ByteMem} {a b n k : Nat}

theorem Same.mono (h : Same m m' a n) (hab : a ≤ b) (hbn : b + k ≤ a + n) : Same m m' b k :=
  fun x hlo hhi => h x (by omega) (by omega)

theorem Same.ld8 (h : Same m m' a 1) : m'.ld8 a = m.ld8 a := h a (by omega) (by omega)

theorem Same.ld32 (h : Same m m' a 4) : m'.ld32 a = m.ld32 a := by
  unfold ByteMem.ld32
  rw [h a (by omega) (by omega), h (a + 1) (by omega) (by omega), h (a + 2) (by omega) (by omega),
    h (a + 3) (by omega) (by omega)]

theorem Same.ld64 (h : Same m m' a 8) : m'.ld64 a = m.ld64 a := by
  unfold ByteMem.ld64
  rw [(h.mono (b := a) (k := 4) (by omega) (by omega)).ld32,
    (h.mono (b := a + 4) (k := 4) (by omega) (by omega)).ld32]

/-- A load of the same bytes at another place. -/
theorem ld64_congr (h : ∀ k < 8, m' (b + k) = m (a + k)) : m'.ld64 b = m.ld64 a := by
  have h0 : m' b = m a := h 0 (by omega)
  have h1 := h 1 (by omega)
  have h2 := h 2 (by omega)
  have h3 := h 3 (by omega)
  have h4 : m' (b + 4) = m (a + 4) := h 4 (by omega)
  have h5 : m' (b + 4 + 1) = m (a + 4 + 1) := h 5 (by omega)
  have h6 : m' (b + 4 + 2) = m (a + 4 + 2) := h 6 (by omega)
  have h7 : m' (b + 4 + 3) = m (a + 4 + 3) := h 7 (by omega)
  unfold ByteMem.ld64 ByteMem.ld32
  rw [h0, h1, h2, h3, h4, h5, h6, h7]

/-! ## Stores elsewhere -/

theorem same_st8 (v : BitVec 8) (h : a < b ∨ b + n ≤ a) : Same m (m.st8 a v) b n := by
  intro x hlo hhi
  rw [st8, if_neg (by omega)]

theorem same_st32 (v : BitVec 32) (h : a + 4 ≤ b ∨ b + n ≤ a) : Same m (m.st32 a v) b n := by
  intro x hlo hhi
  rw [st32, if_neg (by omega)]

/-- A byte that is not stored to. -/
theorem st32_of_out {x : Nat} (v : BitVec 32) (h : x < a ∨ a + 4 ≤ x) : m.st32 a v x = m x := by
  rw [st32, if_neg (by omega)]

theorem same_st64 (v : BitVec 64) (h : a + 8 ≤ b ∨ b + n ≤ a) : Same m (m.st64 a v) b n := by
  intro x hlo hhi
  rw [st64, st32, if_neg (by omega), st32, if_neg (by omega)]

theorem same_zero (h : a + k ≤ b ∨ b + n ≤ a) : Same m (m.zero a k) b n := by
  intro x hlo hhi
  rw [zero, if_neg (by omega)]

theorem stStr_of_out {str : List (BitVec 8)} {x : Nat} (h : x < a ∨ a + str.length < x) : stStr m a str x = m x := by
  induction str generalizing m a with
  | nil =>
      rw [List.length_nil] at h
      rw [stStr, st8, if_neg (by omega)]
  | cons c str ih =>
      rw [List.length_cons] at h
      rw [stStr, ih (by omega), st8, if_neg (by omega)]

/-- What stood in its place does not matter. -/
theorem stStr_congr {str : List (BitVec 8)} {x : Nat} (hlo : a ≤ x) (hhi : x ≤ a + str.length) :
    stStr m a str x = stStr m' a str x := by
  induction str generalizing m m' a with
  | nil =>
      rw [List.length_nil] at hhi
      rw [stStr, stStr, st8, st8, if_pos (by omega), if_pos (by omega)]
  | cons c str ih =>
      rw [List.length_cons] at hhi
      rw [stStr, stStr]
      by_cases hx : x = a
      · rw [stStr_of_out (by omega), stStr_of_out (by omega), st8, st8, if_pos hx, if_pos hx]
      · exact ih (by omega) (by omega)

theorem ld32_zero : ld32 (fun _ => 0) a = 0 := by
  have hzero : (0 : BitVec 8) ++ (0 : BitVec 8) ++ (0 : BitVec 8) ++ (0 : BitVec 8) =
      (0 : BitVec 32) := by decide
  exact hzero

theorem ld64_zero : ld64 (fun _ => 0) a = 0 := by
  rw [ld64, ld32_zero, ld32_zero]
  decide

/-! ## Stores to the same place -/

theorem ld8_st8 (v : BitVec 8) : (m.st8 a v).ld8 a = v := by
  rw [ld8, st8, if_pos rfl]

theorem ld32_st32 (v : BitVec 32) : (m.st32 a v).ld32 a = v := by
  have h : ∀ i, i < 4 → m.st32 a v (a + i) = v.extractLsb' (8 * i) 8 := by
    intro i hi
    rw [st32, if_pos (by omega), Nat.add_sub_cancel_left]
  rw [ld32, h 3 (by omega), h 2 (by omega), h 1 (by omega)]
  have h0 := h 0 (by omega)
  rw [Nat.add_zero] at h0
  rw [h0]
  apply BitVec.eq_of_getLsbD_eq
  intro j hj
  simp only [BitVec.getLsbD_append, BitVec.getLsbD_extractLsb']
  by_cases h8 : j < 8
  · simp [h8]
  · by_cases h16 : j < 16
    · simp [h8, show j - 8 < 8 by omega, show 8 + (j - 8) = j by omega]
    · by_cases h24 : j < 24
      · simp [h8, show ¬ j - 8 < 8 by omega, show j - 8 - 8 < 8 by omega,
          show 16 + (j - 8 - 8) = j by omega]
      · simp [h8, show ¬ j - 8 < 8 by omega, show ¬ j - 8 - 8 < 8 by omega,
          show j - 8 - 8 - 8 < 8 by omega, show 24 + (j - 8 - 8 - 8) = j by omega]

theorem ld64_st64 (v : BitVec 64) : (m.st64 a v).ld64 a = v := by
  have hlo : (m.st64 a v).ld32 a = v.setWidth 32 := by
    rw [st64, (same_st32 (b := a) (n := 4) _ (by omega)).ld32, ld32_st32]
  have hhi : (m.st64 a v).ld32 (a + 4) = (v >>> 32).setWidth 32 := by
    rw [st64, ld32_st32]
  rw [ld64, hlo, hhi]
  apply BitVec.eq_of_getLsbD_eq
  intro j hj
  rw [BitVec.getLsbD_append]
  by_cases h32 : j < 32
  · simp [h32]
  · simp [h32, show j - 32 < 32 by omega, show 32 + (j - 32) = j by omega]

/-- Each byte of a word that is loaded. -/
theorem extract_ld32 {i : Nat} (hi : i < 4) : (m.ld32 a).extractLsb' (8 * i) 8 = m (a + i) := by
  apply BitVec.eq_of_getLsbD_eq
  intro j hj
  rw [BitVec.getLsbD_extractLsb', ld32]
  simp only [BitVec.getLsbD_append]
  have hcases : i = 0 ∨ i = 1 ∨ i = 2 ∨ i = 3 := by omega
  rcases hcases with rfl | rfl | rfl | rfl
  · simp [hj]
  · simp [hj, show ¬ 8 + j < 8 by omega]
  · simp [hj, show ¬ 16 + j < 8 by omega, show ¬ 16 + j - 8 < 8 by omega,
      show 16 + j - 8 - 8 = j by omega]
  · simp [hj, show ¬ 24 + j < 8 by omega, show ¬ 24 + j - 8 < 8 by omega,
      show ¬ 24 + j - 8 - 8 < 8 by omega, show 24 + j - 8 - 8 - 8 = j by omega]

/-- Each byte of a 64-bit word that is loaded. -/
theorem byte_ld64 {i : Nat} (hi : i < 8) : (m.ld64 a >>> (8 * i)).setWidth 8 = m (a + i) := by
  apply BitVec.eq_of_getLsbD_eq
  intro j hj
  rw [BitVec.getLsbD_setWidth, BitVec.getLsbD_ushiftRight, ld64, BitVec.getLsbD_append]
  by_cases hlo : i < 4
  · have hbyte := congrArg (fun v => v.getLsbD j) (extract_ld32 (m := m) (a := a) hlo)
    simp only [BitVec.getLsbD_extractLsb', hj, decide_true, Bool.true_and] at hbyte
    simp only [hj, decide_true, Bool.true_and, show 8 * i + j < 32 by omega, if_true]
    exact hbyte
  · have hbyte := congrArg (fun v => v.getLsbD j)
      (extract_ld32 (m := m) (a := a + 4) (i := i - 4) (by omega))
    simp only [BitVec.getLsbD_extractLsb', hj, decide_true, Bool.true_and] at hbyte
    have hidx : 8 * i + j - 32 = 8 * (i - 4) + j := by omega
    have hadd : a + 4 + (i - 4) = a + i := by omega
    rw [hadd] at hbyte
    simp only [hj, decide_true, Bool.true_and, show ¬ 8 * i + j < 32 by omega, if_false, hidx]
    exact hbyte

/-! ## A 64-bit access to two 32-bit words -/

theorem ld64_toNat : (m.ld64 a).toNat = (m.ld32 (a + 4)).toNat * 2 ^ 32 + (m.ld32 a).toNat := by
  rw [ld64, BitVec.toNat_append, Nat.shiftLeft_eq, Nat.mul_comm, Nat.two_pow_add_eq_or_of_lt]
  exact (m.ld32 a).isLt

theorem ld64_eq_zero : m.ld64 a = 0 ↔ m.ld32 a = 0 ∧ m.ld32 (a + 4) = 0 := by
  have h := ld64_toNat (m := m) (a := a)
  constructor
  · intro h0
    rw [h0] at h
    have hz : (0 : BitVec 64).toNat = 0 := rfl
    rw [hz] at h
    constructor
    · apply BitVec.eq_of_toNat_eq
      show (m.ld32 a).toNat = 0
      omega
    · apply BitVec.eq_of_toNat_eq
      show (m.ld32 (a + 4)).toNat = 0
      omega
  · rintro ⟨h₁, h₂⟩
    rw [ld64, h₁, h₂]
    rfl

theorem ld64_setWidth : (m.ld64 a).setWidth 32 = m.ld32 a := by
  rw [ld64, BitVec.setWidth_append]
  simp

theorem ld64_hi : (m.ld64 a >>> 32).setWidth 32 = m.ld32 (a + 4) := by
  apply BitVec.eq_of_toNat_eq
  have hlo := (m.ld32 a).isLt
  have hhi := (m.ld32 (a + 4)).isLt
  rw [BitVec.toNat_setWidth, BitVec.toNat_ushiftRight, Nat.shiftRight_eq_div_pow, ld64_toNat]
  omega

/-- Storing what stands there already. -/
theorem st32_ld32 : m.st32 a (m.ld32 a) = m := by
  funext x
  by_cases hx : a ≤ x ∧ x < a + 4
  · have hbyte := extract_ld32 (m := m) (a := a) (i := x - a) (by omega)
    rw [Nat.add_sub_cancel' hx.1] at hbyte
    rw [st32, if_pos hx, hbyte]
  · rw [st32, if_neg hx]

theorem st64_ld64 : m.st64 a (m.ld64 a) = m := by
  rw [st64, ld64_setWidth, ld64_hi, st32_ld32, st32_ld32]

/-- The second of two stores to one place counts. -/
theorem st64_st64 (v w : BitVec 64) : (m.st64 a v).st64 a w = m.st64 a w := by
  funext x
  simp only [st64, st32]
  split
  · rfl
  · split
    · rfl
    · rfl

/-- When the upper word is zero already, only the lower one changes. -/
theorem st64_eq_st32 (v : BitVec 32) (h : m.ld32 (a + 4) = 0) :
    m.st64 a (v.setWidth 64) = m.st32 a v := by
  have hlo : (v.setWidth 64).setWidth 32 = v := by
    apply BitVec.eq_of_toNat_eq
    rw [BitVec.toNat_setWidth, BitVec.toNat_setWidth]
    have := v.isLt
    omega
  have hhi : ((v.setWidth 64) >>> 32).setWidth 32 = (0 : BitVec 32) := by
    apply BitVec.eq_of_toNat_eq
    rw [BitVec.toNat_setWidth, BitVec.toNat_ushiftRight, BitVec.toNat_setWidth, Nat.shiftRight_eq_div_pow]
    have := v.isLt
    show v.toNat % 2 ^ 64 / 2 ^ 32 % 2 ^ 32 = 0
    omega
  rw [st64, hlo, hhi]
  funext x
  by_cases hx : a + 4 ≤ x ∧ x < a + 4 + 4
  · have hbyte : m x = 0 := by
      have hb := extract_ld32 (m := m) (a := a + 4) (i := x - (a + 4)) (by omega)
      rw [Nat.add_sub_cancel' hx.1, h] at hb
      rw [← hb]
      apply BitVec.eq_of_toNat_eq
      simp
    rw [st32, if_pos hx, st32, if_neg (by omega), hbyte]
    apply BitVec.eq_of_toNat_eq
    simp
  · rw [st32, if_neg hx]

/-! ## Ranges of addresses -/

/-- The bytes from `a` on are those of the list. -/
def Holds (m : ByteMem) (a : Nat) (bytes : List (BitVec 8)) : Prop :=
  ∀ i (h : i < bytes.length), m (a + i) = bytes[i]

theorem Holds.cons {c : BitVec 8} {bytes : List (BitVec 8)} (hc : m a = c)
    (h : Holds m (a + 1) bytes) : Holds m a (c :: bytes) := by
  intro i hi
  cases i with
  | zero => exact hc
  | succ i =>
      rw [List.length_cons] at hi
      have hbyte := h i (by omega)
      rw [Nat.add_assoc, Nat.add_comm 1 i] at hbyte
      exact hbyte

theorem Holds.of_same {bytes : List (BitVec 8)} (h : Holds m a bytes)
    (hs : Same m m' a bytes.length) : Holds m' a bytes := by
  intro i hi
  rw [hs (a + i) (by omega) (by omega)]
  exact h i hi

/-- The ranges, each a start and a length, have no address in common. -/
def Separate (r r' : Nat × Nat) : Prop := r.1 + r.2 ≤ r'.1 ∨ r'.1 + r'.2 ≤ r.1

/-- Ranges in a region of `n` addresses are no longer together than it, if no two of
    them meet. -/
theorem sum_le_of_separate {rs : List (Nat × Nat)} (hin : ∀ r ∈ rs, a ≤ r.1 ∧ r.1 + r.2 ≤ a + n)
    (hapart : rs.Pairwise Separate) : (rs.map (·.2)).sum ≤ n := by
  -- The addresses that are in a range, counted.
  have hcount : ∃ S : Finset Nat, S.card = (rs.map (·.2)).sum ∧
      ∀ x ∈ S, ∃ r ∈ rs, r.1 ≤ x ∧ x < r.1 + r.2 := by
    clear hin
    induction rs with
    | nil => exact ⟨∅, rfl, fun x hx => absurd hx (Finset.notMem_empty x)⟩
    | cons r rs ih =>
        obtain ⟨hr, hrest⟩ := List.pairwise_cons.mp hapart
        obtain ⟨S, hcard, hS⟩ := ih hrest
        have hdisj : Disjoint (Finset.Ico r.1 (r.1 + r.2)) S := by
          rw [Finset.disjoint_left]
          intro x hx hxS
          obtain ⟨r', hr', hlo, hhi⟩ := hS x hxS
          obtain ⟨hlo', hhi'⟩ := Finset.mem_Ico.mp hx
          have h := hr r' hr'
          unfold Separate at h
          omega
        refine ⟨Finset.Ico r.1 (r.1 + r.2) ∪ S, ?_, fun x hx => ?_⟩
        · rw [Finset.card_union_of_disjoint hdisj, Nat.card_Ico, hcard, List.map_cons,
            List.sum_cons, Nat.add_sub_cancel_left]
        · rcases Finset.mem_union.mp hx with hx | hx
          · exact ⟨r, List.mem_cons_self, Finset.mem_Ico.mp hx⟩
          · obtain ⟨r', hr', h⟩ := hS x hx
            exact ⟨r', List.mem_cons_of_mem r hr', h⟩
  obtain ⟨S, hcard, hS⟩ := hcount
  have hsub : S ⊆ Finset.Ico a (a + n) := by
    intro x hx
    obtain ⟨r, hr, hlo, hhi⟩ := hS x hx
    have hin := hin r hr
    exact Finset.mem_Ico.mpr ⟨by omega, by omega⟩
  have hle := Finset.card_le_card hsub
  rw [hcard, Nat.card_Ico, Nat.add_sub_cancel_left] at hle
  exact hle

end ByteMem

end RpiMos.Lib
