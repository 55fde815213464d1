/-
  RpiMos.Lib.IntBuf

  A buffer that is indexed by integers and remembers which indices have been stored
  to, so that a store outside the buffer is seen.  Loops that fill a range and that
  reverse one, and the text that stands in the buffer behind them.
-/

import Mathlib.Data.List.Basic
import Mathlib.Logic.Function.Basic
import Mathlib.Order.Basic

namespace RpiMos.Lib

universe u

structure IntBuf (α : Type u) where
  val : Int → α
  stores : List Int

namespace IntBuf

variable {α : Type u}

def put (b : IntBuf α) (i : Int) (c : α) : IntBuf α := ⟨Function.update b.val i c, i :: b.stores⟩

/-- `n` turns of `buf[i] = f(i); i++`. -/
def fillN (f : Int → α) (i : Int) : Nat → IntBuf α → IntBuf α
  | 0, b => b
  | n + 1, b => fillN f (i + 1) n (b.put i (f i))

/-- `for (k = i; k < j; k++) buf[k] = f(k)`. -/
def fill (f : Int → α) (i j : Int) (b : IntBuf α) : IntBuf α := fillN f i (j - i).toNat b

def swap (i j : Int) (b : IntBuf α) : IntBuf α := (b.put i (b.val j)).put j (b.val i)

/-- `while (j > i) { swap(i, j); i++; j--; }`. -/
def reverse (i j : Int) (b : IntBuf α) : IntBuf α :=
  if i < j then reverse (i + 1) (j - 1) (b.swap i j) else b
termination_by (j - i).toNat

/-- All stores have been below `n`. -/
def Within (b : IntBuf α) (n : Int) : Prop := ∀ x ∈ b.stores, 0 ≤ x ∧ x < n

/-- The first `n` characters. -/
def text (b : IntBuf α) (n : Int) : List α := (List.range n.toNat).map fun k : Nat => b.val k

variable {b : IntBuf α} {f : Int → α} {c : α} {i j x : Int} {n : Nat}

/-! ## What is where -/

theorem put_val : (b.put i c).val x = if x = i then c else b.val x := Function.update_apply (f := b.val) i c x

@[simp] theorem put_self : (b.put i c).val i = c := by
  rw [put_val, if_pos rfl]

theorem put_of_ne (h : x ≠ i) : (b.put i c).val x = b.val x := by
  rw [put_val, if_neg h]

theorem fillN_val : (fillN f i n b).val x = if i ≤ x ∧ x < i + n then f x else b.val x := by
  induction n generalizing i b with
  | zero => rw [fillN, if_neg (by omega)]
  | succ n ih =>
      rw [fillN, ih, put_val]
      by_cases hi : x = i
      · rw [if_neg (by omega), if_pos hi, if_pos (by omega), hi]
      · rw [if_neg hi]
        refine if_congr ?_ rfl rfl
        omega

theorem fill_val : (fill f i j b).val x = if i ≤ x ∧ x < j then f x else b.val x := by
  rw [fill, fillN_val]
  refine if_congr ?_ rfl rfl
  omega

theorem swap_val : (b.swap i j).val x = if x = j then b.val i else if x = i then b.val j else b.val x := by
  rw [swap, put_val, put_val]

/-- Reversed between `i` and `j`; induction as the loop runs, from outside. -/
theorem reverse_val : (reverse i j b).val x = if i ≤ x ∧ x ≤ j then b.val (i + j - x) else b.val x := by
  induction i, j, b using reverse.induct with
  | case1 i j b hlt ih =>
      rw [reverse, if_pos hlt, ih, swap_val, swap_val]
      by_cases hin : i + 1 ≤ x ∧ x ≤ j - 1
      · have hsum : i + 1 + (j - 1) - x = i + j - x := by omega
        rw [if_pos hin, hsum, if_neg (by omega), if_neg (by omega), if_pos (by omega)]
      · rw [if_neg hin]
        by_cases hj : x = j
        · rw [if_pos hj, if_pos (by omega), hj, Int.add_sub_cancel]
        · rw [if_neg hj]
          by_cases hi : x = i
          · rw [if_pos hi, if_pos (by omega), hi, Int.add_comm, Int.add_sub_cancel]
          · rw [if_neg hi, if_neg (by omega)]
  | case2 i j b hge =>
      rw [reverse, if_neg hge]
      split
      · congr 1
        omega
      · rfl

/-! ## What is stored to -/

variable {m : Int}

theorem within_put : (b.put i c).Within m ↔ (0 ≤ i ∧ i < m) ∧ b.Within m := List.forall_mem_cons

theorem within_fillN : (fillN f i n b).Within m ↔ (0 < n → 0 ≤ i ∧ i + n ≤ m) ∧ b.Within m := by
  induction n generalizing i b with
  | zero => exact ⟨fun h => ⟨fun h0 => absurd h0 (Nat.lt_irrefl 0), h⟩, fun h => h.2⟩
  | succ n ih =>
      rw [fillN, ih, within_put, ← and_assoc]
      refine and_congr_left fun _ => ?_
      omega

/-- A range that is not empty has to be inside. -/
theorem within_fill : (fill f i j b).Within m ↔ (i < j → 0 ≤ i ∧ j ≤ m) ∧ b.Within m := by
  rw [fill, within_fillN]
  refine and_congr_left fun _ => ?_
  omega

/-- To reverse a range is to store into it. -/
theorem within_reverse (h : i < j → 0 ≤ i ∧ j < m) : (reverse i j b).Within m ↔ b.Within m := by
  induction i, j, b using reverse.induct with
  | case1 i j b hlt ih =>
      obtain ⟨hi, hj⟩ := h hlt
      rw [reverse, if_pos hlt, ih (by omega), swap, within_put, within_put, and_iff_right (by omega),
        and_iff_right (by omega)]
  | case2 i j b hge => rw [reverse, if_neg hge]

theorem within_of_reverse (h : (reverse i j b).Within m) : b.Within m := by
  induction i, j, b using reverse.induct with
  | case1 i j b hlt ih =>
      rw [reverse, if_pos hlt] at h
      exact (within_put.mp (within_put.mp (ih h)).2).2
  | case2 i j b hge =>
      rw [reverse, if_neg hge] at h
      exact h

/-! ## The text -/

@[simp] theorem text_zero (b : IntBuf α) : b.text 0 = [] := rfl

theorem text_length (b : IntBuf α) (n : Int) : (b.text n).length = n.toNat := by
  rw [text, List.length_map, List.length_range]

theorem text_getElem {k : Nat} (h : k < (b.text x).length) : (b.text x)[k] = b.val k := by
  simp only [text, List.getElem_map, List.getElem_range]

/-- Two buffers with the same characters. -/
theorem text_congr {b' : IntBuf α} (h : ∀ k : Int, 0 ≤ k → k < x → b'.val k = b.val k) : b'.text x = b.text x := by
  apply List.map_congr_left
  intro k hk
  have hk' := List.mem_range.mp hk
  exact h k (by omega) (by omega)

/-- The text up to `i`, and what is behind it up to `j`. -/
theorem text_split (hi : 0 ≤ i) (hij : i ≤ j) :
    b.text j = b.text i ++ (List.range (j - i).toNat).map fun k : Nat => b.val (i + k) := by
  have hlen : j.toNat = i.toNat + (j - i).toNat := by omega
  rw [text, text, hlen, List.range_add, List.map_append, List.map_map]
  refine congrArg _ (List.map_congr_left fun k _ => ?_)
  show b.val ((i.toNat + k : Nat) : Int) = b.val (i + k)
  congr 1
  omega

theorem text_fill (hi : 0 ≤ i) (hij : i ≤ j) :
    (fill f i j b).text j = b.text i ++ (List.range (j - i).toNat).map fun k : Nat => f (i + k) := by
  rw [text_split hi hij]
  congr 1
  · apply text_congr
    intro k _ hk
    rw [fill_val, if_neg (by omega)]
  · apply List.map_congr_left
    intro k hk
    have hk' := List.mem_range.mp hk
    rw [fill_val, if_pos (by omega)]

theorem text_fill_const (hi : 0 ≤ i) (hij : i ≤ j) :
    (fill (fun _ => c) i j b).text j = b.text i ++ List.replicate (j - i).toNat c := by
  rw [text_fill hi hij]
  congr 1
  exact List.eq_replicate_iff.mpr ⟨by rw [List.length_map, List.length_range], by simp⟩

/-- One character all over. -/
theorem text_eq_replicate (h : ∀ k : Int, 0 ≤ k → k < x → b.val k = c) : b.text x = List.replicate x.toNat c := by
  refine List.eq_replicate_iff.mpr ⟨text_length b x, fun d hd => ?_⟩
  obtain ⟨k, hk, rfl⟩ := List.mem_map.mp hd
  have hk' := List.mem_range.mp hk
  exact h k (by omega) (by omega)

theorem text_put (hi : 0 ≤ i) : (b.put i c).text (i + 1) = b.text i ++ [c] := by
  have h := text_split (b := b.put i c) hi (Int.le_add_one (Int.le_refl i))
  have hone : (i + 1 - i).toNat = 1 := by omega
  rw [hone] at h
  rw [h]
  congr 1
  · apply text_congr
    intro k _ hk
    rw [put_of_ne (by omega)]
  · show [(b.put i c).val (i + 0)] = [c]
    rw [Int.add_zero, put_self]

/-- The first `n` characters reversed. -/
theorem text_reverse (hn : 0 ≤ i) : (reverse 0 (i - 1) b).text i = (b.text i).reverse := by
  apply List.ext_getElem
  · rw [List.length_reverse, text_length, text_length]
  · intro k hk _
    rw [text_length] at hk
    rw [text_getElem, List.getElem_reverse, text_getElem, reverse_val, if_pos (by omega), text_length]
    congr 1
    omega

/-- What is behind the part that is reversed stays. -/
theorem text_reverse_part (hi : 0 ≤ i) (hij : i ≤ j) : (reverse 0 (i - 1) b).text j =
    (b.text i).reverse ++ (List.range (j - i).toNat).map fun k : Nat => b.val (i + k) := by
  rw [text_split hi hij, text_reverse hi]
  congr 1
  apply List.map_congr_left
  intro k _
  rw [reverse_val, if_neg (by omega)]

end IntBuf

end RpiMos.Lib
