/-
  RpiMos.Print.PrintNum

  `PrintNum` of lib/print.c and its twin in user/writef.c.  The digits are stored
  from the lowest on, the sign behind them, the padding behind that; then either all
  of it or the number alone is reversed.
-/

import RpiMos.Lib.IntBuf
import RpiMos.User.Pipe
import Mathlib.Data.Nat.Digits.Defs

namespace RpiMos

open Lib

/-- A character, as a byte. -/
def chr (c : Char) : Byte := BitVec.ofNat 8 c.toNat

/-- A base that there are digits for. -/
structure Base where
  val : Nat
  two_le : 2 ≤ val
  le_sixteen : val ≤ 16

/-- The digit of a value below 16. -/
def digitChar (upcase : Bool) (tmp : Nat) : Byte :=
  if tmp ≤ 9 then chr '0' + BitVec.ofNat 8 tmp
  else if upcase then chr 'A' + BitVec.ofNat 8 tmp - 10
  else chr 'a' + BitVec.ofNat 8 tmp - 10

/-- `do { ... } while (u != 0)`: the digits are stored from `p` on, and the place
    behind them is returned. -/
def putDigits (base : Base) (upcase : Bool) (u : Nat) (p : Int) (buf : IntBuf Byte) : Int × IntBuf Byte :=
  let buf := buf.put p (digitChar upcase (u % base.val))
  if _h : u / base.val = 0 then (p + 1, buf) else putDigits base upcase (u / base.val) (p + 1) buf
termination_by u
decreasing_by
  have hbase := base.two_le
  have hu : 0 < u := Nat.pos_of_ne_zero fun h0 => _h (by rw [h0, Nat.zero_div])
  exact Nat.div_lt_self hu (by omega)

/-- The sign behind the digits. -/
def putSign (negFlag : Bool) (p : Int) (buf : IntBuf Byte) : Int × IntBuf Byte :=
  if negFlag then (p + 1, buf.put p (chr '-')) else (p, buf)

/-- `PrintNum(buf, u, base, negFlag, length, ladjust, padc, upcase)`, both times. -/
def renderNum (buf : IntBuf Byte) (u : Word) (base : Base) (negFlag : Bool) (length : Int)
    (ladjust : Bool) (padc : Byte)
    (upcase : Bool) : Int × IntBuf Byte :=
  let (p, buf) := putDigits base upcase u.toNat 0 buf
  let (actualLength, buf) := putSign negFlag p buf
  let length := if length < actualLength then actualLength else length
  let padc := if ladjust then chr ' ' else padc
  let buf :=
    if negFlag = true ∧ ladjust = false ∧ padc = chr '0' then
      (buf.fill (fun _ => padc) (actualLength - 1) (length - 1)).put (length - 1) (chr '-')
    else buf.fill (fun _ => padc) actualLength length
  let last := if ladjust then actualLength - 1 else length - 1
  (length, buf.reverse 0 last)

/-- `PrintNum` of lib/print.c. -/
def printNum (buf : IntBuf Byte) (u : Word) (base : Base) (negFlag : Bool) (length : Int)
    (ladjust : Bool) (padc : Byte)
    (upcase : Bool) : Int × IntBuf Byte := renderNum buf u base negFlag length ladjust padc upcase

/-- `user_PrintNum` of user/writef.c. -/
def userPrintNum (buf : IntBuf Byte) (u : Word) (base : Base) (negFlag : Bool) (length : Int)
    (ladjust : Bool) (padc : Byte)
    (upcase : Bool) : Int × IntBuf Byte := renderNum buf u base negFlag length ladjust padc upcase

/-! ## What it is meant to print -/

/-- The digits, the lowest first; zero has one. -/
def digits (base : Base) (u : Nat) : List Nat := if u = 0 then [0] else Nat.digits base.val u

/-- The number as it is written. -/
def numeral (base : Base) (upcase : Bool) (u : Nat) : List Byte := ((digits base u).map (digitChar upcase)).reverse

def sign (negFlag : Bool) : List Byte := if negFlag then [chr '-'] else []

/-- Sign, number and padding in a field of `length` characters, or more if need be. -/
def layout (sign number : List Byte) (length : Int) (ladjust : Bool) (padc : Byte) : List Byte :=
  let pad := (length - (sign.length + number.length)).toNat
  if ladjust then sign ++ number ++ List.replicate pad (chr ' ')
  else if padc = chr '0' then sign ++ List.replicate pad padc ++ number
  else List.replicate pad padc ++ sign ++ number

/-- The value of a digit. -/
def charDigit (c : Byte) : Nat :=
  if c ≤ chr '9' then c.toNat - 48 else if c ≤ chr 'Z' then c.toNat - 55 else c.toNat - 87

/-- A number read back. -/
def readNumeral (base : Base) (number : List Byte) : Nat := number.foldl (fun v c => v * base.val + charDigit c) 0

/-- The result and the buffer behind it, as they are meant. -/
structure Rendered (u : Word) (base : Base) (negFlag : Bool) (length : Int) (ladjust : Bool)
    (padc : Byte) (upcase : Bool)
    (out : Int × IntBuf Byte) : Prop where
  result : out.1 = max length ((digits base u.toNat).length + (sign negFlag).length)
  text : out.2.text out.1 = layout (sign negFlag) (numeral base upcase u.toNat) length ladjust padc
  value : readNumeral base (numeral base upcase u.toNat) = u.toNat

variable {base : Base} {upcase negFlag ladjust : Bool} {u n : Nat} {p length i j : Int}
    {buf : IntBuf Byte} {padc : Byte}

/-! ## Digits -/

theorem digits_length_pos (base : Base) (u : Nat) : 0 < (digits base u).length := by
  unfold digits
  split
  · exact Nat.one_pos
  · rename_i hu
    exact List.length_pos_of_ne_nil (Nat.digits_ne_nil_iff_ne_zero.mpr hu)

theorem digits_last (h : u / base.val = 0) : digits base u = [u % base.val] := by
  have hbase := base.two_le
  have hlt : u < base.val := (Nat.div_eq_zero_iff_lt (by omega)).mp h
  unfold digits
  split
  · rename_i hu
    rw [hu, Nat.zero_mod]
  · rename_i hu
    rw [Nat.digits_of_lt base.val u hu hlt, Nat.mod_eq_of_lt hlt]

theorem digits_more (h : u / base.val ≠ 0) : digits base u = u % base.val :: digits base (u / base.val) := by
  have hbase := base.two_le
  have hu : u ≠ 0 := fun h0 => h (by rw [h0, Nat.zero_div])
  rw [digits, if_neg hu, digits, if_neg h, Nat.digits_def' hbase (Nat.pos_of_ne_zero hu)]

theorem numeral_length : (numeral base upcase u).length = (digits base u).length := by
  rw [numeral, List.length_reverse, List.length_map]

theorem charDigit_digitChar (h : n < 16) : charDigit (digitChar upcase n) = n := by
  have hall : ∀ up : Bool, ∀ k : Fin 16, charDigit (digitChar up k.val) = k.val := by decide
  exact hall upcase ⟨n, h⟩

theorem digits_lt (h : n ∈ digits base u) : n < base.val := by
  have hbase := base.two_le
  unfold digits at h
  split at h
  · rw [List.mem_singleton.mp h]
    omega
  · exact Nat.digits_lt_base hbase h

theorem ofDigits_digits : Nat.ofDigits base.val (digits base u) = u := by
  unfold digits
  split
  · rename_i hu
    rw [hu]
    rfl
  · exact Nat.ofDigits_digits base.val u

/-- Read back from the highest digit on; induction on the digits from the lowest. -/
theorem readNumeral_eq (base : Base) (upcase : Bool) (u : Nat) : readNumeral base (numeral base upcase u) = u := by
  have hread : ∀ ds : List Nat, (∀ d ∈ ds, d < 16) →
      readNumeral base (ds.map (digitChar upcase)).reverse = Nat.ofDigits base.val ds := by
    intro ds
    induction ds with
    | nil => exact fun _ => rfl
    | cons d ds ih =>
        intro hlt
        have hd : charDigit (digitChar upcase d) = d := charDigit_digitChar (hlt d List.mem_cons_self)
        have hrest := ih fun e he => hlt e (List.mem_cons_of_mem d he)
        rw [readNumeral] at hrest ⊢
        rw [List.map_cons, List.reverse_cons, List.foldl_append, hrest, Nat.ofDigits_cons]
        show Nat.ofDigits base.val ds * base.val + charDigit (digitChar upcase d) = _
        rw [hd, Nat.mul_comm, Nat.add_comm]
  rw [numeral, hread _ fun d hd => Nat.lt_of_lt_of_le (digits_lt hd) base.le_sixteen, ofDigits_digits]

/-! ## The digits in the buffer -/

/-- The text with the digits behind it; induction as the loop runs. -/
theorem putDigits_text (base : Base) (upcase : Bool) (u : Nat) (buf : IntBuf Byte) (hp : 0 ≤ p) :
    (putDigits base upcase u p buf).1 = p + (digits base u).length ∧
    (putDigits base upcase u p buf).2.text (p + (digits base u).length) =
      buf.text p ++ (digits base u).map (digitChar upcase) := by
  induction u, p, buf using putDigits.induct base upcase with
  | case1 u p buf h =>
      rw [putDigits, dif_pos h, digits_last h]
      exact ⟨rfl, IntBuf.text_put hp⟩
  | case2 u p buf b h ih =>
      obtain ⟨hplace, htext⟩ := ih (by omega)
      have hlen : p + ((digits base (u / base.val)).length + 1 : Nat) =
          p + 1 + (digits base (u / base.val)).length := by
        omega
      rw [putDigits, dif_neg h, digits_more h, List.length_cons, hlen]
      refine ⟨hplace, htext.trans ?_⟩
      rw [IntBuf.text_put hp, List.append_assoc, List.map_cons]
      rfl

/-- The sign, and the text before it. -/
theorem putSign_text (negFlag : Bool) (buf : IntBuf Byte) (hp : 0 ≤ p) :
    (putSign negFlag p buf).1 = p + (sign negFlag).length ∧
    (putSign negFlag p buf).2.text (p + (sign negFlag).length) = buf.text p ++ sign negFlag ∧
    (putSign negFlag p buf).2.text p = buf.text p := by
  cases negFlag with
  | true =>
      refine ⟨rfl, IntBuf.text_put hp, IntBuf.text_congr fun k _ hk => ?_⟩
      exact IntBuf.put_of_ne (by omega)
  | false =>
      have hlen : p + ((sign false).length : Nat) = p := Int.add_zero p
      rw [hlen]
      exact ⟨rfl, (List.append_nil _).symm, rfl⟩

/-! ## The padding, and the number turned around -/

variable {ds s : List Byte} {a : Int}

theorem sign_reverse (negFlag : Bool) : (sign negFlag).reverse = sign negFlag := by
  cases negFlag with
  | true => rfl
  | false => rfl

/-- Padding behind the number, and the number alone turned around. -/
theorem text_left (ha : 0 ≤ a) (hle : a ≤ length) (htext : buf.text a = ds ++ sign negFlag) :
    ((buf.fill (fun _ => padc) a length).reverse 0 (a - 1)).text length =
      sign negFlag ++ ds.reverse ++ List.replicate (length - a).toNat padc := by
  have hfill : (buf.fill (fun _ => padc) a length).text a = buf.text a := by
    apply IntBuf.text_congr
    intro k _ hk
    rw [IntBuf.fill_val, if_neg (by omega)]
  rw [IntBuf.text_reverse_part ha hle, hfill, htext, List.reverse_append, sign_reverse]
  congr 1
  refine List.eq_replicate_iff.mpr ⟨by rw [List.length_map, List.length_range], fun c hc => ?_⟩
  obtain ⟨k, hk, rfl⟩ := List.mem_map.mp hc
  have hk' := List.mem_range.mp hk
  rw [IntBuf.fill_val, if_pos (by omega)]

/-- Padding behind the number, and all of it turned around. -/
theorem text_right (ha : 0 ≤ a) (hle : a ≤ length) (htext : buf.text a = ds ++ sign negFlag) :
    ((buf.fill (fun _ => padc) a length).reverse 0 (length - 1)).text length =
      List.replicate (length - a).toNat padc ++ sign negFlag ++ ds.reverse := by
  rw [IntBuf.text_reverse (by omega), IntBuf.text_fill_const ha hle, htext, List.reverse_append, List.reverse_append,
    List.reverse_replicate, sign_reverse, List.append_assoc]

/-- Zeros over the sign, which goes to the end. -/
theorem text_zeros (hp : 0 ≤ p) (hle : p + 1 ≤ length) (htext : buf.text p = ds) :
    (((buf.fill (fun _ => padc) p (length - 1)).put (length - 1) (chr '-')).reverse 0 (length - 1)).text length =
      sign true ++ List.replicate (length - (p + 1)).toNat padc ++ ds.reverse := by
  have hput : ((buf.fill (fun _ => padc) p (length - 1)).put (length - 1) (chr '-')).text length =
      (buf.fill (fun _ => padc) p (length - 1)).text (length - 1) ++ [chr '-'] := by
    have h := IntBuf.text_put (b := buf.fill (fun _ => padc) p (length - 1)) (c := chr '-')
        (i := length - 1) (by omega)
    rw [Int.sub_add_cancel] at h
    exact h
  have hcount : length - 1 - p = length - (p + 1) := by omega
  rw [IntBuf.text_reverse (by omega), hput, IntBuf.text_fill_const hp (by omega), htext, hcount, List.reverse_append,
    List.reverse_append, List.reverse_replicate, List.append_assoc]
  rfl

theorem renderNum_rendered (buf : IntBuf Byte) (u : Word) (base : Base) (negFlag : Bool) (length : Int)
    (ladjust : Bool)
    (padc : Byte) (upcase : Bool) :
    Rendered u base negFlag length ladjust padc upcase (renderNum buf u base negFlag length ladjust padc upcase) := by
  obtain ⟨hplace, hdigits⟩ := putDigits_text base upcase u.toNat buf (Int.le_refl 0)
  have hpos := digits_length_pos base u.toNat
  unfold renderNum
  generalize putDigits base upcase u.toNat 0 buf = out at hplace hdigits
  obtain ⟨p, b₁⟩ := out
  rw [Int.zero_add] at hplace hdigits
  dsimp only at hplace hdigits ⊢
  have htext₁ : b₁.text p = (digits base u.toNat).map (digitChar upcase) := by
    rw [hplace]
    exact hdigits
  obtain ⟨hlen, hsign, hunder⟩ := putSign_text negFlag b₁ (show 0 ≤ p by omega)
  generalize putSign negFlag p b₁ = out at hlen hsign hunder
  obtain ⟨a, b₂⟩ := out
  dsimp only at hlen hsign hunder ⊢
  rw [htext₁] at hunder
  rw [← hlen, htext₁] at hsign
  have hnumber : (numeral base upcase u.toNat).length = _ := numeral_length
  -- The field is as long as it is asked for, or as the number is.
  generalize hL : (if length < a then a else length) = L
  have hmax : L = max length a := by
    rw [← hL]
    split <;> omega
  have hpad : (L - a).toNat = (length - ((sign negFlag).length + (numeral base upcase u.toNat).length)).toNat := by
    rw [hnumber]
    omega
  refine ⟨by rw [hmax]; omega, ?_, readNumeral_eq base upcase u.toNat⟩
  unfold layout
  dsimp only
  rw [← hpad]
  cases ladjust with
  | true =>
      have hleft : ¬ (negFlag = true ∧ true = false ∧ chr ' ' = chr '0') := fun h => Bool.noConfusion h.2.1
      rw [if_pos rfl, if_pos rfl, if_pos rfl, if_neg hleft]
      exact text_left (by omega) (by omega) hsign
  | false =>
      rw [if_neg Bool.false_ne_true, if_neg Bool.false_ne_true, if_neg Bool.false_ne_true]
      by_cases hzeros : negFlag = true ∧ padc = chr '0'
      · obtain ⟨rfl, rfl⟩ := hzeros
        have hpa : p = a - 1 := by
          rw [hlen]
          exact (Int.add_sub_cancel p 1).symm
        rw [if_pos ⟨rfl, rfl, rfl⟩, if_pos rfl, ← hpa]
        have hcount : (L - a).toNat = (L - (p + 1)).toNat := by omega
        rw [hcount]
        exact text_zeros (by omega) (by omega) hunder
      · rw [if_neg fun h => hzeros ⟨h.1, h.2.2⟩, text_right (by omega) (by omega) hsign]
        by_cases hpadc : padc = chr '0'
        · have hneg : negFlag = false := Bool.eq_false_of_not_eq_true fun h => hzeros ⟨h, hpadc⟩
          rw [if_pos hpadc, hneg]
          exact congrArg (· ++ _) (List.append_nil _)
        · rw [if_neg hpadc]
          rfl

/-- Both print the number in its field, and it is read back as it was, in any base from
    2 to 16 and for any length. -/
theorem printNum_rendered (buf : IntBuf Byte) (u : Word) (base : Base) (negFlag : Bool) (length : Int)
    (ladjust : Bool)
    (padc : Byte) (upcase : Bool) :
    Rendered u base negFlag length ladjust padc upcase (printNum buf u base negFlag length ladjust padc upcase) ∧
    Rendered u base negFlag length ladjust padc upcase (userPrintNum buf u base negFlag length ladjust padc upcase) :=
  ⟨renderNum_rendered buf u base negFlag length ladjust padc upcase,
    renderNum_rendered buf u base negFlag length ladjust padc upcase⟩

end RpiMos
