/-
  RpiMos.Print.Pieces

  What the helpers of `lp_Print` leave in the buffer, and where they store.
-/

import RpiMos.Print.LpPrint

namespace RpiMos

open Lib

/-- What is printed for a directive: a number with its sign, a character or a string. -/
inductive Kind where
  | num (base : Base) (negFlag : Bool) (u : Word) (upcase : Bool)
  | char (c : Byte)
  | str (s : CStr)

namespace Kind

/-- The call of the helper. -/
def print (kind : Kind) (spec : Spec) (buf : IntBuf Byte) : Int × IntBuf Byte :=
  match kind with
  | num base negFlag u upcase => userPrintNum buf u base negFlag spec.width spec.ladjust (chr '0') upcase
  | char c => userPrintChar buf c spec.width spec.ladjust
  | str s => userPrintString buf s spec.width spec.ladjust

/-- How long it is without padding; for a string, as an `int`. -/
def bare : Kind → Int
  | num base negFlag u _ => (digits base u.toNat).length + (sign negFlag).length
  | char _ => 1
  | str s => int s.val.length

def length (kind : Kind) (spec : Spec) : Int := max spec.width kind.bare

end Kind

/-- The `switch`: what is printed. -/
def kindOf (va : VaList) (longFlag : Bool) (c : Byte) (word : Word) : Kind :=
  let num := vaNum longFlag word
  if c = chr 'b' then .num binary false num false
  else if c = chr 'd' ∨ c = chr 'D' then
    if num.msb then .num decimal true (-num) false else .num decimal false num false
  else if c = chr 'o' ∨ c = chr 'O' then .num octal false num false
  else if c = chr 'u' ∨ c = chr 'U' then .num decimal false num false
  else if c = chr 'x' then .num hexadecimal false num false
  else if c = chr 'X' then .num hexadecimal false num true
  else if c = chr 'c' then .char (word.setWidth 8)
  else .str (va.str word)

theorem convert_eq (va : VaList) (spec : Spec) (c : Byte) (word : Word) (buf : IntBuf Byte) :
    convert va spec c word buf = (kindOf va spec.longFlag c word).print spec buf := by
  unfold convert kindOf
  dsimp only
  repeat' split
  all_goals rfl

/-- Characters in a field, padded with spaces. -/
def field (s : List Byte) (width : Int) (ladjust : Bool) : List Byte :=
  let pad := List.replicate (width - s.length).toNat (chr ' ')
  if ladjust then s ++ pad else pad ++ s

/-- What is printed, in its field.  Of a string so much is printed as its length is as an
    `int`; nothing, when that is negative. -/
def Kind.piece (kind : Kind) (spec : Spec) : List Byte :=
  match kind with
  | .num base negFlag u upcase =>
      layout (sign negFlag) (numeral base upcase u.toNat) spec.width spec.ladjust (chr '0')
  | .char c => field [c] spec.width spec.ladjust
  | .str s => field (s.val.take (int s.val.length).toNat) spec.width spec.ladjust

variable {kind : Kind} {spec : Spec} {buf : IntBuf Byte} {c : Byte} {s : CStr} {width x : Int} {ladjust : Bool}

/-! ## `int` -/

theorem int_range (x : Int) : -2 ^ 31 ≤ int x ∧ int x < 2 ^ 31 :=
  ⟨Int.le_bmod (by decide), Int.bmod_lt (by decide)⟩

theorem int_of_range (hlo : -2 ^ 31 ≤ x) (hhi : x < 2 ^ 31) : int x = x := by
  unfold int
  rw [Int.bmod_def]
  split <;> omega

/-- For a length, what has been lost is a multiple of `2 ^ 32`. -/
theorem int_le (h : 0 ≤ x) : int x ≤ x := by
  unfold int
  rw [Int.bmod_def]
  split <;> omega

/-! ## The results -/

theorem printChar_result : (userPrintChar buf c width ladjust).1 = max width 1 := by
  unfold userPrintChar
  dsimp only
  split <;> split <;> dsimp only <;> omega

theorem printString_result : (userPrintString buf s width ladjust).1 = max width (int s.val.length) := by
  unfold userPrintString
  dsimp only
  split <;> split <;> dsimp only <;> omega

theorem print_result : (kind.print spec buf).1 = kind.length spec := by
  cases kind with
  | num base negFlag u upcase =>
      exact (renderNum_rendered buf u base negFlag spec.width spec.ladjust (chr '0') upcase).result
  | char c => exact printChar_result
  | str s => exact printString_result

/-! ## The text -/

/-- The field of a text of `n` characters. -/
theorem field_of_length {t : List Byte} {n : Int} (ht : (t.length : Int) = n) :
    field t width ladjust =
      if ladjust then t ++ List.replicate (max width n - n).toNat (chr ' ')
      else List.replicate (max width n - n).toNat (chr ' ') ++ t := by
  have hpad : (max width n - n).toNat = (width - t.length).toNat := by omega
  rw [field, hpad]

theorem printChar_text : (userPrintChar buf c width ladjust).2.text (max width 1) = field [c] width ladjust := by
  have hlen : (if width < 1 then 1 else width) = max width 1 := by
    split <;> omega
  have hone : ((1 : Int) ≤ max width 1) := Int.le_max_right width 1
  rw [field_of_length (show (([c] : List Byte).length : Int) = 1 from rfl), userPrintChar, hlen]
  generalize max width 1 = L at hone
  cases ladjust with
  | true =>
      rw [if_pos rfl, if_pos rfl, IntBuf.text_fill_const (by decide) hone]
      rfl
  | false =>
      rw [if_neg Bool.false_ne_true, if_neg Bool.false_ne_true]
      have hput := IntBuf.text_put (b := buf.fill (fun _ => chr ' ') 0 (L - 1)) (c := c) (i := L - 1) (by omega)
      rw [Int.sub_add_cancel] at hput
      rw [hput, IntBuf.text_fill_const (Int.le_refl 0) (by omega), IntBuf.text_zero, List.nil_append, Int.sub_zero]

theorem range_map_getD {t : List Byte} {n : Nat} (h : n ≤ t.length) :
    ((List.range n).map fun k => t.getD k 0) = t.take n := by
  apply List.ext_getElem
  · rw [List.length_map, List.length_range, List.length_take, Nat.min_eq_left h]
  · intro k hk _
    rw [List.length_map, List.length_range] at hk
    rw [List.getElem_map, List.getElem_range, List.getElem_take, List.getD_eq_getElem]

/-- A string whose length is not negative as an `int`. -/
theorem printString_text (hwidth : width < 2 ^ 31) (hlen : 0 ≤ int s.val.length) :
    (userPrintString buf s width ladjust).2.text (max width (int s.val.length)) =
      field (s.val.take (int s.val.length).toNat) width ladjust := by
  have hle : int s.val.length ≤ s.val.length := int_le (Int.natCast_nonneg _)
  have hrange := int_range s.val.length
  have htake : ((s.val.take (int s.val.length).toNat).length : Int) = int s.val.length := by
    rw [List.length_take]
    omega
  rw [field_of_length htake]
  unfold userPrintString
  dsimp only
  generalize int s.val.length = len at *
  have hL : (if width < len then len else width) = max width len := by
    split <;> omega
  have hlenL : len ≤ max width len := Int.le_max_right width len
  have hLmax : max width len < 2 ^ 31 := by omega
  rw [hL]
  generalize max width len = L at *
  cases ladjust with
  | true =>
      rw [if_pos rfl, if_pos rfl, IntBuf.text_fill_const hlen hlenL]
      congr 1
      rw [IntBuf.text_fill (Int.le_refl 0) hlen, ← range_map_getD (by omega), IntBuf.text_zero, List.nil_append,
        Int.sub_zero]
      refine List.map_congr_left fun k _ => ?_
      congr 1
      omega
  | false =>
      have hpad : int (L - len) = L - len := int_of_range (by omega) (by omega)
      rw [if_neg Bool.false_ne_true, if_neg Bool.false_ne_true, hpad, IntBuf.text_fill (by omega) (by omega),
        IntBuf.text_fill_const (Int.le_refl 0) (by omega), IntBuf.text_zero, List.nil_append, Int.sub_zero,
        ← range_map_getD (by omega)]
      have hcount : L - (L - len) = len := by omega
      rw [hcount]
      refine congrArg _ (List.map_congr_left fun k hk => ?_)
      have hk' := List.mem_range.mp hk
      have hidx : int (L - len + k - L + len) = k := by
        rw [int_of_range (by omega) (by omega)]
        omega
      rw [hidx, Int.toNat_natCast]

/-! ## The stores -/

/-- The helper stores into `buf[LP_MAX_BUF]` only.  A string whose length is negative as
    an `int` is stored nowhere; but what is left of its field is, from there on when it
    is adjusted to the left, and as many spaces as the field is longer else. -/
def Kind.Fits (kind : Kind) (spec : Spec) : Prop :=
  match kind with
  | .str s =>
      if 0 ≤ int s.val.length then kind.length spec ≤ LP_MAX_BUF
      else if spec.ladjust then spec.width ≤ int s.val.length
      else spec.width - int s.val.length ≤ LP_MAX_BUF
  | _ => kind.length spec ≤ LP_MAX_BUF

theorem printChar_within {m : Int} :
    (userPrintChar buf c width ladjust).2.Within m ↔ max width 1 ≤ m ∧ buf.Within m := by
  have hlen : (if width < 1 then 1 else width) = max width 1 := by
    split <;> omega
  have hone : ((1 : Int) ≤ max width 1) := Int.le_max_right width 1
  rw [userPrintChar, hlen]
  generalize max width 1 = L at hone
  cases ladjust with
  | true =>
      rw [if_pos rfl, IntBuf.within_fill, IntBuf.within_put, ← and_assoc]
      refine and_congr_left fun _ => ?_
      omega
  | false =>
      rw [if_neg Bool.false_ne_true, IntBuf.within_put, IntBuf.within_fill, ← and_assoc]
      refine and_congr_left fun _ => ?_
      omega

theorem putDigits_within {m p : Int} {u : Nat} (base : Base) (upcase : Bool) :
    (putDigits base upcase u p buf).2.Within m ↔ (0 ≤ p ∧ p + (digits base u).length ≤ m) ∧ buf.Within m := by
  induction u, p, buf using putDigits.induct base upcase with
  | case1 u p buf h =>
      rw [putDigits, dif_pos h, digits_last h]
      exact IntBuf.within_put
  | case2 u p buf b h ih =>
      have hpos := digits_length_pos base (u / base.val)
      rw [putDigits, dif_neg h, ih, IntBuf.within_put, digits_more h, List.length_cons, ← and_assoc]
      refine and_congr_left fun _ => ?_
      omega

theorem putSign_within {m p : Int} {negFlag : Bool} (hp : 0 ≤ p) :
    (putSign negFlag p buf).2.Within m ↔ (0 < (sign negFlag).length → p < m) ∧ buf.Within m := by
  cases negFlag with
  | true =>
      refine IntBuf.within_put.trans (and_congr_left fun _ => ?_)
      exact ⟨fun h _ => h.2, fun h => ⟨hp, h Nat.one_pos⟩⟩
  | false => exact ⟨fun h => ⟨fun h0 => absurd h0 (Nat.lt_irrefl 0), h⟩, fun h => h.2⟩

theorem printNum_within {m : Int} (buf : IntBuf Byte) (u : Word) (base : Base) (negFlag : Bool) (length : Int)
    (ladjust : Bool) (padc : Byte) (upcase : Bool) :
    (userPrintNum buf u base negFlag length ladjust padc upcase).2.Within m ↔
      max length ((digits base u.toNat).length + (sign negFlag).length) ≤ m ∧ buf.Within m := by
  have hpos := digits_length_pos base u.toNat
  have hplace := (putDigits_text base upcase u.toNat buf (Int.le_refl 0)).1
  have hdigits : (putDigits base upcase u.toNat 0 buf).2.Within m ↔ _ := putDigits_within base upcase
  unfold userPrintNum renderNum
  generalize putDigits base upcase u.toNat 0 buf = out at hplace hdigits
  obtain ⟨p, b₁⟩ := out
  rw [Int.zero_add] at hplace hdigits
  dsimp only at hplace hdigits ⊢
  have hlen := (putSign_text negFlag b₁ (show 0 ≤ p by omega)).1
  have hsign : (putSign negFlag p b₁).2.Within m ↔ _ := putSign_within (show 0 ≤ p by omega)
  rw [hdigits] at hsign
  generalize putSign negFlag p b₁ = out at hlen hsign
  obtain ⟨a, b₂⟩ := out
  dsimp only at hlen hsign ⊢
  have hL : (if length < a then a else length) =
      max length ((digits base u.toNat).length + (sign negFlag).length) := by
    split <;> omega
  rw [hL]
  have hneg : negFlag = true → (sign negFlag).length = 1 := by
    rintro rfl
    rfl
  have hone : (sign negFlag).length ≤ 1 := by
    cases negFlag <;> decide
  have hbig : a ≤ max length ((digits base u.toNat).length + (sign negFlag).length) := by omega
  generalize max length ((digits base u.toNat).length + (sign negFlag).length : Int) = L at hbig
  -- All of the field is stored to before it is turned around.
  have hfield : ∀ b₃ : IntBuf Byte, ∀ last, last ≤ L - 1 → (b₃.Within m ↔ L ≤ m ∧ buf.Within m) →
      ((b₃.reverse 0 last).Within m ↔ L ≤ m ∧ buf.Within m) := by
    intro b₃ last hlast hiff
    constructor
    · exact fun h => hiff.mp (IntBuf.within_of_reverse h)
    · intro h
      exact (IntBuf.within_reverse fun _ => ⟨Int.le_refl 0, by omega⟩).mpr (hiff.mpr h)
  generalize (if ladjust = true then chr ' ' else padc) = pad
  apply hfield
  · split <;> omega
  · by_cases hzeros : negFlag = true ∧ ladjust = false ∧ pad = chr '0'
    · have hminus := hneg hzeros.1
      rw [if_pos hzeros, IntBuf.within_put, IntBuf.within_fill, hsign, ← and_assoc, ← and_assoc, ← and_assoc]
      refine and_congr_left fun _ => ?_
      omega
    · rw [if_neg hzeros, IntBuf.within_fill, hsign, ← and_assoc, ← and_assoc]
      refine and_congr_left fun _ => ?_
      omega

/-- The stores of `user_PrintString`, for a width that is an `int`. -/
theorem printString_within (hlo : -2 ^ 31 ≤ width) (hhi : width < 2 ^ 31) :
    (userPrintString buf s width ladjust).2.Within LP_MAX_BUF ↔
      (Kind.str s).Fits ⟨width, ladjust, false⟩ ∧ buf.Within LP_MAX_BUF := by
  obtain ⟨hlenlo, hlenhi⟩ := int_range s.val.length
  unfold userPrintString Kind.Fits Kind.length Kind.bare LP_MAX_BUF
  dsimp only
  generalize int s.val.length = len at *
  have hL : (if width < len then len else width) = max width len := by
    split <;> omega
  rw [hL]
  cases ladjust with
  | true =>
      rw [if_pos rfl, IntBuf.within_fill, IntBuf.within_fill, ← and_assoc]
      refine and_congr_left fun _ => ?_
      split
      · omega
      · rw [if_pos rfl]
        omega
  | false =>
      rw [if_neg Bool.false_ne_true, IntBuf.within_fill, IntBuf.within_fill, ← and_assoc]
      refine and_congr_left fun _ => ?_
      rw [if_neg Bool.false_ne_true]
      -- What is left of the field; from `2 ^ 31` on it wraps.
      by_cases hwrap : max width len - len < 2 ^ 31
      · rw [int_of_range (by omega) hwrap]
        split <;> omega
      · have hneg : int (max width len - len) = max width len - len - 2 ^ 32 := by
          unfold int
          rw [Int.bmod_def]
          split <;> omega
        rw [hneg]
        split <;> omega

/-- The width of a directive is an `int`. -/
def Spec.InRange (spec : Spec) : Prop := -2 ^ 31 ≤ spec.width ∧ spec.width < 2 ^ 31

theorem print_within (h : spec.InRange) :
    (kind.print spec buf).2.Within LP_MAX_BUF ↔ kind.Fits spec ∧ buf.Within LP_MAX_BUF := by
  cases kind with
  | num base negFlag u upcase => exact printNum_within buf u base negFlag spec.width spec.ladjust (chr '0') upcase
  | char c => exact printChar_within
  | str s => exact printString_within h.1 h.2

/-- A string that is negative in length as an `int`, right-adjusted in its field. -/
theorem printString_spaces (hlen : int s.val.length < 0)
    (hfits : width - int s.val.length ≤ LP_MAX_BUF) (hwidth : 0 ≤ width) :
    (userPrintString buf s width false).2.text width = field [] width false := by
  have hpad : int (max width (int s.val.length) - int s.val.length) = width - int s.val.length := by
    unfold LP_MAX_BUF at hfits
    rw [int_of_range (by omega) (by omega)]
    omega
  have hL : (if width < int s.val.length then int s.val.length else width) = max width (int s.val.length) := by
    split <;> omega
  unfold userPrintString
  dsimp only
  rw [hL, if_neg Bool.false_ne_true, hpad, field, if_neg Bool.false_ne_true, List.append_nil]
  have hspaces := IntBuf.text_eq_replicate (b := (buf.fill (fun _ => chr ' ') 0 (width - int s.val.length)).fill
    (fun i => s.val.getD (int (i - max width (int s.val.length) + int s.val.length)).toNat 0)
    (width - int s.val.length) (max width (int s.val.length))) (c := chr ' ') (x := width) fun k hk hkw => by
      rw [IntBuf.fill_val, if_neg (by omega), IntBuf.fill_val, if_pos (by omega)]
  have hcount : (width - (([] : List Byte).length : Int)).toNat = width.toNat := by
    rw [List.length_nil]
    omega
  rw [hspaces, hcount]

/-- What stands in the buffer where the helper has kept to it. -/
theorem print_text (h : spec.InRange) (hfits : kind.Fits spec) (hlen : 0 ≤ kind.length spec) :
    (kind.print spec buf).2.text (kind.length spec) = kind.piece spec := by
  cases kind with
  | num base negFlag u upcase =>
      have hrendered := renderNum_rendered buf u base negFlag spec.width spec.ladjust (chr '0') upcase
      have htext := hrendered.text
      rw [hrendered.result] at htext
      exact htext
  | char c => exact printChar_text
  | str s =>
      by_cases hneg : 0 ≤ int s.val.length
      · exact printString_text h.2 hneg
      · unfold Kind.Fits at hfits
        dsimp only at hfits
        rw [if_neg hneg] at hfits
        unfold Kind.length Kind.bare at hlen ⊢
        dsimp only at hlen ⊢
        have hnone : (int s.val.length).toNat = 0 := by omega
        have hwidth : max spec.width (int s.val.length) = spec.width := by omega
        rw [Kind.piece, hnone, List.take_zero, hwidth]
        cases hladjust : spec.ladjust with
        | true =>
            rw [hladjust, if_pos rfl] at hfits
            omega
        | false =>
            rw [hladjust, if_neg Bool.false_ne_true] at hfits
            rw [Kind.print, hladjust]
            exact printString_spaces (by omega) hfits (by omega)

end RpiMos
