/-
  RpiMos.Print.LpPrint

  `lp_Print` of lib/print.c and `user_lp_Print` of user/writef.c, which are the same:
  a format string is read by hand, and what a directive prints is stored into a buffer
  of `LP_MAX_BUF` characters before its length is looked at.
-/

import RpiMos.Print.PrintNum

namespace RpiMos

open Lib

def LP_MAX_BUF : Int := 100

/-- The value of an `int`: it wraps. -/
def int (x : Int) : Int := x.bmod (2 ^ 32)

/-- A string, without its null. -/
abbrev CStr := { s : List Byte // (0 : Byte) ∉ s }

/-- The arguments are words, one after the other; a word can be the address of a
    string. -/
structure VaList where
  word : Nat → Word
  str : Word → CStr

/-! ## The helpers -/

/-- `user_PrintChar(buf, c, length, ladjust)`, and `PrintChar`. -/
def userPrintChar (buf : IntBuf Byte) (c : Byte) (length : Int) (ladjust : Bool) : Int × IntBuf Byte :=
  let length := if length < 1 then 1 else length
  if ladjust then (length, (buf.put 0 c).fill (fun _ => chr ' ') 1 length)
  else (length, (buf.fill (fun _ => chr ' ') 0 (length - 1)).put (length - 1) c)

/-- `user_PrintString(buf, s, length, ladjust)`, and `PrintString`. -/
def userPrintString (buf : IntBuf Byte) (s : CStr) (length : Int) (ladjust : Bool) : Int × IntBuf Byte :=
  let len := int s.val.length
  let length := if length < len then len else length
  if ladjust then
    (length, (buf.fill (fun i => s.val.getD i.toNat 0) 0 len).fill (fun _ => chr ' ') len length)
  else
    let pad := int (length - len)
    (length, (buf.fill (fun _ => chr ' ') 0 pad).fill
      (fun i => s.val.getD (int (i - length + len)).toNat 0) pad length)

/-! ## A directive -/

/-- `while (*fmt >= '0' && *fmt <= '9')`. -/
def scanDigits (width : Int) : List Byte → Int × List Byte
  | [] => (width, [])
  | c :: fmt =>
      if chr '0' ≤ c ∧ c ≤ chr '9' then scanDigits (int (width * 10 + (c.toNat - 48))) fmt
      else (width, c :: fmt)

/-- What stands between `%` and the conversion. -/
structure Spec where
  width : Int
  ladjust : Bool
  longFlag : Bool

/-- The flag, and the width if there is one. -/
def parseFlag : List Byte → Int × Bool × List Byte
  | [] => (0, false, [])
  | c :: fmt =>
      if c = chr '-' ∨ c = chr '0' then
        let (width, fmt) := scanDigits 0 fmt
        (width, decide (c = chr '-'), fmt)
      else (0, false, c :: fmt)

/-- The digits behind a point, which go to the width too. -/
def parsePrec (width : Int) : List Byte → Int × List Byte
  | [] => (width, [])
  | c :: fmt => if c = chr '.' then scanDigits width fmt else (width, c :: fmt)

def parseLong : List Byte → Bool × List Byte
  | [] => (false, [])
  | c :: fmt => if c = chr 'l' then (true, fmt) else (false, c :: fmt)

def parseSpec (fmt : List Byte) : Spec × List Byte :=
  let (width, ladjust, fmt) := parseFlag fmt
  let (width, fmt) := parsePrec width fmt
  let (longFlag, fmt) := parseLong fmt
  (⟨width, ladjust, longFlag⟩, fmt)

/-- A character that is printed as it is, or a conversion. -/
inductive Item where
  | lit (c : Byte)
  | conv (spec : Spec) (c : Byte)

/-- The conversions of the `switch`. -/
def isConv (c : Byte) : Bool :=
  c ∈ [chr 'b', chr 'd', chr 'D', chr 'o', chr 'O', chr 'u', chr 'U', chr 'x', chr 'X', chr 'c', chr 's']

theorem scanDigits_length (width : Int) (fmt : List Byte) : (scanDigits width fmt).2.length ≤ fmt.length := by
  induction fmt generalizing width with
  | nil => exact Nat.le_refl 0
  | cons c fmt ih =>
      rw [scanDigits]
      split
      · exact Nat.le_succ_of_le (ih _)
      · exact Nat.le_refl _

theorem parseSpec_length (fmt : List Byte) : (parseSpec fmt).2.length ≤ fmt.length := by
  have hflag : (parseFlag fmt).2.2.length ≤ fmt.length := by
    cases fmt with
    | nil => exact Nat.le_refl 0
    | cons c fmt =>
        rw [parseFlag]
        split
        · exact Nat.le_succ_of_le (scanDigits_length 0 fmt)
        · exact Nat.le_refl _
  have hprec : ∀ width fmt, (parsePrec width fmt).2.length ≤ fmt.length := by
    intro width fmt
    cases fmt with
    | nil => exact Nat.le_refl 0
    | cons c fmt =>
        rw [parsePrec]
        split
        · exact Nat.le_succ_of_le (scanDigits_length width fmt)
        · exact Nat.le_refl _
  have hlong : ∀ fmt, (parseLong fmt).2.length ≤ fmt.length := by
    intro fmt
    cases fmt with
    | nil => exact Nat.le_refl 0
    | cons c fmt =>
        rw [parseLong]
        split
        · exact Nat.le_succ _
        · exact Nat.le_refl _
  exact Nat.le_trans (hlong _) (Nat.le_trans (hprec _ _) hflag)

/-- What the loop comes to, in order.  A `%` at the end of the string ends it. -/
def items (fmt : List Byte) : List Item :=
  match fmt with
  | [] => []
  | c :: fmt =>
      if c = 0 then []
      else if c = chr '%' then
        match h : parseSpec fmt with
        | (_, []) => []
        | (spec, conv :: rest) =>
            if conv = 0 then []
            else if isConv conv then .conv spec conv :: items rest
            -- The default of the `switch`.
            else .lit conv :: items rest
      else .lit c :: items fmt
termination_by fmt.length
decreasing_by
  · have hlen := parseSpec_length fmt
    rw [h] at hlen
    simp only [List.length_cons] at hlen ⊢
    omega
  · have hlen := parseSpec_length fmt
    rw [h] at hlen
    simp only [List.length_cons] at hlen ⊢
    omega
  · simp

/-! ## Printing -/

def binary : Base := ⟨2, by decide, by decide⟩
def octal : Base := ⟨8, by decide, by decide⟩
def decimal : Base := ⟨10, by decide, by decide⟩
def hexadecimal : Base := ⟨16, by decide, by decide⟩

/-- `num`: a `long` or an `int`, as a `long`. -/
def vaNum (longFlag : Bool) (word : Word) : Word := if longFlag then word else (word.setWidth 32).signExtend 64

/-- The `switch`, for a conversion and its argument. -/
def convert (va : VaList) (spec : Spec) (c : Byte) (word : Word) (buf : IntBuf Byte) : Int × IntBuf Byte :=
  let num := vaNum spec.longFlag word
  let padc := chr '0'
  if c = chr 'b' then userPrintNum buf num binary false spec.width spec.ladjust padc false
  else if c = chr 'd' ∨ c = chr 'D' then
    if num.msb then userPrintNum buf (-num) decimal true spec.width spec.ladjust padc false
    else userPrintNum buf num decimal false spec.width spec.ladjust padc false
  else if c = chr 'o' ∨ c = chr 'O' then userPrintNum buf num octal false spec.width spec.ladjust padc false
  else if c = chr 'u' ∨ c = chr 'U' then userPrintNum buf num decimal false spec.width spec.ladjust padc false
  else if c = chr 'x' then userPrintNum buf num hexadecimal false spec.width spec.ladjust padc false
  else if c = chr 'X' then userPrintNum buf num hexadecimal false spec.width spec.ladjust padc true
  else if c = chr 'c' then userPrintChar buf (word.setWidth 8) spec.width spec.ladjust
  else userPrintString buf (va.str word) spec.width spec.ladjust

/-- What a run has done: the pieces given to `output`, the places in `buf` stored to,
    the arguments taken, and whether it has come to the endless loop. -/
structure LpRun where
  pieces : List (List Byte)
  stores : List Int
  used : Nat
  halted : Bool

/-- `output` is called with a piece before the rest. -/
def LpRun.cons (piece : List Byte) (run : LpRun) : LpRun := { run with pieces := piece :: run.pieces }

/-- `while(1)`, with the arguments from the `k`-th on. -/
def printItems (va : VaList) : List Item → IntBuf Byte → Nat → LpRun
  | [], buf, k => ⟨[], buf.stores, k, false⟩
  | .lit c :: is, buf, k => (printItems va is buf k).cons [c]
  | .conv spec c :: is, buf, k =>
      let (length, buf) := convert va spec c (va.word k) buf
      -- `OUTPUT`
      if length < 0 ∨ LP_MAX_BUF < length then ⟨[], buf.stores, k + 1, true⟩
      else (printItems va is buf (k + 1)).cons (buf.text length)

/-- `user_lp_Print`; nothing of `buf` has been stored to. -/
def userLpPrint (va : VaList) (fmt : List Byte) (buf : Int → Byte) : LpRun := printItems va (items fmt) ⟨buf, []⟩ 0

def theFatalMsg : List Byte := "fatal error in lp_Print!".toList.map chr

/-- All calls of `output`: the last one is the fatal message, or a null. -/
def LpRun.calls (run : LpRun) : List (List Byte) := run.pieces ++ [if run.halted then theFatalMsg else [0]]

end RpiMos
