/-
  RpiMos.Print.Reference

  `lp_Print` against a `printf` as the callers mean it: formats of plain characters and
  directives, and what each directive is to print of its argument.
-/

import RpiMos.Print.Fwritef

namespace RpiMos

open Lib

/-! ## Formats -/

inductive Flag where
  | none
  | minus
  | zero
  deriving DecidableEq

inductive Conv where
  | b | o | u | U | d | D | x | X | c | s
  deriving DecidableEq

/-- `%`, a flag, a width, a point with digits, `l` and the conversion.  Without a flag a
    width does not begin with a zero: that would be the flag. -/
structure Directive where
  flag : Flag
  width : List (Fin 10)
  prec : Option (List (Fin 10))
  long : Bool
  conv : Conv
  plain : flag = .none → width.head? ≠ some 0

/-- A character other than `%`, or a directive. -/
inductive Piece where
  | lit (c : Byte) (h : c ≠ 0 ∧ c ≠ chr '%')
  | dir (d : Directive)

def digitByte (d : Fin 10) : Byte := chr '0' + BitVec.ofNat 8 d.val

def Flag.bytes : Flag → List Byte
  | .none => []
  | .minus => [chr '-']
  | .zero => [chr '0']

def Conv.byte : Conv → Byte
  | .b => chr 'b'
  | .o => chr 'o'
  | .u => chr 'u'
  | .U => chr 'U'
  | .d => chr 'd'
  | .D => chr 'D'
  | .x => chr 'x'
  | .X => chr 'X'
  | .c => chr 'c'
  | .s => chr 's'

def precBytes : Option (List (Fin 10)) → List Byte
  | none => []
  | some ds => chr '.' :: ds.map digitByte

def longBytes (long : Bool) : List Byte := if long then [chr 'l'] else []

/-- What stands behind the flag and the width. -/
def Directive.tail (d : Directive) : List Byte := precBytes d.prec ++ (longBytes d.long ++ [d.conv.byte])

def Directive.bytes (d : Directive) : List Byte := chr '%' :: (d.flag.bytes ++ d.width.map digitByte ++ d.tail)

def Piece.bytes : Piece → List Byte
  | .lit c _ => [c]
  | .dir d => d.bytes

/-- The format string. -/
def fmtBytes (ps : List Piece) : List Byte := ps.flatMap Piece.bytes

/-! ## What is to be printed -/

def decimalValue (ds : List (Fin 10)) : Nat := ds.foldl (fun v d => v * 10 + d.val) 0

/-- The unsigned value of an argument: of all of it, or of its low 32 bits. -/
def unsignedValue (long : Bool) (word : Word) : Nat := if long then word.toNat else (word.setWidth 32).toNat

/-- The signed one. -/
def signedValue (long : Bool) (word : Word) : Int := if long then word.toInt else (word.setWidth 32).toInt

/-- The base and the case of an unsigned conversion. -/
def Conv.unsigned : Conv → Option (Base × Bool)
  | .b => some (binary, false)
  | .o => some (octal, false)
  | .u | .U => some (decimal, false)
  | .x => some (hexadecimal, false)
  | .X => some (hexadecimal, true)
  | .d | .D | .c | .s => none

/-- Numbers are padded with zeros if the flag says so. -/
def Directive.padding (d : Directive) : Byte := if d.flag = .zero then chr '0' else chr ' '

/-- A directive and its argument.  All but numbers is padded with spaces. -/
def refPiece (va : VaList) (d : Directive) (word : Word) : List Byte :=
  let width : Int := decimalValue d.width
  let left := decide (d.flag = .minus)
  let padc := d.padding
  match d.conv.unsigned with
  | some (base, upcase) => layout [] (numeral base upcase (unsignedValue d.long word)) width left padc
  | none =>
      match d.conv with
      | .c => field [word.setWidth 8] width left
      | .s => field (va.str word).val width left
      | _ =>
          let v := signedValue d.long word
          layout (sign (decide (v < 0))) (numeral decimal false v.natAbs) width left padc

def refPieces (va : VaList) : List Piece → Nat → List (List Byte)
  | [], _ => []
  | .lit c _ :: ps, k => [c] :: refPieces va ps k
  | .dir d :: ps, k => refPiece va d (va.word k) :: refPieces va ps (k + 1)

def directives : List Piece → Nat
  | [] => 0
  | .lit _ _ :: ps => directives ps
  | .dir _ :: ps => directives ps + 1

/-- Each character and each directive is printed as it is meant, the `k`-th directive
    with the `k`-th argument, and the run comes to its end. -/
structure Meets (va : VaList) (ps : List Piece) (run : LpRun) : Prop where
  pieces : run.pieces = refPieces va ps 0
  used : run.used = directives ps
  ends : run.halted = false

/-- The width that is read: with the digits behind the point appended, as an `int`. -/
def readWidth (d : Directive) : Int := int (decimalValue (d.width ++ d.prec.getD []))

/-- How long the argument is without padding. -/
def bareLength (va : VaList) (d : Directive) (word : Word) : Int :=
  match d.conv.unsigned with
  | some (base, _) => (digits base (unsignedValue d.long word)).length
  | none =>
      match d.conv with
      | .c => 1
      | .s => (va.str word).val.length
      | _ => (digits decimal (signedValue d.long word).natAbs).length +
          (sign (decide (signedValue d.long word < 0))).length

/-- A width has a flag before it; what is unsigned and not long is not negative as an
    `int`; and digits behind the point are not seen, as the argument is longer. -/
structure DirectiveFits (va : VaList) (d : Directive) (word : Word) : Prop where
  flagged : d.flag = .none → d.width = []
  signless : d.conv.unsigned.isSome = true → d.long = false → (word.setWidth 32).msb = false
  width : max (readWidth d) (bareLength va d word) = max (decimalValue d.width : Int) (bareLength va d word)

def PiecesFit (va : VaList) : List Piece → Nat → Prop
  | [], _ => True
  | .lit _ _ :: ps, k => PiecesFit va ps k
  | .dir d :: ps, k => DirectiveFits va d (va.word k) ∧ PiecesFit va ps (k + 1)

variable {va : VaList} {d : Directive} {ps : List Piece} {word : Word} {k : Nat} {rest fmt : List Byte}
    {width w w' : Int}
  {ds : List (Fin 10)} {c : Byte}

/-! ## Reading a directive -/

theorem digitByte_range (d : Fin 10) : chr '0' ≤ digitByte d ∧ digitByte d ≤ chr '9' := by
  revert d
  decide

theorem digitByte_value (d : Fin 10) : ((digitByte d).toNat : Int) - 48 = d.val := by
  revert d
  decide

/-- A character that does not go to a number. -/
def NoDigit (fmt : List Byte) : Prop := ∀ c ∈ fmt.head?, ¬ (chr '0' ≤ c ∧ c ≤ chr '9')

theorem int_add_mul (a b : Int) : int (int a * 10 + b) = int (a * 10 + b) := by
  unfold int
  rw [← Int.bmod_add_bmod (x := a.bmod (2 ^ 32) * 10), Int.bmod_mul_bmod, Int.bmod_add_bmod]

/-- Digits up to something else; the `int` is that of their value. -/
theorem scanDigits_digits (v : Nat) (ds : List (Fin 10)) (h : NoDigit rest) :
    scanDigits (int v) (ds.map digitByte ++ rest) =
      (int (ds.foldl (fun v d => v * 10 + d.val) v : Nat), rest) := by
  induction ds generalizing v with
  | nil =>
      cases rest with
      | nil => rfl
      | cons c rest =>
          rw [List.map_nil, List.nil_append, scanDigits, if_neg (h c rfl)]
          rfl
  | cons d ds ih =>
      rw [List.map_cons, List.cons_append, scanDigits, if_pos (digitByte_range d), digitByte_value, int_add_mul]
      exact ih (v * 10 + d.val)

/-- The characters that follow the digits. -/
def AfterDigits (conv : Conv) (c : Byte) : Prop := c = chr '.' ∨ c = chr 'l' ∨ c = conv.byte

theorem afterDigits_ne {conv : Conv} (h : AfterDigits conv c) :
    ¬ (chr '0' ≤ c ∧ c ≤ chr '9') ∧ ¬ (c = chr '-' ∨ c = chr '0') := by
  rcases h with rfl | rfl | rfl
  · decide
  · decide
  · cases conv <;> decide

theorem long_head (long : Bool) (conv : Conv) (rest : List Byte) : ∃ c fmt,
    longBytes long ++ [conv.byte] ++ rest = c :: fmt ∧ c ≠ chr '.' ∧ AfterDigits conv c := by
  cases long with
  | true => exact ⟨chr 'l', _, rfl, by decide, Or.inr (Or.inl rfl)⟩
  | false =>
      have hne : conv.byte ≠ chr '.' := by
        cases conv <;> decide
      exact ⟨conv.byte, _, rfl, hne, Or.inr (Or.inr rfl)⟩

theorem tail_head (d : Directive) (rest : List Byte) : ∃ c fmt, d.tail ++ rest = c :: fmt ∧ AfterDigits d.conv c := by
  rw [Directive.tail]
  cases d.prec with
  | none =>
      obtain ⟨c, fmt, hfmt, -, hc⟩ := long_head d.long d.conv rest
      exact ⟨c, fmt, hfmt, hc⟩
  | some ds => exact ⟨chr '.', _, rfl, Or.inl rfl⟩

theorem noDigit_of_head {conv : Conv} (hfmt : fmt = c :: rest) (hc : AfterDigits conv c) : NoDigit fmt := by
  intro x hx
  rw [hfmt] at hx
  cases hx
  exact (afterDigits_ne hc).1

/-- What is not `l` ends the directive. -/
theorem parseLong_bytes (long : Bool) (conv : Conv) (rest : List Byte) :
    parseLong (longBytes long ++ [conv.byte] ++ rest) = (long, conv.byte :: rest) := by
  cases long with
  | true => rfl
  | false =>
      have hne : conv.byte ≠ chr 'l' := by
        cases conv <;> decide
      show (if conv.byte = chr 'l' then (true, rest) else (false, conv.byte :: rest)) = _
      rw [if_neg hne]

theorem parsePrec_tail (v : Nat) (d : Directive) (rest : List Byte) :
    parsePrec (int v) (d.tail ++ rest) =
      (int ((d.prec.getD []).foldl (fun v d => v * 10 + d.val) v : Nat), longBytes d.long ++ [d.conv.byte] ++ rest) := by
  obtain ⟨c, fmt, hfmt, hpoint, hc⟩ := long_head d.long d.conv rest
  rw [Directive.tail]
  cases d.prec with
  | some ds =>
      rw [precBytes, List.append_assoc, List.cons_append, parsePrec, if_pos rfl,
        scanDigits_digits v ds (noDigit_of_head hfmt hc)]
      rfl
  | none =>
      rw [precBytes, List.nil_append, hfmt, parsePrec, if_neg hpoint]
      rfl

/-- A directive with a flag, or without a width. -/
theorem parseSpec_directive (d : Directive) (rest : List Byte) (h : d.flag = .none → d.width = []) :
    parseSpec (d.flag.bytes ++ d.width.map digitByte ++ d.tail ++ rest) =
      (⟨readWidth d, decide (d.flag = .minus), d.long⟩, d.conv.byte :: rest) := by
  have hzero : int ((0 : Nat) : Int) = 0 := by decide
  have hflag : parseFlag (d.flag.bytes ++ d.width.map digitByte ++ d.tail ++ rest) =
      (int (decimalValue d.width), decide (d.flag = .minus), d.tail ++ rest) := by
    obtain ⟨c, fmt, hfmt, hc⟩ := tail_head d rest
    have hscan := scanDigits_digits 0 d.width (noDigit_of_head hfmt hc)
    rw [hzero] at hscan
    cases hf : d.flag with
    | none =>
        rw [h hf]
        show parseFlag (d.tail ++ rest) = _
        rw [hfmt, parseFlag, if_neg (afterDigits_ne hc).2]
        rfl
    | minus =>
        show parseFlag (chr '-' :: (d.width.map digitByte ++ d.tail ++ rest)) = _
        rw [parseFlag, if_pos (Or.inl rfl), List.append_assoc, hscan]
        rfl
    | zero =>
        show parseFlag (chr '0' :: (d.width.map digitByte ++ d.tail ++ rest)) = _
        rw [parseFlag, if_pos (Or.inr rfl), List.append_assoc, hscan]
        rfl
  rw [parseSpec, hflag]
  dsimp only
  rw [parsePrec_tail, parseLong_bytes, readWidth, decimalValue, decimalValue, List.foldl_append]

/-! ## What the parser finds -/

theorem items_lit (h0 : c ≠ 0) (hpercent : c ≠ chr '%') : items (c :: rest) = .lit c :: items rest := by
  rw [items, if_neg h0, if_neg hpercent]

/-- Characters that stand for themselves. -/
theorem items_lits {t : List Byte} (h : ∀ c ∈ t, c ≠ 0 ∧ c ≠ chr '%') :
    items (t ++ rest) = t.map .lit ++ items rest := by
  induction t with
  | nil => rfl
  | cons c t ih =>
      obtain ⟨⟨h0, hpercent⟩, ht⟩ := List.forall_mem_cons.mp h
      rw [List.cons_append, items_lit h0 hpercent, ih ht]
      rfl

theorem conv_byte (conv : Conv) : conv.byte ≠ 0 ∧ conv.byte ≠ chr '%' ∧ isConv conv.byte = true := by
  cases conv <;> decide

/-- What is read of a directive. -/
def Directive.spec (d : Directive) : Spec := ⟨readWidth d, decide (d.flag = .minus), d.long⟩

theorem spec_range (d : Directive) : d.spec.InRange := by
  rw [Spec.InRange, Directive.spec, readWidth]
  dsimp only
  exact int_range _

theorem items_directive (d : Directive) (rest : List Byte) (h : d.flag = .none → d.width = []) :
    items (d.bytes ++ rest) = .conv d.spec d.conv.byte :: items rest := by
  obtain ⟨h0, -, hconv⟩ := conv_byte d.conv
  have hspec := parseSpec_directive d rest h
  rw [Directive.bytes, List.cons_append, items, if_neg (by decide), if_pos rfl]
  split
  · rename_i hnil
    rw [hspec] at hnil
    exact absurd (Prod.mk.inj hnil).2 (List.cons_ne_nil _ _)
  · rename_i spec conv rest' hcons
    rw [hspec] at hcons
    obtain ⟨rfl, hlist⟩ := Prod.mk.inj hcons
    obtain ⟨rfl, rfl⟩ := List.cons.inj hlist
    rw [if_neg h0, if_pos hconv]
    rfl

theorem plain_tail (d : Directive) : ∀ c ∈ d.tail, c ≠ 0 ∧ c ≠ chr '%' := by
  have hdigit : ∀ d : Fin 10, digitByte d ≠ 0 ∧ digitByte d ≠ chr '%' := by decide
  intro c hc
  rw [Directive.tail, List.mem_append, List.mem_append, List.mem_singleton] at hc
  rcases hc with hprec | hlong | rfl
  · cases hp : d.prec with
    | none =>
        rw [hp] at hprec
        cases hprec
    | some ds =>
        rw [hp] at hprec
        rcases List.mem_cons.mp hprec with rfl | hmem
        · decide
        · obtain ⟨x, -, rfl⟩ := List.mem_map.mp hmem
          exact hdigit x
  · cases hl : d.long with
    | true =>
        rw [hl] at hlong
        rw [List.mem_singleton.mp hlong]
        decide
    | false =>
        rw [hl] at hlong
        cases hlong
  · exact ⟨(conv_byte d.conv).1, (conv_byte d.conv).2.1⟩

/-- With a width and no flag all of it stands for itself. -/
theorem items_unflagged (d : Directive) (rest : List Byte) {w : Fin 10} {ws : List (Fin 10)} (hflag : d.flag = .none)
    (hwidth : d.width = w :: ws) :
    items (d.bytes ++ rest) = (d.width.map digitByte ++ d.tail).map .lit ++ items rest := by
  have hne : w ≠ 0 := by
    have hplain := d.plain hflag
    rw [hwidth] at hplain
    exact fun h0 => hplain (by rw [h0]; rfl)
  have hdigit : ∀ w : Fin 10, w ≠ 0 → digitByte w ≠ 0 ∧ isConv (digitByte w) = false ∧ digitByte w ≠ chr '-' ∧
      digitByte w ≠ chr '0' ∧ digitByte w ≠ chr '.' ∧ digitByte w ≠ chr 'l' := by decide
  have hall : ∀ w : Fin 10, digitByte w ≠ 0 ∧ digitByte w ≠ chr '%' := by decide
  obtain ⟨h0, hconv, hminus, hzero, hpoint, hl⟩ := hdigit w hne
  have hplain : ∀ c ∈ ws.map digitByte ++ d.tail, c ≠ 0 ∧ c ≠ chr '%' := by
    intro c hc
    rcases List.mem_append.mp hc with hmem | hmem
    · obtain ⟨x, -, rfl⟩ := List.mem_map.mp hmem
      exact hall x
    · exact plain_tail d c hmem
  have hspec : ∀ fmt, parseSpec (digitByte w :: fmt) = (⟨0, false, false⟩, digitByte w :: fmt) := by
    intro fmt
    rw [parseSpec, parseFlag, if_neg (not_or.mpr ⟨hminus, hzero⟩)]
    dsimp only
    rw [parsePrec, if_neg hpoint]
    dsimp only
    rw [parseLong, if_neg hl]
  rw [Directive.bytes, hflag, hwidth]
  show items (chr '%' :: digitByte w :: (ws.map digitByte ++ d.tail ++ rest)) = _
  rw [items, if_neg (by decide), if_pos rfl]
  split
  · rename_i hnil
    rw [hspec] at hnil
    exact absurd (Prod.mk.inj hnil).2 (List.cons_ne_nil _ _)
  · rename_i spec conv rest' hcons
    rw [hspec] at hcons
    obtain ⟨rfl, hlist⟩ := Prod.mk.inj hcons
    obtain ⟨rfl, rfl⟩ := List.cons.inj hlist
    rw [if_neg h0, if_neg (by rw [hconv]; exact Bool.false_ne_true), items_lits hplain]
    rfl

/-! ## Arguments taken -/

/-- How many directives the parser has found. -/
def convs : List Item → Nat
  | [] => 0
  | .lit _ :: is => convs is
  | .conv _ _ :: is => convs is + 1

theorem convs_lits (t : List Byte) (is : List Item) : convs (t.map .lit ++ is) = convs is := by
  induction t with
  | nil => rfl
  | cons c t ih => exact ih

theorem used_le (va : VaList) (is : List Item) (buf : IntBuf Byte) (k : Nat) :
    (printItems va is buf k).used ≤ k + convs is := by
  induction is generalizing buf k with
  | nil => exact Nat.le_refl k
  | cons i is ih =>
      cases i with
      | lit c => exact ih buf k
      | conv spec c =>
          rw [printItems_conv, convs]
          split
          · show k + 1 ≤ k + (convs is + 1)
            omega
          · refine Nat.le_trans (ih _ (k + 1)) ?_
            omega

/-- No more are found than there are. -/
theorem convs_le (ps : List Piece) : convs (items (fmtBytes ps)) ≤ directives ps := by
  induction ps with
  | nil =>
      rw [show fmtBytes [] = [] from rfl, items]
      exact Nat.le_refl 0
  | cons p ps ih =>
      have hbytes : fmtBytes (p :: ps) = p.bytes ++ fmtBytes ps := List.flatMap_cons
      rw [hbytes]
      cases p with
      | lit c h =>
          rw [Piece.bytes, List.singleton_append, items_lit h.1 h.2]
          exact ih
      | dir d =>
          rw [Piece.bytes, directives]
          by_cases hflagged : d.flag = .none → d.width = []
          · rw [items_directive d _ hflagged, convs]
            omega
          · push Not at hflagged
            obtain ⟨w, ws, hwidth⟩ := List.exists_cons_of_ne_nil hflagged.2
            rw [items_unflagged d _ hflagged.1 hwidth, convs_lits]
            omega

/-! ## Fields -/

variable {s number t : List Byte} {left : Bool} {padc padc' : Byte} {base : Base} {upcase : Bool} {u : Nat}

theorem layout_length (s number : List Byte) (width : Int) (left : Bool) (padc : Byte) :
    ((layout s number width left padc).length : Int) = max width (s.length + number.length) := by
  unfold layout
  dsimp only
  split
  · simp only [List.length_append, List.length_replicate]
    omega
  · split <;> simp only [List.length_append, List.length_replicate] <;> omega

theorem field_length (t : List Byte) (width : Int) (left : Bool) :
    ((field t width left).length : Int) = max width t.length := by
  unfold field
  dsimp only
  split <;> simp only [List.length_append, List.length_replicate] <;> omega

/-- Without padding. -/
theorem layout_of_le (h : width ≤ s.length + number.length) : layout s number width left padc = s ++ number := by
  have hpad : (width - (s.length + number.length)).toNat = 0 := by omega
  unfold layout
  rw [hpad]
  dsimp only
  split
  · exact List.append_nil _
  · split
    · rw [List.replicate_zero, List.append_nil]
    · rfl

/-- Two fields of one number are the same when they are as long; in a field adjusted to
    the right, if they are padded alike or the second is not padded. -/
theorem layout_eq_iff (h : left = true ∨ padc = padc' ∨ w' ≤ s.length + number.length) :
    layout s number width left padc = layout s number w' left padc' ↔
      max width (s.length + number.length) = max w' (s.length + number.length) := by
  constructor
  · intro heq
    have hlen := congrArg (fun t => (t.length : Int)) heq
    rw [layout_length, layout_length] at hlen
    exact hlen
  · intro hmax
    by_cases hle : w' ≤ s.length + number.length
    · rw [layout_of_le hle, layout_of_le (by omega)]
    · have hwidth : width = w' := by omega
      rw [hwidth]
      rcases h with rfl | rfl | hw
      · rw [layout, layout, if_pos rfl, if_pos rfl]
      · rfl
      · exact absurd hw hle

theorem field_eq_iff : field t width left = field t w' left ↔ max width t.length = max w' t.length := by
  constructor
  · intro heq
    have hlen := congrArg (fun t => (t.length : Int)) heq
    rw [field_length, field_length] at hlen
    exact hlen
  · intro hmax
    have hpad : (width - t.length).toNat = (w' - t.length).toNat := by omega
    rw [field, field, hpad]

/-! ## A number read back from its field -/

/-- The number in a field: blanks are left out. -/
def readField (base : Base) (t : List Byte) : Nat := readNumeral base (t.filter fun c => c != chr ' ')

theorem readNumeral_zeros (base : Base) (n : Nat) (t : List Byte) :
    readNumeral base (List.replicate n (chr '0') ++ t) = readNumeral base t := by
  induction n with
  | zero => rfl
  | succ n ih =>
      have hzero : 0 * base.val + charDigit (chr '0') = 0 := by
        rw [Nat.zero_mul]
        decide
      rw [readNumeral, List.replicate_succ, List.cons_append, List.foldl_cons, hzero]
      exact ih

theorem filter_numeral (base : Base) (upcase : Bool) (u : Nat) :
    (numeral base upcase u).filter (fun c => c != chr ' ') = numeral base upcase u := by
  have hdigit : ∀ up : Bool, ∀ d : Fin 16, (digitChar up d.val != chr ' ') = true := by decide
  refine List.filter_eq_self.mpr fun c hc => ?_
  obtain ⟨d, hd, rfl⟩ := List.mem_map.mp (List.mem_reverse.mp hc)
  exact hdigit upcase ⟨d, Nat.lt_of_lt_of_le (digits_lt hd) base.le_sixteen⟩

theorem readField_layout (hpad : padc = chr '0' ∨ padc = chr ' ') :
    readField base (layout [] (numeral base upcase u) width left padc) = u := by
  have hblanks : ∀ n, (List.replicate n (chr ' ')).filter (fun c => c != chr ' ') = [] := by
    intro n
    rw [List.filter_replicate_of_neg (by decide)]
  have hzeros : ∀ n, (List.replicate n (chr '0')).filter (fun c => c != chr ' ') = List.replicate n (chr '0') := by
    intro n
    rw [List.filter_replicate_of_pos (by decide)]
  unfold readField layout
  dsimp only
  cases left with
  | true =>
      rw [if_pos rfl, List.nil_append, List.filter_append, filter_numeral, hblanks, List.append_nil, readNumeral_eq]
  | false =>
      rw [if_neg Bool.false_ne_true]
      rcases hpad with rfl | rfl
      · rw [if_pos rfl, List.nil_append, List.filter_append, filter_numeral, hzeros, readNumeral_zeros, readNumeral_eq]
      · rw [if_neg (by decide), List.append_nil, List.filter_append, filter_numeral, hblanks, List.nil_append,
          readNumeral_eq]

/-! ## A directive and its argument -/

theorem kindOf_unsigned {conv : Conv} (h : conv.unsigned = some (base, upcase)) (long : Bool) :
    kindOf va long conv.byte word = .num base false (vaNum long word) upcase := by
  cases conv <;> cases h <;> rfl

theorem kindOf_char (long : Bool) : kindOf va long (Conv.byte .c) word = .char (word.setWidth 8) := rfl

theorem kindOf_str (long : Bool) : kindOf va long (Conv.byte .s) word = .str (va.str word) := rfl

/-- A signed number: the sign, and the value without it. -/
theorem kindOf_signed (va : VaList) {conv : Conv} (h : conv = .d ∨ conv = .D) (long : Bool)
    (word : Word) : ∃ v : Word,
    kindOf va long conv.byte word = .num decimal (decide (signedValue long word < 0)) v false ∧
      v.toNat = (signedValue long word).natAbs := by
  have hvalue : (vaNum long word).toInt = signedValue long word := by
    cases long with
    | true => rfl
    | false => exact BitVec.toInt_signExtend_of_le (by decide)
  have hkind : kindOf va long conv.byte word =
      if (vaNum long word).msb then .num decimal true (-vaNum long word) false
      else .num decimal false (vaNum long word) false := by
    rcases h with rfl | rfl
    · rfl
    · rfl
  rw [hkind, ← hvalue]
  generalize vaNum long word = num
  have hlt := num.isLt
  cases hmsb : num.msb with
  | true =>
      have hneg := BitVec.toInt_neg_of_msb_true hmsb
      have hint := BitVec.toInt_eq_msb_cond num
      rw [hmsb, if_pos rfl] at hint
      refine ⟨-num, ?_, ?_⟩
      · rw [if_pos rfl, decide_eq_true hneg]
      · have hpos : 1 ≤ num.toNat := by
          rw [BitVec.msb_eq_decide] at hmsb
          have hge := of_decide_eq_true hmsb
          omega
        rw [BitVec.toNat_neg, Nat.mod_eq_of_lt (by omega)]
        omega
  | false =>
      have hint := BitVec.toInt_eq_toNat_of_msb hmsb
      refine ⟨num, ?_, by omega⟩
      rw [if_neg Bool.false_ne_true, decide_eq_false (by omega)]

/-- An `int` that is extended with its sign has its unsigned value if it is not negative. -/
theorem unsigned_eq_iff (long : Bool) (word : Word) :
    (vaNum long word).toNat = unsignedValue long word ↔ (long = false → (word.setWidth 32).msb = false) := by
  cases long with
  | true => exact iff_of_true rfl nofun
  | false =>
      show ((word.setWidth 32).signExtend 64).toNat = (word.setWidth 32).toNat ↔ _
      generalize word.setWidth 32 = i
      have hlt := i.isLt
      cases hmsb : i.msb with
      | true =>
          rw [BitVec.toNat_signExtend, hmsb, BitVec.toNat_setWidth, if_pos rfl]
          refine iff_of_false ?_ (by simp)
          omega
      | false =>
          rw [BitVec.toNat_signExtend, hmsb, BitVec.toNat_setWidth, if_neg Bool.false_ne_true]
          refine iff_of_true ?_ fun _ => rfl
          omega

/-! ## What a directive prints -/

theorem padding_cases (d : Directive) : d.padding = chr '0' ∨ d.padding = chr ' ' := by
  unfold Directive.padding
  split
  · exact Or.inl rfl
  · exact Or.inr rfl

/-- A directive that is read pads as it is meant to, if it pads at all. -/
theorem padding_meant {n : Int} (hflag : d.flag = .none → d.width = []) (hn : 0 ≤ n) :
    decide (d.flag = .minus) = true ∨ chr '0' = d.padding ∨ (decimalValue d.width : Int) ≤ n := by
  cases hf : d.flag with
  | none =>
      rw [hflag hf]
      exact Or.inr (Or.inr hn)
  | minus => exact Or.inl rfl
  | zero =>
      refine Or.inr (Or.inl ?_)
      rw [Directive.padding, hf, if_pos rfl]

theorem refPiece_unsigned {upcase : Bool} (h : d.conv.unsigned = some (base, upcase)) :
    refPiece va d word = layout [] (numeral base upcase (unsignedValue d.long word)) (decimalValue d.width)
      (decide (d.flag = .minus)) d.padding := by
  unfold refPiece
  rw [h]

theorem refPiece_signed (h : d.conv = .d ∨ d.conv = .D) :
    refPiece va d word = layout (sign (decide (signedValue d.long word < 0)))
      (numeral decimal false (signedValue d.long word).natAbs) (decimalValue d.width) (decide (d.flag = .minus))
      d.padding := by
  unfold refPiece
  rcases h with hc | hc
  · rw [hc]
    rfl
  · rw [hc]
    rfl

theorem refPiece_char (h : d.conv = .c) :
    refPiece va d word = field [word.setWidth 8] (decimalValue d.width) (decide (d.flag = .minus)) := by
  unfold refPiece
  rw [h]
  rfl

theorem refPiece_str (h : d.conv = .s) :
    refPiece va d word = field (va.str word).val (decimalValue d.width) (decide (d.flag = .minus)) := by
  unfold refPiece
  rw [h]
  rfl

/-- The length is checked, and then the text. -/
def Printed (kind : Kind) (spec : Spec) (t : List Byte) : Prop :=
  ¬ (kind.length spec < 0 ∨ LP_MAX_BUF < kind.length spec) ∧ kind.piece spec = t

/-- A number in a field. -/
theorem printed_num {negFlag upcase long : Bool} {u : Word} {n : Int}
    (hn : n = (sign negFlag).length + (numeral base upcase u.toNat).length)
    (hpad : left = true ∨ chr '0' = padc ∨ w ≤ n)
    (hlen : ((layout (sign negFlag) (numeral base upcase u.toNat) w left padc).length : Int) ≤ 100) :
    Printed (.num base negFlag u upcase) ⟨width, left, long⟩
        (layout (sign negFlag) (numeral base upcase u.toNat) w left padc) ↔
      max width n = max w n := by
  have hlength : (Kind.num base negFlag u upcase).length ⟨width, left, long⟩ = max width n := by
    rw [hn, numeral_length, Int.add_comm]
    rfl
  rw [layout_length, ← hn] at hlen
  rw [hn] at hpad
  have hiff : _ ↔ max width _ = max w _ := layout_eq_iff hpad
  rw [← hn] at hiff
  rw [Printed, hlength, Kind.piece, hiff]
  refine and_iff_right_of_imp fun heq => ?_
  rw [heq]
  unfold LP_MAX_BUF
  omega

/-- Characters in a field. -/
theorem printed_field {kind : Kind} {long : Bool} (hpiece : kind.piece ⟨width, left, long⟩ = field t width left)
    (hbare : kind.bare = t.length) (hlen : ((field t w left).length : Int) ≤ 100) :
    Printed kind ⟨width, left, long⟩ (field t w left) ↔ max width t.length = max w t.length := by
  have hlength : kind.length ⟨width, left, long⟩ = max width t.length := by rw [Kind.length, hbare]
  rw [field_length] at hlen
  rw [Printed, hlength, hpiece, field_eq_iff]
  refine and_iff_right_of_imp fun heq => ?_
  rw [heq]
  unfold LP_MAX_BUF
  omega

/-- What a directive that is read prints of its argument. -/
theorem directive_iff (va : VaList) {d : Directive} (word : Word)
    (hflag : d.flag = .none → d.width = []) (hlen : (refPiece va d word).length ≤ 100) :
    Printed (kindOf va d.long d.conv.byte word) d.spec (refPiece va d word) ↔ DirectiveFits va d word := by
  have hlenInt : ((refPiece va d word).length : Int) ≤ 100 := Int.ofNat_le.mpr hlen
  rw [Directive.spec]
  cases hu : d.conv.unsigned with
  | some base =>
      obtain ⟨base, upcase⟩ := base
      have hsignless : (vaNum d.long word).toNat = unsignedValue d.long word ↔ _ := unsigned_eq_iff d.long word
      have hbare : bareLength va d word = (digits base (unsignedValue d.long word)).length := by
        unfold bareLength
        rw [hu]
      rw [kindOf_unsigned hu]
      rw [refPiece_unsigned hu] at hlenInt ⊢
      have hiff (hvalue : (vaNum d.long word).toNat = unsignedValue d.long word) :
          Printed (.num base false (vaNum d.long word) upcase)
              ⟨readWidth d, decide (d.flag = .minus), d.long⟩ _ ↔ _ :=
        printed_num (u := vaNum d.long word) (w := decimalValue d.width) (n := bareLength va d word)
          (by rw [hbare, hvalue, numeral_length]; exact (Int.zero_add _).symm)
          (padding_meant hflag (hbare ▸ Int.natCast_nonneg _)) (by rw [hvalue]; exact hlenInt)
      constructor
      · intro hprinted
        -- The number is read back from what is printed.
        have hvalue : (vaNum d.long word).toNat = unsignedValue d.long word := by
          have hread := congrArg (readField base) hprinted.2
          rw [readField_layout (padding_cases d)] at hread
          rw [← hread]
          exact (readField_layout (Or.inl rfl)).symm
        refine ⟨hflag, fun _ => hsignless.mp hvalue, ?_⟩
        rw [← hvalue] at hprinted
        exact (hiff hvalue).mp hprinted
      · intro hfits
        have hvalue := hsignless.mpr (hfits.signless (by rw [hu]; rfl))
        rw [← hvalue]
        exact (hiff hvalue).mpr hfits.width
  | none =>
      have hfits : DirectiveFits va d word ↔
          max (readWidth d) (bareLength va d word) = max (decimalValue d.width : Int) (bareLength va d word) := by
        constructor
        · exact fun h => h.width
        · intro hwidth
          refine ⟨hflag, fun hsome => ?_, hwidth⟩
          rw [hu] at hsome
          cases hsome
      rw [hfits]
      have hsigned (hc : d.conv = .d ∨ d.conv = .D) :
          Printed (kindOf va d.long d.conv.byte word) ⟨readWidth d, decide (d.flag = .minus), d.long⟩
              (refPiece va d word) ↔
            max (readWidth d) (bareLength va d word) = max (decimalValue d.width : Int) (bareLength va d word) := by
        obtain ⟨v, hkind, hv⟩ := kindOf_signed va hc d.long word
        rw [refPiece_signed hc] at hlenInt ⊢
        rw [hkind, ← hv]
        rw [← hv] at hlenInt
        have hbare : bareLength va d word =
            (digits decimal v.toNat).length + (sign (decide (signedValue d.long word < 0))).length := by
          unfold bareLength
          rw [hu, hv]
          rcases hc with hd | hd
          · rw [hd]
          · rw [hd]
        have hpos : 0 ≤ bareLength va d word := by omega
        exact printed_num (by rw [hbare, numeral_length, Int.add_comm]) (padding_meant hflag hpos) hlenInt
      cases hc : d.conv with
      | b | o | u | U | x | X =>
          rw [hc] at hu
          cases hu
      | d =>
          rw [← hc]
          exact hsigned (Or.inl hc)
      | D =>
          rw [← hc]
          exact hsigned (Or.inr hc)
      | c =>
          have hbare : bareLength va d word = 1 := by
            unfold bareLength
            rw [hc]
            rfl
          rw [refPiece_char hc] at hlenInt ⊢
          rw [kindOf_char, hbare]
          have hone : (Kind.char (word.setWidth 8)).bare = (([word.setWidth 8] : List Byte).length : Int) := rfl
          exact printed_field (t := [word.setWidth 8]) (by rw [Kind.piece]) hone hlenInt
      | s =>
          have hbare : bareLength va d word = (va.str word).val.length := by
            unfold bareLength
            rw [hc]
            rfl
          rw [refPiece_str hc] at hlenInt ⊢
          rw [kindOf_str, hbare]
          have hshort := hlenInt
          rw [field_length] at hshort
          have hint : int (va.str word).val.length = (va.str word).val.length := int_of_range (by omega) (by omega)
          refine printed_field ?_ hint hlenInt
          rw [Kind.piece, hint, Int.toNat_natCast, List.take_length]

/-- A piece that fits keeps to the buffer, if its length is found to be right. -/
theorem kind_fits (va : VaList) (d : Directive) (word : Word) (hlen : (refPiece va d word).length ≤ 100)
    (hok : ¬ ((kindOf va d.long d.conv.byte word).length d.spec < 0 ∨
      LP_MAX_BUF < (kindOf va d.long d.conv.byte word).length d.spec)) :
    (kindOf va d.long d.conv.byte word).Fits d.spec := by
  have hle := Int.not_lt.mp (not_or.mp hok).2
  by_cases hs : d.conv = .s
  · rw [hs, kindOf_str] at hle ⊢
    rw [refPiece_str hs] at hlen
    have hfield := field_length (va.str word).val (decimalValue d.width) (decide (d.flag = .minus))
    have hint : int (va.str word).val.length = (va.str word).val.length := int_of_range (by omega) (by omega)
    rw [Kind.Fits, hint, if_pos (Int.natCast_nonneg _)]
    exact hle
  · cases hu : d.conv.unsigned with
    | some base =>
        rw [kindOf_unsigned hu] at hle ⊢
        exact hle
    | none =>
        have hsigned (hc : d.conv = .d ∨ d.conv = .D) : (kindOf va d.long d.conv.byte word).Fits d.spec := by
          obtain ⟨v, hkind, -⟩ := kindOf_signed va hc d.long word
          rw [hkind] at hle ⊢
          exact hle
        cases hc : d.conv with
        | b | o | u | U | x | X =>
            rw [hc] at hu
            cases hu
        | s => contradiction
        | c =>
            rw [hc, kindOf_char] at hle
            exact hle
        | d =>
            rw [← hc]
            exact hsigned (Or.inl hc)
        | D =>
            rw [← hc]
            exact hsigned (Or.inr hc)

/-! ## A whole format -/

/-- The rest of a format, from the `k`-th argument on; induction on the pieces. -/
theorem run_iff (hlen : ∀ t ∈ refPieces va ps k, t.length ≤ 100) (buf : IntBuf Byte) :
    ((printItems va (items (fmtBytes ps)) buf k).pieces = refPieces va ps k ∧
      (printItems va (items (fmtBytes ps)) buf k).used = k + directives ps ∧
      (printItems va (items (fmtBytes ps)) buf k).halted = false) ↔ PiecesFit va ps k := by
  induction ps generalizing k buf with
  | nil =>
      rw [show fmtBytes [] = [] from rfl, items]
      exact iff_of_true ⟨rfl, rfl, rfl⟩ trivial
  | cons p ps ih =>
      have hbytes : fmtBytes (p :: ps) = p.bytes ++ fmtBytes ps := List.flatMap_cons
      rw [hbytes]
      cases p with
      | lit c h =>
          obtain ⟨-, hrest⟩ := List.forall_mem_cons.mp hlen
          have hps := ih hrest buf
          rw [Piece.bytes, List.singleton_append, items_lit h.1 h.2, printItems, refPieces, directives, PiecesFit, ← hps]
          exact and_congr_left fun _ => ⟨List.tail_eq_of_cons_eq, congrArg _⟩
      | dir d =>
          obtain ⟨hpiece, hrest⟩ := List.forall_mem_cons.mp hlen
          rw [Piece.bytes, refPieces, directives, PiecesFit]
          by_cases hflagged : d.flag = .none → d.width = []
          · have hmeant := directive_iff va (va.word k) hflagged hpiece
            rw [items_directive d _ hflagged, printItems_conv, ← hmeant]
            have hkindFits := kind_fits va d (va.word k) hpiece
            rw [show va.kind d.spec d.conv.byte k = kindOf va d.long d.conv.byte (va.word k) from rfl]
            generalize kindOf va d.long d.conv.byte (va.word k) = kind at hkindFits
            by_cases hok : kind.length d.spec < 0 ∨ LP_MAX_BUF < kind.length d.spec
            · rw [if_pos hok]
              refine iff_of_false ?_ ?_
              · rintro ⟨-, -, hends⟩
                cases hends
              · rintro ⟨⟨hlength, -⟩, -⟩
                exact hlength hok
            · have hnonneg : 0 ≤ kind.length d.spec := Int.not_lt.mp (not_or.mp hok).1
              have hfits : kind.Fits d.spec := hkindFits hok
              have htext : (kind.print d.spec buf).2.text (kind.length d.spec) = kind.piece d.spec :=
                print_text (spec_range d) hfits hnonneg
              have hps := ih hrest (kind.print d.spec buf).2
              rw [if_neg hok, htext, ← hps]
              constructor
              · rintro ⟨hpieces, hused, hends⟩
                obtain ⟨hfirst, hothers⟩ := List.cons.inj hpieces
                refine ⟨⟨hok, hfirst⟩, hothers, ?_, hends⟩
                rw [Nat.add_right_comm, Nat.add_assoc]
                exact hused
              · rintro ⟨⟨-, hfirst⟩, hothers, hused, hends⟩
                refine ⟨?_, ?_, hends⟩
                · exact congrArg₂ List.cons hfirst hothers
                · rw [Nat.add_right_comm, Nat.add_assoc] at hused
                  exact hused
          · -- A width without a flag is printed: no argument is taken for it.
            refine iff_of_false ?_ fun hfits => hflagged hfits.1.flagged
            rintro ⟨-, hused, -⟩
            push Not at hflagged
            obtain ⟨w, ws, hwidth⟩ := List.exists_cons_of_ne_nil hflagged.2
            rw [items_unflagged d _ hflagged.1 hwidth] at hused
            have hle := used_le va ((d.width.map digitByte ++ d.tail).map .lit ++ items (fmtBytes ps)) buf k
            rw [hused, convs_lits] at hle
            have hconvs := convs_le ps
            omega

/-- `lp_Print` of lib/print.c, which has the same body. -/
def lpPrint (va : VaList) (fmt : List Byte) (buf : Int → Byte) : LpRun := printItems va (items fmt) ⟨buf, []⟩ 0

/-- Which formats are printed as they are meant, where what is to be printed for each
    directive fits into the buffer. -/
theorem format_meets_iff (va : VaList) (ps : List Piece) (buf : Int → Byte)
    (hlen : ∀ t ∈ refPieces va ps 0, (t.length : Int) ≤ LP_MAX_BUF) :
    (Meets va ps (userLpPrint va (fmtBytes ps) buf) ↔ PiecesFit va ps 0) ∧
      (Meets va ps (lpPrint va (fmtBytes ps) buf) ↔ PiecesFit va ps 0) := by
  have hiff := run_iff (fun t ht => Int.ofNat_le.mp (hlen t ht)) ⟨buf, []⟩
  rw [Nat.zero_add] at hiff
  have hmeets : Meets va ps (userLpPrint va (fmtBytes ps) buf) ↔ PiecesFit va ps 0 := by
    rw [← hiff]
    exact ⟨fun h => ⟨h.pieces, h.used, h.ends⟩, fun h => ⟨h.1, h.2.1, h.2.2⟩⟩
  exact ⟨hmeets, hmeets⟩

/-! ## Some formats -/

/-- All arguments are the same number. -/
def allWords (word : Word) : VaList := ⟨fun _ => word, fun _ => ⟨[], List.not_mem_nil⟩⟩

/-- `%-5lX` prints as it is meant. -/
theorem left_long_meets : PiecesFit (allWords 7) [.dir ⟨.minus, [5], none, true, .X, nofun⟩] 0 ∧
    Meets (allWords 7) [.dir ⟨.minus, [5], none, true, .X, nofun⟩]
      (userLpPrint (allWords 7) (fmtBytes [.dir ⟨.minus, [5], none, true, .X, nofun⟩]) fun _ => 0) := by
  have hfits : PiecesFit (allWords 7) [.dir ⟨.minus, [5], none, true, .X, nofun⟩] 0 :=
      ⟨⟨nofun, nofun, by decide⟩, trivial⟩
  exact ⟨hfits, (format_meets_iff (allWords 7) _ (fun _ => 0) (by decide)).1.mpr hfits⟩

/-- `%11d`, as directory listings have it; `%u`; and `%-.2d`. -/
def elevenWide : Directive := ⟨.none, [1, 1], none, false, .d, by decide⟩
def unsignedInt : Directive := ⟨.none, [], none, false, .u, by decide⟩
def twoBehindPoint : Directive := ⟨.minus, [], some [2], false, .d, nofun⟩

/-- What is to be printed fits into the buffer, and is not printed. -/
def NotMet (va : VaList) (d : Directive) : Prop :=
  (∀ t ∈ refPieces va [.dir d] 0, (t.length : Int) ≤ LP_MAX_BUF) ∧
    ¬ Meets va [.dir d] (userLpPrint va (fmtBytes [.dir d]) fun _ => 0)

theorem notMet_of_not_fits {va : VaList} (d : Directive)
    (hlen : ∀ t ∈ refPieces va [.dir d] 0, (t.length : Int) ≤ LP_MAX_BUF) (hfits : ¬ DirectiveFits va d (va.word 0)) :
    NotMet va d := by
  refine ⟨hlen, fun hmeets => ?_⟩
  have hused : (userLpPrint va (fmtBytes [.dir d]) fun _ => 0).used = 0 + directives [.dir d] := hmeets.used
  have hiff := run_iff (fun t ht => Int.ofNat_le.mp (hlen t ht)) ⟨fun _ => 0, []⟩
  exact hfits (hiff.mp ⟨hmeets.pieces, hused, hmeets.ends⟩).1

/-- The width without a flag is printed, and the number is not; -1 is not printed as an
    unsigned `int`; and the digit behind the point is taken for a width. -/
theorem formats_not_met : NotMet (allWords 7) elevenWide ∧ NotMet (allWords 0xffffffff) unsignedInt ∧
    NotMet (allWords 7) twoBehindPoint := by
  refine ⟨notMet_of_not_fits elevenWide (by decide) ?_, notMet_of_not_fits unsignedInt (by decide) ?_,
    notMet_of_not_fits twoBehindPoint (by decide) ?_⟩
  · exact fun h => List.cons_ne_nil _ _ (h.flagged rfl)
  · exact fun h => absurd (h.signless rfl rfl) (by decide)
  · exact fun h => absurd h.width (by decide)

end RpiMos
