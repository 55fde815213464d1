/-
  RpiMos.Print.Fwritef

  `fwritef` of user/fprintf.c, and which formats its buffer and that of
  `user_lp_Print` are enough for.
-/

import RpiMos.Print.Pieces

namespace RpiMos

open Lib

variable {va : VaList} {fmt : List Byte} {is : List Item} {buf : IntBuf Byte} {c : Byte} {spec : Spec} {k : Nat}

/-! ## What the parser yields -/

theorem scanDigits_range {width : Int} (h : -2 ^ 31 ≤ width ∧ width < 2 ^ 31) (fmt : List Byte) :
    -2 ^ 31 ≤ (scanDigits width fmt).1 ∧ (scanDigits width fmt).1 < 2 ^ 31 := by
  induction fmt generalizing width with
  | nil => exact h
  | cons c fmt ih =>
      rw [scanDigits]
      split
      · exact ih (int_range _)
      · exact h

theorem parseSpec_range (fmt : List Byte) : (parseSpec fmt).1.InRange := by
  have hzero : (-2 ^ 31 : Int) ≤ 0 ∧ (0 : Int) < 2 ^ 31 := by decide
  have hflag : -2 ^ 31 ≤ (parseFlag fmt).1 ∧ (parseFlag fmt).1 < 2 ^ 31 := by
    cases fmt with
    | nil => exact hzero
    | cons c fmt =>
        rw [parseFlag]
        split
        · exact scanDigits_range hzero fmt
        · exact hzero
  have hprec : ∀ width fmt, -2 ^ 31 ≤ width ∧ width < 2 ^ 31 →
      -2 ^ 31 ≤ (parsePrec width fmt).1 ∧ (parsePrec width fmt).1 < 2 ^ 31 := by
    intro width fmt h
    cases fmt with
    | nil => exact h
    | cons c fmt =>
        rw [parsePrec]
        split
        · exact scanDigits_range h fmt
        · exact h
  exact hprec _ _ hflag

/-- A width is an `int`, and no null is printed as it stands. -/
def Item.Parsed : Item → Prop
  | .lit c => c ≠ 0
  | .conv spec _ => spec.InRange

theorem items_parsed (fmt : List Byte) : ∀ i ∈ items fmt, i.Parsed := by
  fun_induction items fmt with
  | case1 | case2 | case3 | case4 => exact fun i hi => absurd hi List.not_mem_nil
  | case5 fmt spec conv rest hspec hconv _ _ ih =>
      have hrange := parseSpec_range fmt
      rw [hspec] at hrange
      exact List.forall_mem_cons.mpr ⟨hrange, ih⟩
  | case6 fmt spec conv rest hspec hconv _ _ ih => exact List.forall_mem_cons.mpr ⟨hconv, ih⟩
  | case7 c fmt h0 _ ih => exact List.forall_mem_cons.mpr ⟨h0, ih⟩

/-! ## `user_lp_Print` -/

/-- What is printed for a directive with the `k`-th argument. -/
abbrev VaList.kind (va : VaList) (spec : Spec) (c : Byte) (k : Nat) : Kind := kindOf va spec.longFlag c (va.word k)

/-- All directives that are reached keep to the buffer.  One whose length is negative as
    an `int` is the last. -/
def ItemsFit (va : VaList) : List Item → Nat → Prop
  | [], _ => True
  | .lit _ :: is, k => ItemsFit va is k
  | .conv spec c :: is, k => (va.kind spec c k).Fits spec ∧
      (0 ≤ (va.kind spec c k).length spec → ItemsFit va is (k + 1))

/-- All stores are in `buf[LP_MAX_BUF]`. -/
def LpRun.Within (run : LpRun) : Prop := ∀ x ∈ run.stores, 0 ≤ x ∧ x < LP_MAX_BUF

theorem printItems_conv (va : VaList) (spec : Spec) (c : Byte) (is : List Item) (buf : IntBuf Byte) (k : Nat) :
    printItems va (.conv spec c :: is) buf k =
      if (va.kind spec c k).length spec < 0 ∨ LP_MAX_BUF < (va.kind spec c k).length spec then
        ⟨[], ((va.kind spec c k).print spec buf).2.stores, k + 1, true⟩
      else (printItems va is ((va.kind spec c k).print spec buf).2 (k + 1)).cons
        (((va.kind spec c k).print spec buf).2.text ((va.kind spec c k).length spec)) := by
  rw [printItems, convert_eq, ← print_result]

theorem length_le_of_fits (h : (va.kind spec c k).Fits spec) (hlen : 0 ≤ (va.kind spec c k).length spec) :
    (va.kind spec c k).length spec ≤ LP_MAX_BUF := by
  generalize va.kind spec c k = kind at *
  cases kind with
  | num _ _ _ _ | char _ => exact h
  | str s =>
      unfold Kind.Fits at h
      dsimp only at h
      split at h
      · exact h
      · unfold Kind.length Kind.bare LP_MAX_BUF at *
        dsimp only at *
        split at h
        · omega
        · omega

/-- The stores of a run; induction on what the parser has found. -/
theorem printItems_within_iff (hparsed : ∀ i ∈ is, i.Parsed) :
    (printItems va is buf k).Within ↔ ItemsFit va is k ∧ buf.Within LP_MAX_BUF := by
  induction is generalizing buf k with
  | nil => exact ⟨fun h => ⟨trivial, h⟩, fun h => h.2⟩
  | cons i is ih =>
      obtain ⟨hi, his⟩ := List.forall_mem_cons.mp hparsed
      cases i with
      | lit c => exact ih his
      | conv spec c =>
          rw [printItems_conv, ItemsFit]
          split
          · rename_i hhalt
            rw [show (LpRun.mk [] ((va.kind spec c k).print spec buf).2.stores (k + 1) true).Within ↔ _ from
              print_within hi]
            refine and_congr_left fun _ => (and_iff_left_of_imp fun hfits hlen => ?_).symm
            have hle := length_le_of_fits hfits hlen
            omega
          · rename_i hgoes
            rw [show (LpRun.cons _ (printItems va is ((va.kind spec c k).print spec buf).2 (k + 1))).Within ↔ _ from
              ih his, print_within hi]
            constructor
            · exact fun h => ⟨⟨h.2.1, fun _ => h.1⟩, h.2.2⟩
            · exact fun h => ⟨h.1.2 (by omega), h.1.1, h.2⟩

/-! ## `fwritef` -/

/-- `curlen`, and the buffer of `fwritef`.  Of the totals that an `int` does not hold
    nothing is asked: the buffer has been left long before. -/
structure OutSt where
  curlen : Int
  buf : IntBuf Byte

/-- `user_out2string(buf, s, l)`. -/
def userOut2string (st : OutSt) (s : List Byte) : OutSt :=
  if s = [0] then st
  else ⟨st.curlen + s.length, st.buf.fill (fun i => s.getD (i - st.curlen).toNat 0) st.curlen (st.curlen + s.length)⟩

/-- `user_bzero(buf, 512)`. -/
def zeroed (b : Int → Byte) : IntBuf Byte := IntBuf.fill (fun _ => 0) 0 512 ⟨b, []⟩

theorem zeroed_within (b : Int → Byte) : (zeroed b).Within 512 :=
  IntBuf.within_fill.mpr ⟨fun _ => ⟨Int.le_refl 0, Int.le_refl 512⟩, fun _ hx => absurd hx List.not_mem_nil⟩

/-- What `fwritef` has done: the places in its buffer stored to, and what it has handed
    to `write`, if it has come to that. -/
structure FwritefRun where
  stores : List Int
  handed : Option (List Byte)
  curlen : Int

/-- `fwritef(fd, fmt, ...)`; `b` and `b'` are what the buffers held before, and `curlen`
    is what the last call has left. -/
def fwritef (va : VaList) (fmt : List Byte) (b b' : Int → Byte) (curlen : Int) : FwritefRun :=
  let run := userLpPrint va fmt b
  let st := run.calls.foldl userOut2string ⟨curlen, zeroed b'⟩
  if run.halted then ⟨st.buf.stores, none, st.curlen⟩
  else
    let buf := st.buf.put st.curlen 0
    -- `strlen(buf)`; there is a null at `curlen`, or one before it.
    ⟨buf.stores, some ((buf.text (st.curlen + 1)).takeWhile fun c => c != 0), 0⟩

/-- `fwritef` stores into its buffer of 512 characters only, and `write` gets all that
    has been printed. -/
structure FwritefRight (run : LpRun) (out : FwritefRun) : Prop where
  inside : ∀ x ∈ out.stores, 0 ≤ x ∧ x < 512
  complete : out.handed = some run.pieces.flatten

/-- The character is not null, if it is a character. -/
def Kind.NoNull : Kind → Prop
  | .char c => c ≠ 0
  | _ => True

/-- All directives keep to the buffer and print what is not negative in length, and none
    prints a null. -/
def ItemsWhole (va : VaList) : List Item → Nat → Prop
  | [], _ => True
  | .lit _ :: is, k => ItemsWhole va is k
  | .conv spec c :: is, k => (va.kind spec c k).Fits spec ∧ 0 ≤ (va.kind spec c k).length spec ∧
      (va.kind spec c k).NoNull ∧ ItemsWhole va is (k + 1)

/-- How many characters are printed. -/
def total (va : VaList) : List Item → Nat → Int
  | [], _ => 0
  | .lit _ :: is, k => 1 + total va is k
  | .conv spec c :: is, k => (va.kind spec c k).length spec + total va is (k + 1)

/-- What is printed. -/
def itemPieces (va : VaList) : List Item → Nat → List (List Byte)
  | [], _ => []
  | .lit c :: is, k => [c] :: itemPieces va is k
  | .conv spec c :: is, k => (va.kind spec c k).piece spec :: itemPieces va is (k + 1)

/-! ## Nulls -/

theorem mem_replicate_ne {n : Nat} {x : Byte} (h : x ≠ 0) : (0 : Byte) ∉ List.replicate n x :=
  fun hmem => h (List.eq_of_mem_replicate hmem).symm

theorem zero_mem_field {t : List Byte} {width : Int} {ladjust : Bool} :
    (0 : Byte) ∈ field t width ladjust ↔ 0 ∈ t := by
  have hspace : (0 : Byte) ∉ List.replicate (width - t.length).toNat (chr ' ') := mem_replicate_ne (by decide)
  unfold field
  dsimp only
  split
  · rw [List.mem_append, or_iff_left hspace]
  · rw [List.mem_append, or_iff_right hspace]

theorem zero_not_mem_layout {base : Base} {negFlag upcase ladjust : Bool} {u : Nat} {width : Int} :
    (0 : Byte) ∉ layout (sign negFlag) (numeral base upcase u) width ladjust (chr '0') := by
  have hsign : (0 : Byte) ∉ sign negFlag := by
    cases negFlag <;> decide
  have hdigit : ∀ up : Bool, ∀ d : Fin 16, digitChar up d.val ≠ 0 := by decide
  have hnumber : (0 : Byte) ∉ numeral base upcase u := by
    intro hmem
    obtain ⟨d, hd, h0⟩ := List.mem_map.mp (List.mem_reverse.mp hmem)
    exact hdigit upcase ⟨d, Nat.lt_of_lt_of_le (digits_lt hd) base.le_sixteen⟩ h0
  have hspaces : ∀ n, (0 : Byte) ∉ List.replicate n (chr ' ') := fun n => mem_replicate_ne (by decide)
  have hzeros : ∀ n, (0 : Byte) ∉ List.replicate n (chr '0') := fun n => mem_replicate_ne (by decide)
  unfold layout
  dsimp only
  split
  · simp only [List.mem_append, not_or]
    exact ⟨⟨hsign, hnumber⟩, hspaces _⟩
  · rw [if_pos rfl]
    simp only [List.mem_append, not_or]
    exact ⟨⟨hsign, hzeros _⟩, hnumber⟩

/-- Only a null that is given as a character is printed. -/
theorem zero_mem_piece {kind : Kind} : (0 : Byte) ∈ kind.piece spec ↔ ¬ kind.NoNull := by
  cases kind with
  | num base negFlag u upcase => exact iff_of_false zero_not_mem_layout fun h => h trivial
  | char c =>
      rw [Kind.piece, zero_mem_field, List.mem_singleton, Kind.NoNull, not_not]
      exact eq_comm
  | str s =>
      refine iff_of_false (fun h => ?_) fun h => h trivial
      exact s.property (List.mem_of_mem_take (zero_mem_field.mp h))

/-! ## What has been printed -/

theorem piece_length (h : spec.InRange) {kind : Kind} (hfits : kind.Fits spec) (hlen : 0 ≤ kind.length spec) :
    ((kind.piece spec).length : Int) = kind.length spec := by
  have htext : (kind.print spec ⟨fun _ => 0, []⟩).2.text _ = _ := print_text h hfits hlen
  rw [← htext, IntBuf.text_length]
  omega

/-- A run that comes to its end, where everything fits. -/
theorem printItems_pieces (hparsed : ∀ i ∈ is, i.Parsed) (hfit : ItemsFit va is k)
    (hends : (printItems va is buf k).halted = false) :
    (printItems va is buf k).pieces = itemPieces va is k ∧
        ((itemPieces va is k).flatten.length : Int) = total va is k ∧
      (0 ∉ (itemPieces va is k).flatten ↔ ItemsWhole va is k) := by
  induction is generalizing buf k with
  | nil => exact ⟨rfl, rfl, iff_of_true List.not_mem_nil trivial⟩
  | cons i is ih =>
      obtain ⟨hi, his⟩ := List.forall_mem_cons.mp hparsed
      cases i with
      | lit c =>
          obtain ⟨hpieces, hlen, hnull⟩ := ih his hfit hends
          refine ⟨congrArg _ hpieces, ?_, ?_⟩
          · rw [itemPieces, total, List.flatten_cons, List.length_append, List.length_singleton, ← hlen]
            omega
          · rw [itemPieces, ItemsWhole, ← hnull, List.flatten_cons, List.mem_append, List.mem_singleton, not_or]
            exact and_iff_right fun h0 => hi h0.symm
      | conv spec c =>
          rw [printItems_conv] at hends ⊢
          by_cases hhalt : (va.kind spec c k).length spec < 0 ∨ LP_MAX_BUF < (va.kind spec c k).length spec
          · rw [if_pos hhalt] at hends
            cases hends
          · rw [if_neg hhalt] at hends ⊢
            have hpos : 0 ≤ (va.kind spec c k).length spec := by omega
            obtain ⟨hfits, hrest⟩ := hfit
            obtain ⟨hpieces, hlen, hnull⟩ := ih his (hrest hpos) hends
            refine ⟨?_, ?_, ?_⟩
            · rw [LpRun.cons, hpieces, print_text hi hfits hpos]
              rfl
            · rw [itemPieces, total, List.flatten_cons, List.length_append, ← hlen, ← piece_length hi hfits hpos]
              omega
            · rw [itemPieces, ItemsWhole, ← hnull, List.flatten_cons, List.mem_append, not_or, zero_mem_piece, not_not,
                and_iff_right hfits, and_iff_right hpos]

/-- Where everything is printed, everything fits, and the run comes to its end. -/
theorem fit_of_whole (buf : IntBuf Byte) (hwhole : ItemsWhole va is k) :
    ItemsFit va is k ∧ (printItems va is buf k).halted = false := by
  induction is generalizing buf k with
  | nil => exact ⟨trivial, rfl⟩
  | cons i is ih =>
      cases i with
      | lit c => exact ih buf hwhole
      | conv spec c =>
          obtain ⟨hfits, hpos, -, hrest⟩ := hwhole
          have hle := length_le_of_fits hfits hpos
          rw [printItems_conv, if_neg (by omega)]
          exact ⟨⟨hfits, fun _ => (ih buf hrest).1⟩, (ih _ hrest).2⟩

/-! ## The buffer of `fwritef` -/

variable {st : OutSt} {pieces : List (List Byte)} {t : List Byte}

/-- The text so far, and where it may be. -/
theorem out2string_text (hcur : 0 ≤ st.curlen) (ht : t ≠ [0]) :
    (userOut2string st t).curlen = st.curlen + t.length ∧
    (userOut2string st t).buf.text (st.curlen + t.length) = st.buf.text st.curlen ++ t := by
  rw [userOut2string, if_neg ht]
  refine ⟨rfl, ?_⟩
  have hcount : (st.curlen + t.length - st.curlen).toNat = t.length := by omega
  rw [IntBuf.text_fill hcur (by omega), hcount]
  refine congrArg _
      (Eq.trans (List.map_congr_left fun k _ => ?_) ((range_map_getD (Nat.le_refl _)).trans List.take_length))
  have hidx : (st.curlen + k - st.curlen).toNat = k := by omega
  rw [hidx]

theorem out2string_within {m : Int} (hcur : 0 ≤ st.curlen) (hle : st.curlen ≤ m) (ht : t ≠ [0]) :
    (userOut2string st t).buf.Within m ↔ st.curlen + t.length ≤ m ∧ st.buf.Within m := by
  rw [userOut2string, if_neg ht, IntBuf.within_fill]
  refine and_congr_left fun _ => ?_
  omega

/-- All pieces, when there is no null in them. -/
theorem foldl_out2string (hcur : 0 ≤ st.curlen) (hnull : (0 : Byte) ∉ pieces.flatten) :
    (pieces.foldl userOut2string st).curlen = st.curlen + pieces.flatten.length ∧
    (pieces.foldl userOut2string st).buf.text (st.curlen + pieces.flatten.length) =
        st.buf.text st.curlen ++ pieces.flatten := by
  induction pieces generalizing st with
  | nil =>
      refine ⟨(Int.add_zero _).symm, ?_⟩
      rw [List.flatten_nil, List.append_nil]
      exact congrArg _ (Int.add_zero _)
  | cons t pieces ih =>
      rw [List.flatten_cons, List.mem_append, not_or] at hnull
      have ht : t ≠ [0] := fun h => hnull.1 (by rw [h]; exact List.mem_singleton_self 0)
      obtain ⟨hcur₁, htext₁⟩ := out2string_text hcur ht
      obtain ⟨hcur₂, htext₂⟩ : (pieces.foldl userOut2string (userOut2string st t)).curlen = _ ∧ _ :=
        ih (by omega) hnull.2
      have hlen : st.curlen + ((t ++ pieces.flatten).length : Nat) =
          (userOut2string st t).curlen + pieces.flatten.length := by
        rw [List.length_append, hcur₁]
        omega
      rw [List.foldl_cons, List.flatten_cons, hlen]
      refine ⟨hcur₂, htext₂.trans ?_⟩
      rw [hcur₁, htext₁, List.append_assoc]

theorem foldl_within {m : Int} (hcur : 0 ≤ st.curlen) (hnull : (0 : Byte) ∉ pieces.flatten) :
    (pieces.foldl userOut2string st).buf.Within m ∧ st.curlen + pieces.flatten.length ≤ m ↔
      st.curlen + pieces.flatten.length ≤ m ∧ st.buf.Within m := by
  induction pieces generalizing st with
  | nil => exact and_comm
  | cons t pieces ih =>
      rw [List.flatten_cons, List.mem_append, not_or] at hnull
      have ht : t ≠ [0] := fun h => hnull.1 (by rw [h]; exact List.mem_singleton_self 0)
      have hcur₁ := (out2string_text hcur ht).1
      have hlen : st.curlen + ((t ++ pieces.flatten).length : Nat) =
          (userOut2string st t).curlen + pieces.flatten.length := by
        rw [List.length_append, hcur₁]
        omega
      rw [List.foldl_cons, List.flatten_cons, hlen, ih (by omega) hnull.2]
      refine and_congr_right fun hle => ?_
      have hle₁ : st.curlen + t.length ≤ m := by omega
      rw [out2string_within hcur (by omega) ht, and_iff_right hle₁]

theorem takeWhile_null {t : List Byte} (h : (0 : Byte) ∉ t) : (t ++ [0]).takeWhile (fun c => c != 0) = t := by
  have hall : ∀ c ∈ t, (c != 0) = true := fun c hc => bne_iff_ne.mpr fun h0 => h (by rw [← h0]; exact hc)
  rw [List.takeWhile_append_of_pos hall]
  exact List.append_nil t

theorem zero_not_mem_takeWhile (t : List Byte) : (0 : Byte) ∉ t.takeWhile (fun c => c != 0) :=
  fun h => bne_iff_ne.mp (List.all_eq_true.mp (List.all_takeWhile (p := fun c => c != 0) (l := t)) 0 h) rfl

/-- A run that comes to its end: what is handed on, and where the null goes. -/
theorem fwritef_of_ends (va : VaList) (fmt : List Byte) (b b' : Int → Byte)
    (hends : (userLpPrint va fmt b).halted = false) (hnull : (0 : Byte) ∉ (userLpPrint va fmt b).pieces.flatten) :
    FwritefRight (userLpPrint va fmt b) (fwritef va fmt b b' 0) ↔
      ((userLpPrint va fmt b).pieces.flatten.length : Int) ≤ 511 := by
  have hcalls : (userLpPrint va fmt b).calls = (userLpPrint va fmt b).pieces ++ [[0]] := by
    rw [LpRun.calls, hends, if_neg Bool.false_ne_true]
  generalize hst : (⟨0, zeroed b'⟩ : OutSt) = st
  have hcur : st.curlen = 0 := by rw [← hst]
  have hzeroed : st.buf = zeroed b' := by rw [← hst]
  have hbuf : st.buf.Within 512 := by
    rw [hzeroed]
    exact zeroed_within b'
  obtain ⟨hplace, htext⟩ : ((userLpPrint va fmt b).pieces.foldl userOut2string st).curlen = _ ∧ _ :=
    foldl_out2string (by omega) hnull
  have hwithin : ((userLpPrint va fmt b).pieces.foldl userOut2string st).buf.Within 512 ∧ _ ↔ _ :=
    foldl_within (by omega) hnull
  rw [hcur, Int.zero_add] at hplace htext hwithin
  have hfold : (userLpPrint va fmt b).calls.foldl userOut2string st =
      (userLpPrint va fmt b).pieces.foldl userOut2string st := by
    rw [hcalls, List.foldl_append]
    rfl
  unfold fwritef
  dsimp only
  rw [hends, if_neg Bool.false_ne_true, hst, hfold]
  generalize (userLpPrint va fmt b).pieces.foldl userOut2string st = out at hplace htext hwithin
  generalize hall : (userLpPrint va fmt b).pieces.flatten = text at *
  have hput := IntBuf.text_put (b := out.buf) (c := (0 : Byte)) (i := text.length) (Int.natCast_nonneg _)
  rw [htext, IntBuf.text_zero, List.nil_append] at hput
  rw [hplace]
  constructor
  · intro h
    have hlast := h.inside text.length (List.mem_cons_self)
    omega
  · intro hle
    refine ⟨?_, ?_⟩
    · exact (IntBuf.within_put (c := 0)).mpr ⟨by omega, (hwithin.mpr ⟨by omega, hbuf⟩).1⟩
    · dsimp only
      rw [hput, takeWhile_null hnull, hall]

/-- A null that is printed, or a run that does not end: not all is handed on. -/
theorem fwritef_wrong (va : VaList) (fmt : List Byte) (b b' : Int → Byte)
    (h : (userLpPrint va fmt b).halted = true ∨ (0 : Byte) ∈ (userLpPrint va fmt b).pieces.flatten) :
    ¬ FwritefRight (userLpPrint va fmt b) (fwritef va fmt b b' 0) := by
  intro hright
  have hcomplete := hright.complete
  unfold fwritef at hcomplete
  dsimp only at hcomplete
  rcases h with hhalt | hnull
  · rw [if_pos hhalt] at hcomplete
    cases hcomplete
  · split at hcomplete
    · cases hcomplete
    · rw [← Option.some.inj hcomplete] at hnull
      exact zero_not_mem_takeWhile _ hnull

/-- Where `user_lp_Print` keeps to its buffer, and where besides `fwritef` keeps to its
    own and hands on all of the text; the next call begins at 0 again. -/
theorem formatting_inside_iff (va : VaList) (fmt : List Byte) (b b' : Int → Byte) :
    ((userLpPrint va fmt b).Within ↔ ItemsFit va (items fmt) 0) ∧
    ((userLpPrint va fmt b).Within ∧ FwritefRight (userLpPrint va fmt b) (fwritef va fmt b b' 0) ↔
      ItemsWhole va (items fmt) 0 ∧ total va (items fmt) 0 ≤ 511) ∧
    ∀ curlen, (fwritef va fmt b b' curlen).handed ≠ none → (fwritef va fmt b b' curlen).curlen = 0 := by
  have hempty : (⟨b, []⟩ : IntBuf Byte).Within LP_MAX_BUF := fun x hx => absurd hx List.not_mem_nil
  have hparsed := items_parsed fmt
  have hwithin : (userLpPrint va fmt b).Within ↔ ItemsFit va (items fmt) 0 :=
    (printItems_within_iff hparsed).trans (and_iff_left hempty)
  refine ⟨hwithin, ?_, fun curlen hhanded => ?_⟩
  · rw [hwithin]
    constructor
    · rintro ⟨hfit, hright⟩
      have hends : (userLpPrint va fmt b).halted = false :=
        Bool.eq_false_of_not_eq_true fun hhalt => fwritef_wrong va fmt b b' (Or.inl hhalt) hright
      have hnull : (0 : Byte) ∉ (userLpPrint va fmt b).pieces.flatten :=
        fun hmem => fwritef_wrong va fmt b b' (Or.inr hmem) hright
      obtain ⟨hpieces, hlen, hwhole⟩ := printItems_pieces hparsed hfit hends
      have hle := (fwritef_of_ends va fmt b b' hends hnull).mp hright
      rw [show (userLpPrint va fmt b).pieces = _ from hpieces] at hnull hle
      exact ⟨hwhole.mp hnull, by omega⟩
    · rintro ⟨hwhole, hle⟩
      obtain ⟨hfit, hends⟩ := fit_of_whole ⟨b, []⟩ hwhole
      obtain ⟨hpieces, hlen, hnull⟩ := printItems_pieces hparsed hfit hends
      have hpieces' : (userLpPrint va fmt b).pieces = itemPieces va (items fmt) 0 := hpieces
      refine ⟨hfit, (fwritef_of_ends va fmt b b' hends ?_).mpr ?_⟩
      · rw [hpieces']
        exact hnull.mpr hwhole
      · rw [hpieces', hlen]
        exact hle
  · unfold fwritef at hhanded ⊢
    dsimp only at hhanded ⊢
    split at hhanded
    · exact absurd rfl hhanded
    · rename_i hends
      rw [if_neg hends]

/-! ## A long name and a long text -/

/-- A name of 101 characters as the argument. -/
def longName : VaList := ⟨fun _ => 0, fun _ => ⟨List.replicate 101 (chr 'a'), mem_replicate_ne (by decide)⟩⟩

theorem items_percent_s : items [chr '%', chr 's'] = [.conv ⟨0, false, false⟩ (chr 's')] := by
  rw [items, if_neg (by decide), if_pos rfl]
  show (if chr 's' = 0 then _ else _) = _
  rw [if_neg (by decide), if_pos (by decide), items]

/-- Characters that are printed as they are. -/
theorem items_replicate {c : Byte} (h0 : c ≠ 0) (hpercent : c ≠ chr '%') (n : Nat) :
    items (List.replicate n c) = List.replicate n (.lit c) := by
  induction n with
  | zero => rw [List.replicate_zero, items]; rfl
  | succ n ih => rw [List.replicate_succ, items, if_neg h0, if_neg hpercent, ih]; rfl

theorem total_replicate (va : VaList) (c : Byte) (n k : Nat) : total va (List.replicate n (.lit c)) k = n := by
  induction n with
  | zero => rfl
  | succ n ih =>
      rw [List.replicate_succ, total, ih]
      omega

theorem whole_replicate (va : VaList) (c : Byte) (n k : Nat) : ItemsWhole va (List.replicate n (.lit c)) k := by
  induction n with
  | zero => trivial
  | succ n ih => exact ih

theorem long_text_wrong (va : VaList) (b b' : Int → Byte) {n : Nat} (hn : 511 < n) :
    ¬ FwritefRight (userLpPrint va (List.replicate n (chr 'a')) b)
        (fwritef va (List.replicate n (chr 'a')) b b' 0) := by
  intro hright
  have hitems : items (List.replicate n (chr 'a')) = _ := items_replicate (by decide) (by decide) n
  have hparsed := items_parsed (List.replicate n (chr 'a'))
  have hwhole := whole_replicate va (chr 'a') n 0
  rw [← hitems] at hwhole
  obtain ⟨hfit, hends⟩ := fit_of_whole ⟨b, []⟩ hwhole
  obtain ⟨hpieces, hlen, hnull⟩ := printItems_pieces hparsed hfit hends
  have hpieces' : (userLpPrint va (List.replicate n (chr 'a')) b).pieces = _ := hpieces
  have hle := (fwritef_of_ends va _ b b' hends (by rw [hpieces']; exact hnull.mpr hwhole)).mp hright
  rw [hpieces', hlen, hitems, total_replicate] at hle
  omega

/-- The name is longer than the buffer of `user_lp_Print`; 512 characters and a null are
    longer than that of `fwritef`. -/
theorem names_overrun : ¬ (userLpPrint longName [chr '%', chr 's'] fun _ => 0).Within ∧
    ¬ FwritefRight (userLpPrint longName (List.replicate 512 (chr 'a')) fun _ => 0)
      (fwritef longName (List.replicate 512 (chr 'a')) (fun _ => 0) (fun _ => 0) 0) := by
  refine ⟨fun hwithin => ?_, long_text_wrong longName _ _ (by decide)⟩
  have hfit := ((printItems_within_iff (items_parsed _)).mp hwithin).1
  rw [items_percent_s] at hfit
  have hlen : int ((longName.str 0).val.length : Nat) = 101 := by decide
  have hfits : (Kind.str (longName.str 0)).Fits ⟨0, false, false⟩ := hfit.1
  unfold Kind.Fits Kind.length Kind.bare at hfits
  dsimp only at hfits
  rw [hlen] at hfits
  exact absurd hfits (by decide)

end RpiMos
