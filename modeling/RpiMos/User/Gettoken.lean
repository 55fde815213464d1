/-
  RpiMos.User.Gettoken

  `gettoken` of user/sh.c.  It is one token ahead of its caller: what stands behind a
  word is overwritten with a null while the token after it is looked for.
-/

import RpiMos.User.FsipcPath
import RpiMos.Print.PrintNum

namespace RpiMos

open Lib

def WHITESPACE : List Byte := [chr ' ', chr '\t', chr '\r', chr '\n']
def SYMOLS : List Byte := [chr '<', chr '|', chr '>', chr '&', chr ';', chr '(', chr ')']

/-- `strchr(s, c)`: the string from its first `c` on. -/
def strchr : List Byte → Byte → Option (List Byte)
  | [], _ => none
  | x :: s, c => if x = c then some (x :: s) else strchr s c

namespace Sh

/-- The statics of `gettoken`, and the memory that the line is in. -/
structure Gettoken where
  mem : ByteMem
  c : Byte
  nc : Byte
  np1 : Nat
  np2 : Nat

/-- `while (strchr(WHITESPACE, *s)) *s++ = 0;`. -/
def skipWhite : Nat → ByteMem → Nat → Option (ByteMem × Nat)
  | 0, _, _ => none
  | turns + 1, m, s =>
      if (strchr WHITESPACE (m.ld8 s)).isSome then skipWhite turns (m.st8 s 0) (s + 1) else some (m, s)

/-- `while (*s && !strchr(WHITESPACE SYMOLS, *s)) s++;`. -/
def wordEnd : Nat → ByteMem → Nat → Option Nat
  | 0, _, _ => none
  | turns + 1, m, s =>
      if m.ld8 s ≠ 0 ∧ (strchr (WHITESPACE ++ SYMOLS) (m.ld8 s)).isNone then wordEnd turns m (s + 1) else some s

/-- `_gettoken(s, &np1, &np2)`. -/
def gettokenFrom (turns s : Nat) (st : Gettoken) : Option (Byte × Gettoken) :=
  if s = 0 then some (0, st)
  else
    match skipWhite turns st.mem s with
    | none => none
    | some (m, s) =>
        if m.ld8 s = 0 then some (0, { st with mem := m, np1 := 0, np2 := 0 })
        else if (strchr SYMOLS (m.ld8 s)).isSome then
          some (m.ld8 s, { st with mem := m.st8 s 0, np1 := s, np2 := s + 1 })
        else
          match wordEnd turns m s with
          | none => none
          | some e => some (chr 'w', { st with mem := m, np1 := s, np2 := e })

/-- `gettoken(s, &t)`: the result, `t` and the state. -/
def gettoken (turns s t : Nat) (st : Gettoken) : Option (Byte × Nat × Gettoken) :=
  if s ≠ 0 then
    match gettokenFrom turns s st with
    | none => none
    | some (nc, st) => some (0, t, { st with nc := nc })
  else
    match gettokenFrom turns st.np2 { st with c := st.nc } with
    | none => none
    | some (nc, st') => some (st.nc, st.np1, { st' with nc := nc })

/-! ## The tokens of a line -/

inductive Token where
  | word (w : List Byte)
  | symbol (c : Byte)
  deriving DecidableEq

/-- What is neither whitespace nor a symbol. -/
def wordChar (c : Byte) : Bool := !WHITESPACE.contains c && !SYMOLS.contains c

/-- A word is as long as it can be. -/
def tokens (line : List Byte) : List Token :=
  match line with
  | [] => []
  | c :: line =>
      if c ∈ WHITESPACE then tokens line
      else if c ∈ SYMOLS then .symbol c :: tokens line
      else .word (c :: line.takeWhile wordChar) :: tokens (line.dropWhile wordChar)
termination_by line.length
decreasing_by
  · exact Nat.lt_succ_self _
  · exact Nat.lt_succ_self _
  · exact Nat.lt_succ_of_le (List.dropWhile_suffix wordChar).length_le

/-- What `gettoken` returns for a token; 0 at the end. -/
def code : Option Token → Byte
  | none => 0
  | some (.word _) => chr 'w'
  | some (.symbol c) => c

variable {m m' : ByteMem} {p s t turns n : Nat} {c : Byte} {line rest w : List Byte} {st st' : Gettoken} {tok : Token}
  {toks : List Token}

theorem strchr_isSome {s : List Byte} : (strchr s c).isSome = true ↔ c ∈ s := by
  induction s with
  | nil => exact iff_of_false Bool.false_ne_true List.not_mem_nil
  | cons x s ih =>
      rw [strchr, List.mem_cons]
      by_cases hx : x = c
      · rw [if_pos hx]
        exact iff_of_true rfl (Or.inl hx.symm)
      · rw [if_neg hx, ih, or_iff_right (Ne.symm hx)]

theorem wordChar_iff : wordChar c = true ↔ c ∉ WHITESPACE ∧ c ∉ SYMOLS := by
  rw [wordChar, Bool.and_eq_true, Bool.not_eq_true', Bool.not_eq_true', List.contains_eq_mem, List.contains_eq_mem,
    decide_eq_false_iff_not, decide_eq_false_iff_not]

/-- The end of a string. -/
theorem cstring_drop {a b : List Byte} (h : Client.CString m p (a ++ b)) : Client.CString m (p + a.length) b := by
  induction a generalizing p with
  | nil => exact h
  | cons c a ih =>
      have htail := ih h.2.2
      rw [Nat.add_right_comm] at htail
      exact htail

/-- Its beginning, when a null is stored behind that. -/
theorem cstring_take {a b : List Byte} (h : Client.CString m p (a ++ b)) (hm : ∀ x, x < p + a.length → m' x = m x)
    (hnull : m' (p + a.length) = 0) : Client.CString m' p a := by
  induction a generalizing p with
  | nil => exact hnull
  | cons c a ih =>
      obtain ⟨hc, hne, htail⟩ := h
      have hlen : p + (c :: a).length = p + 1 + a.length := by
        rw [List.length_cons]
        omega
      rw [hlen] at hm hnull
      exact ⟨(hm p (by omega)).trans hc, hne, ih htail hm hnull⟩

/-! ## The two loops -/

/-- Whitespace is overwritten up to the first other character. -/
theorem skipWhite_ret (h : Client.CString m p line) (hturns : line.length < turns) : ∃ m' white rest,
    line = white ++ rest ∧ (∀ c ∈ white, c ∈ WHITESPACE) ∧ (∀ c ∈ rest.head?, c ∉ WHITESPACE) ∧
      skipWhite turns m p = some (m', p + white.length) ∧ Client.CString m' (p + white.length) rest ∧
      (∀ x, x < p → m' x = m x) ∧ (white ≠ [] → m' p = 0) := by
  induction line generalizing m p turns with
  | nil =>
      obtain ⟨turns, rfl⟩ := Nat.exists_eq_succ_of_ne_zero (Nat.ne_of_gt hturns)
      refine ⟨m, [], [], rfl, nofun, nofun, ?_, h, fun _ _ => rfl, fun hne => absurd rfl hne⟩
      have hnull : m.ld8 p = 0 := h
      rw [skipWhite, hnull, if_neg (by decide)]
      rfl
  | cons c line ih =>
      obtain ⟨turns, rfl⟩ : ∃ n, turns = n + 1 := ⟨turns - 1, by omega⟩
      obtain ⟨hc, hne, htail⟩ := h
      rw [List.length_cons] at hturns
      rw [skipWhite, hc]
      by_cases hwhite : c ∈ WHITESPACE
      · have hstored : ∀ x, x ≠ p → m.st8 p 0 x = m x := fun x hx => if_neg hx
        have htail' : Client.CString (m.st8 p 0) (p + 1) line := htail.congr fun x hlo _ => hstored x (by omega)
        obtain ⟨m', white, rest, rfl, hall, hhead, hskip, hrest, hbelow, -⟩ :=
            ih htail' (Nat.lt_of_succ_lt_succ hturns)
        have hplace : p + 1 + white.length = p + (c :: white).length := by
          rw [List.length_cons]
          omega
        rw [hplace] at hskip hrest
        rw [if_pos (strchr_isSome.mpr hwhite)]
        refine ⟨m', c :: white, rest, rfl, List.forall_mem_cons.mpr ⟨hwhite, hall⟩, hhead, hskip, hrest, ?_, fun _ => ?_⟩
        · intro x hx
          rw [hbelow x (by omega), hstored x (by omega)]
        · rw [hbelow p (Nat.lt_succ_self p)]
          exact if_pos rfl
      · rw [if_neg (fun hs => hwhite (strchr_isSome.mp hs))]
        refine ⟨m, [], c :: line, rfl, nofun, ?_, rfl, ⟨hc, hne, htail⟩, fun _ _ => rfl, fun hne => absurd rfl hne⟩
        intro x hx
        cases hx
        exact hwhite

theorem tokens_white {white : List Byte} (h : ∀ c ∈ white, c ∈ WHITESPACE) :
    tokens (white ++ rest) = tokens rest := by
  induction white with
  | nil => rfl
  | cons c white ih =>
      obtain ⟨hc, hwhite⟩ := List.forall_mem_cons.mp h
      rw [List.cons_append, tokens, if_pos hc]
      exact ih hwhite

/-- A word is read to its end. -/
theorem wordEnd_ret (h : Client.CString m p line) (hturns : line.length < turns) :
    wordEnd turns m p = some (p + (line.takeWhile wordChar).length) := by
  induction line generalizing p turns with
  | nil =>
      obtain ⟨turns, rfl⟩ := Nat.exists_eq_succ_of_ne_zero (Nat.ne_of_gt hturns)
      have hnull : m.ld8 p = 0 := h
      rw [wordEnd, if_neg (fun hboth => hboth.1 hnull)]
      rfl
  | cons c line ih =>
      obtain ⟨turns, rfl⟩ : ∃ n, turns = n + 1 := ⟨turns - 1, by omega⟩
      obtain ⟨hc, hne, htail⟩ := h
      rw [List.length_cons] at hturns
      have hnone : (strchr (WHITESPACE ++ SYMOLS) c).isNone = true ↔ wordChar c = true := by
        rw [Option.isNone_iff_eq_none, ← Option.not_isSome_iff_eq_none, strchr_isSome, List.mem_append, not_or,
          wordChar_iff]
      rw [wordEnd, hc]
      by_cases hword : wordChar c = true
      · rw [if_pos ⟨hne, hnone.mpr hword⟩, ih htail (Nat.lt_of_succ_lt_succ hturns), List.takeWhile_cons_of_pos hword,
          List.length_cons]
        congr 1
        omega
      · rw [if_neg (fun hboth => hword (hnone.mp hboth.2)), List.takeWhile_cons_of_neg hword]
        rfl

/-! ## One token ahead -/

/-- The token that has been looked for already, and what is left of the line.  A word is
    not yet ended. -/
def Ahead (turns : Nat) (st : Gettoken) : List Token → Prop
  | [] => st.nc = 0 ∧ st.np1 = 0 ∧ st.np2 = 0
  | .word w :: toks => st.nc = chr 'w' ∧ st.np1 ≠ 0 ∧ w ≠ [] ∧ st.np2 = st.np1 + w.length ∧
      ∃ rest, Client.CString st.mem st.np1 (w ++ rest) ∧ (∀ c ∈ rest.head?, wordChar c = false) ∧
        rest.length < turns ∧ toks = tokens rest
  | .symbol c :: toks => st.nc = c ∧ st.np1 ≠ 0 ∧ st.np2 = st.np1 + 1 ∧
      ∃ rest, Client.CString st.mem st.np2 rest ∧ rest.length < turns ∧ toks = tokens rest

/-- No byte before `s` is stored to; and where no word goes on at `s`, a null is there
    afterwards, and the next search begins behind it. -/
theorem gettokenFrom_ret (hs : s ≠ 0) (h : Client.CString st.mem s line) (hturns : line.length < turns) :
    ∃ nc st', gettokenFrom turns s st = some (nc, st') ∧ Ahead turns { st' with nc := nc } (tokens line) ∧
      (∀ x, x < s → st'.mem x = st.mem x) ∧ ((∀ c ∈ line.head?, wordChar c = false) → st'.mem s = 0) ∧
      (tokens line ≠ [] → s < st'.np2) := by
  obtain ⟨m, white, rest, rfl, hwhite, hhead, hskip, hrest, hbelow, hnull⟩ := skipWhite_ret h hturns
  rw [List.length_append] at hturns
  rw [tokens_white hwhite]
  -- What is at `s` when whitespace is.
  have hfirst : white ≠ [] → m s = 0 := hnull
  unfold gettokenFrom
  rw [if_neg hs, hskip]
  dsimp only
  cases rest with
  | nil =>
      have hend : m.ld8 (s + white.length) = 0 := hrest
      rw [if_pos hend]
      refine ⟨0, _, rfl, ?_, hbelow, fun _ => ?_, ?_⟩
      · rw [tokens]
        exact ⟨rfl, rfl, rfl⟩
      · cases white with
        | nil => exact hend
        | cons c white => exact hfirst (List.cons_ne_nil c white)
      · rw [tokens]
        exact fun hne => absurd rfl hne
  | cons c rest =>
      obtain ⟨hc, hne, htail⟩ := hrest
      have hnotwhite : c ∉ WHITESPACE := hhead c rfl
      rw [hc, if_neg hne, tokens, if_neg hnotwhite]
      rw [List.length_cons] at hturns
      by_cases hsymbol : c ∈ SYMOLS
      · have hstored : ∀ x, x ≠ s + white.length → m.st8 (s + white.length) 0 x = m x := fun x hx => if_neg hx
        rw [if_pos (strchr_isSome.mpr hsymbol), if_pos hsymbol]
        refine ⟨c, _, rfl, ?_, ?_, fun _ => ?_, fun _ => ?_⟩
        · refine ⟨rfl, ?_, rfl, rest, ?_, by omega, rfl⟩
          · show s + white.length ≠ 0
            omega
          · exact htail.congr fun x hlo _ => hstored x (by omega)
        · intro x hx
          show m.st8 (s + white.length) 0 x = st.mem x
          rw [hstored x (by omega), hbelow x hx]
        · show m.st8 (s + white.length) 0 s = 0
          cases white with
          | nil => exact if_pos rfl
          | cons d white => rw [hstored s (by rw [List.length_cons]; omega), hfirst (List.cons_ne_nil d white)]
        · show s < s + white.length + 1
          omega
      · have hword : wordChar c = true := wordChar_iff.mpr ⟨hnotwhite, hsymbol⟩
        have hline : Client.CString m (s + white.length) (c :: rest) := ⟨hc, hne, htail⟩
        have hend : wordEnd turns m (s + white.length) = some _ := wordEnd_ret hline (by rw [List.length_cons]; omega)
        rw [List.takeWhile_cons_of_pos hword] at hend
        rw [if_neg (fun hsome => hsymbol (strchr_isSome.mp hsome)), if_neg hsymbol, hend]
        refine ⟨chr 'w', _, rfl, ?_, hbelow, fun hstart => ?_, fun _ => ?_⟩
        · refine ⟨rfl, ?_, List.cons_ne_nil c _, rfl, rest.dropWhile wordChar, ?_, ?_, ?_, rfl⟩
          · show s + white.length ≠ 0
            omega
          · show Client.CString m (s + white.length) _
            rw [List.cons_append, List.takeWhile_append_dropWhile]
            exact hline
          · intro x hx
            have hstop := List.head?_dropWhile_not wordChar rest
            rw [hx] at hstop
            exact Bool.eq_false_of_not_eq_true (by simpa using hstop)
          · have hle := (List.dropWhile_suffix wordChar (l := rest)).length_le
            omega
        · cases white with
          | nil =>
              have hno := hstart c rfl
              rw [hword] at hno
              cases hno
          | cons d white => exact hfirst (List.cons_ne_nil d white)
        · show s < s + white.length + (c :: rest.takeWhile wordChar).length
          rw [List.length_cons]
          omega

/-- What a state one token ahead has still to store is not before `np2`. -/
def Settled (st : Gettoken) (toks : List Token) (a : Nat) : Prop := toks = [] ∨ a < st.np2

/-- `gettoken(s, 0)`. -/
theorem gettoken_first (hs : s ≠ 0) (h : Client.CString st.mem s line) (hturns : line.length < turns) (t : Nat) :
    ∃ st', gettoken turns s t st = some (0, t, st') ∧ Ahead turns st' (tokens line) := by
  obtain ⟨nc, st', hscan, hahead, -⟩ := gettokenFrom_ret hs h hturns
  refine ⟨{ st' with nc := nc }, ?_, hahead⟩
  rw [gettoken, if_pos hs, hscan]

/-- `gettoken(0, &t)` returns the token that has been looked for; a word has its null by
    then, and keeps it. -/
theorem gettoken_next (h : Ahead turns st toks) (t : Nat) : ∃ st',
    gettoken turns 0 t st = some (code toks.head?, st.np1, st') ∧ Ahead turns st' toks.tail ∧
      (∀ x, Settled st toks x → st'.mem x = st.mem x) ∧ (∀ x, Settled st toks x → Settled st' toks.tail x) ∧
      ∀ w ts, toks = .word w :: ts → Client.CString st'.mem st.np1 w ∧ Settled st' ts (st.np1 + w.length) := by
  unfold gettoken
  rw [if_neg (fun hne => hne rfl)]
  cases toks with
  | nil =>
      obtain ⟨hnc, hnp1, hnp2⟩ := h
      have hscan : gettokenFrom turns st.np2 { st with c := st.nc } = some (0, { st with c := st.nc }) := by
        rw [gettokenFrom, if_pos hnp2]
      rw [hscan]
      dsimp only
      rw [hnc]
      exact ⟨_, rfl, ⟨rfl, hnp1, hnp2⟩, fun _ _ => rfl, fun _ _ => Or.inl rfl, nofun⟩
  | cons tok toks =>
      cases tok with
      | word w =>
          obtain ⟨hnc, hnp1, hne, hnp2, rest, hline, hrest, hturns, rfl⟩ := h
          have hs : st.np2 ≠ 0 := by omega
          have hbehind : Client.CString st.mem st.np2 rest := by
            rw [hnp2]
            exact cstring_drop hline
          obtain ⟨nc, st', hscan, hahead, hbelow, hnull, hnext⟩ :
              ∃ nc st', gettokenFrom turns st.np2 { st with c := st.nc } = some (nc, st') ∧ _ :=
            gettokenFrom_ret hs hbehind hturns
          have hlater : ∀ x, x ≤ st.np2 → Settled { st' with nc := nc } (tokens rest) x := by
            intro x hx
            by_cases hend : tokens rest = []
            · exact Or.inl hend
            · exact Or.inr (Nat.lt_of_le_of_lt hx (hnext hend))
          rw [hscan, hnc]
          refine ⟨_, rfl, hahead, ?_, ?_, ?_⟩
          · rintro x (hnil | hx)
            · cases hnil
            · exact hbelow x hx
          · rintro x (hnil | hx)
            · cases hnil
            · exact hlater x (Nat.le_of_lt hx)
          · rintro v ts hcons
            obtain ⟨hv, rfl⟩ := List.cons.inj hcons
            cases hv
            have hend := hnull hrest
            rw [hnp2] at hend hbelow
            exact ⟨cstring_take hline hbelow hend, hlater _ (Nat.le_of_eq hnp2.symm)⟩
      | symbol c =>
          obtain ⟨hnc, hnp1, hnp2, rest, hline, hturns, rfl⟩ := h
          have hs : st.np2 ≠ 0 := by omega
          obtain ⟨nc, st', hscan, hahead, hbelow, -, hnext⟩ :
              ∃ nc st', gettokenFrom turns st.np2 { st with c := st.nc } = some (nc, st') ∧ _ :=
            gettokenFrom_ret hs hline hturns
          rw [hscan, hnc]
          refine ⟨_, rfl, hahead, ?_, ?_, ?_⟩
          · rintro x (hnil | hx)
            · cases hnil
            · exact hbelow x hx
          · rintro x (hnil | hx)
            · cases hnil
            · by_cases hend : tokens rest = []
              · exact Or.inl hend
              · exact Or.inr (Nat.lt_trans hx (hnext hend))
          · rintro v ts hcons
            cases (List.cons.inj hcons).1

/-! ## All calls -/

/-- A call of `gettoken(0, &t)`: its result, and `t` and the memory at its return. -/
structure Call where
  c : Byte
  t : Nat
  mem : ByteMem

/-- `n` calls, one after the other. -/
def gettokens (turns : Nat) : Nat → Nat → Gettoken → Option (List Call)
  | 0, _, _ => some []
  | n + 1, t, st =>
      match gettoken turns 0 t st with
      | none => none
      | some (c, t, st) => (gettokens turns n t st).map fun calls => ⟨c, t, st.mem⟩ :: calls

/-- The call returns the token: for a word `t` points to it, with a null at its end. -/
def Call.Returns (call : Call) : Option Token → Prop
  | none => call.c = 0
  | some (.word w) => call.c = chr 'w' ∧ Client.CString call.mem call.t w
  | some (.symbol c) => call.c = c

/-- The calls return the tokens, and 0 behind the last; induction on the calls. -/
theorem gettokens_ret (h : Ahead turns st toks) (n t : Nat) : ∃ calls, gettokens turns n t st = some calls ∧
    calls.length = n ∧ ∀ (k : Nat) (hk : k < calls.length), (calls.get ⟨k, hk⟩).Returns toks[k]? := by
  induction n generalizing st toks t with
  | zero => exact ⟨[], rfl, rfl, nofun⟩
  | succ n ih =>
      obtain ⟨st', hcall, hahead, -, -, hword⟩ := gettoken_next h t
      obtain ⟨calls, hcalls, hlen, hreturns⟩ := ih hahead st.np1
      refine ⟨⟨code toks.head?, st.np1, st'.mem⟩ :: calls, ?_, congrArg Nat.succ hlen, fun k hk => ?_⟩
      · rw [gettokens, hcall]
        dsimp only
        rw [hcalls]
        rfl
      · cases k with
        | zero =>
            cases toks with
            | nil => exact rfl
            | cons tok ts =>
                cases tok with
                | word w => exact ⟨rfl, (hword w ts rfl).1⟩
                | symbol c => exact rfl
        | succ k =>
            have hnext := hreturns k (Nat.lt_of_succ_lt_succ hk)
            rw [List.getElem?_tail] at hnext
            exact hnext

/-- The calls behind `gettoken(s, 0)` return the tokens of the line, in order, and then 0
    without end. -/
theorem gettoken_tokens (st : Gettoken) (t : Nat) (hs : s ≠ 0) (hline : Client.CString st.mem s line) :
    ∃ N, ∀ turns, N ≤ turns → ∃ st', gettoken turns s t st = some (0, t, st') ∧
      ∀ n, ∃ calls, gettokens turns n t st' = some calls ∧ calls.length = n ∧
        ∀ (k : Nat) (hk : k < calls.length), (calls.get ⟨k, hk⟩).Returns (tokens line)[k]? := by
  refine ⟨line.length + 1, fun turns hturns => ?_⟩
  obtain ⟨st', hfirst, hahead⟩ := gettoken_first hs hline hturns t
  exact ⟨st', hfirst, fun n => gettokens_ret hahead n t⟩

/-- `a|b`. -/
def twoStages : Gettoken where
  mem := fun x => if x = 16 then chr 'a' else if x = 17 then chr '|' else if x = 18 then chr 'b' else 0
  c := 0
  nc := 0
  np1 := 0
  np2 := 0

example : ((gettoken 9 16 0 twoStages).bind fun r => (gettokens 9 4 r.2.1 r.2.2).map (List.map Call.c)) =
    some [chr 'w', chr '|', chr 'w', 0] := by decide

theorem twoStages_tokens : ∃ N, ∀ turns, N ≤ turns → ∃ st', gettoken turns 16 0 twoStages = some (0, 0, st') ∧
    ∀ n, ∃ calls, gettokens turns n 0 st' = some calls ∧ calls.length = n ∧
      ∀ (k : Nat) (hk : k < calls.length), (calls.get ⟨k, hk⟩).Returns (tokens [chr 'a', chr '|', chr 'b'])[k]? := by
  have hline : Client.CString twoStages.mem 16 [chr 'a', chr '|', chr 'b'] :=
    ⟨rfl, by decide, rfl, by decide, rfl, by decide, rfl⟩
  exact gettoken_tokens twoStages 0 (by decide) hline

end Sh

end RpiMos
