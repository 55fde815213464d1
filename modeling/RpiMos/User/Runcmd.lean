/-
  RpiMos.User.Runcmd

  `runcmd` of user/sh.c: the words of a stage are collected into `argv`, and at the end
  of the stage a program is spawned with them.  The stage behind a `|` is that of a
  child.
-/

import RpiMos.User.Gettoken
import RpiMos.Lib.IntBuf
import RpiMos.User.Client

namespace RpiMos

open Lib

namespace Sh

def MAXARGS : Int := 16

/-- What the calls of `open`, `fork` and `spawn` come to. -/
structure Calls where
  openResult : (k t : Nat) → (mode : U32) → U32
  forkResult : (k : Nat) → U32
  spawnResult : (prog : Nat) → U32
  /-- 0 is what the child gets. -/
  fork_ne : ∀ k, forkResult k ≠ 0

/-- The messages before an `exit`. -/
inductive Complaint where
  | tooMany
  | notWord (c : Byte)
  | openFailed (c : Byte)

def Complaint.text : Complaint → String
  | .tooMany => "too many arguments\n"
  | .notWord c =>
      if c = chr '<' then "syntax error: < not followed by word\n" else "syntax error: > not followed by word\n"
  | .openFailed c => if c = chr '<' then "< open file failed!" else "> open file failed!"

/-- How a stage ends: with a message and `exit`, with `return`, or with `spawn(prog, argv)`
    and then `wait` for some processes. -/
inductive Ending where
  | exit (msg : String)
  | ret
  | spawn (prog : Nat) (argv : Int → Nat) (mem : ByteMem) (waits : List U32)

/-- What the process of a stage has done; `rightpipe` is what `fork` has returned to it. -/
structure StageRun where
  argv : IntBuf Nat
  rightpipe : U32
  ending : Ending

/-- The variables of `runcmd`, and how often `open` and `fork` have been called. -/
structure Runcmd where
  tok : Gettoken
  t : Nat
  argv : IntBuf Nat
  argc : Int
  rightpipe : U32
  opens : Nat
  forks : Nat

namespace Runcmd

/-- A message and `exit()`. -/
def exits (st : Runcmd) (why : Complaint) : StageRun := ⟨st.argv, 0, .exit why.text⟩

/-- `runit`. -/
def runit (calls : Calls) (st : Runcmd) : StageRun :=
  if st.argc = 0 then ⟨st.argv, st.rightpipe, .ret⟩
  else
    let argv := st.argv.put st.argc 0
    let prog := argv.val 0
    let r := calls.spawnResult prog
    let waits := if r.msb then [] else r :: if st.rightpipe ≠ 0 then [st.rightpipe] else []
    ⟨argv, st.rightpipe, .spawn prog argv.val st.tok.mem waits⟩

/-- The cases `<` and `>`.  What `dup` and `close` return is not looked at. -/
def redirect (calls : Calls) (turns : Nat) (c : Byte) (mode : U32) (st : Runcmd) : Option (Except Complaint Runcmd) :=
  match gettoken turns 0 st.t st.tok with
  | none => none
  | some (c', t, tok) =>
      if c' ≠ chr 'w' then some (.error (.notWord c))
      else
        let r := calls.openResult st.opens t mode
        if r.msb then some (.error (.openFailed c))
        else some (.ok { st with tok := tok, t := t, opens := st.opens + 1 })

end Runcmd

/-- The loop of `runcmd`: what the process of this stage does, and those of the stages
    behind it. -/
def runLoop (calls : Calls) (turns : Nat) : Nat → Runcmd → Option (List StageRun)
  | 0, _ => none
  | n + 1, st =>
      match gettoken turns 0 st.t st.tok with
      | none => none
      | some (c, t, tok) =>
          let st := { st with tok := tok, t := t }
          if c = 0 then some [st.runit calls]
          else if c = chr 'w' then
            if st.argc = MAXARGS then some [st.exits .tooMany]
            else runLoop calls turns n { st with argv := st.argv.put st.argc t, argc := st.argc + 1 }
          else if c = chr '<' then
            match st.redirect calls turns c O_RDONLY with
            | none => none
            | some (.error why) => some [st.exits why]
            | some (.ok st) => runLoop calls turns n st
          else if c = chr '>' then
            match st.redirect calls turns c O_WRONLY with
            | none => none
            | some (.error why) => some [st.exits why]
            | some (.ok st) => runLoop calls turns n st
          else if c = chr '|' then
            let r := calls.forkResult st.forks
            let parent := { st with rightpipe := r }.runit calls
            if r.msb then some [parent]
            else
              -- The child goes on with the next stage.
              let child := { st with argc := 0, rightpipe := 0, forks := st.forks + 1 }
              (runLoop calls turns n child).map fun runs => parent :: runs
          -- No other symbol has a case.
          else runLoop calls turns n st

/-- `runcmd(s)`. -/
def runcmd (calls : Calls) (turns s : Nat) (argv : Int → Nat) (tok : Gettoken) : Option (List StageRun) :=
  match gettoken turns s 0 tok with
  | none => none
  | some (_, t, tok) => runLoop calls turns turns ⟨tok, t, ⟨argv, []⟩, 0, 0, 0, 0⟩

/-! ## The stages of a line -/

/-- The stages of what is left, where `done` is what the first begins with. -/
def stagesFrom (done : List Token) : List Token → List (List Token)
  | [] => [done]
  | tok :: toks =>
      if tok = .symbol (chr '|') then done :: stagesFrom [] toks else stagesFrom (done ++ [tok]) toks

/-- Between two `|`. -/
def stages (line : List Byte) : List (List Token) := stagesFrom [] (tokens line)

def isRedirect (c : Byte) : Bool := c = chr '<' ∨ c = chr '>'

/-- The words of a stage, but for those that a redirection goes to. -/
def stageWords : List Token → List (List Byte)
  | [] => []
  | .word w :: toks => w :: stageWords toks
  | .symbol c :: .word w :: toks => if isRedirect c then stageWords toks else w :: stageWords toks
  | .symbol _ :: toks => stageWords toks

/-- There is a cause for the message. -/
def Caused (calls : Calls) (stage : List Token) : Complaint → Prop
  | .tooMany => MAXARGS < (stageWords stage).length
  | .notWord c => ∃ a b, stage = a ++ .symbol c :: b ∧ ∀ w, b.head? ≠ some (.word w)
  | .openFailed c => (∃ a w b, stage = a ++ .symbol c :: .word w :: b) ∧
      ∃ k t mode, (calls.openResult k t mode).msb = true

/-- The program is the first word, and `argv` holds the words, each with its null, and then
    a null. -/
def HoldsWords (words : List (List Byte)) (prog : Nat) (argv : Int → Nat) (mem : ByteMem) : Prop :=
  prog = argv 0 ∧ argv words.length = 0 ∧
    ∀ (i : Nat) (hi : i < words.length), Client.CString mem (argv i) (words.get ⟨i, hi⟩)

/-- A stage ends with a message, with `return` if it has no words, or with `argv` holding
    its words and a null; and `argv[0..MAXARGS)` only is stored to.  Where a stage with
    just `MAXARGS` words is spawned nothing is said of `argv`. -/
def StageRight (calls : Calls) (stage : List Token) (run : StageRun) : Prop :=
  let words := stageWords stage
  match run.ending with
  | .exit msg => (∃ why, msg = why.text ∧ Caused calls stage why) ∧ run.argv.Within MAXARGS
  | .ret => words = [] ∧ run.argv.Within MAXARGS
  | .spawn prog argv mem _ =>
      words ≠ [] ∧ ((words.length : Int) ≠ MAXARGS → run.argv.Within MAXARGS ∧ HoldsWords words prog argv mem)

/-- No child is there for the stages behind this one. -/
def StageRun.Stops (run : StageRun) : Prop := (∃ msg, run.ending = .exit msg) ∨ run.rightpipe.msb = true

/-- The processes are those of the stages, in order, as far as they come. -/
inductive Staged (calls : Calls) : List (List Token) → List StageRun → Prop where
  | last {stage : List Token} {run : StageRun} : StageRight calls stage run → Staged calls [stage] [run]
  | stop {stage : List Token} {stages : List (List Token)} {run : StageRun} :
      StageRight calls stage run → run.Stops → Staged calls (stage :: stages) [run]
  | next {stage : List Token} {stages : List (List Token)} {run : StageRun} {runs : List StageRun} :
      StageRight calls stage run → Staged calls stages runs → Staged calls (stage :: stages) (run :: runs)

variable {calls : Calls} {turns n t : Nat} {st : Runcmd} {tok tok' : Gettoken} {c : Byte} {w : List Byte}
  {line : List Byte} {done toks ts stage : List Token} {tok₁ : Token} {run : StageRun}

/-! ## Tokens and stages -/

theorem symbols_of_tokens (line : List Byte) : ∀ c, .symbol c ∈ tokens line → c ∈ SYMOLS := by
  fun_induction tokens line with
  | case1 => exact nofun
  | case2 c line _ ih => exact ih
  | case3 c line _ hsymbol ih =>
      intro d hd
      rcases List.mem_cons.mp hd with heq | hmem
      · cases heq
        exact hsymbol
      · exact ih d hmem
  | case4 c line _ _ ih =>
      intro d hd
      rcases List.mem_cons.mp hd with heq | hmem
      · cases heq
      · exact ih d hmem

/-- A token takes a character. -/
theorem tokens_length (line : List Byte) : (tokens line).length ≤ line.length := by
  fun_induction tokens line with
  | case1 => exact Nat.le_refl 0
  | case2 c line _ ih => exact Nat.le_succ_of_le ih
  | case3 c line _ _ ih => exact Nat.succ_le_succ ih
  | case4 c line _ _ ih =>
      exact Nat.succ_le_succ (Nat.le_trans ih (List.dropWhile_suffix wordChar).length_le)

theorem stagesFrom_word (w : List Byte) : stagesFrom done (.word w :: toks) = stagesFrom (done ++ [.word w]) toks :=
  if_neg nofun

/-- The rest of the first stage. -/
def stageRest (toks : List Token) : List Token := toks.takeWhile fun tok => tok ≠ .symbol (chr '|')

theorem stagesFrom_head (done toks : List Token) :
    ∃ stages, stagesFrom done toks = (done ++ stageRest toks) :: stages := by
  induction toks generalizing done with
  | nil => exact ⟨[], by rw [stagesFrom, stageRest, List.takeWhile_nil, List.append_nil]⟩
  | cons tok toks ih =>
      rw [stagesFrom, stageRest]
      by_cases hpipe : tok = .symbol (chr '|')
      · refine ⟨stagesFrom [] toks, ?_⟩
        rw [if_pos hpipe, List.takeWhile_cons_of_neg (by simpa using hpipe), List.append_nil]
      · obtain ⟨stages, hstages⟩ := ih (done ++ [tok])
        refine ⟨stages, ?_⟩
        rw [if_neg hpipe, List.takeWhile_cons_of_pos (by simpa using hpipe), hstages, List.append_assoc]
        rfl

theorem stageWords_symbol (hc : isRedirect c = false) (ts : List Token) :
    stageWords (.symbol c :: ts) = stageWords ts := by
  cases ts with
  | nil => rfl
  | cons tok ts =>
      cases tok with
      | word w =>
          show (if isRedirect c = true then stageWords ts else w :: stageWords ts) = w :: stageWords ts
          rw [hc, if_neg Bool.false_ne_true]
      | symbol d => rfl

theorem stageWords_redirect (hc : isRedirect c = true) (w : List Byte) (ts : List Token) :
    stageWords (.symbol c :: .word w :: ts) = stageWords ts := by
  rw [stageWords, if_pos hc]

/-! ## In the middle of a stage -/

/-- `argv` holds the words so far, and no more of the line is stored to where they are;
    no redirection is left open. -/
structure Collected (turns : Nat) (st : Runcmd) (done toks : List Token) : Prop where
  ahead : Ahead turns st.tok toks
  symbols : ∀ c, .symbol c ∈ toks → c ∈ SYMOLS
  argc : st.argc = (stageWords done).length
  room : st.argc ≤ MAXARGS
  inside : st.argv.Within MAXARGS
  words : ∀ (i : Nat) (hi : i < (stageWords done).length),
    Client.CString st.tok.mem (st.argv.val i) ((stageWords done).get ⟨i, hi⟩) ∧
      Settled st.tok toks (st.argv.val i + ((stageWords done).get ⟨i, hi⟩).length)
  whole : ∀ ts, stageWords (done ++ ts) = stageWords done ++ stageWords ts

/-- The words are kept while the next token is read. -/
theorem Collected.kept (h : Collected turns st done toks)
    (hmem : ∀ x, Settled st.tok toks x → tok'.mem x = st.tok.mem x)
    (hlater : ∀ x, Settled st.tok toks x → Settled tok' ts x) : ∀ (i : Nat) (hi : i < (stageWords done).length),
    Client.CString tok'.mem (st.argv.val i) ((stageWords done).get ⟨i, hi⟩) ∧
      Settled tok' ts (st.argv.val i + ((stageWords done).get ⟨i, hi⟩).length) := by
  intro i hi
  obtain ⟨hstring, hsettled⟩ := h.words i hi
  refine ⟨hstring.congr fun x _ hx => hmem x ?_, hlater _ hsettled⟩
  rcases hsettled with hnil | hlt
  · exact Or.inl hnil
  · exact Or.inr (Nat.lt_of_le_of_lt hx hlt)

/-- A token that adds no word. -/
theorem Collected.skip (h : Collected turns st done toks) (hahead : Ahead turns tok' ts)
    (hsymbols : ∀ c, .symbol c ∈ ts → c ∈ SYMOLS)
    (hmem : ∀ x, Settled st.tok toks x → tok'.mem x = st.tok.mem x)
    (hlater : ∀ x, Settled st.tok toks x → Settled tok' ts x) {more : List Token}
    (hmore : ∀ ts, stageWords (more ++ ts) = stageWords ts) (t opens : Nat) :
    Collected turns { st with tok := tok', t := t, opens := opens } (done ++ more) ts := by
  have hwords : stageWords (done ++ more) = stageWords done := by
    have hnone := hmore []
    rw [List.append_nil] at hnone
    rw [h.whole, hnone]
    exact List.append_nil _
  have hkept := h.kept hmem hlater
  refine ⟨hahead, hsymbols, ?_, h.room, h.inside, ?_, fun ts => ?_⟩
  · rw [hwords]
    exact h.argc
  · rw [hwords]
    exact hkept
  · rw [List.append_assoc, h.whole, hmore, hwords]

/-- A word, where there is room for it. -/
theorem Collected.word (h : Collected turns st done (.word w :: ts)) (hahead : Ahead turns tok' ts)
    (hroom : st.argc ≠ MAXARGS)
    (hmem : ∀ x, Settled st.tok (.word w :: ts) x → tok'.mem x = st.tok.mem x)
    (hlater : ∀ x, Settled st.tok (.word w :: ts) x → Settled tok' ts x)
    (hword : Client.CString tok'.mem t w ∧ Settled tok' ts (t + w.length)) :
    Collected turns { st with tok := tok', t := t, argv := st.argv.put st.argc t, argc := st.argc + 1 }
      (done ++ [.word w]) ts := by
  have hwords : stageWords (done ++ [.word w]) = stageWords done ++ [w] := h.whole [.word w]
  have hlen : (stageWords (done ++ [.word w])).length = (stageWords done).length + 1 := by
    rw [hwords, List.length_append]
    rfl
  have hargc := h.argc
  have hle := h.room
  refine ⟨hahead, fun c hc => h.symbols c (List.mem_cons_of_mem _ hc), ?_, ?_, ?_, fun i hi => ?_, fun ts => ?_⟩
  · show st.argc + 1 = _
    rw [hlen, hargc]
    rfl
  · show st.argc + 1 ≤ MAXARGS
    omega
  · exact IntBuf.within_put.mpr ⟨⟨by omega, by omega⟩, h.inside⟩
  · rw [hlen] at hi
    show Client.CString tok'.mem ((st.argv.put st.argc t).val i) _ ∧
        Settled tok' ts ((st.argv.put st.argc t).val i + _)
    by_cases hlast : i < (stageWords done).length
    · have hget : (stageWords (done ++ [.word w])).get ⟨i, by omega⟩ = (stageWords done).get ⟨i, hlast⟩ := by
        simp only [List.get_eq_getElem, hwords]
        exact List.getElem_append_left hlast
      rw [hget, IntBuf.put_of_ne (by omega)]
      exact h.kept hmem hlater i hlast
    · have hi' : i = (stageWords done).length := by omega
      have hget : (stageWords (done ++ [.word w])).get ⟨i, by omega⟩ = w := by
        simp only [List.get_eq_getElem, hwords, hi']
        exact List.getElem_concat_length rfl _
      rw [hget, hi', ← hargc, IntBuf.put_self]
      exact hword
  · rw [List.append_assoc, h.whole, hwords, List.append_assoc]
    rfl

/-! ## The end of a stage -/

/-- `runit`. -/
theorem runit_right (h : Collected turns st done toks) (hstage : stageWords stage = stageWords done) :
    StageRight calls stage (st.runit calls) := by
  have hargc := h.argc
  have hroom := h.room
  unfold StageRight Runcmd.runit
  dsimp only
  rw [hstage]
  by_cases h0 : st.argc = 0
  · rw [if_pos h0]
    refine ⟨List.eq_nil_of_length_eq_zero ?_, h.inside⟩
    omega
  · rw [if_neg h0]
    refine ⟨?_, fun hne => ⟨?_, rfl, ?_, fun i hi => ?_⟩⟩
    · intro hnil
      rw [hnil] at hargc
      exact h0 hargc
    · exact IntBuf.within_put.mpr ⟨⟨by omega, by omega⟩, h.inside⟩
    · show (st.argv.put st.argc 0).val _ = 0
      rw [← hargc, IntBuf.put_self]
    · rw [IntBuf.put_of_ne (by omega)]
      exact (h.words i hi).1

theorem runit_rightpipe (calls : Calls) (st : Runcmd) : (st.runit calls).rightpipe = st.rightpipe := by
  unfold Runcmd.runit
  split
  · rfl
  · rfl

/-! ## The loop -/

theorem stageRest_cons (h : tok₁ ≠ .symbol (chr '|')) (toks : List Token) :
    stageRest (tok₁ :: toks) = tok₁ :: stageRest toks :=
  List.takeWhile_cons_of_pos (by simpa using h)

/-- A redirection with its target is read, or there is a cause for the message. -/
theorem redirect_ret (hc : isRedirect c = true) (h : Collected turns st done ts) (mode : U32) :
    (∃ why, st.redirect calls turns c mode = some (.error why) ∧
        Caused calls (done ++ .symbol c :: stageRest ts) why) ∨
    ∃ st' w ts', st.redirect calls turns c mode = some (.ok st') ∧ ts = .word w :: ts' ∧
      Collected turns st' (done ++ [.symbol c, .word w]) ts' := by
  obtain ⟨tok', hcall, hahead, hmem, hlater, hword⟩ := gettoken_next h.ahead st.t
  unfold Runcmd.redirect
  rw [hcall]
  dsimp only
  -- Only the code of a word is `w`.
  have hother (hne : ∀ w, ts.head? ≠ some (.word w)) :
      code ts.head? ≠ chr 'w' ∧ ∀ w, (stageRest ts).head? ≠ some (.word w) := by
    cases ts with
    | nil => exact ⟨by decide, nofun⟩
    | cons tok ts =>
        cases tok with
        | word w => exact absurd rfl (hne w)
        | symbol d =>
            have hcode : ∀ d ∈ SYMOLS, d ≠ chr 'w' := by decide
            refine ⟨hcode d (h.symbols d List.mem_cons_self), fun w hw => ?_⟩
            by_cases hpipe : d = chr '|'
            · rw [hpipe, stageRest, List.takeWhile_cons_of_neg (by simp)] at hw
              cases hw
            · rw [stageRest_cons (fun heq => hpipe (Token.symbol.inj heq))] at hw
              cases hw
  cases ts with
  | nil =>
      rw [if_pos (hother nofun).1]
      exact Or.inl ⟨_, rfl, done, stageRest [], rfl, (hother nofun).2⟩
  | cons tok ts =>
      cases tok with
      | symbol d =>
          have hnone : ∀ w, (Token.symbol d :: ts).head? ≠ some (.word w) := by
            intro w hw
            cases hw
          rw [if_pos (hother hnone).1]
          exact Or.inl ⟨_, rfl, done, _, rfl, (hother hnone).2⟩
      | word w =>
          rw [if_neg (show ¬ code (Token.word w :: ts).head? ≠ chr 'w' from not_not.mpr rfl)]
          split
          · rename_i hneg
            refine Or.inl ⟨_, rfl, ⟨done, w, stageRest ts, ?_⟩, _, _, _, hneg⟩
            rw [stageRest_cons (show Token.word w ≠ .symbol (chr '|') from nofun)]
          · refine Or.inr ⟨_, w, ts, rfl, rfl, ?_⟩
            exact h.skip hahead (fun d hd => h.symbols d (List.mem_cons_of_mem _ hd)) hmem hlater
              (stageWords_redirect hc w) st.tok.np1 (st.opens + 1)

/-- The processes of a stage and those behind it; induction on the turns, with what has
    been read of the stage. -/
theorem runLoop_ret (h : Collected turns st done toks) (hn : toks.length < n) :
    ∃ runs, runLoop calls turns n st = some runs ∧ Staged calls (stagesFrom done toks) runs := by
  induction n generalizing st done toks with
  | zero => cases hn
  | succ n ih =>
      obtain ⟨tok', hcall, hahead, hmem, hlater, hword⟩ := gettoken_next h.ahead st.t
      have hsymbols : ∀ c, .symbol c ∈ toks.tail → c ∈ SYMOLS := fun c hc => h.symbols c (List.mem_of_mem_tail hc)
      have hnext : Collected turns { st with tok := tok', t := st.tok.np1 } done toks.tail := by
        have hnone : ∀ ts, stageWords ([] ++ ts) = stageWords ts := fun _ => rfl
        have hskip := h.skip hahead hsymbols hmem hlater hnone st.tok.np1 st.opens
        rw [List.append_nil] at hskip
        exact hskip
      rw [runLoop, hcall]
      dsimp only
      cases toks with
      | nil =>
          rw [if_pos (show code ([] : List Token).head? = 0 from rfl), stagesFrom]
          exact ⟨_, rfl, .last (runit_right hnext rfl)⟩
      | cons tok ts =>
          have hn' : ts.length < n := Nat.lt_of_succ_lt_succ hn
          cases tok with
          | word w =>
              have h0 : ¬ code (Token.word w :: ts).head? = 0 := by
                rw [show code (Token.word w :: ts).head? = chr 'w' from rfl]
                decide
              rw [if_neg h0, if_pos (show code (Token.word w :: ts).head? = chr 'w' from rfl), stagesFrom_word]
              by_cases hroom : st.argc = MAXARGS
              · obtain ⟨stages, hstages⟩ := stagesFrom_head (done ++ [.word w]) ts
                rw [if_pos hroom, hstages]
                refine ⟨_, rfl, .stop ⟨⟨.tooMany, rfl, ?_⟩, h.inside⟩ (Or.inl ⟨_, rfl⟩)⟩
                have hargc := h.argc
                show MAXARGS < (stageWords (done ++ [.word w] ++ stageRest ts)).length
                rw [List.append_assoc, h.whole, List.length_append]
                show MAXARGS < ((stageWords done).length + ((stageWords (stageRest ts)).length + 1) : Nat)
                omega
              · rw [if_neg hroom]
                exact ih (h.word hahead hroom hmem hlater (hword w ts rfl)) hn'
          | symbol c =>
              have hcode : ∀ c ∈ SYMOLS, c ≠ 0 ∧ c ≠ chr 'w' := by decide
              obtain ⟨h0, hw⟩ := hcode c (h.symbols c List.mem_cons_self)
              have hc : code (Token.symbol c :: ts).head? = c := rfl
              rw [hc, if_neg h0, if_neg hw, stagesFrom]
              -- A redirection, to the end of its message or to its target.
              have hredirect (hr : isRedirect c = true) (mode : U32) : ∃ runs,
                  (match Runcmd.redirect calls turns c mode { st with tok := tok', t := st.tok.np1 } with
                    | none => none
                    | some (.error why) => some [Runcmd.exits { st with tok := tok', t := st.tok.np1 } why]
                    | some (.ok st) => runLoop calls turns n st) = some runs ∧
                  Staged calls (stagesFrom (done ++ [.symbol c]) ts) runs := by
                rcases redirect_ret hr hnext mode with ⟨why, hres, hcause⟩ | ⟨st', w, ts', hres, rfl, hcollected⟩
                · obtain ⟨stages, hstages⟩ := stagesFrom_head (done ++ [.symbol c]) ts
                  rw [hres, hstages, List.append_assoc]
                  exact ⟨_, rfl, .stop ⟨⟨why, rfl, hcause⟩, h.inside⟩ (Or.inl ⟨_, rfl⟩)⟩
                · rw [hres, stagesFrom_word, List.append_assoc]
                  exact ih hcollected (Nat.lt_of_succ_lt hn')
              by_cases hpipe : c = chr '|'
              · subst hpipe
                rw [if_neg (by decide), if_neg (by decide), if_pos rfl, if_pos rfl]
                have hparent : Collected turns
                    { st with tok := tok', t := st.tok.np1, rightpipe := calls.forkResult st.forks } done ts :=
                  ⟨hnext.ahead, hnext.symbols, hnext.argc, hnext.room, hnext.inside, hnext.words, hnext.whole⟩
                have hright : StageRight calls done (Runcmd.runit calls _) := runit_right hparent rfl
                by_cases hneg : (calls.forkResult st.forks).msb = true
                · rw [if_pos hneg]
                  exact ⟨_, rfl, .stop hright (Or.inr ((congrArg BitVec.msb (runit_rightpipe calls _)).trans hneg))⟩
                · rw [if_neg hneg]
                  have hchild : Collected turns
                      { st with
                          tok := tok', t := st.tok.np1, argc := 0, rightpipe := 0
                          forks := st.forks + 1 } [] ts :=
                    ⟨hahead, hsymbols, rfl, show (0 : Int) ≤ MAXARGS by decide, h.inside, nofun, fun _ => rfl⟩
                  obtain ⟨runs, hruns, hstaged⟩ := ih hchild hn'
                  rw [hruns]
                  exact ⟨_, rfl, .next hright hstaged⟩
              · have hne : Token.symbol c ≠ .symbol (chr '|') := fun heq => hpipe (Token.symbol.inj heq)
                rw [if_neg hne]
                by_cases hless : c = chr '<'
                · rw [if_pos hless]
                  exact hredirect (decide_eq_true (Or.inl hless)) O_RDONLY
                · rw [if_neg hless]
                  by_cases hgreater : c = chr '>'
                  · rw [if_pos hgreater]
                    exact hredirect (decide_eq_true (Or.inr hgreater)) O_WRONLY
                  · have hr : isRedirect c = false := decide_eq_false (not_or.mpr ⟨hless, hgreater⟩)
                    rw [if_neg hgreater, if_neg hpipe]
                    exact ih (h.skip hahead hsymbols hmem hlater (stageWords_symbol hr) st.tok.np1 st.opens) hn'

/-- All calls come to something. -/
def granted : Calls := ⟨fun _ _ _ => 3, fun _ => 0x1001, fun _ => 0x1002, fun _ => by decide⟩

def noWord : Gettoken := ⟨fun _ => 0, 0, 0, 0, 0⟩

/-- Sixteen words of a character each. -/
def sixteenWords : Gettoken :=
  ⟨fun x => if 16 ≤ x ∧ x < 47 then if x % 2 = 0 then chr 'a' else chr ' ' else 0, 0, 0, 0, 0⟩

/-- Only `argv[0..MAXARGS)` is stored to, and the stage ends with a message or with a
    program that has its words. -/
def Assembled (words : List (List Byte)) (run : StageRun) : Prop :=
  run.argv.Within MAXARGS ∧
    match run.ending with
    | .exit _ => True
    | .ret => False
    | .spawn prog argv mem _ => HoldsWords words prog argv mem

end Sh

end RpiMos
