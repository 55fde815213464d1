/-
  RpiMos.Kernel.SchedSelect

  What one call of `sched_yield` chooses.  The loop turns the queue of
  Kernel.SchedOrder by one place a turn, so it takes the first RUNNABLE
  environment of the queue, after as many turns as there are environments before
  it.  There are `NENV` environments and the queue holds each at most once, so
  `NENV + 1` turns are enough.
-/

import RpiMos.Kernel.SchedOrder
import Mathlib.Data.List.Perm.Basic

namespace RpiMos

open Lib Links

variable {k k' : Kernel} {e : EnvPtr} {hand : Option EnvPtr} {n : Nat} {S S' : Fin 2 → List EnvPtr}

/-! ## `env_run` and the queue -/

theorem envRun_count (k : Kernel) (e : EnvPtr) : (envRun k e).count = k.count := by
  unfold envRun
  cases k.curenv <;> rfl

theorem envRun_point (k : Kernel) (e : EnvPtr) : (envRun k e).point = k.point := by
  unfold envRun
  cases k.curenv <;> rfl

theorem envRun_pri (k : Kernel) (e x : EnvPtr) : ((envRun k e).envs x).pri = (k.envs x).pri := by
  unfold envRun
  cases k.curenv with
  | none =>
      simp only [Kernel.updEnv_envs]
      split <;> rfl
  | some c =>
      simp only [Kernel.updEnv_envs]
      split <;> split <;> rfl

/-- The environment in hand may run. -/
def Runs (k : Kernel) (e : EnvPtr) : Prop := k.count ≠ 0 ∧ (k.envs e).status = .ENV_RUNNABLE

/-- What `sched_yield` leaves: `e` runs on the time slice `k'` is left of, the
    others are in the queue `q`. -/
structure Selected (k k' : Kernel) (e : EnvPtr) (q : List EnvPtr) (S' : Fin 2 → List EnvPtr) :
    Prop where
  curenv : k'.curenv = some e
  runnable : (k'.envs e).status = .ENV_RUNNABLE
  lists : QueueHolds k' (some e) S'
  queue : schedOrder k' S' = q
  pri : (k'.envs e).pri = (k.envs e).pri

/-- Leaving the loop with `e` in hand. -/
theorem envRun_selected (h : QueueHolds k (some e) S) (hrun : (k.envs e).status = .ENV_RUNNABLE) :
    Selected k (envRun { k with count := k.count - 1 } e) e (schedOrder k S) S where
  curenv := rfl
  runnable := by
    rw [envRun_status]
    exact hrun
  lists := h.congr (envRun_links _ e).2
  queue := schedOrder_congr (envRun_point _ e)
  pri := envRun_pri _ e e

/-! ## The loop -/

/-- The loop is left at once. -/
theorem schedLoop_leave (hrun : Runs k e) :
    schedLoop (n + 1) k (some e) = .ok (envRun { k with count := k.count - 1 } e) := by
  unfold schedLoop
  exact if_pos hrun

/-- The loop takes another turn. -/
theorem schedLoop_turn (hgo : SchedGoesOn k hand) :
    schedLoop (n + 1) k hand = (schedTurn k hand).bind fun p => schedLoop n p.1 (some p.2) := by
  cases hand with
  | none => rfl
  | some e =>
      rw [schedLoop]
      exact if_neg (hgo e rfl)

/-- From a state in which the loop goes on, it passes over the environments that
    are not RUNNABLE and takes the first that is: induction on their number. -/
theorem schedLoop_first {pre post : List EnvPtr} {x : EnvPtr} (h : QueueHolds k hand S)
    (hgo : SchedGoesOn k hand) (hq : schedOrder k S ++ hand.toList = pre ++ x :: post)
    (hpre : ∀ y ∈ pre, (k.envs y).status ≠ .ENV_RUNNABLE)
    (hx : (k.envs x).status = .ENV_RUNNABLE) (hpri : (k.envs x).pri ≠ 0)
    (hn : pre.length + 2 ≤ n) :
    ∃ k' S', schedLoop n k hand = .ok k' ∧ Selected k k' x (post ++ pre) S' ∧
      k'.count = (k.envs x).pri - 1 := by
  induction pre generalizing k hand S n post with
  | nil =>
      obtain ⟨n, rfl⟩ : ∃ m, n = m + 2 := ⟨n - 2, by omega⟩
      rcases schedTurn_queue h with ⟨hempty, -⟩ |
        ⟨k₁, e, S₁, hturn, h₁, henvs, -, hcount, horder⟩
      · rw [hq] at hempty
        cases hempty
      · rw [hq] at horder
        obtain ⟨rfl, hpost⟩ : x = e ∧ post = schedOrder k₁ S₁ := List.cons.inj horder
        have hruns : Runs k₁ x := ⟨by rw [hcount]; exact hpri, by rw [henvs]; exact hx⟩
        have hsel := envRun_selected h₁ hruns.2
        refine ⟨_, S₁, ?_, ⟨hsel.curenv, hsel.runnable, hsel.lists, ?_, ?_⟩, ?_⟩
        · rw [schedLoop_turn hgo, hturn]
          exact schedLoop_leave hruns
        · rw [hsel.queue, ← hpost, List.append_nil]
        · rw [hsel.pri, henvs]
        · rw [envRun_count, ← hcount]
  | cons y pre ih =>
      obtain ⟨n, rfl⟩ : ∃ m, n = m + 1 := ⟨n - 1, by omega⟩
      rcases schedTurn_queue h with ⟨hempty, -⟩ |
        ⟨k₁, e, S₁, hturn, h₁, henvs, -, -, horder⟩
      · rw [hq] at hempty
        cases hempty
      · rw [hq] at horder
        obtain ⟨rfl, hrest⟩ : y = e ∧ pre ++ x :: post = schedOrder k₁ S₁ :=
          List.cons.inj horder
        -- `y` was passed over: it is in hand, and goes behind all others.
        have hy : (k₁.envs y).status ≠ .ENV_RUNNABLE := by
          rw [henvs]
          exact hpre y List.mem_cons_self
        have hgo₁ : SchedGoesOn k₁ (some y) := by
          rintro z ⟨⟩ ⟨-, hrun⟩
          exact hy hrun
        have hq₁ : schedOrder k₁ S₁ ++ (some y).toList = pre ++ x :: (post ++ [y]) := by
          rw [← hrest]
          simp
        have hlen : pre.length + 2 ≤ n := by
          rw [List.length_cons] at hn
          omega
        obtain ⟨k', S', hloop, hsel, hc⟩ := ih h₁ hgo₁ hq₁
          (fun z hz => by rw [henvs]; exact hpre z (List.mem_cons_of_mem _ hz))
          (by rw [henvs]; exact hx) (by rw [henvs]; exact hpri) hlen
        refine ⟨k', S', ?_, ⟨hsel.curenv, hsel.runnable, hsel.lists, ?_, ?_⟩, ?_⟩
        · rw [schedLoop_turn hgo, hturn]
          exact hloop
        · rw [hsel.queue]
          simp
        · rw [hsel.pri, henvs]
        · rw [hc, henvs]

/-- The first RUNNABLE environment of a list that has one. -/
theorem exists_first_runnable (k : Kernel) {q : List EnvPtr}
    (h : ∃ x ∈ q, (k.envs x).status = .ENV_RUNNABLE) :
    ∃ pre x post, q = pre ++ x :: post ∧ (∀ y ∈ pre, (k.envs y).status ≠ .ENV_RUNNABLE) ∧
      (k.envs x).status = .ENV_RUNNABLE := by
  induction q with
  | nil =>
      obtain ⟨x, hx, -⟩ := h
      cases hx
  | cons a q ih =>
      by_cases ha : (k.envs a).status = .ENV_RUNNABLE
      · exact ⟨[], a, q, rfl, by simp, ha⟩
      · obtain ⟨x, hx, hrun⟩ := h
        have hmem : x ∈ q := by
          rcases List.mem_cons.mp hx with rfl | hx
          · exact absurd hrun ha
          · exact hx
        obtain ⟨pre, z, post, rfl, hpre, hz⟩ := ih ⟨x, hmem, hrun⟩
        refine ⟨a :: pre, z, post, rfl, fun y hy => ?_, hz⟩
        rcases List.mem_cons.mp hy with rfl | hy
        · exact ha
        · exact hpre y hy

/-! ## One call -/

/-- `count` as the `int` it is: one less for an environment that goes on, one
    less than its priority for another. -/
def Charged (k k' : Kernel) (e : EnvPtr) : Prop :=
  (k.curenv = some e ∧ Runs k e ∧ k'.count.toInt = k.count.toInt - 1) ∨
  (SchedGoesOn k k.curenv ∧ k'.count.toInt = (k.envs e).pri.toInt - 1)

theorem toInt_pred {c : U32} (h : 0 < c.toInt) : (c - 1).toInt = c.toInt - 1 := by
  have hc := c.isLt
  rw [BitVec.toInt_eq_toNat_cond] at h
  rw [BitVec.toInt_eq_toNat_cond, BitVec.toInt_eq_toNat_cond, BitVec.toNat_sub]
  split at h
  · have hone : (1 : U32).toNat = 1 := rfl
    rw [hone]
    have hlt : 2 ^ 32 - 1 + c.toNat = 2 ^ 32 + (c.toNat - 1) := by omega
    rw [hlt, Nat.add_mod_left, Nat.mod_eq_of_lt (by omega), if_pos (by omega), if_pos (by omega)]
    omega
  · omega

theorem perm_schedOrder (k : Kernel) (S : Fin 2 → List EnvPtr) :
    (schedOrder k S).Perm (S 0 ++ S 1) := by
  unfold schedOrder
  generalize k.point = p
  rcases list_cases 0 p with rfl | rfl
  · exact .refl _
  · exact List.perm_append_comm

/-- `sched_yield` returns after at most `NENV + 1` turns: a RUNNABLE environment
    runs, with its time slice charged, and no environment is lost or doubled. -/
theorem sched_yield_selects (hS : k.sched_link.Represents S)
    (hcur : ∀ e, k.curenv = some e → ∀ i, e ∉ S i) (hcount : 0 ≤ k.count.toInt)
    (hpri : ∀ e, k.curenv = some e ∨ (∃ i, e ∈ S i) →
      1 ≤ (k.envs e).pri.toNat ∧ (k.envs e).pri.toNat ≤ 2 ^ 31 - 1)
    (hrun : ∃ e, (k.curenv = some e ∨ ∃ i, e ∈ S i) ∧ (k.envs e).status = .ENV_RUNNABLE)
    (hn : NENV + 1 ≤ n) :
    ∃ k' e S', schedYield n k = .ok k' ∧ k'.curenv = some e ∧
      (k'.envs e).status = .ENV_RUNNABLE ∧ Charged k k' e ∧ k'.sched_link.Represents S' ∧
      ((S' 0 ++ S' 1) ++ [e]).Perm ((S 0 ++ S 1) ++ k.curenv.toList) := by
  have hq : QueueHolds k k.curenv S := ⟨hS, hcur⟩
  by_cases hruns : ∃ c, k.curenv = some c ∧ Runs k c
  · -- The environment that runs goes on.
    obtain ⟨c, hc, hruns⟩ := hruns
    obtain ⟨n, rfl⟩ : ∃ m, n = m + 1 := ⟨n - 1, by omega⟩
    have hpos : 0 < k.count.toInt := by
      have hne : k.count.toInt ≠ (0 : U32).toInt := fun h => hruns.1 (BitVec.eq_of_toInt_eq h)
      rw [show (0 : U32).toInt = 0 from rfl] at hne
      omega
    have hsel := envRun_selected (k := k) (S := S) (hc ▸ hq) hruns.2
    refine ⟨_, c, S, ?_, hsel.curenv, hsel.runnable, Or.inl ⟨hc, hruns, ?_⟩, hsel.lists.sched, ?_⟩
    · have hstart : schedYield (n + 1) k = schedLoop (n + 1) k (some c) := congrArg _ hc
      rw [hstart]
      exact schedLoop_leave hruns
    · rw [envRun_count]
      exact toInt_pred hpos
    · rw [hc]
      exact .refl _
  · -- Another is looked for, behind which the one that ran takes its place.
    have hgo : SchedGoesOn k k.curenv := fun c hc hr => hruns ⟨c, hc, hr⟩
    have hmem : ∀ e, e ∈ schedOrder k S ++ k.curenv.toList ↔
        k.curenv = some e ∨ ∃ i, e ∈ S i := by
      intro e
      rw [List.mem_append, mem_schedOrder, Option.mem_toList, or_comm]
    obtain ⟨pre, x, post, hsplit, hpre, hx⟩ := exists_first_runnable k
      (q := schedOrder k S ++ k.curenv.toList)
      (hrun.imp fun e he => ⟨(hmem e).mpr he.1, he.2⟩)
    have hxmem : x ∈ schedOrder k S ++ k.curenv.toList := by
      rw [hsplit]
      simp
    obtain ⟨hlo, hhi⟩ := hpri x ((hmem x).mp hxmem)
    have hne : (k.envs x).pri ≠ 0 := by
      intro h
      rw [h] at hlo
      exact absurd hlo (by decide)
    have hlen : pre.length + 2 ≤ n := by
      have hle := hq.nodup.length_le_card
      rw [Fintype.card_fin, hsplit, List.length_append, List.length_cons] at hle
      have hnenv : NENV = 1024 := rfl
      omega
    obtain ⟨k', S', hloop, hsel, hc⟩ := schedLoop_first hq hgo hsplit hpre hx hne hlen
    refine ⟨k', x, S', hloop, hsel.curenv, hsel.runnable, Or.inr ⟨hgo, ?_⟩, hsel.lists.sched, ?_⟩
    · rw [hc]
      apply toInt_pred
      rw [BitVec.toInt_eq_toNat_cond, if_pos (by omega)]
      omega
    · calc (S' 0 ++ S' 1) ++ [x]
          |>.Perm (schedOrder k' S' ++ [x]) := (perm_schedOrder k' S').symm.append_right _
        _ |>.Perm (x :: (post ++ pre)) := by
            rw [hsel.queue]
            exact List.perm_append_singleton x _
        _ |>.Perm (pre ++ x :: post) :=
            (List.Perm.cons x List.perm_append_comm).trans List.perm_middle.symm
        _ |>.Perm ((S 0 ++ S 1) ++ k.curenv.toList) := by
            rw [← hsplit]
            exact (perm_schedOrder k S).append_right _

/-- A board with environments 0 and 1 in a list and none in hand. -/
theorem board_yield_selects : ∃ k S, k.sched_link.Represents S ∧ S 0 = [0, 1] ∧
    ∃ k' e S', schedYield (NENV + 1) k = .ok k' ∧ k'.curenv = some e ∧
      (k'.envs e).status = .ENV_RUNNABLE ∧ Charged k k' e ∧ k'.sched_link.Represents S' ∧
      ((S' 0 ++ S' 1) ++ [e]).Perm ((S 0 ++ S 1) ++ k.curenv.toList) := by
  have h₀ : QueueHolds { boardKernel with
      envs := fun _ => { zeroEnv with status := .ENV_RUNNABLE, pri := 1 } } none (fun _ => []) := by
    refine ⟨⟨fun _ => ⟨trivial, rfl⟩, fun _ => List.nodup_nil, ?_⟩, ?_⟩
    · rintro h h' e ⟨⟩
    · rintro e ⟨⟩
  obtain ⟨l₁, -, h₁⟩ := h₀.insertTail (e := 0) (by simp) (by simp) 0
  obtain ⟨l₂, -, h₂⟩ := h₁.insertTail (e := 1) (by simp) (by decide) 0
  refine ⟨_, _, h₂.sched, rfl, ?_⟩
  have hcount : 0 ≤ (0 : U32).toInt := by decide
  have hpri : 1 ≤ (1 : U32).toNat ∧ (1 : U32).toNat ≤ 2 ^ 31 - 1 := by decide
  have hlisted : (0 : EnvPtr) ∈ [0, 1] := List.mem_cons_self
  exact sched_yield_selects h₂.sched (by rintro e ⟨⟩) hcount (fun _ _ => hpri)
    ⟨0, Or.inr ⟨0, hlisted⟩, rfl⟩ (le_refl _)

/-! ## No environment RUNNABLE -/

/-- The panic branch is taken when both lists are empty. -/
theorem schedPick_panic_iff (k : Kernel) :
    schedPick k = .panic "No Env is RUNNABLE\n" ↔ ∀ i, k.sched_link.first i = none := by
  constructor
  · intro h i
    unfold schedPick at h
    simp only at h
    cases hf : k.sched_link.first k.point with
    | some e =>
        simp only [hf, Option.isNone_some, Bool.false_eq_true, if_false] at h
        cases hr : k.sched_link.remove e <;> simp [hr] at h
    | none =>
        simp only [hf, Option.isNone_none, if_true] at h
        cases ho : k.sched_link.first (1 - k.point) with
        | some e =>
            simp only [ho] at h
            cases hr : k.sched_link.remove e <;> simp [hr] at h
        | none =>
            rcases list_cases k.point i with rfl | rfl
            · exact hf
            · exact ho
  · intro h
    unfold schedPick
    simp [h]

/-- An environment in hand is in a list before the lists are looked at, however
    the links stand. -/
theorem schedTurn_hand_ne_panic (k : Kernel) (e : EnvPtr) :
    schedTurn k (some e) ≠ .panic "No Env is RUNNABLE\n" := by
  intro h
  unfold schedTurn schedPutBack schedInsertTail at h
  simp only at h
  cases hins : k.sched_link.insertTail NENV (1 - k.point) e with
  | none =>
      rw [hins] at h
      cases h
  | some l =>
      rw [hins] at h
      have hboth := (schedPick_panic_iff _).mp h
      exact insertTail_first hins (hboth (1 - k.point))

/-- Once an environment is in hand, no turn reaches the panic: induction on the
    turns, each of which puts another in hand. -/
theorem schedLoop_hand_ne_panic (n : Nat) (k : Kernel) (e : EnvPtr) :
    schedLoop n k (some e) ≠ .panic "No Env is RUNNABLE\n" := by
  induction n generalizing k e with
  | zero =>
      intro h
      cases h
  | succ n ih =>
      intro h
      by_cases hrun : Runs k e
      · rw [schedLoop_leave hrun] at h
        cases h
      · have hgo : SchedGoesOn k (some e) := by
          rintro z ⟨⟩ hz
          exact hrun hz
        rw [schedLoop_turn hgo] at h
        cases hturn : schedTurn k (some e) with
        | ok p =>
            rw [hturn] at h
            exact ih p.1 p.2 h
        | panic m =>
            rw [hturn] at h
            obtain rfl := Res.panic.inj h
            exact schedTurn_hand_ne_panic k e hturn
        | hang =>
            rw [hturn] at h
            cases h
        | timeout =>
            rw [hturn] at h
            cases h

/-- `sched_yield` reports that nothing can run exactly when no environment is
    there at all: none runs and both lists are empty. -/
theorem sched_yield_panics_iff (k : Kernel) :
    (∃ n, schedYield n k = .panic "No Env is RUNNABLE\n") ↔
      k.curenv = none ∧ ∀ i, k.sched_link.first i = none := by
  constructor
  · rintro ⟨n, h⟩
    unfold schedYield at h
    cases hc : k.curenv with
    | some c =>
        rw [hc] at h
        exact absurd h (schedLoop_hand_ne_panic n k c)
    | none =>
        rw [hc] at h
        refine ⟨rfl, (schedPick_panic_iff k).mp ?_⟩
        cases n with
        | zero => cases h
        | succ n =>
            have hgo : SchedGoesOn k none := by
              rintro e ⟨⟩
            rw [schedLoop_turn hgo] at h
            have hpick : schedTurn k none = schedPick k := rfl
            rw [hpick] at h
            cases hp : schedPick k with
            | ok p =>
                rw [hp] at h
                exact absurd h (schedLoop_hand_ne_panic n p.1 p.2)
            | panic m =>
                rw [hp] at h
                obtain rfl := Res.panic.inj h
                rfl
            | hang =>
                rw [hp] at h
                cases h
            | timeout =>
                rw [hp] at h
                cases h
  · rintro ⟨hc, hempty⟩
    refine ⟨1, ?_⟩
    have hpick := (schedPick_panic_iff k).mpr hempty
    have hgo : SchedGoesOn k none := by
      rintro e ⟨⟩
    unfold schedYield
    rw [hc, schedLoop_turn hgo]
    have hturn : schedTurn k none = .panic "No Env is RUNNABLE\n" := hpick
    rw [hturn]
    rfl

/-- With an environment there but none RUNNABLE the loop turns for ever: the one
    that was passed over comes back behind the others. -/
theorem schedLoop_blocked (h : QueueHolds k hand S)
    (hblocked : ∀ x ∈ schedOrder k S ++ hand.toList, (k.envs x).status ≠ .ENV_RUNNABLE)
    (hne : schedOrder k S ++ hand.toList ≠ []) (n : Nat) : schedLoop n k hand = .timeout := by
  induction n generalizing k hand S with
  | zero => rfl
  | succ n ih =>
      have hgo : SchedGoesOn k hand := by
        rintro x rfl ⟨-, hrun⟩
        exact hblocked x (by simp) hrun
      rcases schedTurn_queue h with ⟨hempty, -⟩ |
        ⟨k₁, e, S₁, hturn, h₁, henvs, -, -, horder⟩
      · exact absurd hempty hne
      · rw [schedLoop_turn hgo, hturn]
        refine ih h₁ (fun x hx => ?_) (by simp)
        rw [henvs]
        apply hblocked
        rw [horder]
        simpa [or_comm] using hx

/-- A board on which the only environment waits for a message: no number of
    turns reaches the panic, nor any other end of the call. -/
theorem board_recv_turns_for_ever : ∃ k S, k.sched_link.Represents S ∧ k.curenv = some 0 ∧
    (∀ e, (k.curenv = some e ∨ ∃ i, e ∈ S i) → (k.envs e).status ≠ .ENV_RUNNABLE) ∧
    ¬ (∃ n, schedYield n k = .panic "No Env is RUNNABLE\n") ∧ ∀ n, schedYield n k = .timeout := by
  have h₀ : QueueHolds (ipcRecvBlock { boardKernel with curenv := some 0 } 0 0) (some 0)
      (fun _ => []) := by
    refine ⟨⟨fun _ => ⟨trivial, rfl⟩, fun _ => List.nodup_nil, ?_⟩, by simp⟩
    rintro h h' e ⟨⟩
  have hblocked : ∀ x ∈ schedOrder (ipcRecvBlock { boardKernel with curenv := some 0 } 0 0)
      (fun _ => []) ++ (some (0 : EnvPtr)).toList,
      ((ipcRecvBlock { boardKernel with curenv := some 0 } 0 0).envs x).status
        ≠ .ENV_RUNNABLE := by
    intro x hx
    obtain rfl : x = 0 := by simpa [schedOrder] using hx
    rintro ⟨⟩
  have hcycle := schedLoop_blocked h₀ hblocked (by simp)
  refine ⟨_, _, h₀.sched, rfl, ?_, ?_, hcycle⟩
  · rintro e (he | ⟨i, hi⟩)
    · cases he
      exact hblocked 0 (by simp)
    · cases hi
  · rintro ⟨n, hn⟩
    have hloop := hcycle n
    exact absurd (hloop.symm.trans hn) (by rintro ⟨⟩)

end RpiMos
