/-
  RpiMos.Kernel.Ipc

  What the IPC handlers and the scheduler do to the fields of environments that
  a message passes through.  `Dispatch` leaves the choice of the next
  environment open: `sched_yield` is one way of making it.
-/

import RpiMos.Kernel.Syscall

namespace RpiMos

open Lib

variable {k k' k₀ : Kernel} {c e : EnvPtr} {envid : U32} {value srcva perm dstva : Word} {n : Nat}

/-! ## Handing over the processor -/

/-- The variables that `sched_yield` works with have changed, nothing else. -/
def SchedOnly (k k₀ : Kernel) : Prop :=
  ∃ sched_link count point,
    k₀ = { k with sched_link := sched_link, count := count, point := point }

theorem SchedOnly.refl (k : Kernel) : SchedOnly k k := ⟨_, _, _, rfl⟩

theorem SchedOnly.trans {k₁ : Kernel} (h : SchedOnly k k₀) (h' : SchedOnly k₀ k₁) :
    SchedOnly k k₁ := by
  obtain ⟨l, n, p, rfl⟩ := h
  obtain ⟨l', n', p', rfl⟩ := h'
  exact ⟨l', n', p', rfl⟩

/-- Some runnable environment is run next. -/
def Dispatch (k k' : Kernel) : Prop :=
  ∃ k₀ e, SchedOnly k k₀ ∧ (k.envs e).status = .ENV_RUNNABLE ∧ k' = envRun k₀ e

/-- A dispatch changes the saved registers and the run counter of environments. -/
def SameEnv (env env' : Env) : Prop :=
  ∃ tf runs, env' = { env with tf := tf, env_runs := runs }

theorem SameEnv.refl (env : Env) : SameEnv env env := ⟨env.tf, env.env_runs, rfl⟩

theorem SameEnv.trans {env env' env'' : Env} (h : SameEnv env env') (h' : SameEnv env' env'') :
    SameEnv env env'' := by
  obtain ⟨tf, runs, rfl⟩ := h
  obtain ⟨tf', runs', rfl⟩ := h'
  exact ⟨tf', runs', rfl⟩

theorem updEnv_sameEnv {f : Env → Env} (hf : ∀ env, SameEnv env (f env)) (x : EnvPtr) :
    SameEnv (k.envs x) ((k.updEnv e f).envs x) := by
  rw [Kernel.updEnv_envs]
  split
  · exact hf _
  · exact .refl _

theorem envRun_sameEnv (k : Kernel) (e x : EnvPtr) : SameEnv (k.envs x) ((envRun k e).envs x) := by
  unfold envRun
  cases k.curenv with
  | none => exact updEnv_sameEnv (fun env => ⟨_, _, rfl⟩) x
  | some c =>
      have hsave : SameEnv (k.envs x) ((k.updEnv c fun env => { env with tf := k.trap }).envs x) :=
        updEnv_sameEnv (fun env => ⟨_, _, rfl⟩) x
      exact hsave.trans (updEnv_sameEnv (fun env => ⟨_, _, rfl⟩) x)

/-- After a dispatch a runnable environment runs; the environments keep all that
    a message passes through, and memory is as it was. -/
theorem Dispatch.spec (h : Dispatch k k') :
    (∀ x, SameEnv (k.envs x) (k'.envs x)) ∧ k'.pm = k.pm ∧
    ∃ e, k'.curenv = some e ∧ (k.envs e).status = .ENV_RUNNABLE := by
  obtain ⟨k₀, e, ⟨l, n, p, rfl⟩, hrun, rfl⟩ := h
  exact ⟨fun x => envRun_sameEnv _ e x, envRun_pm _ _, e, rfl, hrun⟩

theorem schedPutBack_only {next_env : Option EnvPtr} (h : schedPutBack k next_env = .ok k₀) :
    SchedOnly k k₀ := by
  cases next_env with
  | none =>
      cases h
      exact .refl k
  | some x =>
      simp only [schedPutBack, schedInsertTail] at h
      split at h <;> cases h
      exact ⟨_, _, _, rfl⟩

theorem schedPick_only (h : schedPick k = .ok (k₀, e)) : SchedOnly k k₀ := by
  have hpoint : SchedOnly k (if (k.sched_link.first k.point).isNone then
      { k with point := 1 - k.point } else k) := by
    split
    · exact ⟨_, _, _, rfl⟩
    · exact .refl k
  unfold schedPick at h
  simp only at h
  split at h
  · cases h
  · split at h <;> cases h
    exact hpoint.trans ⟨_, _, _, rfl⟩

theorem schedTurn_only {next_env : Option EnvPtr} (h : schedTurn k next_env = .ok (k₀, e)) :
    SchedOnly k k₀ := by
  obtain ⟨k₁, hback, hpick⟩ := Res.bind_eq_ok.mp h
  exact (schedPutBack_only hback).trans (schedPick_only hpick)

/-- Until it dispatches, the loop of `sched_yield` touches only its own variables. -/
theorem schedLoop_dispatch {next_env : Option EnvPtr} (h : schedLoop n k next_env = .ok k') :
    Dispatch k k' := by
  induction n generalizing k next_env with
  | zero => cases h
  | succ n ih =>
      have hturn : ∀ k₁ e₁, schedTurn k next_env = .ok (k₁, e₁) →
          schedLoop n k₁ (some e₁) = .ok k' → Dispatch k k' := by
        intro k₁ e₁ hturn hloop
        have honly := schedTurn_only hturn
        obtain ⟨k₀, e, hmore, hrun, hk'⟩ := ih hloop
        refine ⟨k₀, e, honly.trans hmore, ?_, hk'⟩
        obtain ⟨l, m, p, rfl⟩ := honly
        exact hrun
      cases next_env with
      | none =>
          obtain ⟨⟨k₁, e₁⟩, ht, hl⟩ := Res.bind_eq_ok.mp h
          exact hturn k₁ e₁ ht hl
      | some x =>
          simp only [schedLoop] at h
          split at h
          · rename_i hx
            cases h
            exact ⟨_, x, ⟨_, _, _, rfl⟩, hx.2, rfl⟩
          · obtain ⟨⟨k₁, e₁⟩, ht, hl⟩ := Res.bind_eq_ok.mp h
            exact hturn k₁ e₁ ht hl

theorem sysYield_dispatch (h : sysYield n k = .ok k') : Dispatch k k' :=
  schedLoop_dispatch h

theorem sysIpcRecv_dispatch (hdst : dstva < KERNBASE) (h : sysIpcRecv n k c dstva = .ok k') :
    Dispatch (ipcRecvBlock k c dstva) k' := by
  rw [sysIpcRecv, if_neg (by simpa using hdst)] at h
  exact sysYield_dispatch h

/-! ## Sending -/

/-- The environment that a `sys_ipc_can_send` with these arguments wakes. -/
def sendTarget (k : Kernel) (envid : U32) (srcva : Word) : Option EnvPtr :=
  if srcva ≥ KERNBASE then none
  else (envid2env k envid false).filter fun e => (k.envs e).ipc_recving ≠ 0

/-- The stores of `sys_ipc_can_send` into its target. -/
def ipcDeliver (c_id : U32) (value perm : Word) (env : Env) : Env :=
  { env with
    ipc_value := value
    ipc_from := c_id.setWidth 64
    ipc_perm := perm
    ipc_recving := 0
    status := .ENV_RUNNABLE }

theorem sendTarget_eq_some (h : sendTarget k envid srcva = some e) :
    envid2env k envid false = some e ∧ (k.envs e).ipc_recving ≠ 0 := by
  unfold sendTarget at h
  split at h
  · cases h
  · simpa [Option.filter_eq_some_iff] using h

/-- A send that wakes nobody fails and changes nothing. -/
theorem sysIpcCanSend_none (c : EnvPtr) (value perm : Word) (h : sendTarget k envid srcva = none) :
    ∃ r, r ≠ 0 ∧ sysIpcCanSend k c envid value srcva perm = k.setReg0 r := by
  unfold sendTarget at h
  unfold sysIpcCanSend
  by_cases hsrc : srcva ≥ KERNBASE
  · exact ⟨ERR, by decide, by rw [if_pos hsrc]⟩
  · rw [if_neg hsrc] at h ⊢
    cases henv : envid2env k envid false with
    | none => exact ⟨ERR, by decide, rfl⟩
    | some e =>
        rw [henv, Option.filter_eq_none_iff] at h
        have hrecv : (k.envs e).ipc_recving = 0 := by simpa using h e rfl
        exact ⟨-E_IPC_NOT_RECV, by decide, by simp only [if_pos hrecv]⟩

/-- What becomes of the page of a message from `c` to `e`: memory afterwards, and
    the value that the call returns. -/
def ipcMap (k : Kernel) (c e : EnvPtr) (srcva perm : Word) : Pmap × Word :=
  if srcva = 0 then (k.pm, 0)
  else
    match pageLookup k.pm (k.pgdir c) srcva with
    | none => (k.pm, ERR)
    | some (p, _, _) => ((pageInsert k.pm (k.pgdir e) p (k.envs e).ipc_dstva perm).2, 0)

theorem ipcDeliver_pgdir (id : U32) (value perm : Word) (e x : EnvPtr) :
    (k.updEnv e (ipcDeliver id value perm)).pgdir x = k.pgdir x := by
  rw [Kernel.pgdir, Kernel.updEnv_envs]
  split <;> rfl

/-- A send that wakes `e` stores the message there, whatever becomes of the page. -/
theorem sysIpcCanSend_some (c : EnvPtr) (value perm : Word)
    (h : sendTarget k envid srcva = some e) :
    sysIpcCanSend k c envid value srcva perm =
      ((k.updEnv e (ipcDeliver (k.envs c).id value perm)).setPm
        (ipcMap k c e srcva perm).1).setReg0 (ipcMap k c e srcva perm).2 := by
  obtain ⟨henv, hrecv⟩ := sendTarget_eq_some h
  have hsrc : ¬ srcva ≥ KERNBASE := by
    intro hsrc
    rw [sendTarget, if_pos hsrc] at h
    cases h
  have hdir := ipcDeliver_pgdir (k := k) (k.envs c).id value perm e
  have hdst : ((k.updEnv e (ipcDeliver (k.envs c).id value perm)).envs e).ipc_dstva =
      (k.envs e).ipc_dstva := by
    rw [Kernel.updEnv_envs, if_pos rfl]
    rfl
  have hk₁ : k.updEnv e (fun env => { env with
      ipc_value := value, ipc_from := (k.envs c).id.setWidth 64, ipc_perm := perm
      ipc_recving := 0, status := .ENV_RUNNABLE }) =
      k.updEnv e (ipcDeliver (k.envs c).id value perm) := rfl
  unfold sysIpcCanSend ipcMap
  rw [if_neg hsrc]
  simp only [henv, if_neg hrecv, hk₁, hdir, hdst, Kernel.updEnv_pm]
  by_cases h0 : srcva = 0
  · rw [if_neg (by simpa using h0), if_pos h0]
    rfl
  · rw [if_pos h0, if_neg h0]
    cases pageLookup k.pm (k.pgdir c) srcva with
    | none => rfl
    | some x => rfl

end RpiMos
