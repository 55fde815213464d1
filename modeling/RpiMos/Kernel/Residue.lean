/-
  RpiMos.Kernel.Residue

  What an environment inherits from the one that had its slot before.  Neither
  `env_free` nor `env_alloc` nor `sys_env_alloc` writes the IPC fields and the
  fault handler, and `env_free` leaves the scheduling lists alone, so that all
  of these pass from one occupant to the next.
-/

import RpiMos.Kernel.CallMemory

namespace RpiMos

open Lib Links

variable {k k' k₁ k₂ : Kernel} {img : Image} {envs : Word} {ans : Answer} {c e x : EnvPtr} {n : Nat}
  {envid : U32} {held : EnvPtr → Prop}

/-! ## What stays in a slot -/

structure Residue where
  ipc_recving : Word
  ipc_dstva : Word
  ipc_value : Word
  ipc_from : Word
  ipc_perm : Word
  pgfault_handler : Word
  xstacktop : Word
deriving DecidableEq

def Env.residue (env : Env) : Residue :=
  ⟨env.ipc_recving, env.ipc_dstva, env.ipc_value, env.ipc_from, env.ipc_perm, env.pgfault_handler,
    env.xstacktop⟩

def noResidue : Residue := ⟨0, 0, 0, 0, 0, 0, 0⟩

theorem recving_of_residue {env env' : Env} (h : env'.residue = env.residue) :
    env'.ipc_recving = env.ipc_recving := by
  have hr := congrArg Residue.ipc_recving h
  exact hr

theorem residue_sameEnv {env env' : Env} (h : SameEnv env env') : env'.residue = env.residue := by
  obtain ⟨tf, runs, rfl⟩ := h
  rfl

theorem updEnv_residue {f : Env → Env} (e : EnvPtr) (hf : ∀ env, (f env).residue = env.residue) :
    ((k.updEnv x f).envs e).residue = (k.envs e).residue := by
  rw [Kernel.updEnv_envs]
  split
  · exact hf _
  · rfl

theorem envAlloc_residue {r : Option EnvPtr} {id : U32} (h : envAlloc img k id = .ok (r, k'))
    (e : EnvPtr) : (k'.envs e).residue = (k.envs e).residue := by
  unfold envAlloc at h
  split at h
  · cases h
    rfl
  · split at h
    · cases h
    · split at h
      · cases h
      · cases h
        simp only [Kernel.updEnv_envs]
        split
        · rfl
        · rfl

theorem envFree_residue (h : envFree k x = .ok k') (e : EnvPtr) :
    (k'.envs e).residue = (k.envs e).residue := by
  unfold envFree at h
  cases hd : (k.envs x).pgdir with
  | none =>
      rw [hd] at h
      cases h
  | some d =>
      simp only [hd] at h
      generalize envFreeVm d (k.envs x).pgdir_pa k.pm = pm at h
      cases h
      simp only [Kernel.updEnv_envs]
      split
      · rfl
      · rfl

theorem schedInsertTail_envs {i : Fin 2} (h : schedInsertTail k i x = .ok k') : k'.envs = k.envs := by
  obtain ⟨l, m, p, rfl⟩ := schedInsertTail_only h
  rfl

/-- A new environment, if there is one, is given its program and queued. -/
theorem envCreatePriority_cases {binary : List UInt8} {priority : U32}
    (h : envCreatePriority img k binary priority = .ok k') :
    envAlloc img k 0 = .ok (none, k') ∨
    ∃ x k₁ pm f, envAlloc img k 0 = .ok (some x, k₁) ∧
      (∀ env : Env, (f env).residue = env.residue ∧ (f env).status = env.status) ∧
      schedInsertTail ((k₁.setPm pm).updEnv x f) 0 x = .ok k' := by
  obtain ⟨⟨r, k₁⟩, halloc, h⟩ := Res.bind_eq_ok.mp h
  cases r with
  | none =>
      cases h
      exact Or.inl halloc
  | some x =>
      refine Or.inr ⟨x, k₁, _, _, halloc, ?_, h⟩
      intro env
      exact ⟨rfl, rfl⟩

theorem envCreatePriority_residue {binary : List UInt8} {priority : U32}
    (h : envCreatePriority img k binary priority = .ok k') (e : EnvPtr) :
    (k'.envs e).residue = (k.envs e).residue := by
  rcases envCreatePriority_cases h with halloc | ⟨x, k₁, pm, f, halloc, hf, hins⟩
  · exact envAlloc_residue halloc e
  · rw [schedInsertTail_envs hins]
    apply Eq.trans _ (envAlloc_residue halloc e)
    exact updEnv_residue e fun env => (hf env).1

theorem envChild_residue (halloc : envAlloc img k (k.envs c).id = .ok (some x, k₁))
    (hins : schedInsertTail (envChild k₁ c x) 0 x = .ok k₂) (w : Word) (e : EnvPtr) :
    ((k₂.setReg0 w).envs e).residue = (k.envs e).residue := by
  rw [Kernel.setReg0_envs, schedInsertTail_envs hins]
  have hchild : ((envChild k₁ c x).envs e).residue = (k₁.envs e).residue := by
    apply updEnv_residue
    intro env
    rfl
  exact hchild.trans (envAlloc_residue halloc e)

theorem dispatch_residue (h : Dispatch k k') (e : EnvPtr) :
    (k'.envs e).residue = (k.envs e).residue :=
  residue_sameEnv (h.spec.1 e)

theorem destroys_residue {back : Kernel → Kernel} (hd : Destroys k x back k')
    (hback : ∀ k₁ e, ((back k₁).envs e).residue = (k₁.envs e).residue) (e : EnvPtr) :
    (k'.envs e).residue = (k.envs e).residue := by
  obtain ⟨k₁, hfree, ⟨-, rfl⟩ | ⟨-, hnext⟩⟩ := hd
  · exact (hback k₁ e).trans (envFree_residue hfree e)
  · exact (dispatch_residue hnext e).trans (envFree_residue hfree e)

theorem envInit_residue (k : Kernel) (e : EnvPtr) :
    ((envInit k).envs e).residue = (k.envs e).residue := by
  unfold envInit
  induction List.finRange 1024 with
  | nil => rfl
  | cons i l ih =>
      rw [List.foldr_cons]
      apply Eq.trans _ ih
      simp only [envInitTurn, Kernel.updEnv_envs]
      split
      · rfl
      · rfl

/-! ## Calls -/

/-- The slot keeps its residue, or is in use and has not begun to receive. -/
def ResidueKept (receives : Prop) (k k' : Kernel) (e : EnvPtr) : Prop :=
  (k'.envs e).residue = (k.envs e).residue ∨
  k'.Live e ∧ ((k'.envs e).ipc_recving = 0 ∨ (k'.envs e).ipc_recving = (k.envs e).ipc_recving ∨
    receives)

theorem setStatus_residue (x : EnvPtr) (st : EnvStatus) (k : Kernel) (e : EnvPtr) :
    ((setStatus x st k).envs e).residue = (k.envs e).residue := by
  rw [setStatus, Kernel.setReg0_envs]
  apply updEnv_residue
  intro env
  rfl

/-- Only the calls on an environment in use write its residue. -/
theorem CallDone.residue {call : Syscall} (h : CallDone img k c call k') (e : EnvPtr) :
    ResidueKept (call.Receives ∧ e = c) k k' e := by
  cases h with
  | kept pm trap => exact Or.inl rfl
  | handler x func xstacktop hx =>
      by_cases hex : e = x
      · subst hex
        right
        rw [Kernel.Live, Kernel.setReg0_envs, Kernel.updEnv_envs, if_pos rfl]
        exact ⟨hx, Or.inr (Or.inl rfl)⟩
      · left
        rw [Kernel.setReg0_envs, Kernel.updEnv_envs, if_neg hex]
  | status x st hx hst => exact Or.inl (setStatus_residue x st k e)
  | message x value perm pm w hx =>
      by_cases hex : e = x
      · subst hex
        right
        rw [Kernel.Live, Kernel.setReg0_envs, Kernel.setPm_envs, Kernel.updEnv_envs, if_pos rfl]
        exact ⟨by rintro ⟨⟩, Or.inl rfl⟩
      · left
        rw [Kernel.setReg0_envs, Kernel.setPm_envs, Kernel.updEnv_envs, if_neg hex]
  | child x k₁ k₂ w halloc hins => exact Or.inl (envChild_residue halloc hins w e)
  | waits dstva _ hcall hnext =>
      by_cases hec : e = c
      · subst hec
        right
        refine ⟨((memSame_dispatch hnext).live e).mpr ?_, Or.inr (Or.inr ⟨hcall, rfl⟩)⟩
        rw [Kernel.Live, ipcRecvBlock, Kernel.updEnv_envs, if_pos rfl]
        rintro ⟨⟩
      · left
        rw [dispatch_residue hnext, ipcRecvBlock, Kernel.updEnv_envs, if_neg hec]
  | hands _ hnext => exact Or.inl (dispatch_residue hnext e)
  | destroys x back _ hx hback hd =>
      left
      rcases hback with rfl | rfl
      · exact destroys_residue hd (fun _ _ => rfl) e
      · exact destroys_residue hd (setStatus_residue x .ENV_FREE) e

theorem live_updEnv {f : Env → Env} (hf : (f (k.envs x)).status ≠ .ENV_FREE) (he : k.Live e) :
    ((k.updEnv x f).envs e).status ≠ .ENV_FREE := by
  rw [Kernel.updEnv_envs]
  by_cases hex : e = x
  · rw [if_pos hex, hex]
    exact hf
  · rw [if_neg hex]
    exact he

/-- Only a call that destroys an environment frees its slot. -/
theorem CallDone.live {call : Syscall} (h : CallDone img k c call k') (he : k.Live e)
    (hkeep : call.destroyed k ≠ some e) : k'.Live e := by
  cases h with
  | kept pm trap => exact he
  | handler x func xstacktop hx =>
      rw [Kernel.Live, Kernel.setReg0_envs]
      apply live_updEnv _ he
      exact hx
  | status x st hx hst =>
      rw [Kernel.Live, setStatus, Kernel.setReg0_envs]
      apply live_updEnv _ he
      exact hst
  | message x value perm pm w hx =>
      rw [Kernel.Live, Kernel.setReg0_envs, Kernel.setPm_envs]
      apply live_updEnv _ he
      rintro ⟨⟩
  | child x k₁ k₂ w halloc hins =>
      rcases envAlloc_cases halloc with ⟨hr, -⟩ | ⟨x', d, hr, hnew⟩
      · cases hr
      · cases hr
        obtain ⟨l, m, i, rfl⟩ := schedInsertTail_only hins
        have he₁ : k₁.Live e := (hnew.live e).mpr (Or.inl he)
        show ((envChild k₁ c x).envs e).status ≠ .ENV_FREE
        apply live_updEnv _ he₁
        rintro ⟨⟩
  | waits dstva _ hcall hnext =>
      have hblock : (ipcRecvBlock k c dstva).Live e := by
        apply live_updEnv _ he
        rintro ⟨⟩
      exact ((memSame_dispatch hnext).live e).mpr hblock
  | hands _ hnext => exact ((memSame_dispatch hnext).live e).mpr he
  | destroys x back _ hx hback hd =>
      have hex : e ≠ x := by
        rintro rfl
        exact hkeep hx
      obtain ⟨k₁, hfree, hend⟩ := hd
      obtain ⟨d, hf⟩ := envFree_cases hfree
      have he₁ : k₁.Live e := (hf.live e).mpr ⟨he, hex⟩
      rcases hend with ⟨-, rfl⟩ | ⟨-, hnext⟩
      · rcases hback with rfl | rfl
        · exact he₁
        · rw [Kernel.Live, setStatus, Kernel.setReg0_envs, Kernel.updEnv_envs, if_neg hex]
          exact he₁
      · exact ((memSame_dispatch hnext).live e).mpr he₁

theorem acc_setPm (ha : Acc k (isCur k)) (pm : Pmap) : Acc (k.setPm pm) (isCur (k.setPm pm)) :=
  ha.congr rfl rfl (fun _ => rfl) fun _ => Iff.rfl

/-- A call that destroys at most its caller keeps the lists in order. -/
theorem exec_acc {call : Syscall} (ha : Acc k (isCur k)) (hcur : k.curenv = some c)
    (hself : ∀ x, call.destroyed k = some x → k.curenv = some x)
    (hexec : call.exec img envs ans n k c = .ok k') : Acc k' (isCur k') := by
  cases call with
  | sys_putchar ch =>
      cases hexec
      exact ha
  | sys_yield => exact (schedYield_spec ha).of_eq_ok hexec
  | sys_env_destroy envid => exact (sysEnvDestroy_spec ha hself).of_eq_ok hexec
  | sys_set_pgfault_handler envid func xstacktop =>
      cases hexec
      unfold sysSetPgfaultHandler
      split
      · exact ha.setReg0 _
      · apply Acc.setReg0
        apply ha.updEnv_of_status
        intro env
        rfl
  | sys_mem_alloc envid va perm =>
      cases hexec
      rcases sysMemAlloc_cases k envid va perm with heq | ⟨x, pp, pm, -, -, heq⟩
      · rw [heq]
        exact ha.setReg0 _
      · rw [heq]
        exact (acc_setPm ha _).setReg0 _
  | sys_mem_map srcid srcva dstid dstva perm =>
      cases hexec
      rcases sysMemMap_cases k srcid srcva dstid dstva perm with heq | ⟨s, x, q, t, i, -, -, -, heq⟩
      · rw [heq]
        exact ha.setReg0 _
      · rw [heq]
        exact (acc_setPm ha _).setReg0 _
  | sys_mem_unmap envid va =>
      cases hexec
      rcases sysMemUnmap_cases k envid va with heq | ⟨x, -, heq⟩
      · rw [heq]
        exact ha.setReg0 _
      · rw [heq]
        exact acc_setPm ha _
  | sys_env_alloc => exact (sysEnvAlloc_spec img ha c).of_eq_ok hexec
  | sys_set_env_status envid status =>
      refine (sysSetEnvStatus_spec ha fun hst x henv => hself x ?_).of_eq_ok hexec
      rw [Syscall.destroyed, if_pos hst, henv]
  | sys_panic msg => cases hexec
  | sys_ipc_recv dstva =>
      by_cases hdst : dstva ≥ KERNBASE
      · have hsame : sysIpcRecv n k c dstva = .ok k := if_pos hdst
        have hexec' : sysIpcRecv n k c dstva = .ok k' := hexec
        rw [hsame] at hexec'
        cases hexec'
        exact ha
      · have hblock : Acc (ipcRecvBlock k c dstva) (isCur (ipcRecvBlock k c dstva)) :=
          ha.updEnv (ha.live hcur) (by rintro ⟨⟩)
        have hyield : sysIpcRecv n k c dstva = sysYield n (ipcRecvBlock k c dstva) := if_neg hdst
        exact (schedYield_spec hblock).of_eq_ok (hyield.symm.trans hexec)
  | sys_ipc_can_send envid value srcva perm =>
      cases hexec
      cases htarget : sendTarget k envid srcva with
      | none =>
          obtain ⟨r, -, hcall⟩ := sysIpcCanSend_none c value perm htarget
          rw [hcall]
          exact ha.setReg0 _
      | some x =>
          rw [sysIpcCanSend_some c value perm htarget]
          have hx := envid2env_live ha (sendTarget_eq_some htarget).1
          have hmail : Acc (k.updEnv x (ipcDeliver (k.envs c).id value perm))
              (isCur (k.updEnv x (ipcDeliver (k.envs c).id value perm))) :=
            ha.updEnv hx (by rintro ⟨⟩)
          exact (acc_setPm hmail _).setReg0 _
  | sys_write_sd va secno =>
      cases hexec
      unfold sysWriteSd
      split
      · exact ha.setReg0 _
      · split
        · exact ha.setReg0 _
        · exact ha.setReg0 _
  | sys_read_sd va secno =>
      have hk' : sysReadSd k c va ans = k' := Res.ok.inj hexec
      rw [← hk']
      unfold sysReadSd
      split
      · exact ha.setReg0 _
      · exact (acc_setPm ha _).setReg0 _
  | sys_get_pageref num =>
      cases hexec
      unfold sysGetPageref
      split
      · exact ha.setReg0 _
      · exact ha.setReg0 _
  | _ =>
      cases hexec
      exact ha.setReg0 _

/-! ## Histories -/

inductive LifeEvent where
  | env_create_priority (binary : List UInt8) (priority : U32)
  | sched_yield
  | call (c : EnvPtr) (call : Syscall)
  | other

/-- The kernel makes an environment, the timer interrupts, the environment that runs
    makes a call, or registers are saved and pages change between calls. -/
def lifeStep (img : Image) (envs : Word) (k : Kernel) (ev : LifeEvent) (k' : Kernel) : Prop :=
  match ev with
  | .env_create_priority binary priority => envCreatePriority img k binary priority = .ok k'
  | .sched_yield => ∃ n, schedYield n k = .ok k'
  | .call c call => k.curenv = some c ∧ k.Live c ∧ ∃ ans n, call.exec img envs ans n k c = .ok k'
  | .other => ∃ trap pm, k' = { k with trap := trap, pm := pm }

/-- An environment that is destroyed destroys itself, and when its slot is `e`, its
    receive state, mail and fault handler are as in a slot never used. -/
def LifeEvent.Clean (e : EnvPtr) (k : Kernel) : LifeEvent → Prop
  | .call _ sc => ∀ x, sc.destroyed k = some x →
      k.curenv = some x ∧ (x = e → (k.envs x).residue = noResidue)
  | _ => True

/-- Environment `e` waits for a message. -/
def LifeEvent.ReceivedBy (e : EnvPtr) : LifeEvent → Prop
  | .call c sc => sc.Receives ∧ e = c
  | _ => False

theorem envAlloc_live {r : Option EnvPtr} {id : U32} (h : envAlloc img k id = .ok (r, k'))
    (he : k.Live e) : k'.Live e := by
  rcases envAlloc_cases h with ⟨-, rfl⟩ | ⟨x, d, -, hnew⟩
  · exact he
  · exact (hnew.live e).mpr (Or.inl he)

theorem envCreatePriority_live {binary : List UInt8} {priority : U32}
    (h : envCreatePriority img k binary priority = .ok k') (he : k.Live e) : k'.Live e := by
  rcases envCreatePriority_cases h with halloc | ⟨x, k₁, pm, f, halloc, hf, hins⟩
  · exact envAlloc_live halloc he
  · have hlive := envAlloc_live halloc he
    rw [Kernel.Live, schedInsertTail_envs hins, Kernel.updEnv_envs]
    split
    · rw [(hf _).2]
      exact hlive
    · exact hlive

/-- A step keeps the residue of a slot that is free after it. -/
theorem lifeStep_residue {ev : LifeEvent} (h : lifeStep img envs k ev k') (e : EnvPtr) :
    ResidueKept (ev.ReceivedBy e) k k' e := by
  cases ev with
  | env_create_priority binary priority => exact Or.inl (envCreatePriority_residue h e)
  | sched_yield =>
      obtain ⟨n, hexec⟩ := h
      exact Or.inl (dispatch_residue (schedLoop_dispatch hexec) e)
  | call c call =>
      obtain ⟨hcur, hc, ans, n, hexec⟩ := h
      exact (exec_done hc hcur hexec).residue e
  | other =>
      obtain ⟨trap, pm, rfl⟩ := h
      exact Or.inl rfl

/-- A clean step frees slot `e` only without residue. -/
theorem lifeStep_live {ev : LifeEvent} (hclean : ev.Clean e k) (h : lifeStep img envs k ev k')
    (he : k.Live e) : k'.Live e ∨ (k.envs e).residue = noResidue := by
  cases ev with
  | env_create_priority binary priority => exact Or.inl (envCreatePriority_live h he)
  | sched_yield =>
      obtain ⟨n, hexec⟩ := h
      exact Or.inl (((memSame_dispatch (schedLoop_dispatch hexec)).live e).mpr he)
  | call c call =>
      obtain ⟨hcur, hc, ans, n, hexec⟩ := h
      by_cases hd : call.destroyed k = some e
      · exact Or.inr ((hclean e hd).2 rfl)
      · exact Or.inl ((exec_done hc hcur hexec).live he hd)
  | other =>
      obtain ⟨trap, pm, rfl⟩ := h
      exact Or.inl he

theorem lifeStep_acc {ev : LifeEvent} (ha : Acc k (isCur k)) (hclean : ev.Clean e k)
    (h : lifeStep img envs k ev k') : Acc k' (isCur k') := by
  cases ev with
  | env_create_priority binary priority =>
      exact (envCreatePriority_spec ha binary priority).of_eq_ok h
  | sched_yield =>
      obtain ⟨n, hexec⟩ := h
      exact (schedYield_spec ha).of_eq_ok hexec
  | call c call =>
      obtain ⟨hcur, -, ans, n, hexec⟩ := h
      exact exec_acc ha hcur (fun x hx => (hclean x hx).1) hexec
  | other =>
      obtain ⟨trap, pm, rfl⟩ := h
      exact ha.congr rfl rfl (fun _ => rfl) fun _ => Iff.rfl

/-- In a clean history from boot a free slot `e` holds no residue. -/
theorem clean_run {k₀ : Kernel} (hcur : k₀.curenv = none)
    (hboot : (k₀.envs e).residue = noResidue) {tr : List LifeEvent}
    (hrun : Run (restrict (lifeStep img envs) fun k ev => ev.Clean e k) (envInit k₀) tr k) :
    Acc k (isCur k) ∧ (¬ k.Live e → (k.envs e).residue = noResidue) := by
  have hacc : Acc (envInit k₀) (isCur (envInit k₀)) := ⟨_, _, envInit_accounted hcur⟩
  have hfresh := (envInit_residue k₀ e).trans hboot
  generalize envInit k₀ = s at hrun hacc hfresh
  refine hrun.invariant_of_restrict (P := fun k => Acc k (isCur k) ∧
    (¬ k.Live e → (k.envs e).residue = noResidue)) ⟨hacc, fun _ => hfresh⟩ ?_
  rintro k₁ ev k₂ ⟨ha, hfree⟩ hclean hstep
  refine ⟨lifeStep_acc ha hclean hstep, fun hdead => ?_⟩
  rcases lifeStep_residue hstep e with hsame | ⟨hlive, -⟩
  · rw [hsame]
    by_cases he : k₁.Live e
    · exact (lifeStep_live hclean hstep he).resolve_left hdead
    · exact hfree he
  · exact absurd hlive hdead

/-! ## Handing a slot out -/

/-- Environment `e` is in scheduling list `i`. -/
def Listed (k : Kernel) (i : Fin 2) (e : EnvPtr) : Prop :=
  ∃ S, k.sched_link.Represents S ∧ e ∈ S i

theorem listed_iff {S : Fin 2 → List EnvPtr} (hS : k.sched_link.Represents S) (i : Fin 2) :
    Listed k i e ↔ e ∈ S i := by
  constructor
  · rintro ⟨S', hS', he⟩
    rw [hS.unique hS']
    exact he
  · intro he
    exact ⟨S, hS, he⟩

inductive Handout where
  | env_alloc
  | sys_env_alloc
  | env_create_priority

/-- The list that the environment is put in. -/
def Handout.list : Handout → Option (Fin 2)
  | .env_alloc => none
  | .sys_env_alloc => some 0
  | .env_create_priority => some 0

/-- Slot `e` is handed out. -/
def handsOut (img : Image) (h : Handout) (k : Kernel) (e : EnvPtr) (k' : Kernel) : Prop :=
  match h with
  | .env_alloc => ∃ id, envAlloc img k id = .ok (some e, k')
  | .sys_env_alloc => k.link.first () = some e ∧ ∃ c, k.curenv = some c ∧ sysEnvAlloc img k c = .ok k'
  | .env_create_priority => k.link.first () = some e ∧
      ∃ binary priority, envCreatePriority img k binary priority = .ok k'

theorem envAlloc_takes_first {r : Option EnvPtr} {id : U32} (hfirst : k.link.first () = some e)
    (h : envAlloc img k id = .ok (r, k')) : r = some e := by
  unfold envAlloc at h
  rw [hfirst] at h
  simp only at h
  split at h
  · cases h
  · split at h
    · cases h
    · cases h
      rfl

/-- The new environment is in hand. -/
theorem envAlloc_in_hand {id : U32} (ha : Acc k (isCur k))
    (h : envAlloc img k id = .ok (some e, k')) :
    ¬ k.Live e ∧ Acc k' (fun x => isCur k' x ∨ x = e) := by
  rcases (envAlloc_cur_spec ha id).of_eq_ok h with ⟨hr, -⟩ | ⟨x, hr, -, hacc⟩
  · cases hr
  · cases hr
    rcases envAlloc_cases h with ⟨hr, -⟩ | ⟨x, d, hr, hnew⟩
    · cases hr
    · cases hr
      exact ⟨ha.first_free hnew.first, hacc⟩

theorem listed_insertTail (ha : Acc k held) (he : held e) (h : schedInsertTail k 0 e = .ok k')
    (i : Fin 2) : Listed k' i e ↔ i = 0 := by
  obtain ⟨F, S, ha⟩ := ha
  obtain ⟨l, hins, hacc⟩ := schedInsertTail_spec ha he 0
  rw [h, Res.ok.injEq] at hins
  rw [hins, listed_iff hacc.sched, mem_update]
  constructor
  · rintro (⟨hi, -⟩ | ⟨-, hmem⟩)
    · exact hi
    · exact absurd hmem (ha.not_mem he i)
  · rintro rfl
    exact Or.inl ⟨rfl, List.mem_append_right _ (List.mem_singleton_self e)⟩

/-- Handing a slot out keeps its residue, and queues it at most once. -/
theorem handsOut_spec {h : Handout} (ha : Acc k (isCur k)) (hout : handsOut img h k e k') :
    ¬ k.Live e ∧ (k'.envs e).residue = (k.envs e).residue ∧
    ∀ i, Listed k' i e ↔ h.list = some i := by
  cases h with
  | env_alloc =>
      obtain ⟨id, halloc⟩ := hout
      obtain ⟨hfree, F, S, hacc⟩ := envAlloc_in_hand ha halloc
      refine ⟨hfree, envAlloc_residue halloc e, fun i => ?_⟩
      rw [listed_iff hacc.sched]
      exact iff_of_false (hacc.not_mem (Or.inr rfl) i) (by rintro ⟨⟩)
  | sys_env_alloc =>
      obtain ⟨hfirst, c, -, hexec⟩ := hout
      rcases sysEnvAlloc_cases hexec with ⟨k₁, halloc, -⟩ | ⟨x, k₁, k₂, w, halloc, hins, rfl⟩
      · cases envAlloc_takes_first hfirst halloc
      · cases envAlloc_takes_first hfirst halloc
        obtain ⟨hfree, hacc⟩ := envAlloc_in_hand ha halloc
        have hacc₁ : Acc (envChild k₁ c e) (fun x => isCur k₁ x ∨ x = e) :=
          hacc.updEnv (hacc.live (Or.inr rfl)) (by rintro ⟨⟩)
        refine ⟨hfree, envChild_residue halloc hins w e, fun i => ?_⟩
        have hlist := listed_insertTail hacc₁ (Or.inr rfl) hins i
        rw [Handout.list, Option.some.injEq, eq_comm]
        exact hlist
  | env_create_priority =>
      obtain ⟨hfirst, binary, priority, hexec⟩ := hout
      refine ⟨ha.first_free hfirst, envCreatePriority_residue hexec e, fun i => ?_⟩
      rcases envCreatePriority_cases hexec with halloc | ⟨x, k₁, pm, f, halloc, hf, hins⟩
      · cases envAlloc_takes_first hfirst halloc
      · cases envAlloc_takes_first hfirst halloc
        obtain ⟨-, hacc⟩ := envAlloc_in_hand ha halloc
        have hacc₁ : Acc (k₁.setPm pm) (fun x => isCur k₁ x ∨ x = e) :=
          hacc.congr rfl rfl (fun _ => rfl) fun _ => Iff.rfl
        have hacc₂ := hacc₁.updEnv_of_status (fun env => (hf env).2) e
        have hlist := listed_insertTail hacc₂ (Or.inr rfl) hins i
        rw [Handout.list, Option.some.injEq, eq_comm]
        exact hlist

/-- Until `e` waits for a message it is not receiving. -/
theorem not_recving_run (h0 : (k.envs e).ipc_recving = 0) {tr : List LifeEvent}
    (hrun : Run (restrict (lifeStep img envs) fun _ ev => ¬ ev.ReceivedBy e) k tr k') :
    (k'.envs e).ipc_recving = 0 := by
  refine hrun.invariant_of_restrict (P := fun k => (k.envs e).ipc_recving = 0) h0 ?_
  intro k₁ ev k₂ hzero hrecv hstep
  rcases lifeStep_residue hstep e with hsame | ⟨-, hzero' | hsame | hrecv'⟩
  · rw [recving_of_residue hsame]
    exact hzero
  · exact hzero'
  · rw [hsame]
    exact hzero
  · exact absurd hrecv' hrecv

/-- A message to an environment that is not receiving is refused. -/
theorem send_refused {value srcva perm : Word} (henv : envid2env k envid false = some e)
    (h0 : (k.envs e).ipc_recving = 0) (c : EnvPtr) :
    ∃ r, r ≠ 0 ∧ sysIpcCanSend k c envid value srcva perm = k.setReg0 r := by
  apply sysIpcCanSend_none
  unfold sendTarget
  split
  · rfl
  · rw [henv, Option.filter_eq_none_iff]
    intro x hx
    cases hx
    simp [h0]

/-- The kernel makes environment 0 and runs it. -/
theorem board_first_run : ∃ k S, Run (restrict (lifeStep boardImage 0) fun k ev => ev.Clean 1 k)
    (envInit boardKernel) [.env_create_priority [] 1, .sched_yield] k ∧
    Accounted k (isCur k) (1 :: ((List.finRange 1022).map Fin.succ).map Fin.succ) S ∧
    k.curenv = some 0 ∧ k.next_env_id = 1 ∧ (k.envs 0).id = 2048 ∧ ClearFrom 1041 4000 k.pm := by
  obtain ⟨k₁, hcreate, ⟨S, ha₁, hS⟩, hcur₁, hnext₁, hst₁, hpri₁, hid₁, hclear₁⟩ := board_create
  obtain ⟨k₂, hyield, hcur₂, hpm₂, hnext₂, hid₂, S₂, ha₂⟩ := board_yield ha₁ hS hcur₁ hst₁ hpri₁
  have hF : (List.finRange 1023).map (Fin.succ : Fin 1023 → Fin 1024) =
      1 :: ((List.finRange 1022).map Fin.succ).map Fin.succ := by
    have h : List.finRange 1023 = (0 : Fin 1023) :: (List.finRange 1022).map Fin.succ :=
      List.finRange_succ
    rw [h, List.map_cons]
    rfl
  rw [hF] at ha₂
  exact ⟨k₂, S₂, .cons ⟨hcreate, trivial⟩ (.single ⟨⟨2, hyield⟩, trivial⟩), ha₂, hcur₂,
    hnext₂.trans hnext₁, hid₂.trans hid₁, hpm₂ ▸ hclear₁⟩

theorem Accounted.first_eq {F : List EnvPtr} {S : Fin 2 → List EnvPtr}
    (ha : Accounted k held (e :: F) S) : k.link.first () = some e := by
  rw [ha.free.first_eq]
  rfl

section ClearFrom

variable {m i : Nat} {s : Pmap}

theorem foldl_clear {f : Pmap → Nat → Pmap} (hf : ∀ s j, ClearFrom i m s → ClearFrom i m (f s j))
    (h : ClearFrom i m s) (l : List Nat) : ClearFrom i m (l.foldl f s) := by
  induction l generalizing s with
  | nil => exact h
  | cons j l ih => exact ih (hf s j h)

theorem ClearFrom.setPte (h : ClearFrom i m s) (t j : Nat) (w : Word) :
    ClearFrom i m (s.setPte t j w) := h

theorem ClearFrom.envFreeLeaves (h : ClearFrom i m s) (d t a b : Nat) :
    ClearFrom i m (envFreeLeaves d t a b s) := by
  unfold RpiMos.envFreeLeaves
  refine foldl_clear (fun s j hs => ?_) h _
  split
  · exact hs.pageRemove d _
  · exact hs

theorem ClearFrom.envFreeTables (h : ClearFrom i m s) (d t a : Nat) :
    ClearFrom i m (envFreeTables d t a s) := by
  unfold RpiMos.envFreeTables
  refine foldl_clear (fun s j hs => ?_) h _
  split
  · exact ((hs.envFreeLeaves d _ a j).setPte _ _ _).pageDecref _
  · exact hs

theorem ClearFrom.envFreeVm (h : ClearFrom i m s) (d : Nat) (pa : Word) :
    ClearFrom i m (envFreeVm d pa s) := by
  unfold RpiMos.envFreeVm
  refine ClearFrom.pageDecref (foldl_clear (fun s j hs => ?_) (h.setPte d uvptIndex 0) _) _
  split
  · exact ((hs.envFreeTables d _ j).setPte _ _ _).pageDecref _
  · exact hs

theorem ClearFrom.sysEnvAlloc (h : ClearFrom i m k.pm) (hi : i + 2 * (img.init_end / 4096) + 1 < m)
    (hm : m ≤ 2 ^ 12) (hexec : sysEnvAlloc img k c = .ok k') :
    ClearFrom (i + 1 + 2 * (img.init_end / 4096)) m k'.pm := by
  rcases sysEnvAlloc_cases hexec with ⟨k₁, halloc, rfl⟩ | ⟨x, k₁, k₂, w, halloc, hins, rfl⟩
  · rcases envAlloc_cases halloc with ⟨-, rfl⟩ | ⟨x, d, hr, -⟩
    · exact h.mono (by omega)
    · cases hr
  · rcases envAlloc_cases halloc with ⟨hr, -⟩ | ⟨x', d, -, hnew⟩
    · cases hr
    · obtain ⟨d', pm, hvm, hclear⟩ := h.envSetupVm img.init_end hi hm
      obtain ⟨l, n, p, rfl⟩ := schedInsertTail_only hins
      rw [hnew.vm, Option.some.injEq, Prod.mk.injEq] at hvm
      show ClearFrom _ m k₁.pm
      rw [hvm.2]
      exact hclear

end ClearFrom

/-- What `env_alloc` needs of the free list. -/
theorem envAlloc_of_link {F : List EnvPtr} (hr : k.link.Represents fun _ => e :: F) {d : Nat}
    {pm : Pmap} (hvm : envSetupVm img.init_end k.pm = some (d, pm)) (id : U32) :
    ∃ k', envAlloc img k id = .ok (some e, k') := by
  have hfirst : k.link.first () = some e := by
    rw [hr.first_eq]
    rfl
  obtain ⟨l, hrem, -⟩ := hr.remove (h := ()) (List.mem_cons_self : e ∈ e :: F)
  unfold envAlloc
  simp only [hfirst, hrem, hvm]
  exact ⟨_, rfl⟩

/-- The child of environment 0 may be named by it. -/
theorem envid2env_first_child (hcur : k.curenv = some 0) (hid : (k.envs 0).id = 2048)
    (hid₁ : (k.envs 1).id = 4097) (hparent : (k.envs 1).parent_id = 2048) (hlive : k.Live 1) :
    envid2env k 4097 true = some 1 := by
  have hx : ENVX 4097 = 1 := by decide
  unfold envid2env
  rw [if_neg (by decide)]
  simp only [hx, hcur, hid₁, hparent, hid]
  rw [if_neg (by rintro (hst | hne); exact hlive hst; exact hne rfl), if_neg (by simp)]

end RpiMos
