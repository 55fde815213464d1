/-
  RpiMos.Kernel.Calls

  The system calls of one environment, one after another.  A call is entered with
  `curenv` set to its caller and comes back there or, when the processor has been
  handed over, in another environment.  What the console and the SD card answer is
  left open.
-/

import RpiMos.Kernel.Ipc
import RpiMos.Kernel.EnvMemory
import RpiMos.Kernel.MemCalls

namespace RpiMos

open Lib

variable {k k' k₁ : Kernel} {img : Image} {c e x : EnvPtr} {n : Nat} {envid : U32}
  {va dstva srcva perm : Word}

/-! ## The calls -/

/-- `E_INVAL` as the handlers store it in a register. -/
def EINVAL : Word := 3

inductive Syscall where
  | sys_putchar (c : Word)
  | sys_getc
  | sys_getenvid
  | sys_yield
  | sys_env_destroy (envid : U32)
  | sys_set_pgfault_handler (envid : U32) (func xstacktop : Word)
  | sys_mem_alloc (envid : U32) (va perm : Word)
  | sys_mem_map (srcid : U32) (srcva : Word) (dstid : U32) (dstva perm : Word)
  | sys_mem_unmap (envid : U32) (va : Word)
  | sys_env_alloc
  | sys_set_env_status (envid status : U32)
  | sys_set_trapframe (envid : U32)
  | sys_panic (msg : String)
  | sys_ipc_recv (dstva : Word)
  | sys_ipc_can_send (envid : U32) (value srcva perm : Word)
  | sys_get_envs
  | sys_write_sd (va : Word) (secno : U32)
  | sys_read_sd (va : Word) (secno : U32)
  | sys_get_pageref (num : U32)

/-- What the devices answer to one call: a character, whether the block went
    through, and what the pages of the buffer hold after a block has been read. -/
structure Answer where
  char : Word
  done : Bool
  buffer : Nat → Nat → Word

/-- Nothing comes from a device. -/
def noAnswer : Answer := ⟨0, false, fun _ _ => 0⟩

/-- Page `p` holds some of the 512 bytes at `va` in the address space of `c`. -/
@[irreducible] def backs (k : Kernel) (c : EnvPtr) (va : Word) (p : Nat) : Bool :=
  (List.range 512).any fun i =>
    (mapping k.pm (k.pgdir c) (va + BitVec.ofNat 64 i)).any fun w => pteFrame w = p

/-- `sys_write_sd`. -/
def sysWriteSd (k : Kernel) (va : Word) (ans : Answer) : Kernel :=
  if va ≥ KERNBASE then k.setReg0 (-EINVAL)
  else if ans.done then k.setReg0 0 else k.setReg0 (-EINVAL)

/-- Memory after a block has been read to `va`. -/
def sdFill (k : Kernel) (c : EnvPtr) (va : Word) (buffer : Nat → Nat → Word) : Pmap :=
  { k.pm with mem := fun p => bif backs k c va p then buffer p else k.pm.mem p }

theorem sdFill_mem {p : Nat} {buffer : Nat → Nat → Word} (h : ¬ backs k c va p = true) :
    (sdFill k c va buffer).mem p = k.pm.mem p := by
  unfold sdFill
  simp only [h, cond_false]

/-- `sys_read_sd`, called by `c`. -/
def sysReadSd (k : Kernel) (c : EnvPtr) (va : Word) (ans : Answer) : Kernel :=
  if va ≥ KERNBASE then k.setReg0 (-EINVAL)
  else (k.setPm (sdFill k c va ans.buffer)).setReg0 (if ans.done then 0 else -EINVAL)

/-- `sys_get_pageref`. -/
def sysGetPageref (k : Kernel) (num : U32) : Kernel :=
  if num.toNat ≥ 1 <<< 18 then k.setReg0 (-EINVAL) else k.setReg0 ((k.pm.pages num.toNat).ref.setWidth 64)

/-- The handler of a call by `c`, with at most `n` turns of `sched_yield`.  The
    address that `sys_get_envs` returns is `envs`. -/
def Syscall.exec (img : Image) (envs : Word) (ans : Answer) (n : Nat) (k : Kernel) (c : EnvPtr) :
    Syscall → Res Kernel
  | .sys_putchar _ => .ok k
  | .sys_getc => .ok (k.setReg0 ans.char)
  | .sys_getenvid => .ok (k.setReg0 ((k.envs c).id.setWidth 64))
  | .sys_yield => sysYield n k
  | .sys_env_destroy envid => sysEnvDestroy n k envid
  | .sys_set_pgfault_handler envid func xstacktop =>
      .ok (sysSetPgfaultHandler k envid func xstacktop)
  | .sys_mem_alloc envid va perm => .ok (sysMemAlloc k envid va perm)
  | .sys_mem_map srcid srcva dstid dstva perm => .ok (sysMemMap k srcid srcva dstid dstva perm)
  | .sys_mem_unmap envid va => .ok (sysMemUnmap k envid va)
  | .sys_env_alloc => sysEnvAlloc img k c
  | .sys_set_env_status envid status => sysSetEnvStatus n k envid status
  | .sys_set_trapframe _ => .ok (k.setReg0 0)
  | .sys_panic msg => .panic msg
  | .sys_ipc_recv dstva => sysIpcRecv n k c dstva
  | .sys_ipc_can_send envid value srcva perm => .ok (sysIpcCanSend k c envid value srcva perm)
  | .sys_get_envs => .ok (k.setReg0 envs)
  | .sys_write_sd va _ => .ok (sysWriteSd k va ans)
  | .sys_read_sd va _ => .ok (sysReadSd k c va ans)
  | .sys_get_pageref num => .ok (sysGetPageref k num)

/-- Environment `a.1`, which is in use, makes a call that comes back. -/
def callStep (img : Image) (envs : Word) (k : Kernel) (a : EnvPtr × Syscall) (k' : Kernel) : Prop :=
  k.Live a.1 ∧ ∃ ans n, a.2.exec img envs ans n (k.enter a.1) a.1 = .ok k'

/-! ## What the calls on environments do -/

/-- Environment `e` is freed; when it is the one that runs, another one runs
    next, and otherwise `k'` is what its destroyer makes of the state. -/
def Destroys (k : Kernel) (e : EnvPtr) (back : Kernel → Kernel) (k' : Kernel) : Prop :=
  ∃ k₁, envFree k e = .ok k₁ ∧
    ((k.curenv ≠ some e ∧ k' = back k₁) ∨
      (k.curenv = some e ∧ Dispatch { k₁ with curenv := none } k'))

theorem envFree_curenv (h : envFree k e = .ok k₁) : k₁.curenv = k.curenv := by
  unfold envFree at h
  cases hd : (k.envs e).pgdir with
  | none =>
      rw [hd] at h
      cases h
  | some d =>
      rw [hd] at h
      cases h
      rfl

theorem envFree_link (h : envFree k e = .ok k₁) : k₁.link = k.link.insertHead () e := by
  unfold envFree at h
  cases hd : (k.envs e).pgdir with
  | none =>
      rw [hd] at h
      cases h
  | some d =>
      simp only [hd] at h
      generalize envFreeVm d (k.envs e).pgdir_pa k.pm = pm at h
      cases h
      rfl

theorem envDestroy_cases {b : Bool} (h : envDestroy n k e = .ok (b, k')) :
    ∃ k₁, envFree k e = .ok k₁ ∧
      ((k.curenv ≠ some e ∧ b = true ∧ k' = k₁) ∨
        (k.curenv = some e ∧ b = false ∧ Dispatch { k₁ with curenv := none } k')) := by
  obtain ⟨k₁, hfree, h⟩ := Res.bind_eq_ok.mp h
  have hcur := envFree_curenv hfree
  refine ⟨k₁, hfree, ?_⟩
  by_cases he : k.curenv = some e
  · right
    rw [if_pos (hcur.trans he)] at h
    obtain ⟨k₂, hyield, h⟩ := Res.bind_eq_ok.mp h
    cases h
    exact ⟨he, rfl, schedLoop_dispatch hyield⟩
  · left
    rw [if_neg fun h' => he (hcur.symm.trans h')] at h
    cases h
    exact ⟨he, rfl, rfl⟩

theorem sysEnvDestroy_cases (h : sysEnvDestroy n k envid = .ok k') :
    k' = k.setReg0 ERR ∨
    ∃ e, envid2env k envid true = some e ∧ Destroys k e (fun k₁ => k₁.setReg0 0) k' := by
  unfold sysEnvDestroy at h
  cases henv : envid2env k envid true with
  | none =>
      rw [henv] at h
      cases h
      exact Or.inl rfl
  | some e =>
      rw [henv] at h
      obtain ⟨⟨b, k₂⟩, hdestroy, h⟩ := Res.bind_eq_ok.mp h
      obtain ⟨k₁, hfree, ⟨hne, rfl, rfl⟩ | ⟨heq, rfl, hnext⟩⟩ := envDestroy_cases hdestroy
      · cases h
        exact Or.inr ⟨e, rfl, _, hfree, Or.inl ⟨hne, rfl⟩⟩
      · cases h
        exact Or.inr ⟨e, rfl, _, hfree, Or.inr ⟨heq, hnext⟩⟩

/-- The store of `sys_set_env_status`. -/
def setStatus (e : EnvPtr) (st : EnvStatus) (k : Kernel) : Kernel :=
  (k.updEnv e fun env => { env with status := st }).setReg0 0

theorem sysSetEnvStatus_cases {status : U32} (h : sysSetEnvStatus n k envid status = .ok k') :
    k' = k.setReg0 ERR ∨
    ∃ st e, statusOf status = some st ∧ envid2env k envid true = some e ∧
      ((st ≠ .ENV_FREE ∧ k' = setStatus e st k) ∨
        (st = .ENV_FREE ∧ Destroys k e (setStatus e .ENV_FREE) k')) := by
  unfold sysSetEnvStatus at h
  cases hst : statusOf status with
  | none =>
      rw [hst] at h
      cases h
      exact Or.inl rfl
  | some st =>
      cases henv : envid2env k envid true with
      | none =>
          rw [hst, henv] at h
          cases h
          exact Or.inl rfl
      | some e =>
          rw [hst, henv] at h
          refine Or.inr ⟨st, e, rfl, rfl, ?_⟩
          by_cases hf : st = .ENV_FREE
          · subst hf
            right
            simp only [if_true] at h
            obtain ⟨⟨b, k₂⟩, hdestroy, h⟩ := Res.bind_eq_ok.mp h
            obtain ⟨k₁, hfree, ⟨hne, rfl, rfl⟩ | ⟨heq, rfl, hnext⟩⟩ := envDestroy_cases hdestroy
            · cases h
              exact ⟨rfl, _, hfree, Or.inl ⟨hne, rfl⟩⟩
            · cases h
              exact ⟨rfl, _, hfree, Or.inr ⟨heq, hnext⟩⟩
          · left
            simp only [if_neg hf] at h
            cases h
            exact ⟨hf, rfl⟩

theorem schedInsertTail_only {i : Fin 2} (h : schedInsertTail k i e = .ok k') : SchedOnly k k' := by
  unfold schedInsertTail at h
  split at h
  · cases h
  · cases h
    exact ⟨_, _, _, rfl⟩

/-- A new environment, if there is one, is made a child of the caller and queued. -/
theorem sysEnvAlloc_cases (h : sysEnvAlloc img k c = .ok k') :
    (∃ k₁, envAlloc img k (k.envs c).id = .ok (none, k₁) ∧ k' = k₁.setReg0 ERR) ∨
    ∃ e k₁ k₂ w, envAlloc img k (k.envs c).id = .ok (some e, k₁) ∧
      schedInsertTail (envChild k₁ c e) 0 e = .ok k₂ ∧ k' = k₂.setReg0 w := by
  obtain ⟨⟨r, k₁⟩, halloc, h⟩ := Res.bind_eq_ok.mp h
  cases r with
  | none =>
      cases h
      exact Or.inl ⟨k₁, halloc, rfl⟩
  | some e =>
      obtain ⟨k₂, hins, h⟩ := Res.bind_eq_ok.mp h
      cases h
      exact Or.inr ⟨e, k₁, k₂, _, halloc, hins, rfl⟩

/-! ## What a call has done -/

/-- The call waits for a message. -/
def Syscall.Receives : Syscall → Prop
  | .sys_ipc_recv dstva => dstva < KERNBASE
  | _ => False

/-- The environment that the call destroys, if it destroys one. -/
def Syscall.destroyed (k : Kernel) : Syscall → Option EnvPtr
  | .sys_env_destroy envid => envid2env k envid true
  | .sys_set_env_status envid status =>
      if statusOf status = some .ENV_FREE then envid2env k envid true else none
  | _ => none

/-- What a call by `c` that came back has done to the environments. -/
inductive CallDone (img : Image) (k : Kernel) (c : EnvPtr) (call : Syscall) : Kernel → Prop
  | kept (pm : Pmap) (trap : Trapframe) : CallDone img k c call { k with pm := pm, trap := trap }
  | handler (x : EnvPtr) (func xstacktop : Word) (hx : k.Live x) : CallDone img k c call
      ((k.updEnv x fun env => { env with pgfault_handler := func, xstacktop := xstacktop }).setReg0 0)
  | status (x : EnvPtr) (st : EnvStatus) (hx : k.Live x) (hst : st ≠ .ENV_FREE) :
      CallDone img k c call (setStatus x st k)
  | message (x : EnvPtr) (value perm : Word) (pm : Pmap) (w : Word) (hx : k.Live x) :
      CallDone img k c call
        (((k.updEnv x (ipcDeliver (k.envs c).id value perm)).setPm pm).setReg0 w)
  | child (x : EnvPtr) (k₁ k₂ : Kernel) (w : Word)
      (halloc : envAlloc img k (k.envs c).id = .ok (some x, k₁))
      (hins : schedInsertTail (envChild k₁ c x) 0 x = .ok k₂) : CallDone img k c call (k₂.setReg0 w)
  | waits (dstva : Word) (k' : Kernel) (hcall : call.Receives)
      (hnext : Dispatch (ipcRecvBlock k c dstva) k') : CallDone img k c call k'
  | hands (k' : Kernel) (hnext : Dispatch k k') : CallDone img k c call k'
  | destroys (x : EnvPtr) (back : Kernel → Kernel) (k' : Kernel) (hx : call.destroyed k = some x)
      (hback : back = (fun k₁ => k₁.setReg0 0) ∨ back = setStatus x .ENV_FREE)
      (hd : Destroys k x back k') : CallDone img k c call k'

theorem callDone_setReg0 {call : Syscall} (w : Word) : CallDone img k c call (k.setReg0 w) :=
  .kept k.pm (k.trap.setReg0 w)

theorem callDone_page {call : Syscall} (pm : Pmap) (w : Word) :
    CallDone img k c call ((k.setPm pm).setReg0 w) :=
  .kept pm (k.trap.setReg0 w)

/-- What `envid2env` finds is in use, like the caller. -/
theorem live_of_envid2env {b : Bool} (hc : k.Live c) (hcur : k.curenv = some c)
    (h : envid2env k envid b = some e) : k.Live e := by
  rcases envid2env_cases h with hce | hlive
  · rw [hcur, Option.some.injEq] at hce
    exact hce ▸ hc
  · exact hlive

theorem exec_done {envs : Word} {ans : Answer} {call : Syscall} (hc : k.Live c)
    (hcur : k.curenv = some c) (hexec : call.exec img envs ans n k c = .ok k') :
    CallDone img k c call k' := by
  cases call with
  | sys_putchar ch =>
      cases hexec
      exact .kept k.pm k.trap
  | sys_yield => exact .hands k' (sysYield_dispatch hexec)
  | sys_env_destroy envid =>
      rcases sysEnvDestroy_cases hexec with rfl | ⟨x, henv, hd⟩
      · exact callDone_setReg0 _
      · exact .destroys x _ k' henv (Or.inl rfl) hd
  | sys_set_pgfault_handler envid func xstacktop =>
      cases hexec
      unfold sysSetPgfaultHandler
      cases henv : envid2env k envid true with
      | none => exact callDone_setReg0 _
      | some x => exact .handler x func xstacktop (live_of_envid2env hc hcur henv)
  | sys_mem_alloc envid va perm =>
      cases hexec
      rcases sysMemAlloc_cases k envid va perm with heq | ⟨x, pp, pm, -, -, heq⟩
      · rw [heq]
        exact callDone_setReg0 _
      · rw [heq]
        exact callDone_page _ _
  | sys_mem_map srcid srcva dstid dstva perm =>
      cases hexec
      rcases sysMemMap_cases k srcid srcva dstid dstva perm with heq | ⟨s, x, q, t, i, -, -, -, heq⟩
      · rw [heq]
        exact callDone_setReg0 _
      · rw [heq]
        exact callDone_page _ _
  | sys_mem_unmap envid va =>
      cases hexec
      rcases sysMemUnmap_cases k envid va with heq | ⟨x, -, heq⟩
      · rw [heq]
        exact callDone_setReg0 _
      · rw [heq]
        exact .kept _ k.trap
  | sys_env_alloc =>
      rcases sysEnvAlloc_cases hexec with ⟨k₁, halloc, rfl⟩ | ⟨x, k₁, k₂, w, halloc, hins, rfl⟩
      · rcases envAlloc_cases halloc with ⟨-, rfl⟩ | ⟨x, d, hr, -⟩
        · exact callDone_setReg0 _
        · cases hr
      · exact .child x k₁ k₂ w halloc hins
  | sys_set_env_status envid status =>
      rcases sysSetEnvStatus_cases hexec with rfl | ⟨st, x, hst, henv, hset⟩
      · exact callDone_setReg0 _
      · rcases hset with ⟨hne, rfl⟩ | ⟨rfl, hd⟩
        · exact .status x st (live_of_envid2env hc hcur henv) hne
        · have hx : (Syscall.sys_set_env_status envid status).destroyed k = some x := by
            rw [Syscall.destroyed, if_pos hst, henv]
          exact .destroys x _ k' hx (Or.inr rfl) hd
  | sys_panic msg => cases hexec
  | sys_ipc_recv dstva =>
      by_cases hdst : dstva ≥ KERNBASE
      · have hsame : sysIpcRecv n k c dstva = .ok k := if_pos hdst
        have hexec' : sysIpcRecv n k c dstva = .ok k' := hexec
        rw [hsame] at hexec'
        cases hexec'
        exact .kept k.pm k.trap
      · have hlt : dstva < KERNBASE := BitVec.not_le.mp hdst
        exact .waits dstva k' hlt (sysIpcRecv_dispatch hlt hexec)
  | sys_ipc_can_send envid value srcva perm =>
      cases hexec
      cases htarget : sendTarget k envid srcva with
      | none =>
          obtain ⟨r, -, hcall⟩ := sysIpcCanSend_none c value perm htarget
          rw [hcall]
          exact callDone_setReg0 _
      | some x =>
          rw [sysIpcCanSend_some c value perm htarget]
          have hx := live_of_envid2env hc hcur (sendTarget_eq_some htarget).1
          exact .message x value perm _ _ hx
  | sys_write_sd va secno =>
      cases hexec
      unfold sysWriteSd
      split
      · exact callDone_setReg0 _
      · split
        · exact callDone_setReg0 _
        · exact callDone_setReg0 _
  | sys_read_sd va secno =>
      have hk' : sysReadSd k c va ans = k' := Res.ok.inj hexec
      rw [← hk']
      unfold sysReadSd
      split
      · exact callDone_setReg0 _
      · exact callDone_page _ _
  | sys_get_pageref num =>
      cases hexec
      unfold sysGetPageref
      split
      · exact callDone_setReg0 _
      · exact callDone_setReg0 _
  | _ =>
      cases hexec
      exact callDone_setReg0 _

/-! ## What stays the same -/

theorem updEnv_id {f : Env → Env} (x : EnvPtr) (hf : ∀ env, (f env).id = env.id) :
    ((k.updEnv e f).envs x).id = (k.envs x).id := by
  rw [Kernel.updEnv_envs]
  split
  · exact hf _
  · rfl

theorem setStatus_id (e : EnvPtr) (st : EnvStatus) (k : Kernel) (x : EnvPtr) :
    ((setStatus e st k).envs x).id = (k.envs x).id := by
  rw [setStatus, Kernel.setReg0_envs]
  apply updEnv_id
  intro env
  rfl

theorem dispatch_id (h : Dispatch k k') (x : EnvPtr) : (k'.envs x).id = (k.envs x).id := by
  obtain ⟨tf, runs, hx⟩ := h.spec.1 x
  rw [hx]

theorem envFree_id (h : envFree k e = .ok k') (x : EnvPtr) : (k'.envs x).id = (k.envs x).id := by
  obtain ⟨d, hf⟩ := envFree_cases h
  by_cases hx : x = e
  · rw [hx]
    exact hf.id
  · rw [hf.others x hx]

/-- Only a new environment gets an id. -/
theorem CallDone.id {call : Syscall} (h : CallDone img k c call k') (hx : k.Live x)
    (hfirst : ∀ e, k.link.first () = some e → ¬ k.Live e) : (k'.envs x).id = (k.envs x).id := by
  cases h with
  | kept pm trap => rfl
  | handler y func xstacktop hy =>
      rw [Kernel.setReg0_envs]
      apply updEnv_id
      intro env
      rfl
  | status y st hy hst => exact setStatus_id y st k x
  | message y value perm pm w hy =>
      rw [Kernel.setReg0_envs, Kernel.setPm_envs]
      apply updEnv_id
      intro env
      rfl
  | child y k₁ k₂ w halloc hins =>
      rcases envAlloc_cases halloc with ⟨hr, -⟩ | ⟨y', d, hr, hnew⟩
      · cases hr
      · cases hr
        have hxy : x ≠ y := by
          rintro rfl
          exact hfirst x hnew.first hx
        obtain ⟨l, m, i, rfl⟩ := schedInsertTail_only hins
        have hchild : ((envChild k₁ c y).envs x).id = (k₁.envs x).id := by
          apply updEnv_id
          intro env
          rfl
        rw [hnew.others x hxy] at hchild
        exact hchild
  | waits dstva _ hcall hnext =>
      apply (dispatch_id hnext x).trans
      apply updEnv_id
      intro env
      rfl
  | hands _ hnext => exact dispatch_id hnext x
  | destroys y back _ hy hback hd =>
      obtain ⟨k₁, hfree, ⟨-, rfl⟩ | ⟨-, hnext⟩⟩ := hd
      · rcases hback with rfl | rfl
        · exact envFree_id hfree x
        · exact (setStatus_id y .ENV_FREE k₁ x).trans (envFree_id hfree x)
      · exact (dispatch_id hnext x).trans (envFree_id hfree x)

end RpiMos
