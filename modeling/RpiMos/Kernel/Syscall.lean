/-
  RpiMos.Kernel.Syscall

  kernel/syscall_all.c: the handlers for memory, environments and IPC.  Each
  runs with `curenv` set to the caller and leaves its result in `regs[0]` of
  the trap frame.
-/

import RpiMos.Kernel.Env

namespace RpiMos

open Lib

/-- `-1` and `-E_IPC_NOT_RECV` as the handlers store them in a register. -/
def ERR : Word := BitVec.allOnes 64
def E_IPC_NOT_RECV : Word := 6

/-! ## Memory -/

def sysMemAlloc (k : Kernel) (envid : U32) (va perm : Word) : Kernel :=
  if va ≥ KERNBASE then k.setReg0 ERR
  else
    match envid2env k envid true with
    | none => k.setReg0 ERR
    | some env =>
        match pageAlloc k.pm with
        | none => k.setReg0 ERR
        | some (ppage, pm₁) =>
            let (r, pm₂) := pageInsert pm₁ (k.pgdir env) ppage va perm
            (k.setPm pm₂).setReg0 (if r then 0 else ERR)

def sysMemMap (k : Kernel) (srcid : U32) (srcva : Word) (dstid : U32) (dstva perm : Word) : Kernel :=
  let round_srcva := ROUNDDOWN srcva
  let round_dstva := ROUNDDOWN dstva
  if srcva ≥ KERNBASE ∨ dstva ≥ KERNBASE then k.setReg0 ERR
  else
    match envid2env k srcid false with
    | none => k.setReg0 ERR
    | some srcenv =>
        match envid2env k dstid false with
        | none => k.setReg0 ERR
        | some dstenv =>
            match pageLookup k.pm (k.pgdir srcenv) round_srcva with
            | none => k.setReg0 ERR
            | some (_, t, i) =>
                let ppage := pa2page (PTE_ADDR (k.pm.mem t i))
                let (r, pm) := pageInsert k.pm (k.pgdir dstenv) ppage round_dstva perm
                (k.setPm pm).setReg0 (if r then 0 else ERR)

/-- The handler leaves `regs[0]` as it was when it succeeds. -/
def sysMemUnmap (k : Kernel) (envid : U32) (va : Word) : Kernel :=
  if va ≥ KERNBASE then k.setReg0 ERR
  else
    match envid2env k envid false with
    | none => k.setReg0 ERR
    | some env => k.setPm (pageRemove k.pm (k.pgdir env) va)

/-- A `sys_mem_alloc` that is not refused allocates a page and inserts it. -/
theorem sysMemAlloc_cases (k : Kernel) (envid : U32) (va perm : Word) :
    sysMemAlloc k envid va perm = k.setReg0 ERR ∨
    ∃ env ppage pm, envid2env k envid true = some env ∧ pageAlloc k.pm = some (ppage, pm) ∧
      sysMemAlloc k envid va perm =
        (k.setPm (pageInsert pm (k.pgdir env) ppage va perm).2).setReg0
          (if (pageInsert pm (k.pgdir env) ppage va perm).1 then 0 else ERR) := by
  unfold sysMemAlloc
  split
  · exact Or.inl rfl
  · cases envid2env k envid true with
    | none => exact Or.inl rfl
    | some env =>
        cases halloc : pageAlloc k.pm with
        | none => exact Or.inl rfl
        | some x => exact Or.inr ⟨env, x.1, x.2, rfl, rfl, rfl⟩

/-- A `sys_mem_map` that is not refused inserts the page it finds at the source. -/
theorem sysMemMap_cases (k : Kernel) (srcid : U32) (srcva : Word) (dstid : U32)
    (dstva perm : Word) :
    sysMemMap k srcid srcva dstid dstva perm = k.setReg0 ERR ∨
    ∃ srcenv dstenv q t i, envid2env k srcid false = some srcenv ∧
      envid2env k dstid false = some dstenv ∧
      pageLookup k.pm (k.pgdir srcenv) (ROUNDDOWN srcva) = some (q, t, i) ∧
      sysMemMap k srcid srcva dstid dstva perm =
        (k.setPm (pageInsert k.pm (k.pgdir dstenv) (pa2page (PTE_ADDR (k.pm.mem t i)))
          (ROUNDDOWN dstva) perm).2).setReg0
          (if (pageInsert k.pm (k.pgdir dstenv) (pa2page (PTE_ADDR (k.pm.mem t i)))
            (ROUNDDOWN dstva) perm).1 then 0 else ERR) := by
  unfold sysMemMap
  simp only
  split
  · exact Or.inl rfl
  · cases envid2env k srcid false with
    | none => exact Or.inl rfl
    | some srcenv =>
        cases envid2env k dstid false with
        | none => exact Or.inl rfl
        | some dstenv =>
            cases hl : pageLookup k.pm (k.pgdir srcenv) (ROUNDDOWN srcva) with
            | none => exact Or.inl (by simp only [hl])
            | some x =>
                exact Or.inr ⟨srcenv, dstenv, x.1, x.2.1, x.2.2, rfl, rfl, hl, by simp only [hl]⟩

theorem sysMemUnmap_cases (k : Kernel) (envid : U32) (va : Word) :
    sysMemUnmap k envid va = k.setReg0 ERR ∨
    ∃ env, envid2env k envid false = some env ∧
      sysMemUnmap k envid va = k.setPm (pageRemove k.pm (k.pgdir env) va) := by
  unfold sysMemUnmap
  split
  · exact Or.inl rfl
  · cases envid2env k envid false with
    | none => exact Or.inl rfl
    | some env => exact Or.inr ⟨env, rfl, rfl⟩

/-! ## Environments -/

/-- `sys_yield`, also the timer interrupt. -/
def sysYield (n : Nat) (k : Kernel) : Res Kernel := schedYield n k

def sysEnvDestroy (n : Nat) (k : Kernel) (envid : U32) : Res Kernel :=
  match envid2env k envid true with
  | none => .ok (k.setReg0 ERR)
  | some e => (envDestroy n k e).bind fun
      | (true, k₁) => .ok (k₁.setReg0 0)
      | (false, k₁) => .ok k₁

def sysSetPgfaultHandler (k : Kernel) (envid : U32) (func xstacktop : Word) : Kernel :=
  match envid2env k envid true with
  | none => k.setReg0 ERR
  | some e => (k.updEnv e fun env =>
      { env with pgfault_handler := func, xstacktop := xstacktop }).setReg0 0

/-- The stores of `sys_env_alloc` into the new environment `e`. -/
def envChild (k : Kernel) (c e : EnvPtr) : Kernel :=
  k.updEnv e fun env => { env with
    status := .ENV_NOT_RUNNABLE
    pri := (k.envs c).pri
    parent_id := (k.envs c).id
    tf := k.trap.setReg0 0 }

/-- `sys_env_alloc`, called by `c`. -/
def sysEnvAlloc (img : Image) (k : Kernel) (c : EnvPtr) : Res Kernel :=
  (envAlloc img k (k.envs c).id).bind fun
    | (none, k₁) => .ok (k₁.setReg0 ERR)
    | (some e, k₁) =>
        (schedInsertTail (envChild k₁ c e) 0 e).bind fun k₂ =>
          .ok (k₂.setReg0 ((k₂.envs e).id.setWidth 64))

/-- The status argument of `sys_set_env_status`, `none` when it is refused. -/
def statusOf (status : U32) : Option EnvStatus :=
  if status = 1 then some .ENV_RUNNABLE
  else if status = 2 then some .ENV_NOT_RUNNABLE
  else if status = 0 then some .ENV_FREE
  else none

def sysSetEnvStatus (n : Nat) (k : Kernel) (envid status : U32) : Res Kernel :=
  match statusOf status with
  | none => .ok (k.setReg0 ERR)
  | some st =>
      match envid2env k envid true with
      | none => .ok (k.setReg0 ERR)
      | some e =>
          (if st = .ENV_FREE then envDestroy n k e else .ok (true, k)).bind fun
            | (true, k₁) => .ok ((k₁.updEnv e fun env => { env with status := st }).setReg0 0)
            | (false, k₁) => .ok k₁

/-! ## IPC -/

/-- The stores of `sys_ipc_recv` before it yields. -/
def ipcRecvBlock (k : Kernel) (c : EnvPtr) (dstva : Word) : Kernel :=
  k.updEnv c fun env =>
    { env with ipc_recving := 1, ipc_dstva := dstva, status := .ENV_NOT_RUNNABLE }

/-- `sys_ipc_recv`, called by `c`. -/
def sysIpcRecv (n : Nat) (k : Kernel) (c : EnvPtr) (dstva : Word) : Res Kernel :=
  if dstva ≥ KERNBASE then .ok k
  else sysYield n (ipcRecvBlock k c dstva)

/-- `sys_ipc_can_send`, called by `c`. -/
def sysIpcCanSend (k : Kernel) (c : EnvPtr) (envid : U32) (value srcva perm : Word) : Kernel :=
  if srcva ≥ KERNBASE then k.setReg0 ERR
  else
    match envid2env k envid false with
    | none => k.setReg0 ERR
    | some e =>
        if (k.envs e).ipc_recving = 0 then k.setReg0 (-E_IPC_NOT_RECV)
        else
          let k₁ := k.updEnv e fun env => { env with
            ipc_value := value
            ipc_from := (k.envs c).id.setWidth 64
            ipc_perm := perm
            ipc_recving := 0
            status := .ENV_RUNNABLE }
          if srcva ≠ 0 then
            match pageLookup k₁.pm (k₁.pgdir c) srcva with
            | none => k₁.setReg0 ERR
            | some (p, _, _) =>
                let (_, pm) := pageInsert k₁.pm (k₁.pgdir e) p (k₁.envs e).ipc_dstva perm
                (k₁.setPm pm).setReg0 0
          else k₁.setReg0 0

end RpiMos
