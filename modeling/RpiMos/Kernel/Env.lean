/-
  RpiMos.Kernel.Env

  kernel/env.c and kernel/sched.c: the environment table, the free list and the
  two scheduling lists, creation and destruction of environments, and
  `sched_yield`.  A `struct Env *` is an index into `Kern_envs`; the two link
  fields of every environment are kept in one `Links` value for each field.
-/

import RpiMos.Mm.Boot
import RpiMos.Lib.IntrusiveList

namespace RpiMos

open Lib

/-! ## State -/

def LOG2NENV : Nat := 10
def NENV : Nat := 1024

/-! Numerals name environments, scheduling lists and registers. -/

instance neZero_env : NeZero 1024 := ⟨by decide⟩
instance neZero_list : NeZero 2 := ⟨by decide⟩
instance neZero_reg : NeZero 31 := ⟨by decide⟩

/-- `struct Env *`. -/
abbrev EnvPtr := Fin 1024

/-- `ENVX`. -/
def ENVX (envid : U32) : EnvPtr := ⟨envid.toNat % 1024, Nat.mod_lt _ (by decide)⟩

inductive EnvStatus where
  | ENV_FREE
  | ENV_RUNNABLE
  | ENV_NOT_RUNNABLE
deriving DecidableEq, Repr

structure Trapframe where
  far_el1 : Word
  sp_el0 : Word
  elr_el1 : Word
  spsr_el1 : Word
  count_down : Word
  regs : Fin 31 → Word

namespace Trapframe

def setReg0 (tf : Trapframe) (w : Word) : Trapframe :=
  { tf with regs := fun i => if i = 0 then w else tf.regs i }

@[simp] theorem setReg0_regs (tf : Trapframe) (w : Word) : (tf.setReg0 w).regs 0 = w := rfl

end Trapframe

structure Env where
  tf : Trapframe
  id : U32
  parent_id : U32
  status : EnvStatus
  /-- Frame of the page directory, `none` for NULL. -/
  pgdir : Option Nat
  pgdir_pa : Word
  pri : U32
  ipc_value : Word
  ipc_from : Word
  ipc_recving : Word
  ipc_dstva : Word
  ipc_perm : Word
  pgfault_handler : Word
  xstacktop : Word
  env_runs : Word

structure Kernel where
  pm : Pmap
  envs : EnvPtr → Env
  /-- `link` of every environment and `env_free_list`. -/
  link : Links Unit EnvPtr
  /-- `sched_link` of every environment and `env_sched_list`. -/
  sched_link : Links (Fin 2) EnvPtr
  curenv : Option EnvPtr
  /-- Frame of `User_pgdir`. -/
  User_pgdir : Nat
  next_env_id : U32
  /-- The two static variables of `sched_yield`. -/
  count : U32
  point : Fin 2
  /-- `*TRAPSP`. -/
  trap : Trapframe

/-- How a kernel function ends. -/
inductive Res (α : Type) where
  | ok (a : α)
  | panic (msg : String)
  /-- A list traversal did not end within `NENV` turns. -/
  | hang
  /-- The loop of `sched_yield` has not ended within its turns. -/
  | timeout

namespace Res

def bind {α β : Type} : Res α → (α → Res β) → Res β
  | ok a, f => f a
  | panic m, _ => panic m
  | hang, _ => hang
  | timeout, _ => timeout

/-- A list operation whose `none` is the given ending. -/
def ofOption {α : Type} (fail : Res α) : Option α → Res α
  | some a => ok a
  | none => fail

theorem bind_eq_ok {α β : Type} {x : Res α} {f : α → Res β} {b : β} :
    x.bind f = ok b ↔ ∃ a, x = ok a ∧ f a = ok b := by
  cases x <;> simp [bind]

/-- Every list traversal ends, and what comes back has `P`. -/
def Sat {α : Type} (x : Res α) (P : α → Prop) : Prop :=
  match x with
  | ok a => P a
  | panic _ => True
  | hang => False
  | timeout => True

theorem Sat.bind {α β : Type} {x : Res α} {f : α → Res β} {P : α → Prop} {Q : β → Prop}
    (h : x.Sat P) (hf : ∀ a, P a → (f a).Sat Q) : (x.bind f).Sat Q := by
  cases x with
  | ok a => exact hf a h
  | panic m => trivial
  | hang => exact h
  | timeout => trivial

theorem Sat.mono {α : Type} {x : Res α} {P Q : α → Prop} (h : x.Sat P) (hPQ : ∀ a, P a → Q a) :
    x.Sat Q := by
  cases x with
  | ok a => exact hPQ a h
  | panic m => trivial
  | hang => exact h
  | timeout => trivial

theorem Sat.of_eq_ok {α : Type} {x : Res α} {P : α → Prop} {a : α} (h : x.Sat P) (ha : x = ok a) :
    P a := by
  subst ha
  exact h

theorem Sat.ne_hang {α : Type} {x : Res α} {P : α → Prop} (h : x.Sat P) : x ≠ hang := by
  rintro rfl
  exact h

end Res

/-- What the kernel image brings along: the end of the boot code, and what
    `load_icode` makes of a binary, as pages and an entry point. -/
structure Image where
  init_end : Nat
  load_icode : List UInt8 → Nat → Pmap → Pmap × Word

namespace Kernel

/-- `(*TRAPSP)->regs[0] = w`. -/
def setReg0 (k : Kernel) (w : Word) : Kernel := { k with trap := k.trap.setReg0 w }

/-- `e` with its fields changed by `f`. -/
def updEnv (k : Kernel) (e : EnvPtr) (f : Env → Env) : Kernel :=
  { k with envs := fun e' => if e' = e then f (k.envs e') else k.envs e' }

def setPm (k : Kernel) (pm : Pmap) : Kernel := { k with pm := pm }

/-- The directory of an environment in use; only a free one has none. -/
def pgdir (k : Kernel) (e : EnvPtr) : Nat := ((k.envs e).pgdir).getD 0

@[simp] theorem setReg0_pm (k : Kernel) (w : Word) : (k.setReg0 w).pm = k.pm := rfl
@[simp] theorem setReg0_envs (k : Kernel) (w : Word) : (k.setReg0 w).envs = k.envs := rfl
@[simp] theorem setReg0_link (k : Kernel) (w : Word) : (k.setReg0 w).link = k.link := rfl
@[simp] theorem setReg0_sched_link (k : Kernel) (w : Word) :
    (k.setReg0 w).sched_link = k.sched_link := rfl
@[simp] theorem setReg0_curenv (k : Kernel) (w : Word) : (k.setReg0 w).curenv = k.curenv := rfl
@[simp] theorem setPm_pm (k : Kernel) (pm : Pmap) : (k.setPm pm).pm = pm := rfl
@[simp] theorem setPm_envs (k : Kernel) (pm : Pmap) : (k.setPm pm).envs = k.envs := rfl
@[simp] theorem setPm_curenv (k : Kernel) (pm : Pmap) : (k.setPm pm).curenv = k.curenv := rfl
@[simp] theorem setPm_link (k : Kernel) (pm : Pmap) : (k.setPm pm).link = k.link := rfl
@[simp] theorem setPm_sched_link (k : Kernel) (pm : Pmap) :
    (k.setPm pm).sched_link = k.sched_link := rfl
@[simp] theorem setReg0_reg0 (k : Kernel) (w : Word) : (k.setReg0 w).trap.regs 0 = w := rfl
@[simp] theorem updEnv_pm (k : Kernel) (e : EnvPtr) (f : Env → Env) : (k.updEnv e f).pm = k.pm := rfl
@[simp] theorem updEnv_link (k : Kernel) (e : EnvPtr) (f : Env → Env) :
    (k.updEnv e f).link = k.link := rfl
@[simp] theorem updEnv_sched_link (k : Kernel) (e : EnvPtr) (f : Env → Env) :
    (k.updEnv e f).sched_link = k.sched_link := rfl
@[simp] theorem updEnv_curenv (k : Kernel) (e : EnvPtr) (f : Env → Env) :
    (k.updEnv e f).curenv = k.curenv := rfl
@[simp] theorem updEnv_trap (k : Kernel) (e : EnvPtr) (f : Env → Env) :
    (k.updEnv e f).trap = k.trap := rfl

theorem updEnv_envs (k : Kernel) (e : EnvPtr) (f : Env → Env) (e' : EnvPtr) :
    (k.updEnv e f).envs e' = if e' = e then f (k.envs e') else k.envs e' := rfl

end Kernel

/-! ## env.c -/

/-- One turn of the loop of `env_init`. -/
def envInitTurn (i : EnvPtr) (k : Kernel) : Kernel :=
  let k₁ := k.updEnv i fun e => { e with status := .ENV_FREE }
  { k₁ with link := k₁.link.insertHead () i }

/-- `LIST_INIT` of the three lists. -/
def envListsInit (k : Kernel) : Kernel :=
  { k with
    link := { k.link with first := fun _ => none }
    sched_link := { k.sched_link with first := fun _ => none } }

/-- `env_init`: the loop runs from the last environment to the first. -/
def envInit (k : Kernel) : Kernel := (List.finRange 1024).foldr envInitTurn (envListsInit k)

/-- The id `mkenvid` gives environment `e`, from the incremented counter. -/
def mkenvid (next : U32) (e : EnvPtr) : U32 := next <<< (1 + LOG2NENV) ||| BitVec.ofNat 32 e.val

/-- `envid2env`: `none` for -1.  A handler runs with `curenv` set, so that id 0
    always names an environment. -/
def envid2env (k : Kernel) (envid : U32) (checkperm : Bool) : Option EnvPtr :=
  if envid = 0 then k.curenv
  else
    let e := ENVX envid
    if (k.envs e).status = .ENV_FREE ∨ (k.envs e).id ≠ envid then none
    else
      match k.curenv with
      | none => if checkperm then none else some e
      | some c =>
          if checkperm ∧ e ≠ c ∧ (k.envs e).parent_id ≠ (k.envs c).id then none else some e

/-- What `envid2env` finds is the caller or an environment in use. -/
theorem envid2env_cases {k : Kernel} {envid : U32} {b : Bool} {e : EnvPtr}
    (h : envid2env k envid b = some e) : k.curenv = some e ∨ (k.envs e).status ≠ .ENV_FREE := by
  unfold envid2env at h
  split at h
  · exact Or.inl h
  · simp only at h
    split at h
    · cases h
    · rename_i hx
      rw [not_or] at hx
      right
      split at h
      · split at h <;> cases h
        exact hx.1
      · split at h <;> cases h
        exact hx.1

/-- What `envid2env` finds is the caller or has the id asked for. -/
theorem envid2env_id {k : Kernel} {envid : U32} {b : Bool} {e : EnvPtr}
    (h : envid2env k envid b = some e) : k.curenv = some e ∨ (k.envs e).id = envid := by
  unfold envid2env at h
  split at h
  · exact Or.inl h
  · simp only at h
    split at h
    · cases h
    · rename_i hx
      rw [not_or, not_not] at hx
      right
      split at h
      · split at h <;> cases h
        exact hx.2
      · split at h <;> cases h
        exact hx.2

/-- `env_alloc`: `none` for -1. -/
def envAlloc (img : Image) (k : Kernel) (parent_id : U32) : Res (Option EnvPtr × Kernel) :=
  match k.link.first () with
  | none => .ok (none, k)
  | some e =>
      match k.link.remove e with
      | none => .panic "store to a null le_prev"
      | some l =>
          match envSetupVm img.init_end k.pm with
          | none => .panic "env_setup_vm - page alloc error\n"
          | some (pgdir, pm) =>
              let next := k.next_env_id + 1
              .ok (some e, { k.updEnv e (fun env => { env with
                    pgdir := some pgdir
                    pgdir_pa := BitVec.ofNat 64 (pgdir <<< 12)
                    id := mkenvid next e
                    status := .ENV_RUNNABLE
                    parent_id := parent_id
                    tf := { env.tf with spsr_el1 := 0x340, sp_el0 := USTACKTOP } }) with
                  link := l, pm := pm, next_env_id := next })

/-- `LIST_INSERT_TAIL(&env_sched_list[i], e, sched_link)`. -/
def schedInsertTail (k : Kernel) (i : Fin 2) (e : EnvPtr) : Res Kernel :=
  match k.sched_link.insertTail NENV i e with
  | none => .hang
  | some l => .ok { k with sched_link := l }

/-- `env_create_priority`. -/
def envCreatePriority (img : Image) (k : Kernel) (binary : List UInt8) (priority : U32) : Res Kernel :=
  (envAlloc img k 0).bind fun
    | (none, k₁) => .ok k₁
    | (some e, k₁) =>
        let (pm, entry) := img.load_icode binary (k₁.pgdir e) k₁.pm
        let k₂ := (k₁.setPm pm).updEnv e fun env =>
          { env with pri := priority, tf := { env.tf with elr_el1 := entry } }
        schedInsertTail k₂ 0 e

/-- The innermost loop of `env_free`, over the leaf table `pt2`. -/
def envFreeLeaves (pgdir pt2 i j : Nat) (s : Pmap) : Pmap :=
  (List.range PTE2PT).foldl (fun s k =>
    if isValid (s.mem pt2 k) then
      pageRemove s pgdir (BitVec.ofNat 64 (i <<< 30 ||| j <<< 21 ||| k <<< 12))
    else s) s

/-- The middle loop of `env_free`, over the level-2 table `pt1`. -/
def envFreeTables (pgdir pt1 i : Nat) (s : Pmap) : Pmap :=
  (List.range PTE2PT).foldl (fun s j =>
    if isValid (s.mem pt1 j) then
      let pa2 := PTE_ADDR (s.mem pt1 j)
      let s₁ := envFreeLeaves pgdir (pteFrame pa2) i j s
      pageDecref (s₁.setPte pt1 j 0) (pa2page pa2)
    else s) s

/-- The pages `env_free` gives back, up to and with the directory itself. -/
def envFreeVm (pgdir : Nat) (pgdir_pa : Word) (s : Pmap) : Pmap :=
  let s₀ := s.setPte pgdir uvptIndex 0
  let s₁ := (List.range PTE2PT).foldl (fun s i =>
    if isValid (s.mem pgdir i) then
      let pa1 := PTE_ADDR (s.mem pgdir i)
      let s₁ := envFreeTables pgdir (pteFrame pa1) i s
      pageDecref (s₁.setPte pgdir i 0) (pa2page pa1)
    else s) s₀
  pageDecref s₁ (pa2page pgdir_pa)

/-- `env_free`: writing through a null directory faults below the first page. -/
def envFree (k : Kernel) (e : EnvPtr) : Res Kernel :=
  match (k.envs e).pgdir with
  | none => .panic "^^^^^^^^^TOO LOW^^^^^^^^"
  | some pgdir =>
      let k₁ := (k.setPm (envFreeVm pgdir (k.envs e).pgdir_pa k.pm)).updEnv e fun env =>
        { env with pgdir := none, pgdir_pa := 0, status := .ENV_FREE }
      .ok { k₁ with link := k₁.link.insertHead () e }

/-- `env_run`, up to the return to user mode. -/
def envRun (k : Kernel) (e : EnvPtr) : Kernel :=
  let k₁ := match k.curenv with
    | some c => k.updEnv c fun env => { env with tf := k.trap }
    | none => k
  let k₂ := k₁.updEnv e fun env =>
    { env with env_runs := env.env_runs + 1, tf := { env.tf with count_down := 125000 } }
  { k₂ with
    curenv := some e
    User_pgdir := ((k₂.envs e).pgdir_pa >>> 12).toNat
    trap := (k₂.envs e).tf }

@[simp] theorem envRun_pm (k : Kernel) (e : EnvPtr) : (envRun k e).pm = k.pm := by
  unfold envRun
  cases k.curenv <;> rfl

/-! ## sched.c -/

/-- The environment in hand, if any, goes to the back of the other list. -/
def schedPutBack (k : Kernel) (next_env : Option EnvPtr) : Res Kernel :=
  match next_env with
  | some e => schedInsertTail k (1 - k.point) e
  | none => .ok k

/-- The first environment of the current list, or of the other when that is empty. -/
def schedPick (k : Kernel) : Res (Kernel × EnvPtr) :=
  let k₁ := if (k.sched_link.first k.point).isNone then { k with point := 1 - k.point } else k
  match k₁.sched_link.first k₁.point with
  | none => .panic "No Env is RUNNABLE\n"
  | some e =>
      match k₁.sched_link.remove e with
      | none => .panic "store to a null le_prev"
      | some l => .ok ({ k₁ with sched_link := l, count := (k₁.envs e).pri }, e)

/-- One turn of the loop of `sched_yield`. -/
def schedTurn (k : Kernel) (next_env : Option EnvPtr) : Res (Kernel × EnvPtr) :=
  (schedPutBack k next_env).bind schedPick

/-- The loop of `sched_yield` with `next_env` in hand. -/
def schedLoop : Nat → Kernel → Option EnvPtr → Res Kernel
  | 0, _, _ => .timeout
  | n + 1, k, next_env =>
      match next_env with
      | some e =>
          if k.count ≠ 0 ∧ (k.envs e).status = .ENV_RUNNABLE then
            .ok (envRun { k with count := k.count - 1 } e)
          else (schedTurn k next_env).bind fun (k₁, e₁) => schedLoop n k₁ (some e₁)
      | none => (schedTurn k none).bind fun (k₁, e₁) => schedLoop n k₁ (some e₁)

/-- `sched_yield`, for at most `n` turns of its loop. -/
def schedYield (n : Nat) (k : Kernel) : Res Kernel := schedLoop n k k.curenv

/-- `env_destroy`: with the new state, whether it returned to its caller. -/
def envDestroy (n : Nat) (k : Kernel) (e : EnvPtr) : Res (Bool × Kernel) :=
  (envFree k e).bind fun k₁ =>
    if k₁.curenv = some e then
      (schedYield n { k₁ with curenv := none }).bind fun k₂ => .ok (false, k₂)
    else .ok (true, k₁)

/-! ## A board -/

def zeroFrame : Trapframe := ⟨0, 0, 0, 0, 0, fun _ => 0⟩

def zeroEnv : Env :=
  ⟨zeroFrame, 0, 0, .ENV_FREE, none, 0, 0, 0, 0, 0, 0, 0, 0, 0, 0⟩

/-- The kernel's variables before `env_init`, on the board of `boardBoot`. -/
def boardKernel : Kernel where
  pm := boardBoot
  envs := fun _ => zeroEnv
  link := ⟨fun _ => none, fun _ => none, fun _ => none⟩
  sched_link := ⟨fun _ => none, fun _ => none, fun _ => none⟩
  curenv := none
  User_pgdir := 0
  next_env_id := 0
  count := 0
  point := 0
  trap := zeroFrame

end RpiMos
