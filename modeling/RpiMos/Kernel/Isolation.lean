/-
  RpiMos.Kernel.Isolation

  What the system calls of one environment leave alone in another one that is
  not its child.  `sys_mem_map` and `sys_mem_unmap` ask `envid2env` for no
  permission, and a message can reach an environment that runs again while it is
  still marked as receiving; apart from these the calls touch neither the tables
  nor the status, fault handler or registers of the other.
-/

import RpiMos.Kernel.CallMemory

namespace RpiMos

open Lib RadixShape

variable {boot : Nat → Nat} {marked : Nat → Prop} {k k' k₁ : Kernel} {img : Image} {envs : Word}
  {c e x : EnvPtr} {n d imgEnd : Nat} {envid : U32} {va perm : Word} {p q : Prop}
  {ans : Answer}

/-! ## Left alone -/

/-- Waiting in `sys_ipc_recv`. -/
def Blocked (k : Kernel) (e : EnvPtr) : Prop :=
  (k.envs e).status = .ENV_NOT_RUNNABLE ∧ (k.envs e).ipc_recving ≠ 0

/-- An environment but for what messages and dispatches write. -/
def Env.still (env : Env) : Env :=
  { env with
    tf := zeroFrame, ipc_value := 0, ipc_from := 0, ipc_recving := 0, ipc_perm := 0, env_runs := 0 }

/-- Environment `e` and its tables are as they were; when it was dispatched, which
    happens only if `handed`, its time slice has been set. -/
structure LeftAlone (handed : Prop) (k k' : Kernel) (e : EnvPtr) : Prop where
  still : (k'.envs e).still = (k.envs e).still
  tf : (k'.envs e).tf = (k.envs e).tf ∨ handed ∧ (k.envs e).status = .ENV_RUNNABLE ∧
    (k'.envs e).tf = { (k.envs e).tf with count_down := 125000 }
  blocked : Blocked k' e → Blocked k e
  tables : ∀ t, IsTable k.pm {k.pgdir e} t → k'.pm.mem t = k.pm.mem t

namespace LeftAlone

theorem status (h : LeftAlone p k k' e) : (k'.envs e).status = (k.envs e).status := by
  have hs := congrArg Env.status h.still
  exact hs

theorem live (h : LeftAlone p k k' e) (he : k.Live e) : k'.Live e := by
  rw [Kernel.Live, h.status]
  exact he

theorem parent (h : LeftAlone p k k' e) : (k'.envs e).parent_id = (k.envs e).parent_id := by
  have hs := congrArg Env.parent_id h.still
  exact hs

theorem pgdir (h : LeftAlone p k k' e) : k'.pgdir e = k.pgdir e := by
  have hs := congrArg Env.pgdir h.still
  exact congrArg (fun o => Option.getD o 0) hs

theorem of_eq (henv : k'.envs e = k.envs e)
    (htab : ∀ t, IsTable k.pm {k.pgdir e} t → k'.pm.mem t = k.pm.mem t) : LeftAlone p k k' e where
  still := by rw [henv]
  tf := Or.inl (by rw [henv])
  blocked hb := by
    rw [Blocked, henv] at hb
    exact hb
  tables := htab

/-- Memory is as it was. -/
theorem of_pm (henv : k'.envs e = k.envs e) (hpm : k'.pm = k.pm) : LeftAlone p k k' e :=
  of_eq henv fun t _ => by rw [hpm]

theorem mono (h : LeftAlone p k k' e) (hpq : p → q) : LeftAlone q k k' e :=
  ⟨h.still, h.tf.imp_right fun ht => ⟨hpq ht.1, ht.2⟩, h.blocked, h.tables⟩

/-- A dispatch that finds the time slice set already changes nothing. -/
theorem of_slice (h : LeftAlone q k k' e) (hslice : p ∨ (q → (k.envs e).status = .ENV_RUNNABLE →
    (k.envs e).tf.count_down = 125000)) : LeftAlone p k k' e := by
  refine ⟨h.still, ?_, h.blocked, h.tables⟩
  rcases h.tf with ht | ⟨hq, hrun, ht⟩
  · exact Or.inl ht
  · rcases hslice with hp | hset
    · exact Or.inr ⟨hp, hrun, ht⟩
    · left
      rw [ht, ← hset hq hrun]

theorem trans (h : LeftAlone p k k₁ e) (h' : LeftAlone p k₁ k' e) : LeftAlone p k k' e where
  still := h'.still.trans h.still
  tf := by
    rcases h'.tf with ht' | ⟨hp, hrun, ht'⟩
    · rw [ht']
      exact h.tf
    · rw [h.status] at hrun
      refine Or.inr ⟨hp, hrun, ?_⟩
      rcases h.tf with ht | ⟨-, -, ht⟩
      · rw [ht', ht]
      · rw [ht', ht]
  blocked hb := h.blocked (h'.blocked hb)
  tables t ht := by
    rw [h'.tables t, h.tables t ht]
    rw [h.pgdir, isTable_of_tables h.tables]
    exact ht

end LeftAlone

/-! ## Without memory -/

theorem leftAlone_setReg0 (k : Kernel) (w : Word) (e : EnvPtr) : LeftAlone p k (k.setReg0 w) e :=
  .of_pm rfl rfl

theorem leftAlone_updEnv (f : Env → Env) (hne : e ≠ x) : LeftAlone p k (k.updEnv x f) e :=
  .of_pm (by rw [Kernel.updEnv_envs, if_neg hne]) rfl

theorem leftAlone_only (h : SchedOnly k k') : LeftAlone p k k' e := by
  obtain ⟨l, m, i, rfl⟩ := h
  exact .of_pm rfl rfl

/-- `env_run` sets the time slice of the environment it runs. -/
theorem envRun_envs (hcur : k.curenv ≠ some e) (x : EnvPtr) :
    (envRun k x).envs e = if e = x then { k.envs e with
      env_runs := (k.envs e).env_runs + 1
      tf := { (k.envs e).tf with count_down := 125000 } } else k.envs e := by
  unfold envRun
  cases hc : k.curenv with
  | none => rfl
  | some c =>
      have hec : e ≠ c := by
        rintro rfl
        exact hcur hc
      simp only [Kernel.updEnv_envs, if_neg hec]

/-- The environment saved at a dispatch is the one that ran. -/
theorem leftAlone_dispatch (h : Dispatch k k') (hcur : k.curenv ≠ some e) : LeftAlone True k k' e := by
  obtain ⟨k₀, x, ⟨l, m, i, rfl⟩, hrun, rfl⟩ := h
  have henv := envRun_envs (k := { k with sched_link := l, count := m, point := i }) hcur x
  by_cases hex : e = x
  · subst hex
    rw [if_pos rfl] at henv
    refine ⟨by rw [henv]; rfl, Or.inr ⟨trivial, hrun, by rw [henv]⟩, fun hb => ?_, fun t _ => ?_⟩
    · rw [Blocked, henv] at hb
      exact hb
    · rw [envRun_pm]
  · rw [if_neg hex] at henv
    exact .of_pm henv (envRun_pm _ _)

/-! ## Memory -/

section Memory

variable (h : EnvMem boot marked k.unqueued) (he : k.Live e)

include h he

/-- The tables of one environment are tables of others for another one. -/
theorem isTable_erase (hx : k.Live x) (hne : e ≠ x) {t : Nat} (ht : IsTable k.pm {k.pgdir e} t) :
    IsTable k.pm ((liveDirs k).erase (k.pgdir x)) t := by
  have hmem : k.pgdir e ∈ (liveDirs k).erase (k.pgdir x) :=
    Finset.mem_erase.mpr ⟨fun heq => hne (h.inj e x he hx heq), pgdir_mem_liveDirs he⟩
  exact (isTable_split hmem).mpr (Or.inr ht)

theorem leftAlone_insert (hx : k.Live x) (hne : e ≠ x) (hva : GET_L1_INDEX va ≠ uvptIndex)
    (pp : Nat) (perm : Word) :
    LeftAlone p k (k.setPm (pageInsert k.pm (k.pgdir x) pp va perm).2) e :=
  .of_eq rfl fun _ ht =>
    h.sound.pageInsert_frame (pgdir_mem_liveDirs hx) hva (isTable_erase h he hx hne ht)

theorem leftAlone_remove (hx : k.Live x) (hne : e ≠ x) (hva : GET_L1_INDEX va ≠ uvptIndex) :
    LeftAlone p k (k.setPm (pageRemove k.pm (k.pgdir x) va)) e :=
  .of_eq rfl fun _ ht =>
    pageRemove_frame h.sound.tables (pgdir_mem_liveDirs hx) hva (isTable_erase h he hx hne ht)

/-- A page that is handed out is no table. -/
theorem leftAlone_pageAlloc {pp : Nat} {pm : Pmap} (halloc : pageAlloc k.pm = some (pp, pm)) :
    LeftAlone p k (k.setPm pm) e := by
  refine .of_eq rfl fun t ht => ?_
  have hlive : k.pgdir e ∈ liveDirs k.unqueued := pgdir_mem_liveDirs he
  have hused := h.sound.visBit_table ((isTable_split hlive).mpr (Or.inr ht))
  have hne : t ≠ pp := ne_of_pageAlloc halloc hused
  obtain ⟨-, -, -, -, -, hmem⟩ := pageAlloc_spec halloc
  funext i
  show pm.mem t i = k.pm.mem t i
  rw [hmem]
  simp [hne]

omit h in
/-- A block is read into no table. -/
theorem leftAlone_readSd (hback : ∀ p, backs k c va p = true → ¬ IsTable k.pm (liveDirs k) p) :
    LeftAlone p k (sysReadSd k c va ans) e := by
  unfold sysReadSd
  by_cases hrange : va ≥ KERNBASE
  · rw [if_pos hrange]
    exact leftAlone_setReg0 _ _ _
  · rw [if_neg hrange]
    have hlive : k.pgdir e ∈ liveDirs k := pgdir_mem_liveDirs he
    have hfill : LeftAlone p k (k.setPm (sdFill k c va ans.buffer)) e := .of_eq rfl fun t ht =>
      sdFill_mem fun hp => hback t hp ((isTable_split hlive).mpr (Or.inr ht))
    exact hfill.trans (leftAlone_setReg0 _ _ _)

theorem leftAlone_envAlloc (hend : img.init_end / 4096 ≤ NPAGE)
    (hmark : ∀ p < img.init_end / 4096, marked p) {r : Option EnvPtr} {id : U32}
    (hexec : envAlloc img k id = .ok (r, k')) : LeftAlone p k k' e := by
  rcases envAlloc_cases hexec with ⟨-, rfl⟩ | ⟨x, d, rfl, ha⟩
  · exact .of_pm rfl rfl
  · have hfree : ¬ k.Live x := (envAlloc_acc h.acc (envAlloc_unqueued hexec)).1
    have hex : e ≠ x := by
      rintro rfl
      exact hfree he
    obtain ⟨hd, -, s₁, halloc, hmap⟩ := envSetupVm_spec h.sound hend
      (fun p hp => h.kept p (by omega) (hmark p hp)) ha.vm
    refine .of_eq (ha.others e hex) fun t ht => ?_
    have hlive : k.pgdir e ∈ liveDirs k.unqueued := pgdir_mem_liveDirs he
    exact (hmap.others h.sound halloc hd).1 t ((isTable_split hlive).mpr (Or.inr ht))

theorem leftAlone_envFree (hx : k.Live x) (hne : e ≠ x) (hexec : envFree k x = .ok k') :
    LeftAlone p k k' e := by
  obtain ⟨d, hf⟩ := envFree_cases hexec
  have hvm := envFree_vm h hx (envFree_unqueued hexec)
  exact .of_eq (hf.others e hne) fun t ht => hvm.kept t (isTable_erase h he hx hne ht)

/-- The processor is handed over when an environment destroys itself. -/
theorem leftAlone_destroys {back : Kernel → Kernel} (hx : k.Live x) (hne : e ≠ x)
    (hback : ∀ k₁, (back k₁).envs e = k₁.envs e ∧ (back k₁).pm = k₁.pm)
    (hd : Destroys k x back k') : LeftAlone (k.curenv = some x) k k' e := by
  obtain ⟨k₁, hfree, hend⟩ := hd
  have h₁ : LeftAlone (k.curenv = some x) k k₁ e := leftAlone_envFree h he hx hne hfree
  rcases hend with ⟨-, rfl⟩ | ⟨hcur, hnext⟩
  · exact h₁.trans (.of_pm (hback k₁).1 (hback k₁).2)
  · have hstop : LeftAlone (k.curenv = some x) k₁ { k₁ with curenv := none } e := .of_pm rfl rfl
    have hrun : LeftAlone True { k₁ with curenv := none } k' e :=
      leftAlone_dispatch hnext (by rintro ⟨⟩)
    exact (h₁.trans hstop).trans (hrun.mono fun _ => hcur)

theorem leftAlone_sysEnvAlloc (hend : img.init_end / 4096 ≤ NPAGE)
    (hmark : ∀ p < img.init_end / 4096, marked p) (hexec : sysEnvAlloc img k c = .ok k') :
    LeftAlone p k k' e := by
  rcases sysEnvAlloc_cases hexec with ⟨k₁, halloc, rfl⟩ | ⟨x, k₁, k₂, w, halloc, hins, rfl⟩
  · exact (leftAlone_envAlloc h he hend hmark halloc).trans (leftAlone_setReg0 _ _ _)
  · have hnew : LeftAlone p k k₁ e := leftAlone_envAlloc h he hend hmark halloc
    have hex : e ≠ x := by
      rintro rfl
      exact (envAlloc_acc h.acc (envAlloc_unqueued halloc)).1 he
    have hstores : LeftAlone p k₁ (envChild k₁ c x) e := leftAlone_updEnv _ hex
    have hqueue : LeftAlone p (envChild k₁ c x) k₂ e := leftAlone_only (schedInsertTail_only hins)
    exact ((hnew.trans hstores).trans hqueue).trans (leftAlone_setReg0 _ _ _)

end Memory

/-! ## Calls -/

/-- With permission asked for, `envid2env` finds the caller or one of its children. -/
theorem envid2env_permitted (hcur : k.curenv = some c) (h : envid2env k envid true = some x) :
    x = c ∨ (k.envs x).parent_id = (k.envs c).id := by
  unfold envid2env at h
  split at h
  · rw [hcur, Option.some.injEq] at h
    exact Or.inl h.symm
  · simp only [hcur, true_and] at h
    split at h
    · cases h
    · split at h
      · cases h
      · rename_i hperm
        cases h
        rw [not_and_or, not_not, not_not] at hperm
        exact hperm

/-- The call does not get as far as an edit of the tables of `e`: a mapping into it
    or out of it is refused or finds nothing, and so does the page of a message
    when `e` is running. -/
def Syscall.Spares (k : Kernel) (c e : EnvPtr) : Syscall → Prop
  | .sys_mem_map srcid srcva dstid dstva _ =>
      envid2env (k.enter c) dstid false = some e → srcva ≥ KERNBASE ∨ dstva ≥ KERNBASE ∨
        ∀ srcenv, envid2env (k.enter c) srcid false = some srcenv →
          pageLookup k.pm (k.pgdir srcenv) (ROUNDDOWN srcva) = none
  | .sys_mem_unmap envid va =>
      envid2env (k.enter c) envid false = some e → va ≥ KERNBASE ∨ mapping k.pm (k.pgdir e) va = none
  | .sys_ipc_can_send envid _ srcva _ =>
      (k.envs e).status = .ENV_RUNNABLE → sendTarget (k.enter c) envid srcva = some e →
        srcva = 0 ∨ pageLookup k.pm (k.pgdir c) srcva = none
  | _ => True

/-- The call ends in `sched_yield`. -/
def Syscall.HandsOver (k : Kernel) (c : EnvPtr) : Syscall → Prop
  | .sys_yield => True
  | .sys_ipc_recv dstva => dstva < KERNBASE
  | .sys_env_destroy envid => envid2env (k.enter c) envid true = some c
  | .sys_set_env_status envid status =>
      statusOf status = some .ENV_FREE ∧ envid2env (k.enter c) envid true = some c
  | _ => False

/-- A call that hands the processor over finds the time slice of `e` set, if `e` can
    be given it at all. -/
def Syscall.SliceSet (k : Kernel) (c e : EnvPtr) (call : Syscall) : Prop :=
  call.HandsOver k c → (k.envs e).status = .ENV_RUNNABLE → (k.envs e).tf.count_down = 125000

section Exec

variable (hend : img.init_end / 4096 ≤ NPAGE) (hmark : ∀ p < img.init_end / 4096, marked p)
  (h : EnvMem boot marked k.unqueued) (hc : k.Live c) (hcur : k.curenv = some c)
  (he : k.Live e) (hne : e ≠ c)

section Permitted

variable (hchild : (k.envs e).parent_id ≠ (k.envs c).id)

include hcur hne hchild in
theorem ne_of_permitted (henv : envid2env k envid true = some x) : e ≠ x := by
  rintro rfl
  rcases envid2env_permitted hcur henv with hx | hx
  · exact hne hx
  · exact hchild hx

include hcur hne hchild in
theorem leftAlone_setHandler (func xstacktop : Word) :
    LeftAlone p k (sysSetPgfaultHandler k envid func xstacktop) e := by
  unfold sysSetPgfaultHandler
  cases henv : envid2env k envid true with
  | none => exact leftAlone_setReg0 _ _ _
  | some x =>
      have hex := ne_of_permitted hcur hne hchild henv
      exact (leftAlone_updEnv _ hex).trans (leftAlone_setReg0 _ _ _)

include h hc hcur he hne hchild

theorem leftAlone_memAlloc (hva : GET_L1_INDEX va ≠ uvptIndex) :
    LeftAlone p k (sysMemAlloc k envid va perm) e := by
  rcases sysMemAlloc_cases k envid va perm with heq | ⟨x, pp, pm, henv, halloc, heq⟩
  · rw [heq]
    exact leftAlone_setReg0 _ _ _
  · rw [heq]
    have hx := live_of_envid2env hc hcur henv
    have hex := ne_of_permitted hcur hne hchild henv
    obtain ⟨hsound, -⟩ := h.sound.pageAlloc halloc
    have h₁ : EnvMem boot marked (k.setPm pm).unqueued :=
      h.setPm hsound fun p hp hm => visBit_pageAlloc halloc (h.kept p hp hm)
    have hpage : LeftAlone p k (k.setPm pm) e := leftAlone_pageAlloc h he halloc
    have hins : LeftAlone p (k.setPm pm) ((k.setPm pm).setPm
        (pageInsert pm (k.pgdir x) pp va perm).2) e := leftAlone_insert h₁ he hx hex hva pp perm
    exact (hpage.trans hins).trans (leftAlone_setReg0 _ _ _)

theorem leftAlone_envDestroy (hexec : sysEnvDestroy n k envid = .ok k') :
    LeftAlone ((Syscall.sys_env_destroy envid).HandsOver k c) k k' e := by
  have henter : k.enter c = k := by
    rw [Kernel.enter, ← hcur]
  rcases sysEnvDestroy_cases hexec with rfl | ⟨x, henv, hd⟩
  · exact leftAlone_setReg0 _ _ _
  · have hx := live_of_envid2env hc hcur henv
    have hex := ne_of_permitted hcur hne hchild henv
    have hback : ∀ k₁ : Kernel, (k₁.setReg0 0).envs e = k₁.envs e ∧ (k₁.setReg0 0).pm = k₁.pm :=
      fun k₁ => ⟨rfl, rfl⟩
    refine (leftAlone_destroys h he hx hex hback hd).mono fun hself => ?_
    rw [Syscall.HandsOver, henter, henv, ← hcur, hself]

theorem leftAlone_setEnvStatus {status : U32} (hexec : sysSetEnvStatus n k envid status = .ok k') :
    LeftAlone ((Syscall.sys_set_env_status envid status).HandsOver k c) k k' e := by
  have henter : k.enter c = k := by
    rw [Kernel.enter, ← hcur]
  rcases sysSetEnvStatus_cases hexec with rfl | ⟨st, x, hst, henv, hset⟩
  · exact leftAlone_setReg0 _ _ _
  · have hx := live_of_envid2env hc hcur henv
    have hex := ne_of_permitted hcur hne hchild henv
    rcases hset with ⟨-, rfl⟩ | ⟨rfl, hd⟩
    · exact (leftAlone_updEnv _ hex).trans (leftAlone_setReg0 _ _ _)
    · have hback : ∀ k₁, (setStatus x .ENV_FREE k₁).envs e = k₁.envs e ∧
          (setStatus x .ENV_FREE k₁).pm = k₁.pm := by
        intro k₁
        refine ⟨?_, rfl⟩
        rw [setStatus, Kernel.setReg0_envs, Kernel.updEnv_envs, if_neg hex]
      refine (leftAlone_destroys h he hx hex hback hd).mono fun hself => ⟨hst, ?_⟩
      rw [henter, henv, ← hcur, hself]

end Permitted

include h hc hcur he

theorem leftAlone_memMap {srcid : U32} {srcva : Word} (hva : GET_L1_INDEX va ≠ uvptIndex)
    (hspare : (Syscall.sys_mem_map srcid srcva envid va perm).Spares k c e) :
    LeftAlone p k (sysMemMap k srcid srcva envid va perm) e := by
  have henter : k.enter c = k := by
    rw [Kernel.enter, ← hcur]
  by_cases hrange : srcva ≥ KERNBASE ∨ va ≥ KERNBASE
  · have heq : sysMemMap k srcid srcva envid va perm = k.setReg0 ERR := if_pos hrange
    rw [heq]
    exact leftAlone_setReg0 _ _ _
  · rw [not_or] at hrange
    rcases sysMemMap_cases k srcid srcva envid va perm with
      heq | ⟨srcenv, x, q, t, i, hsrc, hdst, hlook, heq⟩
    · rw [heq]
      exact leftAlone_setReg0 _ _ _
    · rw [heq]
      have hx := live_of_envid2env hc hcur hdst
      have hva' : GET_L1_INDEX (ROUNDDOWN va) ≠ uvptIndex := by
        rw [ROUNDDOWN_L1]
        exact hva
      have hex : e ≠ x := by
        rintro rfl
        rcases hspare (henter.symm ▸ hdst) with h₁ | h₁ | hnone
        · exact hrange.1 h₁
        · exact hrange.2 h₁
        · rw [hnone srcenv (henter.symm ▸ hsrc)] at hlook
          cases hlook
      exact (leftAlone_insert h he hx hex hva' _ perm).trans (leftAlone_setReg0 _ _ _)

theorem leftAlone_memUnmap (hva : GET_L1_INDEX va ≠ uvptIndex)
    (hspare : (Syscall.sys_mem_unmap envid va).Spares k c e) :
    LeftAlone p k (sysMemUnmap k envid va) e := by
  have henter : k.enter c = k := by
    rw [Kernel.enter, ← hcur]
  by_cases hrange : va ≥ KERNBASE
  · have heq : sysMemUnmap k envid va = k.setReg0 ERR := if_pos hrange
    rw [heq]
    exact leftAlone_setReg0 _ _ _
  · rcases sysMemUnmap_cases k envid va with heq | ⟨x, henv, heq⟩
    · rw [heq]
      exact leftAlone_setReg0 _ _ _
    · rw [heq]
      have hx := live_of_envid2env hc hcur henv
      by_cases hex : e = x
      · subst hex
        have hnone := (hspare (henter.symm ▸ henv)).resolve_left hrange
        rw [pageRemove_of_none hnone]
        exact .of_pm rfl rfl
      · exact leftAlone_remove h he hx hex hva

/-- A message to another environment, or to `e` itself while it runs. -/
theorem leftAlone_send {value srcva : Word} (hblock : ¬ Blocked k e)
    (hva : ∀ x, sendTarget k envid srcva = some x → srcva ≠ 0 →
      GET_L1_INDEX (k.envs x).ipc_dstva ≠ uvptIndex)
    (hspare : (Syscall.sys_ipc_can_send envid value srcva perm).Spares k c e) :
    LeftAlone p k (sysIpcCanSend k c envid value srcva perm) e := by
  have henter : k.enter c = k := by
    rw [Kernel.enter, ← hcur]
  cases htarget : sendTarget k envid srcva with
  | none =>
      obtain ⟨r, -, hcall⟩ := sysIpcCanSend_none c value perm htarget
      rw [hcall]
      exact leftAlone_setReg0 _ _ _
  | some x =>
      obtain ⟨henv, hrecv⟩ := sendTarget_eq_some htarget
      have hx := live_of_envid2env hc hcur henv
      rw [sysIpcCanSend_some c value perm htarget]
      refine LeftAlone.trans ?_ (leftAlone_setReg0 _ _ _)
      by_cases hex : e = x
      · subst hex
        -- It is in use and not waiting, so that it runs.
        have hrun : (k.envs e).status = .ENV_RUNNABLE := by
          cases hst : (k.envs e).status with
          | ENV_FREE => exact absurd hst he
          | ENV_RUNNABLE => rfl
          | ENV_NOT_RUNNABLE => exact absurd ⟨hst, hrecv⟩ hblock
        have hpm : (ipcMap k c e srcva perm).1 = k.pm := by
          unfold ipcMap
          rcases hspare hrun (henter.symm ▸ htarget) with h0 | hnone
          · rw [if_pos h0]
          · split
            · rfl
            · rw [hnone]
        have henv' : ((k.updEnv e (ipcDeliver (k.envs c).id value perm)).setPm
            (ipcMap k c e srcva perm).1).envs e = ipcDeliver (k.envs c).id value perm (k.envs e) := by
          rw [Kernel.setPm_envs, Kernel.updEnv_envs, if_pos rfl]
        refine ⟨?_, Or.inl (by rw [henv']; rfl), fun hb => ?_, fun t _ => ?_⟩
        · rw [henv', Env.still, Env.still, ipcDeliver, hrun]
        · rw [Blocked, henv'] at hb
          cases hb.1
        · rw [Kernel.setPm_pm, hpm]
      · have hpage : LeftAlone p k (k.setPm (ipcMap k c x srcva perm).1) e := by
          unfold ipcMap
          by_cases h0 : srcva = 0
          · rw [if_pos h0]
            exact .of_pm rfl rfl
          · rw [if_neg h0]
            cases hlook : pageLookup k.pm (k.pgdir c) srcva with
            | none => exact .of_pm rfl rfl
            | some y => exact leftAlone_insert h he hx hex (hva x htarget h0) _ perm
        refine .of_eq ?_ hpage.tables
        rw [Kernel.setPm_envs, Kernel.updEnv_envs, if_neg hex]

include hend hmark hne

/-- A tame call that spares `e`. -/
theorem leftAlone_exec {call : Syscall} (hchild : (k.envs e).parent_id ≠ (k.envs c).id)
    (hblock : ¬ Blocked k e) (htame : call.Tame k c) (hspare : call.Spares k c e)
    (hexec : call.exec img envs ans n k c = .ok k') :
    LeftAlone (call.HandsOver k c) k k' e := by
  have henter : k.enter c = k := by
    rw [Kernel.enter, ← hcur]
  have hother : k.curenv ≠ some e := by
    rw [hcur, ne_eq, Option.some.injEq]
    exact hne.symm
  cases call with
  | sys_putchar ch =>
      cases hexec
      exact .of_pm rfl rfl
  | sys_getc =>
      cases hexec
      exact leftAlone_setReg0 _ _ _
  | sys_getenvid =>
      cases hexec
      exact leftAlone_setReg0 _ _ _
  | sys_yield => exact leftAlone_dispatch (sysYield_dispatch hexec) hother
  | sys_env_destroy envid => exact leftAlone_envDestroy h hc hcur he hne hchild hexec
  | sys_set_pgfault_handler envid func xstacktop =>
      cases hexec
      exact leftAlone_setHandler hcur hne hchild func xstacktop
  | sys_mem_alloc envid va perm =>
      cases hexec
      exact leftAlone_memAlloc h hc hcur he hne hchild htame.2.1
  | sys_mem_map srcid srcva dstid dstva perm =>
      cases hexec
      exact leftAlone_memMap h hc hcur he htame.2.1 hspare
  | sys_mem_unmap envid va =>
      cases hexec
      exact leftAlone_memUnmap h hc hcur he htame.1 hspare
  | sys_env_alloc => exact leftAlone_sysEnvAlloc h he hend hmark hexec
  | sys_set_env_status envid status =>
      exact leftAlone_setEnvStatus h hc hcur he hne hchild hexec
  | sys_set_trapframe envid =>
      cases hexec
      exact leftAlone_setReg0 _ _ _
  | sys_panic msg => cases hexec
  | sys_ipc_recv dstva =>
      by_cases hdst : dstva ≥ KERNBASE
      · have hsame : sysIpcRecv n k c dstva = .ok k := if_pos hdst
        have hexec' : sysIpcRecv n k c dstva = .ok k' := hexec
        rw [hsame] at hexec'
        cases hexec'
        exact .of_pm rfl rfl
      · have hlt : dstva < KERNBASE := BitVec.not_le.mp hdst
        have hstores : LeftAlone (dstva < KERNBASE) k (ipcRecvBlock k c dstva) e :=
          leftAlone_updEnv _ hne
        have hnext := leftAlone_dispatch (sysIpcRecv_dispatch hlt hexec) hother
        exact hstores.trans (hnext.mono fun _ => hlt)
  | sys_ipc_can_send envid value srcva perm =>
      cases hexec
      refine leftAlone_send h hc hcur he hblock (fun x htarget h0 => ?_) hspare
      exact (htame x (henter.symm ▸ htarget) h0).2.2.1
  | sys_get_envs =>
      cases hexec
      exact leftAlone_setReg0 _ _ _
  | sys_write_sd va secno =>
      cases hexec
      unfold sysWriteSd
      split
      · exact leftAlone_setReg0 _ _ _
      · split
        · exact leftAlone_setReg0 _ _ _
        · exact leftAlone_setReg0 _ _ _
  | sys_read_sd va secno =>
      have hk' : sysReadSd k c va ans = k' := Res.ok.inj hexec
      rw [← hk']
      exact leftAlone_readSd he (henter ▸ htame)
  | sys_get_pageref num =>
      cases hexec
      unfold sysGetPageref
      split
      · exact leftAlone_setReg0 _ _ _
      · exact leftAlone_setReg0 _ _ _

end Exec

/-! ## Runs -/

/-- From boot on: operations on environments while the kernel makes them, calls, and
    whatever else the kernel does without changing pages or the set of the
    environments in use, such as the scheduler and the handlers of interrupts. -/
inductive KernEvent where
  | env_op (op : EnvOp)
  | call (a : EnvPtr × Syscall)
  | other

def kernStep (img : Image) (envs : Word) (k : Kernel) (ev : KernEvent) (k' : Kernel) : Prop :=
  match ev with
  | .env_op op => envOpStep img k op k'
  | .call a => callStep img envs k a k'
  | .other => MemSame k k'

def KernEvent.Tame (k : Kernel) : KernEvent → Prop
  | .env_op op => op.Tame k
  | .call a => a.2.Tame k a.1
  | .other => True

theorem envOpStep_unqueued {op : EnvOp} (h : envOpStep img k op k') :
    envOpStep img k.unqueued op k'.unqueued := by
  cases op with
  | env_alloc q =>
      obtain ⟨r, hexec⟩ := h
      exact ⟨r, envAlloc_unqueued hexec⟩
  | page_insert e pp va perm =>
      obtain ⟨he, hpp, rfl⟩ := h
      exact ⟨he, hpp, rfl⟩
  | page_remove e va =>
      obtain ⟨he, rfl⟩ := h
      exact ⟨he, rfl⟩
  | env_free e =>
      obtain ⟨he, hexec⟩ := h
      exact ⟨he, envFree_unqueued hexec⟩

section Run

variable (hb : BootRefs boot marked) (hend : img.init_end / 4096 ≤ NPAGE)
  (hmark : ∀ p < img.init_end / 4096, marked p) (h : EnvMem boot marked k.unqueued)

include hb hend hmark h

theorem callStep_mem {a : EnvPtr × Syscall} (htame : a.2.Tame k a.1)
    (hstep : callStep img envs k a k') : EnvMem boot marked k'.unqueued := by
  obtain ⟨hlive, ans, n, hexec⟩ := hstep
  have hin : EnvMem boot marked (k.enter a.1).unqueued := h.same (memSame_enter k a.1)
  have htame' : a.2.Tame (k.enter a.1) a.1 := htame
  exact mem_exec hb hend hmark hin hlive rfl htame' hexec

theorem kernStep_mem {ev : KernEvent} (htame : ev.Tame k) (hstep : kernStep img envs k ev k') :
    EnvMem boot marked k'.unqueued := by
  cases ev with
  | env_op op =>
      have htame' : op.Tame k.unqueued := by
        cases op <;> exact htame
      exact envOpStep_mem hb h hend hmark htame' (envOpStep_unqueued hstep)
  | call a => exact callStep_mem hb hend hmark h htame hstep
  | other => exact h.same hstep

/-- The calls of `c`, one after another. -/
theorem leftAlone_calls (he : k.Live e) (hne : e ≠ c)
    (hchild : (k.envs e).parent_id ≠ (k.envs c).id) (hblock : ¬ Blocked k e) {calls : List Syscall}
    (hrun : Run (restrict (fun k call k' => callStep img envs k (c, call) k') fun k call =>
      call.Tame k c ∧ call.Spares k c e ∧ (p ∨ call.SliceSet k c e)) k calls k') :
    LeftAlone p k k' e := by
  have hinv : EnvMem boot marked k'.unqueued ∧ LeftAlone p k k' e ∧
      (k'.envs c).id = (k.envs c).id := by
    refine hrun.invariant_of_restrict (P := fun k' => EnvMem boot marked k'.unqueued ∧
      LeftAlone p k k' e ∧ (k'.envs c).id = (k.envs c).id) ⟨h, .of_pm rfl rfl, rfl⟩
      fun k₁ call k₂ hk₁ hok hstep => ?_
    obtain ⟨hmem, halone, hid⟩ := hk₁
    obtain ⟨htame, hspare, hslice⟩ := hok
    have hmem₂ := callStep_mem hb hend hmark hmem htame hstep
    obtain ⟨hc, ans, n, hexec⟩ := hstep
    have hin : EnvMem boot marked (k₁.enter c).unqueued := hmem.same (memSame_enter k₁ c)
    have hchild₁ : ((k₁.enter c).envs e).parent_id ≠ ((k₁.enter c).envs c).id := by
      show (k₁.envs e).parent_id ≠ (k₁.envs c).id
      rw [halone.parent, hid]
      exact hchild
    have hblock₁ : ¬ Blocked (k₁.enter c) e := fun hbl => hblock (halone.blocked hbl)
    have hcall : LeftAlone (call.HandsOver (k₁.enter c) c) (k₁.enter c) k₂ e :=
      leftAlone_exec hend hmark hin hc rfl (halone.live he) hne hchild₁ hblock₁ htame hspare hexec
    have henter : LeftAlone p k₁ (k₁.enter c) e := .of_pm rfl rfl
    have hfirst : ∀ x, k₁.link.first () = some x → ¬ k₁.Live x := fun x hx => hin.acc.first_free hx
    have hid₂ : (k₂.envs c).id = (k₁.envs c).id :=
      (exec_done (k := k₁.enter c) hc rfl hexec).id hc hfirst
    exact ⟨hmem₂, halone.trans (henter.trans (hcall.of_slice hslice)), hid₂.trans hid⟩
  exact hinv.2.1

end Run

/-- In a state reached by tame steps from boot memory is in order. -/
theorem reached_mem {mem₀ : Nat → Nat → Word} {k₀ : Kernel} (hend : img.init_end / 4096 ≤ NPAGE)
    (hpm : k₀.pm = initBootPt img.init_end imgEnd mem₀) {tr : List KernEvent}
    (hreach : Run (restrict (kernStep img envs) fun k ev => ev.Tame k) (envInit k₀) tr k) :
    EnvMem (bootCount img.init_end imgEnd mem₀) (bootMarked img.init_end imgEnd) k.unqueued := by
  have hinit := (envInit_mem hpm).unqueued
  generalize envInit k₀ = s at hreach hinit
  refine hreach.invariant_of_restrict (P := fun k => EnvMem _ _ k.unqueued) hinit
    fun k₁ ev k₂ h₁ htame hstep => ?_
  exact kernStep_mem (bootRefs _ _ _) hend (fun p hp => Or.inl hp) h₁ htame hstep

/-- The page table, the status, the fault handler and the trap frame of `e`. -/
structure Undisturbed (k k' : Kernel) (e : EnvPtr) : Prop where
  pgdir : (k'.envs e).pgdir = (k.envs e).pgdir
  tables : ∀ t, IsTable k.pm {k.pgdir e} t → k'.pm.mem t = k.pm.mem t
  mapping : ∀ va, GET_L1_INDEX va ≠ uvptIndex →
    mapping k'.pm (k.pgdir e) va = mapping k.pm (k.pgdir e) va
  status : (k'.envs e).status = (k.envs e).status
  handler : (k'.envs e).pgfault_handler = (k.envs e).pgfault_handler ∧
    (k'.envs e).xstacktop = (k.envs e).xstacktop
  tf : (k'.envs e).tf = (k.envs e).tf

theorem LeftAlone.undisturbed (h : LeftAlone False k k' e) : Undisturbed k k' e where
  pgdir := by
    have hs := congrArg Env.pgdir h.still
    exact hs
  tables := h.tables
  mapping _ hva := mapping_of_tables h.tables (Finset.mem_singleton_self _) hva
  status := h.status
  handler := by
    have hs := congrArg Env.pgfault_handler h.still
    have ht := congrArg Env.xstacktop h.still
    exact ⟨hs, ht⟩
  tf := h.tf.resolve_right fun ht => ht.1

theorem envAlloc_parent {id : U32} (h : envAlloc img k id = .ok (some e, k')) :
    (k'.envs e).parent_id = id := by
  unfold envAlloc at h
  split at h
  · cases h
  · split at h
    · cases h
    · split at h
      · cases h
      · cases h
        rw [Kernel.updEnv_envs, if_pos rfl]

/-- The kernel makes two environments; the first has page 0 of the boot code. -/
theorem board_two_envs : ∃ k, Run (restrict (kernStep boardImage 0) fun k ev => ev.Tame k)
    (envInit boardKernel) [.env_op (.env_alloc 0), .env_op (.env_alloc 0)] k ∧
    k.Live 1 ∧ (k.envs 0).status = .ENV_RUNNABLE ∧ (k.envs 0).id = 2048 ∧
    (k.envs 0).parent_id = 0 ∧ (k.envs 1).id = 4097 ∧
    ∃ w, mapping k.pm (k.pgdir 0) 0 = some w := by
  have hmem := envInit_mem (k := boardKernel) boardBoot_eq
  obtain ⟨hpm, -, hnext, -, -⟩ := envInit_rest boardKernel
  have hF : List.finRange 1024 = (0 : Fin 1024) :: 1 :: ((List.finRange 1022).map Fin.succ).map Fin.succ := by
    have h₁ : List.finRange 1024 = (0 : Fin 1024) :: (List.finRange 1023).map Fin.succ :=
      List.finRange_succ
    have h₂ : List.finRange 1023 = (0 : Fin 1023) :: (List.finRange 1022).map Fin.succ :=
      List.finRange_succ
    rw [h₁, h₂, List.map_cons]
    rfl
  have ha := envInit_free boardKernel (fun _ => False) fun _ h => h.elim
  rw [hF] at ha
  obtain ⟨d, pm, hvm, hclear⟩ : ∃ d pm, envSetupVm boardImage.init_end (envInit boardKernel).pm
      = some (d, pm) ∧ ClearFrom 1041 4000 pm := by
    rw [hpm]
    exact boardBoot_clear.envSetupVm 0x200000 (by decide) (by decide)
  generalize hk₀ : envInit boardKernel = k₀ at hmem hpm hnext ha hvm
  obtain ⟨k₁, hexec₁, ha₁, hpm₁, -, hnext₁, -, -, hdir₁, hid₁, hst₁, -⟩ := envAlloc_some boardImage ha hvm 0
  obtain ⟨d', pm', hvm', -⟩ := hclear.envSetupVm boardImage.init_end (by decide) (by decide)
  rw [← hpm₁] at hvm'
  obtain ⟨k₂, hexec₂, -, -, -, -, -, -, -, hid₂, hst₂, hsame⟩ := envAlloc_some boardImage ha₁ hvm' 0
  have hend : boardImage.init_end / 4096 ≤ NPAGE := by
    rw [NPAGE]
    decide
  have hmark : ∀ p < boardImage.init_end / 4096, bootMarked 0x200000 0x400000 p :=
    fun p hp => Or.inl hp
  have hmem₁ := envAlloc_mem hmem hend hmark hexec₁
  have hlive₁ : k₁.Live 0 := by
    rw [Kernel.Live, hst₁]
    decide
  -- The first directory maps page 0, while there is memory for its tables.
  have hfirst : ∃ w, mapping k₁.pm (k₁.pgdir 0) 0 = some w := by
    obtain ⟨-, -, s₁, hpage, hmap⟩ := envSetupVm_spec hmem.sound hend
      (fun p hp => hmem.kept p (by omega) (Or.inl hp)) hvm
    have hfree : FreePages 2 (envNewDir s₁ d) := by
      have hclear₁ := boardBoot_clear.pageAlloc (by decide) (by decide) (hpm ▸ hpage)
      have hfp : FreePages 2 s₁ :=
        freePages_of_zero (k := 17) (by decide) fun m hm hm' => hclear₁ m hm (by omega)
      exact hfp.of_vis rfl
    obtain ⟨w, hw, -⟩ := hmap.first (by decide) hfree
    have hdir : k₁.pgdir 0 = d := by
      rw [Kernel.pgdir, hdir₁]
      rfl
    refine ⟨w, ?_⟩
    rw [hdir, hpm₁]
    exact hw
  have halone : LeftAlone False k₁ k₂ 0 :=
    leftAlone_envAlloc hmem₁.unqueued hlive₁ hend hmark hexec₂
  have h01 : (0 : EnvPtr) ≠ 1 := by decide
  have hsame0 := hsame 0 h01
  refine ⟨k₂, .cons ⟨⟨_, hexec₁⟩, trivial⟩ (.single ⟨⟨_, hexec₂⟩, trivial⟩), ?_, ?_, ?_, ?_, ?_, ?_⟩
  · rw [Kernel.Live, hst₂]
    decide
  · rw [hsame0, hst₁]
  · rw [hsame0, hid₁, hnext]
    rfl
  · rw [hsame0, envAlloc_parent hexec₁]
  · rw [hid₂, hnext₁, hnext]
    rfl
  · obtain ⟨w, hw⟩ := hfirst
    have hva : GET_L1_INDEX 0 ≠ uvptIndex := by
      rw [uvptIndex_eq, GET_L1_INDEX_eq]
      decide
    refine ⟨w, ?_⟩
    rw [halone.pgdir, mapping_of_tables halone.tables (Finset.mem_singleton_self _) hva]
    exact hw

theorem not_blocked_of_runnable (h : (k.envs e).status = .ENV_RUNNABLE) : ¬ Blocked k e := by
  rintro ⟨hst, -⟩
  rw [h] at hst
  cases hst

end RpiMos
