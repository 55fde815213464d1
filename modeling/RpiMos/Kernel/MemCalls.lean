/-
  RpiMos.Kernel.MemCalls

  Runs of `sys_mem_alloc`, `sys_mem_map` and `sys_mem_unmap` by any
  environments.  `VmInv` is what the calls keep when the `perm` argument has
  none of the bits that the kernel reads a page number from and the address
  edited lies outside the window of the self-map entry.
-/

import RpiMos.Kernel.Syscall
import RpiMos.Mm.PageEdit
import RpiMos.Lib.Run

namespace RpiMos

open Lib RadixShape

variable {k k' : Kernel} {s s₁ : Pmap} {dirs : Finset Nat} {boot : Nat → Nat} {d t i pp : Nat}
  {va perm e : Word} {c env : EnvPtr}

/-! ## Calls and steps -/

inductive MemCall where
  | sys_mem_alloc (envid : U32) (va perm : Word)
  | sys_mem_map (srcid : U32) (srcva : Word) (dstid : U32) (dstva perm : Word)
  | sys_mem_unmap (envid : U32) (va : Word)

def MemCall.exec (k : Kernel) : MemCall → Kernel
  | .sys_mem_alloc envid va perm => sysMemAlloc k envid va perm
  | .sys_mem_map srcid srcva dstid dstva perm => sysMemMap k srcid srcva dstid dstva perm
  | .sys_mem_unmap envid va => sysMemUnmap k envid va

/-- The kernel as environment `c` enters it. -/
def Kernel.enter (k : Kernel) (c : EnvPtr) : Kernel := { k with curenv := some c }

/-- Some environment in use makes the call. -/
def memStep (k : Kernel) (a : EnvPtr × MemCall) (k' : Kernel) : Prop :=
  (k.envs a.1).status ≠ .ENV_FREE ∧ k' = a.2.exec (k.enter a.1)

/-- The address that the call edits a leaf entry for. -/
def MemCall.target : MemCall → Word
  | .sys_mem_alloc _ va _ => va
  | .sys_mem_map _ _ _ dstva _ => dstva
  | .sys_mem_unmap _ va => va

def MemCall.permArg : MemCall → Word
  | .sys_mem_alloc _ _ perm => perm
  | .sys_mem_map _ _ _ _ perm => perm
  | .sys_mem_unmap _ _ => 0

/-- No page-number bit in `perm`, and no edit through the self-map entry. -/
def MemCall.Tame (a : EnvPtr × MemCall) : Prop :=
  a.2.permArg &&& pageNumberBits = 0 ∧ GET_L1_INDEX a.2.target ≠ uvptIndex

/-- A call that returns 0 leaves a leaf entry for the frame of exactly the page
    it is about: the page just allocated, or the page mapped at the source. -/
def MemCall.Installs (k : Kernel) (c : EnvPtr) (k' : Kernel) : MemCall → Prop
  | .sys_mem_alloc envid va _ => k'.trap.regs 0 = 0 →
      ∃ env ppage pm e, envid2env (k.enter c) envid true = some env ∧
        pageAlloc k.pm = some (ppage, pm) ∧
        mapping k'.pm (k.pgdir env) va = some e ∧ pteFrame e = ppage
  | .sys_mem_map srcid srcva dstid dstva _ => k'.trap.regs 0 = 0 →
      ∃ srcenv dstenv q t i e, envid2env (k.enter c) srcid false = some srcenv ∧
        envid2env (k.enter c) dstid false = some dstenv ∧
        pageLookup k.pm (k.pgdir srcenv) (ROUNDDOWN srcva) = some (q, t, i) ∧
        mapping k'.pm (k.pgdir dstenv) (ROUNDDOWN dstva) = some e ∧
        pteFrame e = pteFrame (k.pm.mem t i)
  | .sys_mem_unmap _ _ => True

/-! ## The invariant -/

/-- Memory is sound, and every environment in use has its directory among `dirs`. -/
structure VmInv (boot : Nat → Nat) (dirs : Finset Nat) (k : Kernel) : Prop where
  pm : PmapSound boot dirs k.pm
  dir : ∀ e, (k.envs e).status ≠ .ENV_FREE → k.pgdir e ∈ dirs

theorem VmInv.enter (h : VmInv boot dirs k) (c : EnvPtr) : VmInv boot dirs (k.enter c) :=
  ⟨h.pm, h.dir⟩

theorem VmInv.setReg0 (h : VmInv boot dirs k) (w : Word) : VmInv boot dirs (k.setReg0 w) :=
  ⟨h.pm, h.dir⟩

theorem VmInv.setPm (h : VmInv boot dirs k) (hs : PmapSound boot dirs s) :
    VmInv boot dirs (k.setPm s) := ⟨hs, h.dir⟩

/-- What `envid2env` finds while `c` runs is in use. -/
theorem envid2env_enter {envid : U32} {b : Bool} (hc : (k.envs c).status ≠ .ENV_FREE)
    (h : envid2env (k.enter c) envid b = some env) : (k.envs env).status ≠ .ENV_FREE := by
  rcases envid2env_cases h with hcur | hlive
  · cases hcur
    exact hc
  · exact hlive

/-! ## Steps -/

/-- The value returned is 0 only when the insertion succeeded. -/
theorem ok_of_reg0 {ok : Bool} (h : ((k.setPm s).setReg0 (if ok then 0 else ERR)).trap.regs 0 = 0) :
    ok = true := by
  cases ok with
  | true => rfl
  | false => exact absurd h (by simp [ERR])

theorem err_ne_zero (k : Kernel) : (k.setReg0 ERR).trap.regs 0 ≠ 0 := by
  simp [ERR]

theorem sysMemAlloc_spec (h : VmInv boot dirs k) (hc : (k.envs c).status ≠ .ENV_FREE)
    {envid : U32} (hva : GET_L1_INDEX va ≠ uvptIndex) (hperm : perm &&& pageNumberBits = 0) :
    VmInv boot dirs (sysMemAlloc (k.enter c) envid va perm) ∧
    MemCall.Installs k c (sysMemAlloc (k.enter c) envid va perm) (.sys_mem_alloc envid va perm) := by
  rcases sysMemAlloc_cases (k.enter c) envid va perm with heq | ⟨env, pp, pm, henv, halloc, heq⟩
  · rw [heq]
    exact ⟨(h.enter c).setReg0 ERR, fun h0 => absurd h0 (err_ne_zero _)⟩
  · rw [heq]
    obtain ⟨hpp, -, hvis, -⟩ := pageAlloc_spec halloc
    obtain ⟨hsound, -⟩ := (h.enter c).pm.pageAlloc halloc
    have hd : (k.enter c).pgdir env ∈ dirs := h.dir env (envid2env_enter hc henv)
    obtain ⟨hinv, -, hok, -⟩ := hsound.pageInsert hd hva hpp hvis hperm
    refine ⟨((h.enter c).setPm hinv).setReg0 _, fun h0 => ?_⟩
    obtain ⟨he, hframe⟩ := hok (ok_of_reg0 h0)
    exact ⟨env, pp, pm, _, henv, halloc, he, hframe⟩

theorem sysMemMap_spec (h : VmInv boot dirs k) (hc : (k.envs c).status ≠ .ENV_FREE)
    {srcid dstid : U32} {srcva dstva : Word} (hva : GET_L1_INDEX dstva ≠ uvptIndex)
    (hperm : perm &&& pageNumberBits = 0) :
    VmInv boot dirs (sysMemMap (k.enter c) srcid srcva dstid dstva perm) ∧
    MemCall.Installs k c (sysMemMap (k.enter c) srcid srcva dstid dstva perm)
      (.sys_mem_map srcid srcva dstid dstva perm) := by
  rcases sysMemMap_cases (k.enter c) srcid srcva dstid dstva perm with
    heq | ⟨srcenv, dstenv, q, t, i, hsrc, hdst, hlook, heq⟩
  · rw [heq]
    exact ⟨(h.enter c).setReg0 ERR, fun h0 => absurd h0 (err_ne_zero _)⟩
  · rw [heq]
    have hdsrc : (k.enter c).pgdir srcenv ∈ dirs := h.dir srcenv (envid2env_enter hc hsrc)
    have hddst : (k.enter c).pgdir dstenv ∈ dirs := h.dir dstenv (envid2env_enter hc hdst)
    -- The source slot is a valid entry of some table, so its page is in use.
    obtain ⟨hslot, hvalid⟩ := pageLookup_slot hlook
    have hused : visBit k.pm (pteFrame (k.pm.mem t i)) = true :=
      h.pm.visBit_named (leafSlot_isTable h.pm.tables hdsrc hslot) (leafSlot_lt hslot).2 hvalid
    have hva' : GET_L1_INDEX (ROUNDDOWN dstva) ≠ uvptIndex := by
      rw [ROUNDDOWN_L1]
      exact hva
    obtain ⟨hinv, -, hok, -⟩ := (h.enter c).pm.pageInsert hddst hva' (pteFrame_lt _) hused hperm
    have hpage : pa2page (PTE_ADDR ((k.enter c).pm.mem t i)) = pteFrame (k.pm.mem t i) :=
      pa2page_PTE_ADDR _
    rw [hpage]
    refine ⟨((h.enter c).setPm hinv).setReg0 _, fun h0 => ?_⟩
    obtain ⟨he, hframe⟩ := hok (ok_of_reg0 h0)
    exact ⟨srcenv, dstenv, q, t, i, _, hsrc, hdst, hlook, he, hframe⟩

theorem sysMemUnmap_spec (h : VmInv boot dirs k) (hc : (k.envs c).status ≠ .ENV_FREE)
    {envid : U32} (hva : GET_L1_INDEX va ≠ uvptIndex) :
    VmInv boot dirs (sysMemUnmap (k.enter c) envid va) := by
  rcases sysMemUnmap_cases (k.enter c) envid va with heq | ⟨env, henv, heq⟩
  · rw [heq]
    exact (h.enter c).setReg0 ERR
  · rw [heq]
    have hd : (k.enter c).pgdir env ∈ dirs := h.dir env (envid2env_enter hc henv)
    exact (h.enter c).setPm ((h.enter c).pm.pageRemove hd hva).1

/-- A tame call keeps the invariant and installs what it is about. -/
theorem memStep_spec {a : EnvPtr × MemCall} (h : VmInv boot dirs k) (hstep : memStep k a k')
    (htame : MemCall.Tame a) : VmInv boot dirs k' ∧ a.2.Installs k a.1 k' := by
  obtain ⟨c, call⟩ := a
  obtain ⟨hc, rfl⟩ := hstep
  obtain ⟨hperm, hva⟩ := htame
  cases call with
  | sys_mem_alloc envid va perm => exact sysMemAlloc_spec h hc hva hperm
  | sys_mem_map srcid srcva dstid dstva perm => exact sysMemMap_spec h hc hva hperm
  | sys_mem_unmap envid va => exact ⟨sysMemUnmap_spec h hc hva, trivial⟩

/-! ## Runs -/

/-- Environment 0 running over the directory of page 1024. -/
def boardCaller (s₁ : Pmap) : Kernel :=
  { boardKernel with
    pm := envNewDir s₁ 1024
    envs := fun e => if e = 0 then
        { zeroEnv with id := 2048, status := .ENV_RUNNABLE, pgdir := some 1024 }
      else zeroEnv }

theorem boardCaller_vm (h : pageAlloc boardBoot = some (1024, s₁)) :
    VmInv boardCount {1024} (boardCaller s₁) := by
  obtain ⟨hI, hnone, -⟩ := boardDir_ok h
  refine ⟨⟨hI, fun d hd va e hva he => ?_⟩, fun e he => ?_⟩
  · rw [Finset.mem_singleton.mp hd] at he
    exact absurd ((hnone hva).symm.trans he) (by simp)
  · by_cases h0 : e = 0
    · subst h0
      exact Finset.mem_singleton_self 1024
    · refine absurd ?_ he
      show (if e = 0 then _ else zeroEnv : Env).status = .ENV_FREE
      rw [if_neg h0]
      rfl

theorem boardCaller_live (s₁ : Pmap) : ((boardCaller s₁).envs 0).status ≠ .ENV_FREE := by
  intro h
  cases h

theorem boardCaller_self (s₁ : Pmap) : envid2env ((boardCaller s₁).enter 0) 0 true = some 0 := rfl

/-- The last page stands for a device and is never handed out. -/
theorem boardBoot_device : visBit boardBoot 0x3ffff = true := by
  have hper : PERIPHERAL_BASE >>> 12 = 258048 := by decide
  rw [boardBoot_eq, initBootPt_visBit, decide_eq_true_eq, inBootCode, inImage, BY2PG, NPAGE]
  omega

theorem pteFrame_or_mask (pa : Word) : pteFrame (pa ||| (0x3ffff000#64 ||| VALID)) = 0x3ffff := by
  have haddr : PTE_ADDR (pa ||| (0x3ffff000#64 ||| VALID)) = 0x3ffff000#64 := by
    have hv : PTE_ADDR (0x3ffff000#64 ||| VALID) = 0x3ffff000#64 := by decide
    rw [PTE_ADDR_or, hv, PTE_ADDR]
    ext i hi
    simp only [BitVec.getElem_or, BitVec.getElem_and]
    cases (0x3ffff000#64)[i] <;> simp
  rw [pteFrame, haddr]
  decide

end RpiMos
