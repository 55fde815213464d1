/-
  RpiMos.Kernel.IpcReport

  What `sys_ipc_can_send` reports: to the sender, whether the message was
  delivered, and to the receiver, in `ipc_perm`, whether a page came with it.
-/

import RpiMos.Kernel.Ipc
import RpiMos.Mm.PageWindow

namespace RpiMos

open Lib

variable {k k' : Kernel} {c e : EnvPtr} {envid : U32} {value srcva perm : Word}

/-! ## What the sender is told -/

/-- The value in `regs[0]` is negative as an `int`. -/
def Kernel.ReturnsError (k : Kernel) : Prop := (k.trap.regs 0).msb = true

/-- Message, state and address space of an environment are as before. -/
structure EnvKept (k k' : Kernel) (e : EnvPtr) : Prop where
  ipc_value : (k'.envs e).ipc_value = (k.envs e).ipc_value
  ipc_from : (k'.envs e).ipc_from = (k.envs e).ipc_from
  ipc_perm : (k'.envs e).ipc_perm = (k.envs e).ipc_perm
  ipc_recving : (k'.envs e).ipc_recving = (k.envs e).ipc_recving
  status : (k'.envs e).status = (k.envs e).status
  pgdir : (k'.envs e).pgdir = (k.envs e).pgdir
  mapping : ∀ va, mapping k'.pm (k'.pgdir e) va = mapping k.pm (k.pgdir e) va

theorem EnvKept.setReg0 (k : Kernel) (w : Word) (e : EnvPtr) : EnvKept k (k.setReg0 w) e :=
  ⟨rfl, rfl, rfl, rfl, rfl, rfl, fun _ => rfl⟩

/-- A call that fails leaves every environment as it was. -/
def FailedSendKeeps (k k' : Kernel) : Prop := k'.ReturnsError → ∀ e, EnvKept k k' e

/-- The page that goes with the message is there, if the call gets so far. -/
def SourceMapped (k : Kernel) (c : EnvPtr) (envid : U32) (srcva : Word) : Prop :=
  ∀ e, sendTarget k envid srcva = some e → srcva ≠ 0 → pageLookup k.pm (k.pgdir c) srcva ≠ none

/-- A failed send changes nothing, except when it fails for the page: by then the
    receiver has the message and has been woken. -/
theorem failedSend_keeps_iff (k : Kernel) (c : EnvPtr) (envid : U32) (value srcva perm : Word) :
    FailedSendKeeps k (sysIpcCanSend k c envid value srcva perm) ↔ SourceMapped k c envid srcva := by
  cases htarget : sendTarget k envid srcva with
  | none =>
      obtain ⟨r, -, hcall⟩ := sysIpcCanSend_none c value perm htarget
      rw [hcall]
      refine iff_of_true (fun _ e => EnvKept.setReg0 k r e) fun e he => ?_
      rw [htarget] at he
      cases he
  | some e =>
      obtain ⟨-, hrecv⟩ := sendTarget_eq_some htarget
      rw [sysIpcCanSend_some c value perm htarget]
      unfold FailedSendKeeps Kernel.ReturnsError
      rw [Kernel.setReg0_reg0]
      by_cases hmap : srcva = 0 ∨ pageLookup k.pm (k.pgdir c) srcva ≠ none
      · -- The call returns 0.
        have hzero : (ipcMap k c e srcva perm).2 = 0 := by
          unfold ipcMap
          split
          · rfl
          · cases hlook : pageLookup k.pm (k.pgdir c) srcva with
            | none => exact absurd hlook (hmap.resolve_left ‹_›)
            | some x => rfl
        rw [hzero]
        refine iff_of_true (fun h => absurd h (by decide)) fun _ _ h0 => hmap.resolve_left h0
      · rw [not_or, not_not] at hmap
        have herr : ipcMap k c e srcva perm = (k.pm, ERR) := by
          unfold ipcMap
          rw [if_neg hmap.1, hmap.2]
        rw [herr]
        have hneg : ERR.msb = true := by decide
        refine iff_of_false (fun h => ?_) fun h => h e htarget hmap.1 hmap.2
        have hkept := (h hneg e).ipc_recving
        rw [Kernel.setReg0_envs, Kernel.setPm_envs, Kernel.updEnv_envs, if_pos rfl] at hkept
        exact hrecv hkept.symm

/-- Environment 0 runs and has no page, and environment 1 waits for a message. -/
def oneWaiting : Kernel :=
  { boardKernel with
    pm := ⟨fun _ _ => 0, fun _ => ⟨0, 0⟩, fun _ => 0⟩
    envs := fun e =>
      if e = 0 then { zeroEnv with id := 0x800, status := .ENV_RUNNABLE, pgdir := some 1024 }
      else if e = 1 then { zeroEnv with
        id := 0x1001, status := .ENV_NOT_RUNNABLE, pgdir := some 1025, ipc_recving := 1 }
      else zeroEnv
    curenv := some 0 }

/-- Sending a page that is not mapped fails, and wakes the receiver all the same. -/
theorem failedSend_wakes : (sysIpcCanSend oneWaiting 0 0x1001 7 0x1000 0).trap.regs 0 = ERR ∧
    (oneWaiting.envs 1).status = .ENV_NOT_RUNNABLE ∧
    ((sysIpcCanSend oneWaiting 0 0x1001 7 0x1000 0).envs 1).status = .ENV_RUNNABLE ∧
    ((sysIpcCanSend oneWaiting 0 0x1001 7 0x1000 0).envs 1).ipc_value = 7 :=
  ⟨by decide, rfl, by decide, by decide⟩

/-! ## What the receiver is told -/

/-- The page that `c` has at `srcva` stands at the address that `e` asked for. -/
def PageSent (k k' : Kernel) (c e : EnvPtr) (srcva : Word) : Prop :=
  srcva ≠ 0 ∧ ∃ p w w', lookup k.pm (k.pgdir c) srcva = some (p, w) ∧
    lookup k'.pm (k'.pgdir e) (k.envs e).ipc_dstva = some (p, w')

/-- `ipc_perm` tells the receiver whether a page came, and where none was asked
    for or sent no mapping of the receiver changes. -/
structure TransferReported (k k' : Kernel) (c e : EnvPtr) (srcva : Word) : Prop where
  valid : isValid (k'.envs e).ipc_perm = true ↔ PageSent k k' c e srcva
  nopage : (k.envs e).ipc_dstva = 0 ∨ srcva = 0 → ∀ va, GET_L1_INDEX va ≠ uvptIndex →
    mapping k'.pm (k'.pgdir e) va = mapping k.pm (k.pgdir e) va

/-- There are pages for the tables that the receiver lacks. -/
def TablesFit (k : Kernel) (e : EnvPtr) : Prop :=
  FreePages (missingTables k.pm (k.pgdir e) (k.envs e).ipc_dstva) k.pm

/-- `perm` has the valid bit exactly when a page is sent, the tables for it fit,
    and no bit of `perm` makes its entry that of another page; and a receiver
    that asked for no page is sent none, or one that changes nothing. -/
structure TransferOk (k : Kernel) (c e : EnvPtr) (srcva perm : Word) : Prop where
  valid : isValid perm = true ↔ srcva ≠ 0 ∧ TablesFit k e ∧
    ∀ p w, lookup k.pm (k.pgdir c) srcva = some (p, w) → pa2page (leafEntry k.pm p perm) = p
  nopage : (k.envs e).ipc_dstva = 0 → srcva ≠ 0 → TablesFit k e →
    ∀ p w, lookup k.pm (k.pgdir c) srcva = some (p, w) →
      mapping k.pm (k.pgdir e) 0 = some (leafEntry k.pm p perm)

variable {boot : Nat → Nat} {dirs : Finset Nat}

/-- A send that returns 0 sends no page, or inserts the one at `srcva`. -/
theorem sysIpcCanSend_page (htarget : sendTarget k envid srcva = some e)
    (hret : (sysIpcCanSend k c envid value srcva perm).trap.regs 0 = 0) :
    srcva = 0 ∧ (sysIpcCanSend k c envid value srcva perm).pm = k.pm ∨
    srcva ≠ 0 ∧ ∃ p w, lookup k.pm (k.pgdir c) srcva = some (p, w) ∧
      (sysIpcCanSend k c envid value srcva perm).pm =
        (pageInsert k.pm (k.pgdir e) p (k.envs e).ipc_dstva perm).2 := by
  rw [sysIpcCanSend_some c value perm htarget] at hret ⊢
  rw [Kernel.setReg0_reg0] at hret
  rw [Kernel.setReg0_pm, Kernel.setPm_pm]
  unfold ipcMap at hret ⊢
  by_cases h0 : srcva = 0
  · rw [if_pos h0]
    exact Or.inl ⟨h0, rfl⟩
  · rw [if_neg h0] at hret ⊢
    cases hlook : pageLookup k.pm (k.pgdir c) srcva with
    | none =>
        rw [hlook] at hret
        exact absurd hret (by simp [ERR])
    | some x =>
        refine Or.inr ⟨h0, x.1, k.pm.mem x.2.1 x.2.2, ?_, rfl⟩
        rw [lookup, hlook]
        rfl

section Transfer

variable {k' : Kernel} (hI : PmapInv boot dirs k.pm) (hd : k.pgdir e ∈ dirs)
  (hself : ¬ IsSelfPage (k.envs e).ipc_dstva) (hdir : k'.pgdir e = k.pgdir e)
  (hpage : srcva = 0 ∧ k'.pm = k.pm ∨
    srcva ≠ 0 ∧ ∃ p w, lookup k.pm (k.pgdir c) srcva = some (p, w) ∧
      k'.pm = (pageInsert k.pm (k.pgdir e) p (k.envs e).ipc_dstva perm).2)

include hI hd hself hdir hpage

theorem pageSent_iff : PageSent k k' c e srcva ↔ srcva ≠ 0 ∧ TablesFit k e ∧
    ∀ p w, lookup k.pm (k.pgdir c) srcva = some (p, w) → pa2page (leafEntry k.pm p perm) = p := by
  rcases hpage with ⟨h0, -⟩ | ⟨h0, p, w, hsrc, hins⟩
  · exact iff_of_false (fun h => h.1 h0) fun h => h.1 h0
  · unfold PageSent
    rw [hsrc, hdir, hins, lookup_eq]
    rcases pageInsert_exact hI hd hself p perm with ⟨hfit, hmap⟩ | ⟨hfull, hmap, -⟩
    · rw [hmap]
      constructor
      · rintro ⟨-, q, x, y, ⟨⟩, hq⟩
        refine ⟨h0, hfit, ?_⟩
        rintro q y ⟨⟩
        exact (Prod.mk.inj (Option.some.inj hq)).1
      · rintro ⟨-, -, h⟩
        exact ⟨h0, p, w, _, rfl, by rw [Option.map_some, h p w rfl]⟩
    · rw [hmap]
      refine iff_of_false ?_ fun h => hfull h.2.1
      rintro ⟨-, q, x, y, -, hq⟩
      cases hq

theorem pageKept_iff : ((k.envs e).ipc_dstva = 0 ∨ srcva = 0 →
      ∀ va, GET_L1_INDEX va ≠ uvptIndex →
        mapping k'.pm (k'.pgdir e) va = mapping k.pm (k.pgdir e) va) ↔
    ((k.envs e).ipc_dstva = 0 → srcva ≠ 0 → TablesFit k e →
      ∀ p w, lookup k.pm (k.pgdir c) srcva = some (p, w) →
        mapping k.pm (k.pgdir e) 0 = some (leafEntry k.pm p perm)) := by
  rcases hpage with ⟨h0, hpm⟩ | ⟨h0, p, w, hsrc, hins⟩
  · exact iff_of_true (fun _ va _ => by rw [hpm, hdir]) fun _ h => absurd h0 h
  · by_cases hdst : (k.envs e).ipc_dstva = 0
    · rw [hins, hdir, hsrc, hdst]
      rw [hdst] at hself
      have hzero : GET_L1_INDEX 0 ≠ uvptIndex := by decide
      unfold TablesFit
      rw [hdst]
      rcases pageInsert_exact hI hd hself p perm with ⟨hfit, hmap⟩ | ⟨hfull, -, hg⟩
      · constructor
        · rintro h - - - q y ⟨⟩
          rw [← h (Or.inl rfl) 0 hzero, hmap]
        · intro h _ va _
          exact mapping_eq_of_mem
            (pageInsert_mapped_mem hI hd hself (h rfl h0 hfit p w rfl)) _ _
      · exact iff_of_true (fun _ va hva => hg.map_eq hd hva) fun _ _ hfit => absurd hfit hfull
    · exact iff_of_true (fun h => absurd h (not_or.mpr ⟨hdst, h0⟩)) fun h => absurd h hdst

end Transfer

/-- Environment 1 of `oneWaiting` with an address space of its own. -/
def waitingBoard (s₁ : Pmap) : Kernel :=
  { oneWaiting with
    pm := envNewDir s₁ 1024
    envs := fun e => { oneWaiting.envs e with pgdir := if e = 1 then some 1024 else none } }

end RpiMos
