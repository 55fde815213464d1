/-
  RpiMos.User.Pgfault

  A permission fault of a user program, from the faulting instruction through
  `SAVE_ALL`, `page_fault_handler`, `exc_handler` and `__asm_pgfault_handler` back
  to it.  The frame holds every register and the flags, but the way back needs a
  register for its last jump and never reads the word of the flags.
-/

import RpiMos.Kernel.TrapFrame

namespace RpiMos

open Lib A64

variable {u s s' : Cpu} {far xstacktop pgfault_handler : Word} {lo : Nat}

/-- What the linker fixes: the vectors, the variables `TRAPSP` and
    `__pgfault_handler`, and the instruction after the `blr` of
    `__asm_pgfault_handler`. -/
structure Labels where
  _vectors : Word
  TRAPSP : Word
  __pgfault_handler : Word
  afterCall : Word

variable {L : Labels}

/-! ## In the kernel -/

/-- The exception, the vector and `SAVE_ALL`. -/
def faultTaken (L : Labels) (u : Cpu) (far : Word) : Cpu :=
  ((u.takeException (L._vectors + 0x400) far).exec [.msr .cntp_ctl_el0 .xzr]).exec
    (SAVE_ALL L.TRAPSP)

/-- `synchronous_exception_handler` returned after a permission fault: memory is as
    `page_fault_handler` leaves it, but for the kernel stack below, down to `lo`. -/
structure KernelRan (L : Labels) (lo : Nat) (xstacktop pgfault_handler : Word) (s s' : Cpu) :
    Prop where
  sp : s'.sp = s.sp
  mem : ∀ a, ¬ (lo ≤ a ∧ a < s.sp.toNat) →
    s'.mem a = pageFaultHandler L.TRAPSP xstacktop pgfault_handler s.mem a

/-- `exc_handler`. -/
def excHandler (s : Cpu) : Cpu := (s.exec RECOVER_ALL).eret

/-- The kernel stack, `TRAPSP` and the exception stack do not overlap. -/
structure Layout (L : Labels) (lo : Nat) (xstacktop : Word) (u : Cpu) : Prop where
  room : lo + 288 ≤ (u.sys .sp_el1).toNat
  trapsp : L.TRAPSP.toNat + 8 ≤ lo ∨ (u.sys .sp_el1).toNat ≤ L.TRAPSP.toNat
  xstack : 288 ≤ xstacktop.toNat
  apart : xstacktop.toNat ≤ lo ∨ (u.sys .sp_el1).toNat ≤ xstacktop.toNat - 288

/-- The frame of a fault of `u`. -/
def faultFrame (u : Cpu) (far : Word) : Trapframe :=
  ⟨far, u.sp, u.pc, u.pstate, u.sys .cntp_tval_el0, u.x⟩

theorem faultTaken_saved (far : Word) (h : Layout L lo xstacktop u) :
    (faultTaken L u far).sp = u.sys .sp_el1 - 288 ∧
    (u.sys .sp_el1 - 288).toNat = (u.sys .sp_el1).toNat - 288 ∧
    trapframeAt (faultTaken L u far).mem (u.sys .sp_el1 - 288).toNat = faultFrame u far ∧
    (faultTaken L u far).mem.ld64 L.TRAPSP.toNat = u.sys .sp_el1 - 288 := by
  have hroom := h.room
  have htrap := h.trapsp
  have hF : (u.sys .sp_el1 - 288).toNat = (u.sys .sp_el1).toNat - 288 := by
    rw [BitVec.toNat_sub_of_le (by rw [BitVec.le_def]; show 288 ≤ _; omega)]
    rfl
  have hsaved := saveAll_saved (T := L.TRAPSP)
    (s := (u.takeException (L._vectors + 0x400) far).exec [.msr .cntp_ctl_el0 .xzr])
    (by show 288 ≤ (u.sys .sp_el1).toNat; omega)
    (by show _ ≤ (u.sys .sp_el1).toNat - 288 ∨ (u.sys .sp_el1).toNat ≤ _; omega)
  refine ⟨hsaved.sp, hF, ?_, hsaved.trapsp⟩
  rw [hF]
  exact hsaved.frame

/-- The program goes on in its handler, on the exception stack, with its registers
    and flags; below the top of that stack lies the frame of the fault. -/
structure Redirected (far xstacktop pgfault_handler : Word) (u s : Cpu) : Prop where
  x : s.x = u.x
  sp : s.sp = xstacktop - 288
  pc : s.pc = pgfault_handler
  pstate : s.pstate = u.pstate
  frame : trapframeAt s.mem (xstacktop - 288).toNat = faultFrame u far

theorem excHandler_redirected (h : Layout L lo xstacktop u)
    (hran : KernelRan L lo xstacktop pgfault_handler (faultTaken L u far) s) :
    Redirected far xstacktop pgfault_handler u (excHandler s) := by
  obtain ⟨hsp, hF, hframe, htrap⟩ := faultTaken_saved far h
  have hroom := h.room
  have hstack := h.xstack
  have hapart := h.apart
  have hlt := (u.sys .sp_el1).isLt
  have hX : (xstacktop - 288).toNat = xstacktop.toNat - 288 := by
    rw [BitVec.toNat_sub_of_le (by rw [BitVec.le_def]; exact hstack)]
    rfl
  have hap : RangesApart (u.sys .sp_el1 - 288).toNat (xstacktop - 288).toNat TF_SIZE := by
    unfold RangesApart
    rw [hF, hX, TF_SIZE]
    omega
  obtain ⟨hcopy, hback⟩ := pageFaultHandler_spec xstacktop pgfault_handler htrap
    (by rw [hF]; omega) hap
  rw [hframe] at hcopy hback
  -- The C code's own stack is below both frames, or off them.
  have hmem := hran.mem
  rw [hsp, hF] at hmem
  have hcopy' : trapframeAt s.mem (xstacktop - 288).toNat = faultFrame u far := by
    rw [← hcopy]
    apply trapframeAt_congr
    intro i hi
    rw [TF_SIZE] at hi
    exact hmem _ (by rw [hX]; omega)
  have hback' : trapframeAt s.mem s.sp.toNat =
      { faultFrame u far with sp_el0 := xstacktop - 288, elr_el1 := pgfault_handler } := by
    rw [hran.sp, hsp, ← hback]
    apply trapframeAt_congr
    intro i hi
    exact hmem _ (by rw [hF]; omega)
  have hrec := recoverAll_recovered (s := s) (by rw [hran.sp, hsp, hF]; omega)
  rw [hback'] at hrec
  refine ⟨hrec.x, hrec.sp_el0, hrec.elr_el1, hrec.spsr_el1, ?_⟩
  have hmem' : (excHandler s).mem = s.mem := hrec.mem
  rw [hmem', hcopy']

/-! ## In the program -/

/-- `__asm_pgfault_handler` up to its call. -/
def asmPgfaultHandlerCall (L : Labels) : List Instr :=
  [.ldr (.x 0) .sp 0,
   .ldrLit 10 L.__pgfault_handler]

def restoredPairs : List Pair :=
  [(.xzr, .x 0, 2), (.x 1, .x 2, 3), (.x 3, .x 4, 4), (.x 5, .x 6, 5), (.x 7, .x 8, 6),
   (.x 9, .x 10, 7), (.x 11, .x 12, 8), (.x 13, .x 14, 9), (.x 15, .x 16, 10), (.xzr, .x 18, 11),
   (.x 19, .x 20, 12), (.x 21, .x 22, 13), (.x 23, .x 24, 14), (.x 25, .x 26, 15),
   (.x 27, .x 28, 16), (.x 29, .x 30, 17)]

/-- `__asm_pgfault_handler` after its call, up to the jump. -/
def asmPgfaultHandlerRestore : List Instr :=
  [.mov 17 .sp,
   .ldp .xzr (.x 10) .sp (16 * 0),
   .movSp 10] ++ (loads (.x 17) restoredPairs ++
  [.ldr (.x 17) (.x 17) 16])

/-- The state in which the C handler is entered. -/
def handlerEntry (L : Labels) (s : Cpu) : Cpu :=
  (s.exec (asmPgfaultHandlerCall L)).blr 10 L.afterCall

/-- From the return of the C handler to the faulting instruction. -/
def resume (s : Cpu) : Cpu := (s.exec asmPgfaultHandlerRestore).br 17

/-- A C handler obeys the calling convention: it keeps what the convention says and
    the frame of its caller. -/
def Obeys (handler : Cpu → Cpu) : Prop := ∀ s, Returned s (handler s) ∧
  ∀ a, s.sp.toNat ≤ a → a < s.sp.toNat + TF_SIZE → (handler s).mem a = s.mem a

theorem restoredPairs_slot : ∀ r : Gpr, r ≠ 17 →
    loadedFrom (.x r) restoredPairs = some (5 + r.val) := by
  decide

/-- What the way back makes of the frame at the stack pointer. -/
structure TakenBack (tf : Trapframe) (s s' : Cpu) : Prop where
  x : ∀ r, r ≠ 17 → s'.x r = tf.regs r
  x17 : s'.x 17 = tf.elr_el1
  sp : s'.sp = tf.sp_el0
  pc : s'.pc = tf.elr_el1
  pstate : s'.pstate = s.pstate

theorem resume_takenBack (hfit : s.sp.toNat + 288 ≤ 2 ^ 64) :
    TakenBack (trapframeAt s.mem s.sp.toNat) s (resume s) := by
  have hfit' : s.sp.toNat + 8 * 36 ≤ 2 ^ 64 := hfit
  obtain ⟨-, h₁⟩ := pair_addrs (k := 0) hfit' (by omega)
  generalize hs₁ : s.exec [.mov 17 .sp, .ldp .xzr (.x 10) .sp (16 * 0), .movSp 10] = s₁
  have hx17 : s₁.x 17 = s.sp := by rw [← hs₁]; rfl
  have hsp₁ : s₁.sp = s.mem.ld64 (s.sp.toNat + 8) := by
    rw [← hs₁]
    show s.mem.ld64 (s.sp + BitVec.ofNat 64 (16 * 0) + 8).toNat = _
    rw [h₁]
  have hmem₁ : s₁.mem = s.mem := by rw [← hs₁]; rfl
  have hps₁ : s₁.pstate = s.pstate := by rw [← hs₁]; rfl
  have hspared : Spared (.x 17) restoredPairs := by
    intro n hn
    cases hn
    decide
  have hloads := loads_x (s := s₁) (b := .x 17) (l := restoredPairs) (n := 36)
    (by show (s₁.x 17).toNat + 8 * 36 ≤ 2 ^ 64; rw [hx17]; exact hfit) (by decide) hspared
  obtain ⟨hsp₂, -, hps₂, -, hmem₂⟩ := loads_rest (.x 17) restoredPairs s₁
  generalize hs₂ : s₁.exec (loads (.x 17) restoredPairs) = s₂ at hloads hsp₂ hps₂ hmem₂
  have hexec : resume s = (s₂.exec [.ldr (.x 17) (.x 17) 16]).br 17 := by
    rw [resume, asmPgfaultHandlerRestore, exec_append, hs₁, exec_append, hs₂]
  have hb : (s₁.base (.x 17)).toNat = s.sp.toNat := by rw [← hx17]; rfl
  rw [hb, hmem₁] at hloads
  have hx17₂ : s₂.x 17 = s.sp := by
    have hnone : loadedFrom (.x 17) restoredPairs = none := by decide
    rw [hloads 17, hnone, Option.elim_none, hx17]
  have hlast : s₂.mem.ld64 (s₂.x 17 + 16).toNat = (trapframeAt s.mem s.sp.toNat).elr_el1 := by
    have haddr : (s.sp + 16).toNat = s.sp.toNat + 8 * 2 := toNat_word (j := 2) (by omega)
    rw [hx17₂, haddr, hmem₂, hmem₁]
    rfl
  have hend : s₂.exec [.ldr (.x 17) (.x 17) 16] =
      s₂.write (.x 17) (s₂.mem.ld64 (s₂.x 17 + 16).toNat) := by
    rw [exec_cons, exec_nil, Cpu.step, Cpu.base]
  rw [hlast] at hend
  rw [hexec, hend]
  refine ⟨fun r hr => ?_, ?_, ?_, ?_, ?_⟩
  · rw [br_x, write_x, if_neg hr, hloads r, restoredPairs_slot r hr, Option.elim_some]
    have haddr : s.sp.toNat + 8 * (5 + r.val) = s.sp.toNat + 40 + 8 * r.val := by omega
    rw [haddr]
    rfl
  · rw [br_x, write_x, if_pos rfl]
  · rw [br_sp, write_sp, hsp₂, hsp₁]
    rfl
  · rw [br_pc, write_x, if_pos rfl]
  · rw [br_pstate, write_pstate, hps₂, hps₁]

/-! ## The whole way -/

/-- The registers and flags of `u` are back, and so is control. -/
structure Resumed (u s : Cpu) : Prop where
  x : s.x = u.x
  sp : s.sp = u.sp
  pc : s.pc = u.pc
  nzcv : s.nzcv = u.nzcv

/-- All of the way but the C code of the kernel and of the program. -/
def afterFault (L : Labels) (kernel handler : Cpu → Cpu) (u : Cpu) (far : Word) : Cpu :=
  resume (handler (handlerEntry L (excHandler (kernel (faultTaken L u far)))))

section Way

variable {kernel handler : Cpu → Cpu} (hl : Layout L lo xstacktop u)
  (hkernel : ∀ s, KernelRan L lo xstacktop pgfault_handler s (kernel s)) (hobeys : Obeys handler)

include hl hkernel

/-- The C handler gets the address of the fault, with the frame at its stack
    pointer and the flags of the program. -/
theorem handlerEntry_spec (far : Word) :
    (handlerEntry L (excHandler (kernel (faultTaken L u far)))).x 0 = far ∧
    (handlerEntry L (excHandler (kernel (faultTaken L u far)))).sp = xstacktop - 288 ∧
    (handlerEntry L (excHandler (kernel (faultTaken L u far)))).nzcv = u.nzcv ∧
    trapframeAt (handlerEntry L (excHandler (kernel (faultTaken L u far)))).mem
      (xstacktop - 288).toNat = faultFrame u far := by
  have hred := excHandler_redirected hl (hkernel (faultTaken L u far))
  generalize excHandler (kernel (faultTaken L u far)) = s at hred
  have hcall : s.exec (asmPgfaultHandlerCall L) =
      (s.write (.x 0) (s.mem.ld64 (s.sp + 0).toNat)).write (.x 10)
        (s.mem.ld64 L.__pgfault_handler.toNat) := by
    rw [asmPgfaultHandlerCall, exec_cons, exec_cons, exec_nil, Cpu.step, Cpu.step, write_mem,
      Cpu.base]
  have hzero : xstacktop - 288 + 0 = xstacktop - 288 := BitVec.add_zero _
  have hfar : s.mem.ld64 (xstacktop - 288).toNat = far := congrArg Trapframe.far_el1 hred.frame
  unfold handlerEntry
  rw [hcall]
  refine ⟨?_, ?_, ?_, ?_⟩
  · rw [blr_x_of_ne (by decide), write_x, if_neg (by decide), write_x, if_pos rfl, hred.sp, hzero,
      hfar]
  · rw [blr_sp, write_sp, write_sp, hred.sp]
  · rw [Cpu.nzcv, blr_pstate, write_pstate, write_pstate, hred.pstate]
    rfl
  · rw [blr_mem, write_mem, write_mem, hred.frame]

include hobeys

/-- What is back after the whole way: all but `x17`, which holds `pc`, and the
    flags, which are the C handler's. -/
theorem afterFault_spec (far : Word) :
    TakenBack (faultFrame u far)
      (handler (handlerEntry L (excHandler (kernel (faultTaken L u far)))))
      (afterFault L kernel handler u far) := by
  obtain ⟨-, hsp, -, hframe⟩ := handlerEntry_spec hl hkernel far
  unfold afterFault
  generalize handlerEntry L (excHandler (kernel (faultTaken L u far))) = e at hsp hframe
  obtain ⟨hret, hkeep⟩ := hobeys e
  have hstack := hl.xstack
  have hX : (xstacktop - 288).toNat = xstacktop.toNat - 288 := by
    rw [BitVec.toNat_sub_of_le (by rw [BitVec.le_def]; exact hstack)]
    rfl
  have hlt := xstacktop.isLt
  have hback := resume_takenBack (s := handler e) (by rw [hret.sp, hsp, hX]; omega)
  have hsame : trapframeAt (handler e).mem (handler e).sp.toNat = faultFrame u far := by
    rw [← hframe, hret.sp, hsp]
    apply trapframeAt_congr
    intro i hi
    rw [hsp] at hkeep
    exact hkeep _ (by omega) (by omega)
  rw [hsame] at hback
  exact hback

/-- The program goes on as if nothing had happened exactly when `x17` held the
    address of the faulting instruction and the C handler kept the flags. -/
theorem fault_resumed_iff :
    Resumed u (afterFault L kernel handler u far) ↔ u.x 17 = u.pc ∧
      (handler (handlerEntry L (excHandler (kernel (faultTaken L u far))))).nzcv =
        (handlerEntry L (excHandler (kernel (faultTaken L u far)))).nzcv := by
  have hback := afterFault_spec hl hkernel hobeys far
  obtain ⟨-, -, hnzcv, -⟩ := handlerEntry_spec hl hkernel far
  have hflags : (afterFault L kernel handler u far).nzcv =
      (handler (handlerEntry L (excHandler (kernel (faultTaken L u far))))).nzcv :=
    congrArg (BitVec.extractLsb' 28 4) hback.pstate
  rw [hnzcv, ← hflags]
  constructor
  · intro h
    refine ⟨?_, h.nzcv⟩
    rw [← congrFun h.x 17]
    exact hback.x17
  · rintro ⟨h17, hkept⟩
    refine ⟨?_, hback.sp, hback.pc, hkept⟩
    funext r
    by_cases hr : r = 17
    · subst hr
      exact hback.x17.trans h17.symm
    · exact hback.x r hr

end Way

/-! ## One fault -/

def boardLabels : Labels := ⟨0x70800, 0x90000, 0x408000, 0x400200⟩

/-- A program at 0x400100 with one value in all its general registers. -/
def faultingCpu (v : Word) : Cpu where
  x _ := v
  sp := 0x3effe000
  pc := 0x400100
  pstate := 0
  sys r := if r = .sp_el1 then 0x80000 else 0
  mem _ := 0

/-- C code of the kernel that does nothing else. -/
def plainKernel (s : Cpu) : Cpu :=
  { s with mem := pageFaultHandler boardLabels.TRAPSP 0x7f00000000 0x400180 s.mem }

/-- A C handler that returns at once. -/
def plainHandler (s : Cpu) : Cpu := { s with pc := s.x 30 }

theorem plainKernel_ran (s : Cpu) :
    KernelRan boardLabels 0x78000 0x7f00000000 0x400180 s (plainKernel s) :=
  ⟨rfl, fun _ _ => rfl⟩

theorem plainHandler_obeys : Obeys plainHandler :=
  fun _ => ⟨⟨rfl, rfl, fun _ _ _ => rfl⟩, fun _ _ _ => rfl⟩

theorem faultingCpu_layout (v : Word) :
    Layout boardLabels 0x78000 0x7f00000000 (faultingCpu v) := by
  refine ⟨?_, ?_, ?_, ?_⟩ <;> simp [faultingCpu, boardLabels]

theorem plainHandler_nzcv (s : Cpu) : (plainHandler s).nzcv = s.nzcv := rfl

/-- The registers come back when all of them held the address of the fault. -/
theorem faultingCpu_resumed : Resumed (faultingCpu 0x400100)
    (afterFault boardLabels plainKernel plainHandler (faultingCpu 0x400100) 0x7000) :=
  (fault_resumed_iff (faultingCpu_layout _) plainKernel_ran plainHandler_obeys).mpr
    ⟨rfl, plainHandler_nzcv _⟩

/-- A program whose `x17` was 0 goes on with another value there. -/
theorem fault_changes_x17 : ∃ u far, Layout boardLabels 0x78000 0x7f00000000 u ∧
    (∀ s, KernelRan boardLabels 0x78000 0x7f00000000 0x400180 s (plainKernel s)) ∧
    Obeys plainHandler ∧ u.x 17 = 0 ∧
    ¬ Resumed u (afterFault boardLabels plainKernel plainHandler u far) := by
  refine ⟨faultingCpu 0, 0x7000, faultingCpu_layout 0, plainKernel_ran, plainHandler_obeys, rfl, ?_⟩
  intro h
  have hback := afterFault_spec (faultingCpu_layout 0) plainKernel_ran plainHandler_obeys 0x7000
  have h17 := hback.x17
  rw [h.x] at h17
  have hne : (faultingCpu 0).x 17 ≠ (faultFrame (faultingCpu 0) 0x7000).elr_el1 := by
    show (0 : Word) ≠ 0x400100
    decide
  exact hne h17

end RpiMos
