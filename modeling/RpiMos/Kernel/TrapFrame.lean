/-
  RpiMos.Kernel.TrapFrame

  The trap frame in memory: `SAVE_ALL` and `RECOVER_ALL` of asm.h against the
  layout of `struct Trapframe`, and `page_fault_handler`, which copies the frame
  to the exception stack of the environment and redirects the return.
-/

import RpiMos.Lib.A64
import RpiMos.Kernel.Env

namespace RpiMos

open Lib A64

variable {m m' : ByteMem} {s s' : Cpu} {F T : Word} {i j n : Nat}

/-- `struct Trapframe` at address `a`. -/
def trapframeAt (m : ByteMem) (a : Nat) : Trapframe where
  far_el1 := m.ld64 a
  sp_el0 := m.ld64 (a + 8)
  elr_el1 := m.ld64 (a + 16)
  spsr_el1 := m.ld64 (a + 24)
  count_down := m.ld64 (a + 32)
  regs r := m.ld64 (a + 40 + 8 * r)

/-- `sizeof(struct Trapframe)`. -/
def TF_SIZE : Nat := 288

theorem trapframeAt_congr {a b : Nat} (h : ∀ i < TF_SIZE, m' (b + i) = m (a + i)) :
    trapframeAt m' b = trapframeAt m a := by
  have hword : ∀ i, i + 8 ≤ 288 → m'.ld64 (b + i) = m.ld64 (a + i) := by
    intro i hi
    apply ByteMem.ld64_congr
    intro k hk
    rw [Nat.add_assoc, Nat.add_assoc]
    apply h
    rw [TF_SIZE]
    omega
  have hregs : (fun r : Fin 31 => m'.ld64 (b + 40 + 8 * r)) =
      fun r : Fin 31 => m.ld64 (a + 40 + 8 * r) := by
    funext r
    rw [Nat.add_assoc, Nat.add_assoc]
    exact hword (40 + 8 * r) (by omega)
  have h0 : m'.ld64 b = m.ld64 a := hword 0 (by omega)
  unfold trapframeAt
  rw [h0, hword 8 (by omega), hword 16 (by omega), hword 24 (by omega), hword 32 (by omega), hregs]

/-! ## `SAVE_ALL` -/

/-- The pairs of registers that `SAVE_ALL` stores before it uses any. -/
def savedPairs : List Pair :=
  [(.x 29, .x 30, 17), (.x 27, .x 28, 16), (.x 25, .x 26, 15), (.x 23, .x 24, 14),
   (.x 21, .x 22, 13), (.x 19, .x 20, 12), (.x 17, .x 18, 11), (.x 15, .x 16, 10),
   (.x 13, .x 14, 9), (.x 11, .x 12, 8), (.x 9, .x 10, 7), (.x 7, .x 8, 6),
   (.x 5, .x 6, 5), (.x 3, .x 4, 4), (.x 1, .x 2, 3)]

/-- The rest of `SAVE_ALL`, with the address of the variable `TRAPSP`. -/
def saveSystem (TRAPSP : Word) : List Instr :=
  [.mrs 9 .cntp_tval_el0,
   .stp (.x 9) (.x 0) .sp (16 * 2),
   .mrs 10 .sp_el0,
   .mrs 11 .elr_el1,
   .mrs 12 .spsr_el1,
   .stp (.x 11) (.x 12) .sp (16 * 1),
   .mov 13 .sp,
   .mrs 9 .far_el1,
   .stp (.x 9) (.x 10) .sp (16 * 0),
   .movImm 14 TRAPSP,
   .str (.x 13) (.x 14) 0]

def SAVE_ALL (TRAPSP : Word) : List Instr :=
  .subSp 288 :: (stores .sp savedPairs ++ saveSystem TRAPSP)

/-- Every register but `x0` has its own slot of `regs`. -/
theorem savedPairs_slot : ∀ r : Gpr, r ≠ 0 → storedAt (5 + r) savedPairs = some (.x r) := by
  decide

/-- What `SAVE_ALL` leaves on the kernel stack and in `TRAPSP`. -/
structure Saved (T : Word) (s s' : Cpu) : Prop where
  sp : s'.sp = s.sp - 288
  frame : trapframeAt s'.mem (s.sp.toNat - 288) =
    ⟨s.sys .far_el1, s.sys .sp_el0, s.sys .elr_el1, s.sys .spsr_el1, s.sys .cntp_tval_el0, s.x⟩
  trapsp : s'.mem.ld64 T.toNat = s.sp - 288

/-- A word of the frame after a store to a word of the frame. -/
theorem ld64_slot (m : ByteMem) (a : Nat) (v : Word) (i j : Nat) :
    (m.st64 (a + 8 * i) v).ld64 (a + 8 * j) = if j = i then v else m.ld64 (a + 8 * j) := by
  split
  · rename_i h
    subst h
    exact ByteMem.ld64_st64 v
  · exact (ByteMem.same_st64 v (by omega)).ld64

/-- `saveSystem` fills the first six words of the frame. -/
theorem saveSystem_mem (T : Word) (hfit : s.sp.toNat + 288 ≤ 2 ^ 64) (j : Nat)
    (hT : T.toNat + 8 ≤ s.sp.toNat ∨ s.sp.toNat + 288 ≤ T.toNat) (hj : j < 36) :
    (s.exec (saveSystem T)).mem.ld64 (s.sp.toNat + 8 * j) =
      if j = 1 then s.sys .sp_el0 else if j = 0 then s.sys .far_el1
      else if j = 3 then s.sys .spsr_el1 else if j = 2 then s.sys .elr_el1
      else if j = 5 then s.x 0 else if j = 4 then s.sys .cntp_tval_el0
      else s.mem.ld64 (s.sp.toNat + 8 * j) := by
  have hmem : (s.exec (saveSystem T)).mem =
      (((((((s.mem.st64 (s.sp + BitVec.ofNat 64 (16 * 2)).toNat (s.sys .cntp_tval_el0)).st64
        (s.sp + BitVec.ofNat 64 (16 * 2) + 8).toNat (s.x 0)).st64
        (s.sp + BitVec.ofNat 64 (16 * 1)).toNat (s.sys .elr_el1)).st64
        (s.sp + BitVec.ofNat 64 (16 * 1) + 8).toNat (s.sys .spsr_el1)).st64
        (s.sp + BitVec.ofNat 64 (16 * 0)).toNat (s.sys .far_el1)).st64
        (s.sp + BitVec.ofNat 64 (16 * 0) + 8).toNat (s.sys .sp_el0)).st64
        (T + 0).toNat s.sp) := rfl
  have hfit' : s.sp.toNat + 8 * 36 ≤ 2 ^ 64 := hfit
  obtain ⟨h₄, h₅⟩ := pair_addrs (k := 2) hfit' (by omega)
  obtain ⟨h₂, h₃⟩ := pair_addrs (k := 1) hfit' (by omega)
  obtain ⟨h₀, h₁⟩ := pair_addrs (k := 0) hfit' (by omega)
  have hT0 : T + 0 = T := BitVec.add_zero T
  rw [hmem, h₀, h₁, h₂, h₃, h₄, h₅, hT0, (ByteMem.same_st64 _ (by omega)).ld64, ld64_slot,
    ld64_slot, ld64_slot, ld64_slot, ld64_slot, ld64_slot]

theorem saveSystem_trapsp (T : Word) : (s.exec (saveSystem T)).mem.ld64 T.toNat = s.sp ∧
    (s.exec (saveSystem T)).sp = s.sp := by
  refine ⟨?_, rfl⟩
  have hT0 : T + 0 = T := BitVec.add_zero T
  have hmem : ∃ m : ByteMem, (s.exec (saveSystem T)).mem = m.st64 (T + 0).toNat s.sp := ⟨_, rfl⟩
  obtain ⟨m, hm⟩ := hmem
  rw [hm, hT0]
  exact ByteMem.ld64_st64 s.sp

theorem saveAll_saved (hroom : 288 ≤ s.sp.toNat)
    (hT : T.toNat + 8 ≤ s.sp.toNat - 288 ∨ s.sp.toNat ≤ T.toNat) :
    Saved T s (s.exec (SAVE_ALL T)) := by
  have hF : (s.sp - 288).toNat = s.sp.toNat - 288 := by
    rw [BitVec.toNat_sub_of_le (by rw [BitVec.le_def]; exact hroom)]
    rfl
  have hlt := s.sp.isLt
  generalize hs₀ : s.step (.subSp 288) = s₀
  have hsp : s₀.sp = s.sp - 288 := by rw [← hs₀]; rfl
  have hx : s₀.x = s.x := by rw [← hs₀]; rfl
  have hsys : s₀.sys = s.sys := by rw [← hs₀]; rfl
  have hb : (s₀.base .sp).toNat = s.sp.toNat - 288 := by rw [← hF, ← hsp]; rfl
  have hword := stores_ld64 (b := .sp) (l := savedPairs) (n := 36) (by rw [hb]; omega) (by decide)
  obtain ⟨h₁, h₂, -, -, h₅⟩ := stores_rest .sp savedPairs s₀
  generalize hs₁ : s₀.exec (stores .sp savedPairs) = s₁ at hword h₁ h₂ h₅
  have hexec : s.exec (SAVE_ALL T) = s₁.exec (saveSystem T) := by
    rw [SAVE_ALL, exec_cons, hs₀, exec_append, hs₁]
  have hsp₁ : s₁.sp = s.sp - 288 := h₂.trans hsp
  have hslot := fun j hj => saveSystem_mem (s := s₁) T (by rw [hsp₁, hF]; omega) j
    (by rw [hsp₁, hF]; omega) hj
  simp only [hsp₁, hF, h₅, hsys, h₁, hx] at hslot
  obtain ⟨htrap, hsp'⟩ := saveSystem_trapsp (s := s₁) T
  rw [hexec]
  refine ⟨hsp'.trans hsp₁, ?_, htrap.trans hsp₁⟩
  rw [hb] at hword
  generalize s.sp.toNat - 288 = F at hslot hword ⊢
  have hregs : (fun r : Fin 31 => (s₁.exec (saveSystem T)).mem.ld64 (F + 40 + 8 * r)) = s.x := by
    funext r
    have haddr : F + 40 + 8 * (r : Nat) = F + 8 * (5 + r) := by omega
    rw [haddr, hslot _ (by omega)]
    by_cases h0 : r = 0
    · subst h0
      rfl
    · have hne : (r : Nat) ≠ 0 := fun h => h0 (Fin.ext h)
      have hw := hword (5 + r)
      rw [savedPairs_slot r h0] at hw
      rw [if_neg (by omega), if_neg (by omega), if_neg (by omega), if_neg (by omega),
        if_neg (by omega), if_neg (by omega), hw, Option.elim_some, Cpu.read, hx]
  have w0 := hslot 0 (by omega)
  have w1 := hslot 1 (by omega)
  have w2 := hslot 2 (by omega)
  have w3 := hslot 3 (by omega)
  have w4 := hslot 4 (by omega)
  simp only [Nat.reduceMul, Nat.add_zero] at w0 w1 w2 w3 w4
  unfold trapframeAt
  rw [hregs, w0, w1, w2, w3, w4]
  rfl

/-! ## `RECOVER_ALL` -/

def ARCH_TIMER_CTRL_ENABLE : Word := 1

def recoverSystem : List Instr :=
  [.mov 0 .sp,
   .ldp (.x 9) (.x 10) .sp (16 * 0),
   .ldp (.x 11) (.x 12) .sp (16 * 1),
   .msr .spsr_el1 (.x 12),
   .msr .far_el1 (.x 9),
   .ldp (.x 9) (.x 0) .sp (16 * 2),
   .msr .elr_el1 (.x 11),
   .msr .sp_el0 (.x 10),
   .msr .cntp_tval_el0 (.x 9)]

def recoveredPairs : List Pair :=
  [(.x 1, .x 2, 3), (.x 3, .x 4, 4), (.x 5, .x 6, 5), (.x 7, .x 8, 6), (.x 9, .x 10, 7),
   (.x 11, .x 12, 8), (.x 13, .x 14, 9), (.x 15, .x 16, 10), (.x 17, .x 18, 11),
   (.x 19, .x 20, 12), (.x 21, .x 22, 13), (.x 23, .x 24, 14), (.x 25, .x 26, 15),
   (.x 27, .x 28, 16)]

/-- The end of `RECOVER_ALL`, with `IRQ_OPEN` in it. -/
def recoverEnd : List Instr :=
  [.addSp 288,
   .msrDaifclr 2,
   .movImm 29 ARCH_TIMER_CTRL_ENABLE,
   .msr .cntp_ctl_el0 (.x 29),
   .ldp (.x 29) (.x 30) .sp (-16)]

def RECOVER_ALL : List Instr := recoverSystem ++ (loads .sp recoveredPairs ++ recoverEnd)

theorem recoveredPairs_slot : ∀ r : Gpr, r ≠ 0 → r ≠ 29 → r ≠ 30 →
    loadedFrom (.x r) recoveredPairs = some (5 + r.val) := by
  decide

/-- What `RECOVER_ALL` takes out of the frame at the stack pointer. -/
structure Recovered (tf : Trapframe) (s s' : Cpu) : Prop where
  x : s'.x = tf.regs
  sp_el0 : s'.sys .sp_el0 = tf.sp_el0
  elr_el1 : s'.sys .elr_el1 = tf.elr_el1
  spsr_el1 : s'.sys .spsr_el1 = tf.spsr_el1
  mem : s'.mem = s.mem

/-- `recoverSystem` sets the system registers and `x0`. -/
theorem recoverSystem_spec (hfit : s.sp.toNat + 288 ≤ 2 ^ 64) :
    (s.exec recoverSystem).sp = s.sp ∧ (s.exec recoverSystem).mem = s.mem ∧
    (s.exec recoverSystem).x 0 = (trapframeAt s.mem s.sp.toNat).regs 0 ∧
    (s.exec recoverSystem).sys .sp_el0 = (trapframeAt s.mem s.sp.toNat).sp_el0 ∧
    (s.exec recoverSystem).sys .elr_el1 = (trapframeAt s.mem s.sp.toNat).elr_el1 ∧
    (s.exec recoverSystem).sys .spsr_el1 = (trapframeAt s.mem s.sp.toNat).spsr_el1 := by
  have hfit' : s.sp.toNat + 8 * 36 ≤ 2 ^ 64 := hfit
  obtain ⟨-, h₅⟩ := pair_addrs (k := 2) hfit' (by omega)
  obtain ⟨h₂, h₃⟩ := pair_addrs (k := 1) hfit' (by omega)
  obtain ⟨-, h₁⟩ := pair_addrs (k := 0) hfit' (by omega)
  refine ⟨rfl, rfl, ?_, ?_, ?_, ?_⟩
  · show s.mem.ld64 (s.sp + BitVec.ofNat 64 (16 * 2) + 8).toNat = _
    rw [h₅]
    rfl
  · show s.mem.ld64 (s.sp + BitVec.ofNat 64 (16 * 0) + 8).toNat = _
    rw [h₁]
    rfl
  · show s.mem.ld64 (s.sp + BitVec.ofNat 64 (16 * 1)).toNat = _
    rw [h₂]
    rfl
  · show s.mem.ld64 (s.sp + BitVec.ofNat 64 (16 * 1) + 8).toNat = _
    rw [h₃]
    rfl

theorem recoverAll_recovered (hfit : s.sp.toNat + 288 ≤ 2 ^ 64) :
    Recovered (trapframeAt s.mem s.sp.toNat) s (s.exec RECOVER_ALL) := by
  obtain ⟨hsp, hmem, hx0, hsp0, helr, hspsr⟩ := recoverSystem_spec hfit
  generalize hs₁ : s.exec recoverSystem = s₁ at hsp hmem hx0 hsp0 helr hspsr
  have hloads := loads_x (s := s₁) (b := .sp) (l := recoveredPairs) (n := 36)
    (by show s₁.sp.toNat + 8 * 36 ≤ 2 ^ 64; rw [hsp]; exact hfit) (by decide)
    fun n hn => by cases hn
  obtain ⟨hsp₂, -, -, hsys₂, hmem₂⟩ := loads_rest .sp recoveredPairs s₁
  generalize hs₂ : s₁.exec (loads .sp recoveredPairs) = s₂ at hloads hsp₂ hsys₂ hmem₂
  have hexec : s.exec RECOVER_ALL = s₂.exec recoverEnd := by
    rw [RECOVER_ALL, exec_append, hs₁, exec_append, hs₂]
  have hb : (s₁.base .sp).toNat = s.sp.toNat := by rw [← hsp]; rfl
  rw [hb, hmem] at hloads
  have hspend : s₂.sp = s.sp := hsp₂.trans hsp
  have hmemend : s₂.mem = s.mem := hmem₂.trans hmem
  have haddr : (s₂.sp + 288 + (-16)) = s.sp + BitVec.ofNat 64 (8 * 34) := by
    rw [hspend, BitVec.add_assoc]
    rfl
  have haddr' : (s₂.sp + 288 + (-16) + 8) = s.sp + BitVec.ofNat 64 (8 * 35) := by
    rw [hspend, BitVec.add_assoc, BitVec.add_assoc]
    rfl
  rw [hexec]
  refine ⟨?_, ?_, ?_, ?_, hmemend⟩
  · funext r
    by_cases h30 : r = 30
    · subst h30
      show s₂.mem.ld64 (s₂.sp + 288 + (-16) + 8).toNat = _
      rw [haddr', toNat_word (by omega), hmemend]
      rfl
    · by_cases h29 : r = 29
      · subst h29
        show s₂.mem.ld64 (s₂.sp + 288 + (-16)).toNat = _
        rw [haddr, toNat_word (by omega), hmemend]
        rfl
      · have hx : (s₂.exec recoverEnd).x r = s₂.x r := by
          show (if r = 30 then _ else if r = 29 then _ else if r = 29 then _ else s₂.x r) = s₂.x r
          rw [if_neg h30, if_neg h29, if_neg h29]
        rw [hx, hloads r]
        by_cases h0 : r = 0
        · subst h0
          exact hx0
        · rw [recoveredPairs_slot r h0 h29 h30, Option.elim_some]
          show _ = s.mem.ld64 (s.sp.toNat + 40 + 8 * (r : Nat))
          congr 1
          omega
  · show s₂.sys .sp_el0 = _
    rw [hsys₂, hsp0]
  · show s₂.sys .elr_el1 = _
    rw [hsys₂, helr]
  · show s₂.sys .spsr_el1 = _
    rw [hsys₂, hspsr]

/-! ## `page_fault_handler` -/

/-- The second loop of `bcopy`. -/
def bcopyBytes (m : ByteMem) (src dst : Nat) : Nat → ByteMem
  | 0 => m
  | n + 1 => bcopyBytes (m.st8 dst (m.ld8 src)) (src + 1) (dst + 1) n

/-- `bcopy` of kernel/main.c: words of four bytes, then the bytes left. -/
def bcopy (m : ByteMem) (src dst : Nat) : Nat → ByteMem
  | n + 4 => bcopy (m.st32 dst (m.ld32 src)) (src + 4) (dst + 4) n
  | n => bcopyBytes m src dst n

/-- The ranges of a copy are disjoint. -/
def RangesApart (src dst n : Nat) : Prop := src + n ≤ dst ∨ dst + n ≤ src

/-- `m'` is `m` with `n` bytes copied. -/
structure BytesCopied (src dst n : Nat) (m m' : ByteMem) : Prop where
  here : ∀ i < n, m' (dst + i) = m (src + i)
  other : ∀ x, x < dst ∨ dst + n ≤ x → m' x = m x

/-- A copy of the first `k` bytes, then of the rest. -/
theorem BytesCopied.append {src dst k l : Nat} {m₁ : ByteMem} (h : BytesCopied src dst k m m₁)
    (h' : BytesCopied (src + k) (dst + k) n m₁ m') (hl : k + n = l) (hap : RangesApart src dst l) :
    BytesCopied src dst l m m' := by
  subst hl
  unfold RangesApart at hap
  refine ⟨fun i hi => ?_, fun x hx => ?_⟩
  · by_cases hk : i < k
    · rw [h'.other _ (by omega), h.here i hk]
    · have hi' := h'.here (i - k) (by omega)
      rw [show dst + k + (i - k) = dst + i by omega, show src + k + (i - k) = src + i by omega]
        at hi'
      rw [hi', h.other _ (by omega)]
  · rw [h'.other x (by omega), h.other x (by omega)]

theorem copied_byte (m : ByteMem) (src dst : Nat) : BytesCopied src dst 1 m (m.st8 dst (m.ld8 src)) := by
  refine ⟨fun i hi => ?_, fun x hx => if_neg (by omega)⟩
  obtain rfl : i = 0 := by omega
  exact if_pos rfl

theorem copied_word (m : ByteMem) (src dst : Nat) : BytesCopied src dst 4 m (m.st32 dst (m.ld32 src)) := by
  refine ⟨fun i hi => ?_, fun x hx => ByteMem.st32_of_out _ (by omega)⟩
  rw [ByteMem.st32, if_pos (by omega), Nat.add_sub_cancel_left, ByteMem.extract_ld32 hi]

theorem bcopyBytes_spec {src dst : Nat} (hap : RangesApart src dst n) :
    BytesCopied src dst n m (bcopyBytes m src dst n) := by
  induction n generalizing m src dst with
  | zero => exact ⟨fun i hi => absurd hi (Nat.not_lt_zero i), fun _ _ => rfl⟩
  | succ n ih =>
      have hap₁ : RangesApart (src + 1) (dst + 1) n := by
        unfold RangesApart at hap ⊢
        omega
      have hrest : BytesCopied (src + 1) (dst + 1) n (m.st8 dst (m.ld8 src))
          (bcopyBytes m src dst (n + 1)) := ih hap₁
      exact (copied_byte m src dst).append hrest (Nat.add_comm 1 n) hap

theorem bcopy_spec {src dst : Nat} (hap : RangesApart src dst n) :
    BytesCopied src dst n m (bcopy m src dst n) := by
  fun_induction bcopy m src dst n with
  | case1 m src dst n ih =>
      have hrest := ih (by unfold RangesApart at hap ⊢; omega)
      exact (copied_word m src dst).append hrest (Nat.add_comm 4 n) hap
  | case2 m src dst n => exact bcopyBytes_spec hap

/-- `page_fault_handler`, with what it reads of `*curenv` and the address of
    `TRAPSP`. -/
def pageFaultHandler (TRAPSP xstacktop pgfault_handler : Word) (m : ByteMem) : ByteMem :=
  let tf := m.ld64 TRAPSP.toNat
  let m₁ := bcopy m tf.toNat (xstacktop - 288).toNat TF_SIZE
  let m₂ := m₁.st64 (tf + 8).toNat (xstacktop - 288)
  m₂.st64 (tf + 16).toNat pgfault_handler

/-- The frame is copied to the exception stack, and the return goes to the handler
    on that stack. -/
theorem pageFaultHandler_spec {tf : Word} (xstacktop pgfault_handler : Word) (ht : m.ld64 T.toNat = tf)
    (hfit : tf.toNat + 288 ≤ 2 ^ 64) (hap : RangesApart tf.toNat (xstacktop - 288).toNat TF_SIZE) :
    trapframeAt (pageFaultHandler T xstacktop pgfault_handler m) (xstacktop - 288).toNat =
      trapframeAt m tf.toNat ∧
    trapframeAt (pageFaultHandler T xstacktop pgfault_handler m) tf.toNat =
      { trapframeAt m tf.toNat with
        sp_el0 := xstacktop - 288
        elr_el1 := pgfault_handler } := by
  have hcopy := bcopy_spec (m := m) hap
  have h₁ : (tf + 8).toNat = tf.toNat + 8 * 1 := toNat_word (j := 1) (by omega)
  have h₂ : (tf + 16).toNat = tf.toNat + 8 * 2 := toNat_word (j := 2) (by omega)
  unfold pageFaultHandler
  simp only [ht, h₁, h₂]
  generalize (xstacktop - 288).toNat = X at *
  generalize hF : tf.toNat = F at *
  generalize bcopy m F X TF_SIZE = m₁ at *
  unfold RangesApart at hap
  rw [TF_SIZE] at hap hcopy
  refine ⟨trapframeAt_congr fun i hi => ?_, ?_⟩
  · rw [TF_SIZE] at hi
    rw [ByteMem.same_st64 _ (b := X + i) (n := 1) (by omega) _ (by omega) (by omega),
      ByteMem.same_st64 _ (b := X + i) (n := 1) (by omega) _ (by omega) (by omega)]
    exact hcopy.here i hi
  · -- The source of the copy is still there; two of its words have been replaced.
    have hold : trapframeAt m₁ F = trapframeAt m F := by
      apply trapframeAt_congr
      intro i hi
      rw [TF_SIZE] at hi
      exact hcopy.other _ (by omega)
    rw [← hold]
    have hword : ∀ j, j ≠ 1 → j ≠ 2 →
        ((m₁.st64 (F + 8 * 1) (xstacktop - 288)).st64 (F + 8 * 2) pgfault_handler).ld64
          (F + 8 * j) = m₁.ld64 (F + 8 * j) := by
      intro j hj₁ hj₂
      rw [ld64_slot, if_neg hj₂, ld64_slot, if_neg hj₁]
    have w₁ : ((m₁.st64 (F + 8 * 1) (xstacktop - 288)).st64 (F + 8 * 2) pgfault_handler).ld64
        (F + 8 * 1) = xstacktop - 288 := by
      rw [ld64_slot, if_neg (by omega), ld64_slot, if_pos rfl]
    have w₂ : ((m₁.st64 (F + 8 * 1) (xstacktop - 288)).st64 (F + 8 * 2) pgfault_handler).ld64
        (F + 8 * 2) = pgfault_handler := by
      rw [ld64_slot, if_pos rfl]
    generalize (m₁.st64 (F + 8 * 1) (xstacktop - 288)).st64 (F + 8 * 2) pgfault_handler = m₂
      at hword w₁ w₂
    have hregs : (fun r : Fin 31 => m₂.ld64 (F + 40 + 8 * r)) =
        fun r : Fin 31 => m₁.ld64 (F + 40 + 8 * r) := by
      funext r
      have haddr : F + 40 + 8 * (r : Nat) = F + 8 * (5 + r) := by omega
      rw [haddr, hword _ (by omega) (by omega)]
    have w₀ := hword 0 (by omega) (by omega)
    have w₃ := hword 3 (by omega) (by omega)
    have w₄ := hword 4 (by omega) (by omega)
    simp only [Nat.reduceMul, Nat.add_zero] at w₀ w₁ w₂ w₃ w₄
    unfold trapframeAt
    rw [hregs, w₀, w₁, w₂, w₃, w₄]

end RpiMos
