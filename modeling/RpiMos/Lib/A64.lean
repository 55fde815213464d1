/-
  RpiMos.Lib.A64

  Straight-line A64 code that saves and restores registers: moves, system
  registers, and loads and stores of register pairs.  A run of `stp`s from one
  base leaves in each word the register stored there last, and a run of `ldp`s
  leaves in each register the word loaded there last.
-/

import RpiMos.Lib.ByteMem

namespace RpiMos.Lib

namespace A64

abbrev Gpr := Fin 31

/-- What a load or store names: `x0` to `x30`, or `xzr`. -/
inductive Xreg where
  | x (n : Gpr)
  | xzr
deriving DecidableEq

/-- What a load or store takes its address from. -/
inductive Base where
  | x (n : Gpr)
  | sp
deriving DecidableEq

inductive SysReg where
  | sp_el0
  | sp_el1
  | elr_el1
  | spsr_el1
  | far_el1
  | cntp_tval_el0
  | cntp_ctl_el0
deriving DecidableEq

/-- The registers of one processor and its memory.  `sp` is the stack pointer of
    the current exception level, and `pc` is kept up by branches only. -/
structure Cpu where
  x : Gpr → BitVec 64
  sp : BitVec 64
  pc : BitVec 64
  pstate : BitVec 64
  sys : SysReg → BitVec 64
  mem : ByteMem

/-- The flags N, Z, C and V. -/
def Cpu.nzcv (s : Cpu) : BitVec 4 := s.pstate.extractLsb' 28 4

def Cpu.read (s : Cpu) : Xreg → BitVec 64
  | .x n => s.x n
  | .xzr => 0

def Cpu.base (s : Cpu) : Base → BitVec 64
  | .x n => s.x n
  | .sp => s.sp

/-- A write to `xzr` is dropped. -/
def Cpu.write (s : Cpu) (r : Xreg) (v : BitVec 64) : Cpu :=
  match r with
  | .x n => { s with x := fun i => if i = n then v else s.x i }
  | .xzr => s

def Cpu.setSys (s : Cpu) (r : SysReg) (v : BitVec 64) : Cpu :=
  { s with sys := fun i => if i = r then v else s.sys i }

inductive Instr where
  /-- `mov xd, xn` and `mov xd, sp`. -/
  | mov (d : Gpr) (b : Base)
  /-- `mov sp, xn`. -/
  | movSp (n : Gpr)
  /-- `mov xd, #v` and `ldr xd, =v`. -/
  | movImm (d : Gpr) (v : BitVec 64)
  /-- `ldr xd, label`. -/
  | ldrLit (d : Gpr) (label : BitVec 64)
  | addSp (v : BitVec 64)
  | subSp (v : BitVec 64)
  | ldr (r : Xreg) (b : Base) (off : BitVec 64)
  | str (r : Xreg) (b : Base) (off : BitVec 64)
  | ldp (r₁ r₂ : Xreg) (b : Base) (off : BitVec 64)
  | stp (r₁ r₂ : Xreg) (b : Base) (off : BitVec 64)
  | mrs (d : Gpr) (r : SysReg)
  | msr (r : SysReg) (n : Xreg)
  /-- `msr daifclr, #v`. -/
  | msrDaifclr (v : BitVec 4)

def Cpu.step (s : Cpu) : Instr → Cpu
  | .mov d b => s.write (.x d) (s.base b)
  | .movSp n => { s with sp := s.x n }
  | .movImm d v => s.write (.x d) v
  | .ldrLit d label => s.write (.x d) (s.mem.ld64 label.toNat)
  | .addSp v => { s with sp := s.sp + v }
  | .subSp v => { s with sp := s.sp - v }
  | .ldr r b off => s.write r (s.mem.ld64 (s.base b + off).toNat)
  | .str r b off => { s with mem := s.mem.st64 (s.base b + off).toNat (s.read r) }
  | .ldp r₁ r₂ b off =>
      (s.write r₁ (s.mem.ld64 (s.base b + off).toNat)).write r₂
        (s.mem.ld64 (s.base b + off + 8).toNat)
  | .stp r₁ r₂ b off =>
      let mem := s.mem.st64 (s.base b + off).toNat (s.read r₁)
      { s with mem := mem.st64 (s.base b + off + 8).toNat (s.read r₂) }
  | .mrs d r => s.write (.x d) (s.sys r)
  | .msr r n => s.setSys r (s.read n)
  | .msrDaifclr v => { s with pstate := s.pstate &&& ~~~ (v.setWidth 64 <<< 6) }

def Cpu.exec (s : Cpu) (l : List Instr) : Cpu := l.foldl Cpu.step s

/-- A synchronous exception from EL0 to EL1, with the exceptions masked. -/
def Cpu.takeException (s : Cpu) (vector far : BitVec 64) : Cpu :=
  let s₁ := (((s.setSys .sp_el0 s.sp).setSys .elr_el1 s.pc).setSys .spsr_el1 s.pstate).setSys
    .far_el1 far
  { s₁ with sp := s.sys .sp_el1, pc := vector, pstate := 0x3c5 }

/-- `eret` from EL1 to EL0. -/
def Cpu.eret (s : Cpu) : Cpu :=
  { s.setSys .sp_el1 s.sp with
    sp := s.sys .sp_el0, pc := s.sys .elr_el1, pstate := s.sys .spsr_el1 }

/-- `blr xn`, where the next instruction is at `next`. -/
def Cpu.blr (s : Cpu) (n : Gpr) (next : BitVec 64) : Cpu :=
  { s.write (.x 30) next with pc := s.x n }

def Cpu.br (s : Cpu) (n : Gpr) : Cpu := { s with pc := s.x n }

/-- What the procedure call standard promises of a function that was entered in
    `s` and returned in `s'`. -/
structure Returned (s s' : Cpu) : Prop where
  pc : s'.pc = s.x 30
  sp : s'.sp = s.sp
  saved : ∀ r : Gpr, 19 ≤ r → r ≤ 29 → s'.x r = s.x r

variable {s : Cpu} {a : BitVec 64} {i j n : Nat}

@[simp] theorem exec_nil (s : Cpu) : s.exec [] = s := rfl

@[simp] theorem exec_cons (s : Cpu) (i : Instr) (l : List Instr) :
    s.exec (i :: l) = (s.step i).exec l := rfl

theorem exec_append (s : Cpu) (l l' : List Instr) : s.exec (l ++ l') = (s.exec l).exec l' :=
  List.foldl_append

@[simp] theorem write_x (s : Cpu) (n : Gpr) (v : BitVec 64) (i : Gpr) :
    (s.write (.x n) v).x i = if i = n then v else s.x i := rfl

@[simp] theorem write_sp (s : Cpu) (r : Xreg) (v : BitVec 64) : (s.write r v).sp = s.sp := by
  cases r <;> rfl

@[simp] theorem write_pc (s : Cpu) (r : Xreg) (v : BitVec 64) : (s.write r v).pc = s.pc := by
  cases r <;> rfl

@[simp] theorem write_pstate (s : Cpu) (r : Xreg) (v : BitVec 64) :
    (s.write r v).pstate = s.pstate := by
  cases r <;> rfl

@[simp] theorem write_sys (s : Cpu) (r : Xreg) (v : BitVec 64) : (s.write r v).sys = s.sys := by
  cases r <;> rfl

@[simp] theorem write_mem (s : Cpu) (r : Xreg) (v : BitVec 64) : (s.write r v).mem = s.mem := by
  cases r <;> rfl

@[simp] theorem br_x (s : Cpu) (n : Gpr) : (s.br n).x = s.x := rfl
@[simp] theorem br_sp (s : Cpu) (n : Gpr) : (s.br n).sp = s.sp := rfl
@[simp] theorem br_pc (s : Cpu) (n : Gpr) : (s.br n).pc = s.x n := rfl
@[simp] theorem br_pstate (s : Cpu) (n : Gpr) : (s.br n).pstate = s.pstate := rfl

@[simp] theorem blr_sp (s : Cpu) (n : Gpr) (v : BitVec 64) : (s.blr n v).sp = s.sp := rfl
@[simp] theorem blr_pstate (s : Cpu) (n : Gpr) (v : BitVec 64) :
    (s.blr n v).pstate = s.pstate := rfl
@[simp] theorem blr_mem (s : Cpu) (n : Gpr) (v : BitVec 64) : (s.blr n v).mem = s.mem := rfl

theorem blr_x_of_ne {n i : Gpr} (h : i ≠ 30) (v : BitVec 64) : (s.blr n v).x i = s.x i := if_neg h

/-- A write leaves the other registers alone. -/
theorem write_x_of_ne {r : Xreg} {n : Gpr} (h : r ≠ .x n) (v : BitVec 64) :
    (s.write r v).x n = s.x n := by
  cases r with
  | x m =>
      rw [write_x, if_neg]
      rintro rfl
      exact h rfl
  | xzr => rfl

/-- The address of word `j` above a base that leaves room for it. -/
theorem toNat_word (h : a.toNat + 8 * j < 2 ^ 64) :
    (a + BitVec.ofNat 64 (8 * j)).toNat = a.toNat + 8 * j := by
  rw [BitVec.toNat_add, BitVec.toNat_ofNat]
  omega

/-! ## Runs of pairs -/

/-- Two registers and the index of the pair of words they go with. -/
abbrev Pair := Xreg × Xreg × Nat

/-- `ldp r₁, r₂, [b, #16 * k]` for each. -/
def loads (b : Base) (l : List Pair) : List Instr :=
  l.map fun p => .ldp p.1 p.2.1 b (BitVec.ofNat 64 (16 * p.2.2))

/-- `stp r₁, r₂, [b, #16 * k]` for each. -/
def stores (b : Base) (l : List Pair) : List Instr :=
  l.map fun p => .stp p.1 p.2.1 b (BitVec.ofNat 64 (16 * p.2.2))

/-- The word that `loads` leaves in a register. -/
def loadedFrom (r : Xreg) : List Pair → Option Nat
  | [] => none
  | (r₁, r₂, k) :: l => (loadedFrom r l).or
      (if r₂ = r then some (2 * k + 1) else if r₁ = r then some (2 * k) else none)

/-- The register that `stores` leaves in a word. -/
def storedAt (j : Nat) : List Pair → Option Xreg
  | [] => none
  | (r₁, r₂, k) :: l => (storedAt j l).or
      (if j = 2 * k + 1 then some r₂ else if j = 2 * k then some r₁ else none)

/-- All pairs are within the first `n` words. -/
def Within (n : Nat) (l : List Pair) : Prop := ∀ p ∈ l, 2 * p.2.2 + 2 ≤ n

instance (n : Nat) (l : List Pair) : Decidable (Within n l) :=
  inferInstanceAs (Decidable (∀ p ∈ l, 2 * p.2.2 + 2 ≤ n))

/-- The addresses of the two words of a pair. -/
theorem pair_addrs {k : Nat} (h : a.toNat + 8 * n ≤ 2 ^ 64) (hk : 2 * k + 2 ≤ n) :
    (a + BitVec.ofNat 64 (16 * k)).toNat = a.toNat + 8 * (2 * k) ∧
    (a + BitVec.ofNat 64 (16 * k) + 8).toNat = a.toNat + 8 * (2 * k + 1) := by
  have h₁ : (a + BitVec.ofNat 64 (16 * k)).toNat = a.toNat + 8 * (2 * k) := by
    rw [BitVec.toNat_add, BitVec.toNat_ofNat]
    omega
  refine ⟨h₁, ?_⟩
  rw [BitVec.toNat_add, h₁]
  show (a.toNat + 8 * (2 * k) + 8) % 2 ^ 64 = _
  omega

section Loads

variable {b : Base} {l : List Pair}

/-- What a run of loads leaves alone. -/
theorem loads_rest (b : Base) (l : List Pair) (s : Cpu) :
    (s.exec (loads b l)).sp = s.sp ∧ (s.exec (loads b l)).pc = s.pc ∧
    (s.exec (loads b l)).pstate = s.pstate ∧ (s.exec (loads b l)).sys = s.sys ∧
    (s.exec (loads b l)).mem = s.mem := by
  induction l generalizing s with
  | nil => exact ⟨rfl, rfl, rfl, rfl, rfl⟩
  | cons p l ih =>
      obtain ⟨h₁, h₂, h₃, h₄, h₅⟩ := ih (s.step (.ldp p.1 p.2.1 b (BitVec.ofNat 64 (16 * p.2.2))))
      rw [loads, List.map_cons, exec_cons]
      refine ⟨h₁.trans ?_, h₂.trans ?_, h₃.trans ?_, h₄.trans ?_, h₅.trans ?_⟩ <;> simp [Cpu.step]

/-- The base of a run of loads is not among the registers it fills. -/
def Spared (b : Base) (l : List Pair) : Prop := ∀ n, b = .x n → loadedFrom (.x n) l = none

/-- A run of loads fills each register from the word named last for it. -/
theorem loads_x (hfit : (s.base b).toNat + 8 * n ≤ 2 ^ 64) (hin : Within n l)
    (hbase : Spared b l) (r : Gpr) :
    (s.exec (loads b l)).x r = (loadedFrom (.x r) l).elim (s.x r)
      fun j => s.mem.ld64 ((s.base b).toNat + 8 * j) := by
  induction l generalizing s with
  | nil => rfl
  | cons p l ih =>
      obtain ⟨r₁, r₂, k⟩ := p
      obtain ⟨ha₁, ha₂⟩ := pair_addrs (k := k) hfit (hin _ List.mem_cons_self)
      have hspared : ∀ m, b = .x m → loadedFrom (.x m) l = none ∧ r₂ ≠ .x m ∧ r₁ ≠ .x m := by
        intro m hm
        have hnone := hbase m hm
        rw [loadedFrom, Option.or_eq_none_iff] at hnone
        refine ⟨hnone.1, ?_, ?_⟩
        · rintro rfl
          simp at hnone
        · rintro rfl
          have := hnone.2
          split at this <;> simp at this
      generalize hs₁ : s.step (.ldp r₁ r₂ b (BitVec.ofNat 64 (16 * k))) = s₁
      have hmem : s₁.mem = s.mem := by simp [← hs₁, Cpu.step]
      have hb : s₁.base b = s.base b := by
        cases b with
        | sp => simp [← hs₁, Cpu.step, Cpu.base]
        | x m =>
            obtain ⟨-, h₂, h₁⟩ := hspared m rfl
            rw [← hs₁, Cpu.step]
            show (Cpu.write _ r₂ _).x m = s.x m
            rw [write_x_of_ne h₂, write_x_of_ne h₁]
      have hx : s₁.x r = if r₂ = .x r then s.mem.ld64 ((s.base b).toNat + 8 * (2 * k + 1))
          else if r₁ = .x r then s.mem.ld64 ((s.base b).toNat + 8 * (2 * k)) else s.x r := by
        rw [← hs₁, Cpu.step, ha₁, ha₂]
        split
        · rename_i h
          subst h
          simp
        · rename_i h
          rw [write_x_of_ne h]
          split
          · rename_i h'
            subst h'
            simp
          · rename_i h'
            rw [write_x_of_ne h']
      have hrest := ih (s := s₁) (by rw [hb]; exact hfit)
        (fun p hp => hin p (List.mem_cons_of_mem _ hp)) fun m hm => (hspared m hm).1
      rw [hb, hmem, hx] at hrest
      rw [loads, List.map_cons, exec_cons, hs₁, ← loads, hrest, loadedFrom]
      cases loadedFrom (.x r) l with
      | some j => rfl
      | none =>
          rw [Option.none_or]
          split
          · rfl
          · split <;> rfl

end Loads

section Stores

variable {b : Base} {l : List Pair}

/-- What a run of stores leaves alone. -/
theorem stores_rest (b : Base) (l : List Pair) (s : Cpu) :
    (s.exec (stores b l)).x = s.x ∧ (s.exec (stores b l)).sp = s.sp ∧
    (s.exec (stores b l)).pc = s.pc ∧ (s.exec (stores b l)).pstate = s.pstate ∧
    (s.exec (stores b l)).sys = s.sys := by
  induction l generalizing s with
  | nil => exact ⟨rfl, rfl, rfl, rfl, rfl⟩
  | cons p l ih => exact ih _

/-- A run of stores fills each word from the register named last for it. -/
theorem stores_ld64 (hfit : (s.base b).toNat + 8 * n ≤ 2 ^ 64) (hin : Within n l) (j : Nat) :
    (s.exec (stores b l)).mem.ld64 ((s.base b).toNat + 8 * j) =
      (storedAt j l).elim (s.mem.ld64 ((s.base b).toNat + 8 * j)) s.read := by
  induction l generalizing s with
  | nil => rfl
  | cons p l ih =>
      obtain ⟨r₁, r₂, k⟩ := p
      obtain ⟨ha₁, ha₂⟩ := pair_addrs (k := k) hfit (hin _ List.mem_cons_self)
      generalize hs₁ : s.step (.stp r₁ r₂ b (BitVec.ofNat 64 (16 * k))) = s₁
      have hb : s₁.base b = s.base b := by
        rw [← hs₁]
        cases b <;> rfl
      have hread : s₁.read = s.read := by
        funext r
        rw [← hs₁]
        cases r <;> rfl
      have hword : s₁.mem.ld64 ((s.base b).toNat + 8 * j) =
          if j = 2 * k + 1 then s.read r₂ else if j = 2 * k then s.read r₁
          else s.mem.ld64 ((s.base b).toNat + 8 * j) := by
        rw [← hs₁, Cpu.step, ha₁, ha₂]
        split
        · rename_i h
          subst h
          exact ByteMem.ld64_st64 _
        · rw [(ByteMem.same_st64 _ (by omega)).ld64]
          split
          · rename_i h
            subst h
            exact ByteMem.ld64_st64 _
          · exact (ByteMem.same_st64 _ (by omega)).ld64
      have hrest := ih (s := s₁) (by rw [hb]; exact hfit)
        fun q hq => hin q (List.mem_cons_of_mem _ hq)
      rw [hb, hread, hword] at hrest
      rw [stores, List.map_cons, exec_cons, hs₁, ← stores, hrest, storedAt]
      cases storedAt j l with
      | some r => rfl
      | none =>
          rw [Option.none_or]
          split
          · rfl
          · split <;> rfl

end Stores

end A64

end RpiMos.Lib
