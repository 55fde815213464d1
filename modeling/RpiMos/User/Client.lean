/-
  RpiMos.User.Client

  A user process and its descriptors: the pages it has, the memory behind them,
  and the system calls with which user/fd.c, user/file.c and user/pipe.c change
  the pages.  Whether the kernel has the memory that a call needs is part of the
  state, as in the file server's.
-/

import RpiMos.User.Pipe
import RpiMos.User.PipeRefs
import RpiMos.User.PageViews
import RpiMos.User.Spawn

namespace RpiMos

open Lib

def MAXFD : Nat := 32
def SYS_mem_unmap : U32 := 7
def O_WRONLY : U32 := 1
def O_ACCMODE : U32 := 3

/-! ## Addresses -/

theorem intLt_iff {i : U32} {n : Word} : intLt i n = true ↔ (intWord i).toNat < n.toNat := by
  rw [intLt, BitVec.ult]
  exact decide_eq_true_iff

/-- `INDEX2DATA` of any `int`. -/
def dataVa (fdnum : U32) : Word := 0x80000000#64 + fdnum.signExtend 64 * 0x40000000#64

def fd2num (fd : Word) : U32 := ((fd - 0x70000000#64) / 4096#64).setWidth 32

def fd2data (fd : Word) : Word := dataVa (fd2num fd)

/-- The page of an address, as the walks of the page tables find it. -/
def pageOf (va : Word) : Vpn := vpn va.toNat

/-! ## Pages -/

/-- What is in a valid entry of a page table. -/
structure UserPte where
  frame : Nat
  perm : Word

structure Client where
  pages : Vpn → Option UserPte
  /-- The memory, by address. -/
  mem : ByteMem
  /-- The frame that the kernel has for the next page it is asked for, for the one
      after it, and so on; `none` when it refuses. -/
  answers : Nat → Option Nat
  calls : Nat

/-- A function of the program: an error is the negative `int` it returns. -/
abbrev ClientM := Prog Client U32

namespace Client

/-- The test that `fd_alloc` and `fd_lookup` make in the windows. -/
def mapped (s : Client) (va : Word) : Bool := (s.pages (pageOf va)).isSome

def answer (s : Client) : Option Nat := s.answers s.calls

/-- The kernel has been asked once more. -/
def asked (s : Client) : Client := { s with calls := s.calls + 1 }

def setPage (s : Client) (v : Vpn) (o : Option UserPte) : Client :=
  { s with pages := Function.update s.pages v o }

/-- The address at which a page starts. -/
def start (v : Vpn) : Nat := v.val * BY2PG

/-- A page of zeros. -/
def allocPage (s : Client) (v : Vpn) (pte : UserPte) : Client :=
  { s.setPage v (some pte) with mem := s.mem.zero (start v) BY2PG }

/-- The page at `src` is mapped at `dst` too. -/
def copyPage (s : Client) (src dst : Vpn) (pte : UserPte) : Client :=
  { s.setPage dst (some pte) with mem := s.mem.fill s.mem (start src) (start dst) BY2PG }

@[simp] theorem asked_pages (s : Client) : s.asked.pages = s.pages := rfl
@[simp] theorem asked_mem (s : Client) : s.asked.mem = s.mem := rfl
@[simp] theorem asked_answers (s : Client) : s.asked.answers = s.answers := rfl
@[simp] theorem asked_calls (s : Client) : s.asked.calls = s.calls + 1 := rfl

variable {s : Client} {v w : Vpn} {o : Option UserPte} {pte : UserPte}

@[simp] theorem setPage_self : (s.setPage v o).pages v = o := Function.update_self _ _ _

theorem setPage_of_ne (h : w ≠ v) : (s.setPage v o).pages w = s.pages w := Function.update_of_ne h _ _

@[simp] theorem allocPage_pages : (s.allocPage v pte).pages = (s.setPage v (some pte)).pages := rfl
@[simp] theorem copyPage_pages : (s.copyPage w v pte).pages = (s.setPage v (some pte)).pages := rfl

end Client

/-! ## System calls -/

/-- `-1`, which the kernel returns whatever the reason. -/
def REFUSED : U32 := BitVec.allOnes 32

/-- `syscall_mem_alloc(0, va, perm)`. -/
def memAlloc (va perm : Word) : ClientM U32 := do
  if KERNBASE ≤ va then pure REFUSED
  else
    let s ← Prog.get
    Prog.modify Client.asked
    match s.answer with
    | none => pure REFUSED
    | some frame =>
        Prog.modify fun s => s.allocPage (pageOf va) ⟨frame, perm ||| VALID⟩
        pure 0

/-- `syscall_mem_map(0, srcva, 0, dstva, perm)`. -/
def memMap (srcva dstva perm : Word) : ClientM U32 := do
  if KERNBASE ≤ srcva ∨ KERNBASE ≤ dstva then pure REFUSED
  else
    let s ← Prog.get
    match s.pages (pageOf srcva) with
    | none => pure REFUSED
    | some pte =>
        Prog.modify Client.asked
        match s.answer with
        | none => pure REFUSED
        | some _ =>
            Prog.modify fun s => s.copyPage (pageOf srcva) (pageOf dstva) ⟨pte.frame, perm ||| VALID⟩
            pure 0

/-- `syscall_mem_unmap(0, va)`: it returns what is in the register, its own number. -/
def memUnmap (va : Word) : ClientM U32 := do
  if KERNBASE ≤ va then pure REFUSED
  else
    Prog.modify fun s => s.setPage (pageOf va) none
    pure SYS_mem_unmap

/-- A store to a page that is not mapped brings a page of zeros. -/
def touchPage (va : Word) : ClientM PUnit := do
  let s ← Prog.get
  if s.mapped va then pure ⟨⟩
  else if va < 4096 then Prog.stop "^^^^^^^^^TOO LOW^^^^^^^^"
  else
    Prog.modify Client.asked
    match s.answer with
    | none => Prog.stop "page_out error: no free page"
    | some frame => Prog.modify fun s => s.allocPage (pageOf va) ⟨frame, TABLE ||| VALID ||| PTE_USER⟩

/-- A store of 32 bits. -/
def storeU32 (va : Word) (w : U32) : ClientM PUnit := do
  touchPage va
  touchPage (va + 3)
  Prog.modify fun s => { s with mem := s.mem.st32 va.toNat w }

/-! ## Descriptors -/

/-- The first descriptor below `MAXFD - 1` whose page is not mapped. -/
def Client.firstFree (s : Client) : Option Nat :=
  (List.range (MAXFD - 1)).find? fun i => !s.mapped (fdVa (BitVec.ofNat 32 i))

/-- `fd_alloc(&fd)`: its result, and the pointer, which held `old`. -/
def fdAlloc (old : Word) : ClientM (U32 × Word) := do
  let s ← Prog.get
  match s.firstFree with
  | some i => pure (0, fdVa (BitVec.ofNat 32 i))
  | none => pure (-E_MAX_OPEN, old)

/-- `fd_lookup`. -/
def Client.fdLookup (s : Client) (fdnum : U32) : Except U32 Word :=
  if 32 ≤ fdnum.toInt then .error (-E_INVAL)
  else if s.mapped (fdVa fdnum) then .ok (fdVa fdnum) else .error (-E_INVAL)

section Addresses

variable {i j : Nat}

theorem fdVa_toNat (hi : i < MAXFD) : (fdVa (BitVec.ofNat 32 i)).toNat = 0x70000000 + i * 4096 := by
  rw [MAXFD] at hi
  have hprod : (BitVec.ofNat 32 i * 4096).toNat = i * 4096 := by
    rw [BitVec.toNat_mul, BitVec.toNat_ofNat]
    show i % 2 ^ 32 * 4096 % 2 ^ 32 = _
    omega
  have hmsb : (BitVec.ofNat 32 i * 4096).msb = false := by
    rw [BitVec.msb_eq_decide, hprod]
    exact decide_eq_false (by omega)
  rw [fdVa, BitVec.signExtend_eq_setWidth_of_msb_false hmsb, BitVec.toNat_add, BitVec.toNat_setWidth, hprod]
  show (0x70000000 + i * 4096 % 2 ^ 64) % 2 ^ 64 = _
  omega

/-- As the page tables see it, this is the page of the descriptor. -/
theorem pageOf_fdVa (n : FdNum) : pageOf (fdVa (BitVec.ofNat 32 n.val)) = fdPage n := by
  apply Fin.ext
  rw [fdPage_val]
  show (fdVa (BitVec.ofNat 32 n.val)).toNat / BY2PG % 2 ^ 27 = _
  rw [fdVa_toNat n.isLt]
  have hn := n.isLt
  unfold BY2PG
  omega

theorem fd2num_fdVa (n : FdNum) : fd2num (fdVa (BitVec.ofNat 32 n.val)) = BitVec.ofNat 32 n.val := by
  have hn := n.isLt
  apply BitVec.eq_of_toNat_eq
  rw [fd2num, BitVec.toNat_setWidth, BitVec.toNat_udiv, BitVec.toNat_sub_of_le, fdVa_toNat n.isLt,
    BitVec.toNat_ofNat]
  · show (0x70000000 + n.val * 4096 - 0x70000000) / 4096 % 2 ^ 32 = n.val % 2 ^ 32
    omega
  · rw [BitVec.le_def, fdVa_toNat n.isLt]
    show 0x70000000 ≤ _
    omega

theorem dataVa_toNat (n : FdNum) : (dataVa (BitVec.ofNat 32 n.val)).toNat = INDEX2DATA n := by
  have hn := n.isLt
  have hmsb : (BitVec.ofNat 32 n.val).msb = false := by
    rw [BitVec.msb_eq_decide, BitVec.toNat_ofNat]
    exact decide_eq_false (by omega)
  rw [dataVa, BitVec.signExtend_eq_setWidth_of_msb_false hmsb, BitVec.toNat_add, BitVec.toNat_mul,
    BitVec.toNat_setWidth, BitVec.toNat_ofNat]
  show (0x80000000 + n.val % 2 ^ 32 % 2 ^ 64 * 0x40000000 % 2 ^ 64) % 2 ^ 64 = FILEBASE + n.val * PDMAP
  unfold FILEBASE PDMAP
  omega

theorem fd2data_fdVa (n : FdNum) : fd2data (fdVa (BitVec.ofNat 32 n.val)) = dataVa (BitVec.ofNat 32 n.val) := by
  rw [fd2data, fd2num_fdVa]

theorem pageOf_dataVa (n : FdNum) : pageOf (dataVa (BitVec.ofNat 32 n.val)) = dataPage n 0 := by
  show vpn (dataVa (BitVec.ofNat 32 n.val)).toNat = vpn (INDEX2DATA n + 0 * BY2PG)
  rw [dataVa_toNat, Nat.zero_mul, Nat.add_zero]

theorem fdVa_user (n : FdNum) : ¬ KERNBASE ≤ fdVa (BitVec.ofNat 32 n.val) := by
  have hn := n.isLt
  rw [BitVec.le_def, fdVa_toNat n.isLt]
  show ¬ 0xffffff8000000000 ≤ _
  omega

theorem dataVa_user (n : FdNum) : ¬ KERNBASE ≤ dataVa (BitVec.ofNat 32 n.val) := by
  have hn := n.isLt
  rw [BitVec.le_def, dataVa_toNat]
  show ¬ 0xffffff8000000000 ≤ FILEBASE + n.val * PDMAP
  unfold FILEBASE PDMAP
  omega

/-- The fields of a descriptor are in its page. -/
theorem fdVa_add_toNat (n : FdNum) {k : Nat} (hk : k < BY2PG) :
    (fdVa (BitVec.ofNat 32 n.val) + BitVec.ofNat 64 k).toNat = 0x70000000 + n.val * 4096 + k := by
  have hn := n.isLt
  rw [BY2PG] at hk
  rw [BitVec.toNat_add, fdVa_toNat n.isLt, BitVec.toNat_ofNat]
  omega

theorem pageOf_fdVa_add (n : FdNum) {k : Nat} (hk : k < BY2PG) :
    pageOf (fdVa (BitVec.ofNat 32 n.val) + BitVec.ofNat 64 k) = fdPage n := by
  apply Fin.ext
  rw [fdPage_val]
  show (fdVa (BitVec.ofNat 32 n.val) + BitVec.ofNat 64 k).toNat / BY2PG % 2 ^ 27 = _
  rw [fdVa_add_toNat n hk]
  have hn := n.isLt
  rw [BY2PG] at hk ⊢
  omega

end Addresses

/-! ## The calls, one by one -/

section Calls

variable {s : Client} {va : Word} {n : FdNum}

theorem touchPage_ok (h : s.mapped va = true) : touchPage va s = .ret ⟨⟩ s := by
  unfold touchPage
  refine (Prog.bind_ret (Prog.get_apply s)).trans ?_
  rw [if_pos h]
  rfl

theorem storeU32_ok {w : U32} (h : s.mapped va = true) (h₃ : s.mapped (va + 3) = true) :
    storeU32 va w s = .ret ⟨⟩ { s with mem := s.mem.st32 va.toNat w } :=
  (Prog.bind_ret (touchPage_ok h)).trans ((Prog.bind_ret (touchPage_ok h₃)).trans rfl)

theorem memUnmap_ret (va : Word) (s : Client) : ∃ r s', memUnmap va s = .ret r s' := by
  unfold memUnmap
  split
  · exact ⟨_, _, rfl⟩
  · exact ⟨_, _, rfl⟩

theorem fdAlloc_ok {i : Nat} {old : Word} (h : s.firstFree = some i) :
    fdAlloc old s = .ret (0, fdVa (BitVec.ofNat 32 i)) s := by
  unfold fdAlloc
  refine (Prog.bind_ret (Prog.get_apply s)).trans ?_
  rw [h]
  rfl

theorem fdAlloc_none {old : Word} (h : s.firstFree = none) : fdAlloc old s = .ret (-E_MAX_OPEN, old) s := by
  unfold fdAlloc
  refine (Prog.bind_ret (Prog.get_apply s)).trans ?_
  rw [h]
  rfl

/-- The descriptor that `fd_alloc` finds is free. -/
theorem firstFree_spec {i : Nat} (h : s.firstFree = some i) :
    i < MAXFD - 1 ∧ s.mapped (fdVa (BitVec.ofNat 32 i)) = false := by
  have hfound := List.find?_some h
  exact ⟨List.mem_range.mp (List.mem_of_find?_eq_some h), by simpa using hfound⟩

theorem firstFree_of_free {i : Nat} (hi : i < MAXFD - 1)
    (hfree : s.mapped (fdVa (BitVec.ofNat 32 i)) = false) :
    ∃ k, k ≤ i ∧ s.firstFree = some k ∧ s.mapped (fdVa (BitVec.ofNat 32 k)) = false := by
  have hsome : (s.firstFree).isSome = true := by
    rw [Client.firstFree, List.find?_isSome]
    exact ⟨i, List.mem_range.mpr hi, by rw [hfree]; rfl⟩
  obtain ⟨k, hk⟩ := Option.isSome_iff_exists.mp hsome
  have hfound := List.find?_some hk
  have hkfree : s.mapped (fdVa (BitVec.ofNat 32 k)) = false := by simpa using hfound
  refine ⟨k, ?_, hk, hkfree⟩
  by_contra hlt
  -- An earlier one would have been found.
  have hbefore := (List.find?_range_eq_some.mp hk).2.2 i (by omega)
  rw [hfree] at hbefore
  exact absurd hbefore (by decide)

/-- A page that a free descriptor would be found at, and the rest of its test. -/
theorem mapped_fdVa (s : Client) (n : FdNum) :
    s.mapped (fdVa (BitVec.ofNat 32 n.val)) = (s.pages (fdPage n)).isSome := by
  rw [Client.mapped, pageOf_fdVa]

theorem fdLookup_ok (n : FdNum) (h : (s.pages (fdPage n)).isSome = true) :
    s.fdLookup (BitVec.ofNat 32 n.val) = .ok (fdVa (BitVec.ofNat 32 n.val)) := by
  have hn := n.isLt
  have hint : (BitVec.ofNat 32 n.val).toInt = n.val := by
    rw [BitVec.toInt_eq_toNat_cond, BitVec.toNat_ofNat, if_pos (by omega)]
    omega
  rw [Client.fdLookup, if_neg (by rw [hint]; omega), if_pos]
  rw [mapped_fdVa]
  exact h

theorem fdPage_ne {n n' : FdNum} (h : n ≠ n') : fdPage n ≠ fdPage n' := fun heq => h (fdPage_injective heq)

theorem fdLookup_none (n : FdNum) (h : s.pages (fdPage n) = none) :
    s.fdLookup (BitVec.ofNat 32 n.val) = .error (-E_INVAL) := by
  have hmapped : ¬ s.mapped (fdVa (BitVec.ofNat 32 n.val)) = true := by
    rw [mapped_fdVa, h]
    exact Bool.false_ne_true
  rw [Client.fdLookup, if_neg hmapped, ite_self]

end Calls

end RpiMos
