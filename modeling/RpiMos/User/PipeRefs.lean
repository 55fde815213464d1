/-
  RpiMos.User.PipeRefs

  Who still has an end of a pipe: `_pipeisclosed` of user/pipe.c compares the
  reference counts of a descriptor page and of the pipe's page, while other
  processes fork, spawn, dup, close and exit, one system call at a time.
-/

import RpiMos.Fs.OpenTab
import RpiMos.Lib.Run

namespace RpiMos

open Lib

def PDMAP : Nat := 0x40000000
def FILEBASE : Nat := 0x80000000
def FDTABLE : Nat := FILEBASE - 0x10000000

/-- A file descriptor below `MAXFD`. -/
abbrev FdNum := Fin 32

instance neZero_fd : NeZero 32 := ⟨by decide⟩

def INDEX2FD (n : FdNum) : Nat := FDTABLE + n.val * BY2PG
def INDEX2DATA (n : FdNum) : Nat := FILEBASE + n.val * PDMAP

def fdPage (n : FdNum) : Vpn := vpn (INDEX2FD n)

/-- Page `k` of the data of a descriptor. -/
def dataPage (n : FdNum) (k : Nat) : Vpn := vpn (INDEX2DATA n + k * BY2PG)

/-- The pages of a descriptor's data. -/
def NDATA : Nat := 2 ^ 18

/-- `UXSTACKTOP - BY2PG`. -/
def uxstackPage : Vpn := vpn (0x7f00000000 - BY2PG)

/-! ## Processes -/

/-- Where a process is. -/
inductive ProcPc where
  /-- No environment. -/
  | free
  /-- Made by `syscall_env_alloc`, and not runnable yet. -/
  | embryo
  /-- Between two calls. -/
  | run
  /-- After `user_panic`. -/
  | stuck
  /-- In the loop of `fork`, or of `spawn`, which leaves out the pages that are
      not `PTE_LIBRARY`: before page `k`. -/
  | copy (libraryOnly : Bool) (child : EnvPtr) (k : Nat)
  /-- The unmappings of `close`; after it, `dup` goes on. -/
  | closeFd (n : FdNum) (next : Option FdNum)
  | closeData (n : FdNum) (next : Option FdNum)
  | fdClose (n : FdNum) (next : Option FdNum)
  /-- In `dup`, before page `k` of the data, before the page of the descriptor,
      and in its error path. -/
  | dupData (old new : FdNum) (k : Nat)
  | dupFd (old new : FdNum)
  | dupErr (new : FdNum) (k : Nat)
  /-- In the loop of `_pipeisclosed`, with what has been loaded, and after it. -/
  | look (n : FdNum)
  | lookFd (n : FdNum) (runs : U32)
  | lookData (n : FdNum) (runs : U32) (fdref : Nat)
  | lookEnd (n : FdNum) (runs : U32) (fdref pref : Nat)
  | closed (n : FdNum) (r : Bool)

/-- The page tables of all environments with their `PTE_LIBRARY` bits, and what
    the processes do. -/
structure PipeEnvs where
  maps : Mappings
  library : EnvPtr × Vpn → Bool
  curenv : EnvPtr
  env_runs : EnvPtr → Word
  pc : EnvPtr → ProcPc

namespace PipeEnvs

def setPc (s : PipeEnvs) (e : EnvPtr) (pc : ProcPc) : PipeEnvs :=
  { s with pc := Function.update s.pc e pc }

/-- The running process goes on at `pc`. -/
def goto (s : PipeEnvs) (pc : ProcPc) : PipeEnvs := s.setPc s.curenv pc

def setPage (s : PipeEnvs) (x : EnvPtr × Vpn) (o : Option Nat) (b : Bool) : PipeEnvs :=
  { s with maps := Function.update s.maps x o, library := Function.update s.library x b }

/-- `syscall_mem_map` of page `src`, with its `PTE_LIBRARY` bit, at `dst`. -/
def mapPage (s : PipeEnvs) (src dst : EnvPtr × Vpn) : PipeEnvs :=
  s.setPage dst (s.maps src) (s.library src)

/-- `syscall_mem_unmap`. -/
def unmapPage (s : PipeEnvs) (x : EnvPtr × Vpn) : PipeEnvs := s.setPage x none false

/-- The pages that `fork`, with `duppage`, and `spawn` leave out. -/
def skips (s : PipeEnvs) (libraryOnly : Bool) (v : Vpn) : Bool :=
  (s.maps (s.curenv, v)).isNone ||
    if libraryOnly then !s.library (s.curenv, v) else v == uxstackPage

/-- One turn of the loop of `fork` or of `spawn`; behind the last page the child is
    set runnable. -/
def copyStep (s : PipeEnvs) (libraryOnly : Bool) (child : EnvPtr) (k : Nat) (ok : Bool) :
    PipeEnvs :=
  if hk : k < 2 ^ 27 then
    let v : Vpn := ⟨k, hk⟩
    if s.skips libraryOnly v then s.goto (.copy libraryOnly child (k + 1))
    else if ok then (s.mapPage (s.curenv, v) (child, v)).goto (.copy libraryOnly child (k + 1))
    else s.goto (if libraryOnly then .run else .stuck)
  else if ok then (s.setPc child .run).goto .run
  else s.goto (if libraryOnly then .run else .stuck)

/-- What follows on `close`. -/
def afterClose (n : FdNum) : Option FdNum → ProcPc
  | none => .run
  | some old => .dupData old n 0

/-- The error of `syscall_mem_map` is not looked at: `r == syscall_mem_map(…)`. -/
def dupDataStep (s : PipeEnvs) (old new : FdNum) (k : Nat) (ok : Bool) : PipeEnvs :=
  if k < NDATA then
    let src := (s.curenv, dataPage old k)
    if (s.maps src).isSome && ok then
      (s.mapPage src (s.curenv, dataPage new k)).goto (.dupData old new (k + 1))
    else s.goto (.dupData old new (k + 1))
  else s.goto (.dupFd old new)

def dupFdStep (s : PipeEnvs) (old new : FdNum) (ok : Bool) : PipeEnvs :=
  let src := (s.curenv, fdPage old)
  if (s.maps src).isSome && ok then (s.mapPage src (s.curenv, fdPage new)).goto .run
  else (s.unmapPage (s.curenv, fdPage new)).goto (.dupErr new 0)

def dupErrStep (s : PipeEnvs) (new : FdNum) (k : Nat) : PipeEnvs :=
  if k < NDATA then (s.unmapPage (s.curenv, dataPage new k)).goto (.dupErr new (k + 1))
  else s.goto .run

/-- The next system call, or the next load of `env_runs`, of the running process;
    `ok` tells whether a call that needs memory succeeds. -/
def exec (s : PipeEnvs) (ok : Bool) : PipeEnvs :=
  match s.pc s.curenv with
  | .free | .embryo | .run | .stuck => s
  | .copy libraryOnly child k => s.copyStep libraryOnly child k ok
  | .closeFd n next => (s.unmapPage (s.curenv, fdPage n)).goto (.closeData n next)
  | .closeData n next => (s.unmapPage (s.curenv, dataPage n 0)).goto (.fdClose n next)
  | .fdClose n next => (s.unmapPage (s.curenv, fdPage n)).goto (afterClose n next)
  | .dupData old new k => s.dupDataStep old new k ok
  | .dupFd old new => s.dupFdStep old new ok
  | .dupErr new k => s.dupErrStep new k
  | .look n => s.goto (.lookFd n ((s.env_runs s.curenv).setWidth 32))
  | .lookFd n runs => s.goto (.lookData n runs (pageref s.maps s.curenv (INDEX2FD n)))
  | .lookData n runs fdref =>
      s.goto (.lookEnd n runs fdref (pageref s.maps s.curenv (INDEX2DATA n)))
  -- `int runs` is sign-extended for the comparison with `u64 env_runs`.
  | .lookEnd n runs fdref pref =>
      s.goto (if runs.signExtend 64 ≠ s.env_runs s.curenv then .look n
        else .closed n (decide (fdref = pref)))
  | .closed _ _ => s.goto .run

def envRun (s : PipeEnvs) (e : EnvPtr) : PipeEnvs :=
  { s with curenv := e, env_runs := Function.update s.env_runs e (s.env_runs e + 1) }

/-- All pages of an environment are unmapped. -/
def envFree (s : PipeEnvs) (e : EnvPtr) : PipeEnvs :=
  { s with
    maps := fun x => if x.1 = e then none else s.maps x
    pc := Function.update s.pc e .free }

end PipeEnvs

/-! ## A pipe -/

/-- The frames of a pipe: the descriptors of its two ends, and its data. -/
structure PipeFrames where
  rd : Nat
  wr : Nat
  data : Nat
  rd_ne_wr : rd ≠ wr
  rd_ne_data : rd ≠ data
  wr_ne_data : wr ≠ data

namespace PipeFrames

variable (P : PipeFrames)

def IsEnd (f : Nat) : Prop := f = P.rd ∨ f = P.wr

def Has (f : Nat) : Prop := P.IsEnd f ∨ f = P.data

/-- The descriptor frame of the other end. -/
def opposite (f : Nat) : Nat := if f = P.rd then P.wr else P.rd

end PipeFrames

/-- In environment `e` the data page stands beside every descriptor of the pipe. -/
def Paired (P : PipeFrames) (s : PipeEnvs) (e : EnvPtr) : Prop :=
  ∀ n f, P.IsEnd f → s.maps (e, fdPage n) = some f → s.maps (e, dataPage n 0) = some P.data

inductive PipeEvent where
  | sched (e : EnvPtr)
  | exec (ok : Bool)
  | other

inductive PipeStep (P : PipeFrames) : PipeEnvs → PipeEvent → PipeEnvs → Prop
  | sched {s : PipeEnvs} {e : EnvPtr} (hfree : s.pc e ≠ .free) (hembryo : s.pc e ≠ .embryo) :
      PipeStep P s (.sched e) (s.envRun e)
  | exec {s : PipeEnvs} (ok : Bool) : PipeStep P s (.exec ok) (s.exec ok)
  /-- `fork` and `spawn`, up to their loops. -/
  | envAlloc {s : PipeEnvs} (libraryOnly : Bool) {child : EnvPtr} (hpc : s.pc s.curenv = .run)
      (hfree : s.pc child = .free) :
      PipeStep P s .other ((s.setPc child .embryo).goto (.copy libraryOnly child 0))
  | close {s : PipeEnvs} {n : FdNum} {f : Nat} (hpc : s.pc s.curenv = .run) (hf : P.IsEnd f)
      (hfd : s.maps (s.curenv, fdPage n) = some f) : PipeStep P s .other (s.goto (.closeFd n none))
  /-- `dup` closes the new descriptor, if there is one: an end of the pipe, -/
  | dupClose {s : PipeEnvs} {old new : FdNum} {f : Nat} (hpc : s.pc s.curenv = .run)
      (hf : P.IsEnd f) (hfd : s.maps (s.curenv, fdPage new) = some f) :
      PipeStep P s .other (s.goto (.closeFd new (some old)))
  /-- or a descriptor of another device, -/
  | dupOther {s : PipeEnvs} {old new : FdNum} (hpc : s.pc s.curenv = .run)
      (hfd : ∀ f, P.Has f → s.maps (s.curenv, fdPage new) ≠ some f) :
      PipeStep P s .other (s.goto (.fdClose new (some old)))
  /-- or none. -/
  | dupNew {s : PipeEnvs} {old new : FdNum} (hpc : s.pc s.curenv = .run)
      (hfd : s.maps (s.curenv, fdPage new) = none) :
      PipeStep P s .other (s.goto (.dupData old new 0))
  | look {s : PipeEnvs} {n : FdNum} {f : Nat} (hpc : s.pc s.curenv = .run) (hf : P.IsEnd f)
      (hfd : s.maps (s.curenv, fdPage n) = some f) : PipeStep P s .other (s.goto (.look n))
  /-- `env_destroy`, by the process itself or by its parent, which is not still
      making it. -/
  | destroy {s : PipeEnvs} {e : EnvPtr} (hpc : s.pc s.curenv = .run)
      (he : ∀ e' b k, s.pc e' ≠ .copy b e k) :
      PipeStep P s .other (s.envFree e)
  /-- Whatever else is mapped and unmapped. -/
  | other {s : PipeEnvs} {x : EnvPtr × Vpn} {o : Option Nat} {b : Bool}
      (hold : ∀ f, P.Has f → s.maps x ≠ some f) (hnew : ∀ f, P.Has f → o ≠ some f) :
      PipeStep P s .other (s.setPage x o b)

/-- Processes share the pipe, and none of them is inside a call. -/
structure PipeEnvs.Started (P : PipeFrames) (s : PipeEnvs) : Prop where
  idle : ∀ e, s.pc e = .free ∨ s.pc e = .run
  free : ∀ e v f, s.pc e = .free → P.Has f → s.maps (e, v) ≠ some f
  fdpage : ∀ x f, P.IsEnd f → s.maps x = some f → ∃ n, x.2 = fdPage n
  library : ∀ x f, P.Has f → s.maps x = some f → s.library x = true
  paired : ∀ e, Paired P s e
  runs : ∀ e, (s.env_runs e).toNat < 2 ^ 31

/-- `env_runs` stays an `int`; when `_pipeisclosed` counts, no process that is
    still being made has a descriptor without the data; and `dup` has the memory
    for the page tables it needs. -/
def PipeStepOk (P : PipeFrames) (s : PipeEnvs) : PipeEvent → Prop
  | .sched e => (s.env_runs e).toNat + 1 < 2 ^ 31
  | .exec ok =>
      (∀ n runs fdref, s.pc s.curenv = .lookData n runs fdref →
        ∀ e, s.pc e = .embryo → Paired P s e) ∧
      (∀ old new k, s.pc s.curenv = .dupData old new k → ok = true)
  | .other => True

/-! ## Counting the ends -/

variable {P : PipeFrames} {s s' : PipeEnvs} {e : EnvPtr} {x : EnvPtr × Vpn} {f : Nat}

theorem fdPage_val (n : FdNum) : (fdPage n).val = 0x70000 + n.val := by
  have hn := n.isLt
  show (FDTABLE + n.val * BY2PG) / BY2PG % 2 ^ 27 = _
  unfold FDTABLE FILEBASE BY2PG
  omega

theorem dataPage_val (n : FdNum) {k : Nat} (hk : k < NDATA) :
    (dataPage n k).val = 0x80000 + n.val * NDATA + k := by
  have hn := n.isLt
  show (FILEBASE + n.val * PDMAP + k * BY2PG) / BY2PG % 2 ^ 27 = _
  unfold NDATA at hk
  unfold FILEBASE PDMAP BY2PG NDATA
  omega

theorem fdPage_injective {n m : FdNum} (h : fdPage n = fdPage m) : n = m := by
  have hv := congrArg Fin.val h
  rw [fdPage_val, fdPage_val] at hv
  exact Fin.ext (by omega)

theorem fdPage_ne_dataPage (n m : FdNum) {k : Nat} (hk : k < NDATA) : fdPage n ≠ dataPage m k := by
  intro h
  have hv := congrArg Fin.val h
  rw [fdPage_val, dataPage_val m hk] at hv
  have := n.isLt
  omega

theorem dataPage_injective {n m : FdNum} {j k : Nat} (hj : j < NDATA) (hk : k < NDATA)
    (h : dataPage n j = dataPage m k) : n = m ∧ j = k := by
  have hv := congrArg Fin.val h
  rw [dataPage_val n hj, dataPage_val m hk] at hv
  unfold NDATA at *
  refine ⟨Fin.ext ?_, ?_⟩ <;> omega

/-- The data page of the descriptor at a page. -/
def dataOf (x : EnvPtr × Vpn) : EnvPtr × Vpn :=
  (x.1, vpn (FILEBASE + (x.2.val - 0x70000) * PDMAP))

theorem dataOf_fdPage (e : EnvPtr) (n : FdNum) : dataOf (e, fdPage n) = (e, dataPage n 0) := by
  show (e, vpn (FILEBASE + ((fdPage n).val - 0x70000) * PDMAP)) =
    (e, vpn (FILEBASE + n.val * PDMAP + 0 * BY2PG))
  rw [fdPage_val, Nat.add_sub_cancel_left, Nat.zero_mul, Nat.add_zero]

/-- The pipe's page is mapped for every descriptor. -/
theorem ends_le_data (hfd : ∀ x f, P.IsEnd f → s.maps x = some f → ∃ n, x.2 = fdPage n)
    (hpair : ∀ e, Paired P s e) :
    s.maps.ref P.rd + s.maps.ref P.wr ≤ s.maps.ref P.data := by
  have hat : ∀ x, s.maps x = some P.rd ∨ s.maps x = some P.wr →
      ∃ n, x = (x.1, fdPage n) ∧ s.maps (x.1, dataPage n 0) = some P.data := by
    intro x hx
    obtain ⟨f, hf, hxf⟩ : ∃ f, P.IsEnd f ∧ s.maps x = some f := by
      rcases hx with hx | hx
      · exact ⟨P.rd, Or.inl rfl, hx⟩
      · exact ⟨P.wr, Or.inr rfl, hx⟩
    obtain ⟨n, hn⟩ := hfd x f hf hxf
    have hx' : x = (x.1, fdPage n) := Prod.ext rfl hn
    exact ⟨n, hx', hpair x.1 n f hf (hx' ▸ hxf)⟩
  refine slotCount_add_le P.rd_ne_wr dataOf (fun x _ hx => ⟨mem_allSlots _, ?_⟩)
    fun x _ y _ hx hy heq => ?_
  · obtain ⟨n, hxn, hdata⟩ := hat x hx
    rw [hxn, dataOf_fdPage]
    exact hdata
  · obtain ⟨n, hxn, -⟩ := hat x hx
    obtain ⟨m, hym, -⟩ := hat y hy
    rw [hxn, hym, dataOf_fdPage, dataOf_fdPage] at heq
    obtain ⟨he, hdata⟩ := Prod.mk.inj heq
    obtain ⟨hnm, -⟩ := dataPage_injective (by decide) (by decide) hdata
    rw [hxn, hym, he, hnm]

/-- When as many pages map the data as map one end, nobody has the other end. -/
theorem opposite_gone (hfd : ∀ x f, P.IsEnd f → s.maps x = some f → ∃ n, x.2 = fdPage n)
    (hpair : ∀ e, Paired P s e) (hf : P.IsEnd f) (heq : s.maps.ref f = s.maps.ref P.data) :
    ∀ x, s.maps x ≠ some (P.opposite f) := by
  have hle := ends_le_data hfd hpair
  refine maps_ne_of_ref ?_
  rcases hf with rfl | rfl
  · rw [PipeFrames.opposite, if_pos rfl]
    omega
  · rw [PipeFrames.opposite, if_neg P.rd_ne_wr.symm]
    omega

/-! ## The invariant -/

def FdGone (P : PipeFrames) (s : PipeEnvs) (e : EnvPtr) (n : FdNum) : Prop :=
  ∀ f, P.IsEnd f → s.maps (e, fdPage n) ≠ some f

def HasFd (P : PipeFrames) (s : PipeEnvs) (e : EnvPtr) (n : FdNum) : Prop :=
  ∃ f, P.IsEnd f ∧ s.maps (e, fdPage n) = some f

def DataCopied (P : PipeFrames) (s : PipeEnvs) (e : EnvPtr) (old new : FdNum) : Prop :=
  s.maps (e, dataPage old 0) = some P.data → s.maps (e, dataPage new 0) = some P.data

/-- The other end of descriptor `n` is gone. -/
def OtherGone (P : PipeFrames) (s : PipeEnvs) (e : EnvPtr) (n : FdNum) : Prop :=
  ∀ f, P.IsEnd f → s.maps (e, fdPage n) = some f → ∀ x, s.maps x ≠ some (P.opposite f)

/-- A child that is being made has the pages of the pipe that its parent has
    below page `k`, and no others. -/
structure Copied (P : PipeFrames) (s : PipeEnvs) (e child : EnvPtr) (k : Nat) : Prop where
  embryo : s.pc child = .embryo
  back : ∀ v f, P.Has f → s.maps (child, v) = some f → s.maps (e, v) = some f
  forth : ∀ v f, v.val < k → v ≠ uxstackPage → P.Has f → s.maps (e, v) = some f →
    s.maps (child, v) = some f

/-- Nobody has interrupted a look that has loaded `runs` before. -/
def Fresh (s : PipeEnvs) (e : EnvPtr) (runs : U32) : Prop :=
  s.curenv = e ∧ runs.toNat = (s.env_runs e).toNat

def PcInv (P : PipeFrames) (s : PipeEnvs) (e : EnvPtr) : ProcPc → Prop
  | .copy _ child k => Copied P s e child k
  | .closeData n _ | .fdClose n _ | .dupErr n _ => FdGone P s e n
  | .dupData old new k => FdGone P s e new ∧ (0 < k → DataCopied P s e old new)
  | .dupFd old new => FdGone P s e new ∧ DataCopied P s e old new
  | .look n => HasFd P s e n
  | .lookFd n runs => HasFd P s e n ∧ runs.toNat ≤ (s.env_runs e).toNat
  | .lookData n runs fdref => HasFd P s e n ∧ runs.toNat ≤ (s.env_runs e).toNat ∧
      (Fresh s e runs → ∀ f, P.IsEnd f → s.maps (e, fdPage n) = some f → fdref = s.maps.ref f)
  | .lookEnd n runs fdref pref => HasFd P s e n ∧ runs.toNat ≤ (s.env_runs e).toNat ∧
      (Fresh s e runs → fdref = pref → OtherGone P s e n)
  | .closed n r => r = true → OtherGone P s e n
  | .free | .embryo | .run | .stuck | .closeFd _ _ => True

structure EndsInv (P : PipeFrames) (s : PipeEnvs) : Prop where
  fdpage : ∀ x f, P.IsEnd f → s.maps x = some f → ∃ n, x.2 = fdPage n
  library : ∀ x f, P.Has f → s.maps x = some f → s.library x = true
  free : ∀ e v f, s.pc e = .free → P.Has f → s.maps (e, v) ≠ some f
  paired : ∀ e, s.pc e ≠ .embryo → Paired P s e
  pcs : ∀ e, PcInv P s e (s.pc e)
  one : ∀ {e e' b b' child k k'}, s.pc e = .copy b child k → s.pc e' = .copy b' child k' → e = e'
  runs : ∀ e, (s.env_runs e).toNat < 2 ^ 31

theorem endsInv_init (h : s.Started P) : EndsInv P s where
  fdpage := h.fdpage
  library := h.library
  free := h.free
  paired := fun e _ => h.paired e
  pcs := fun e => by
    rcases h.idle e with hpc | hpc
    · rw [hpc]
      trivial
    · rw [hpc]
      trivial
  one := fun {e e' b b' child k k'} hpc => by
    rcases h.idle e with hpc' | hpc' <;> rw [hpc'] at hpc <;> cases hpc
  runs := h.runs

/-! ## Steps that leave a process alone -/

/-- The pages of the pipe are the same in environment `e`. -/
def Agree (P : PipeFrames) (s s' : PipeEnvs) (e : EnvPtr) : Prop :=
  ∀ v f, P.Has f → (s'.maps (e, v) = some f ↔ s.maps (e, v) = some f)

theorem PipeFrames.opposite_has (P : PipeFrames) (f : Nat) : P.Has (P.opposite f) := by
  unfold PipeFrames.opposite
  split
  · exact Or.inl (Or.inr rfl)
  · exact Or.inl (Or.inl rfl)

variable {pc : ProcPc} {n : FdNum}

theorem FdGone.frame (h : FdGone P s e n) (ha : Agree P s s' e) : FdGone P s' e n :=
  fun f hf hfd => h f hf ((ha _ f (Or.inl hf)).mp hfd)

theorem HasFd.frame (h : HasFd P s e n) (ha : Agree P s s' e) : HasFd P s' e n := by
  obtain ⟨f, hf, hfd⟩ := h
  exact ⟨f, hf, (ha _ f (Or.inl hf)).mpr hfd⟩

theorem DataCopied.frame {old new : FdNum} (h : DataCopied P s e old new) (ha : Agree P s s' e) :
    DataCopied P s' e old new := by
  have hdata : P.Has P.data := Or.inr rfl
  exact fun hold => (ha _ _ hdata).mpr (h ((ha _ _ hdata).mp hold))

/-- No step makes a frame of the pipe appear that nobody had. -/
theorem OtherGone.frame (h : OtherGone P s e n) (ha : Agree P s s' e)
    (hknown : ∀ x f, P.Has f → s'.maps x = some f → ∃ y, s.maps y = some f) :
    OtherGone P s' e n := by
  intro f hf hfd x hx
  obtain ⟨y, hy⟩ := hknown x _ (P.opposite_has f) hx
  exact h f hf ((ha _ f (Or.inl hf)).mp hfd) y hy

theorem PcInv.frame (h : PcInv P s e pc) (ha : Agree P s s' e)
    (hchild : ∀ b child k, pc = .copy b child k → Agree P s s' child ∧ s'.pc child = .embryo)
    (hknown : ∀ x f, P.Has f → s'.maps x = some f → ∃ y, s.maps y = some f)
    (hruns : (s.env_runs e).toNat ≤ (s'.env_runs e).toNat)
    (hfresh : ∀ runs : U32, runs.toNat ≤ (s.env_runs e).toNat → Fresh s' e runs →
      Fresh s e runs ∧ ∀ f, P.Has f → s'.maps.ref f = s.maps.ref f) : PcInv P s' e pc := by
  cases pc with
  | free => trivial
  | embryo => trivial
  | run => trivial
  | stuck => trivial
  | closeFd n next => trivial
  | copy b child k =>
      obtain ⟨hag, hembryo⟩ := hchild b child k rfl
      refine ⟨hembryo, fun v f hf hv => ?_, fun v f hk hux hf hv => ?_⟩
      · exact (ha v f hf).mpr (Copied.back h v f hf ((hag v f hf).mp hv))
      · exact (hag v f hf).mpr (Copied.forth h v f hk hux hf ((ha v f hf).mp hv))
  | closeData n next => exact FdGone.frame h ha
  | fdClose n next => exact FdGone.frame h ha
  | dupErr n k => exact FdGone.frame h ha
  | dupData old new k => exact ⟨FdGone.frame h.1 ha, fun hk => (h.2 hk).frame ha⟩
  | dupFd old new => exact ⟨FdGone.frame h.1 ha, h.2.frame ha⟩
  | look n => exact HasFd.frame h ha
  | lookFd n runs => exact ⟨h.1.frame ha, h.2.trans hruns⟩
  | lookData n runs fdref =>
      obtain ⟨hfd, hle, hrefs⟩ := h
      refine ⟨hfd.frame ha, hle.trans hruns, fun hf f hend hm => ?_⟩
      obtain ⟨hfr, href⟩ := hfresh runs hle hf
      rw [href f (Or.inl hend)]
      exact hrefs hfr f hend ((ha _ f (Or.inl hend)).mp hm)
  | lookEnd n runs fdref pref =>
      obtain ⟨hfd, hle, hgone⟩ := h
      refine ⟨hfd.frame ha, hle.trans hruns, fun hf heq => ?_⟩
      exact (hgone (hfresh runs hle hf).1 heq).frame ha hknown
  | closed n r => exact fun hr => (h hr).frame ha hknown

/-! ## Steps of the running process -/

/-- `s₁` is `s` with other pages in environment `a`. -/
structure Edit (P : PipeFrames) (s s₁ : PipeEnvs) (a : EnvPtr) : Prop where
  pc : s₁.pc = s.pc
  curenv : s₁.curenv = s.curenv
  env_runs : s₁.env_runs = s.env_runs
  others : ∀ x, x.1 ≠ a → s₁.maps x = s.maps x
  fdpage : ∀ x f, P.IsEnd f → s₁.maps x = some f → ∃ n, x.2 = fdPage n
  library : ∀ x f, P.Has f → s₁.maps x = some f → s₁.library x = true
  known : ∀ x f, P.Has f → s₁.maps x = some f → ∃ y, s.maps y = some f

variable {s₁ : PipeEnvs} {a : EnvPtr} {pc' : ProcPc} {v w : Vpn}

theorem EndsInv.edit_refl (h : EndsInv P s) (a : EnvPtr) : Edit P s s a :=
  ⟨rfl, rfl, rfl, fun _ _ => rfl, h.fdpage, h.library, fun x _ _ hx => ⟨x, hx⟩⟩

@[simp] theorem setPage_self (s : PipeEnvs) (x : EnvPtr × Vpn) (o : Option Nat) (b : Bool) :
    (s.setPage x o b).maps x = o := by
  simp only [PipeEnvs.setPage, Function.update_self]

theorem setPage_of_ne {x y : EnvPtr × Vpn} (h : y ≠ x) (s : PipeEnvs) (o : Option Nat) (b : Bool) :
    (s.setPage x o b).maps y = s.maps y := by
  simp only [PipeEnvs.setPage, Function.update_of_ne h]

theorem setPage_library_of_ne {x y : EnvPtr × Vpn} (h : y ≠ x) (s : PipeEnvs) (o : Option Nat)
    (b : Bool) : (s.setPage x o b).library y = s.library y := by
  simp only [PipeEnvs.setPage, Function.update_of_ne h]

theorem EndsInv.edit_unmap (h : EndsInv P s) (a : EnvPtr) (v : Vpn) :
    Edit P s (s.unmapPage (a, v)) a := by
  have hmaps : ∀ x f, (s.unmapPage (a, v)).maps x = some f → x ≠ (a, v) ∧ s.maps x = some f := by
    intro x f hx
    by_cases hxv : x = (a, v)
    · rw [hxv, PipeEnvs.unmapPage, setPage_self] at hx
      cases hx
    · rw [PipeEnvs.unmapPage, setPage_of_ne hxv] at hx
      exact ⟨hxv, hx⟩
  refine ⟨rfl, rfl, rfl, fun x hx => ?_, fun x f hf hx => ?_, fun x f hf hx => ?_, fun x f _ hx => ?_⟩
  · exact setPage_of_ne (fun heq => hx (congrArg Prod.fst heq)) _ _ _
  · exact h.fdpage x f hf (hmaps x f hx).2
  · rw [PipeEnvs.unmapPage, setPage_library_of_ne (hmaps x f hx).1]
    exact h.library x f hf (hmaps x f hx).2
  · exact ⟨x, (hmaps x f hx).2⟩

/-- A page is mapped in `a` that is a descriptor's if the one it is a copy of is. -/
theorem EndsInv.edit_map (h : EndsInv P s) {src : EnvPtr × Vpn}
    (hfd : ∀ n, src.2 = fdPage n → ∃ m, v = fdPage m) : Edit P s (s.mapPage src (a, v)) a := by
  have hmaps : ∀ x f, (s.mapPage src (a, v)).maps x = some f →
      (x = (a, v) ∧ s.maps src = some f) ∨ (x ≠ (a, v) ∧ s.maps x = some f) := by
    intro x f hx
    by_cases hxv : x = (a, v)
    · rw [hxv, PipeEnvs.mapPage, setPage_self] at hx
      exact Or.inl ⟨hxv, hx⟩
    · rw [PipeEnvs.mapPage, setPage_of_ne hxv] at hx
      exact Or.inr ⟨hxv, hx⟩
  refine ⟨rfl, rfl, rfl, fun x hx => ?_, fun x f hf hx => ?_, fun x f hf hx => ?_, fun x f _ hx => ?_⟩
  · exact setPage_of_ne (fun heq => hx (congrArg Prod.fst heq)) _ _ _
  · rcases hmaps x f hx with ⟨rfl, hsrc⟩ | ⟨-, hx⟩
    · obtain ⟨n, hn⟩ := h.fdpage src f hf hsrc
      exact hfd n hn
    · exact h.fdpage x f hf hx
  · rcases hmaps x f hx with ⟨rfl, hsrc⟩ | ⟨hne, hx⟩
    · simp only [PipeEnvs.mapPage, PipeEnvs.setPage, Function.update_self]
      exact h.library src f hf hsrc
    · rw [PipeEnvs.mapPage, setPage_library_of_ne hne]
      exact h.library x f hf hx
  · rcases hmaps x f hx with ⟨-, hsrc⟩ | ⟨-, hx⟩
    · exact ⟨src, hsrc⟩
    · exact ⟨x, hx⟩

@[simp] theorem goto_maps (s : PipeEnvs) (pc : ProcPc) : (s.goto pc).maps = s.maps := rfl
@[simp] theorem goto_curenv (s : PipeEnvs) (pc : ProcPc) : (s.goto pc).curenv = s.curenv := rfl
@[simp] theorem goto_env_runs (s : PipeEnvs) (pc : ProcPc) : (s.goto pc).env_runs = s.env_runs := rfl

@[simp] theorem goto_pc_self (s : PipeEnvs) (pc : ProcPc) : (s.goto pc).pc s.curenv = pc :=
  Function.update_self _ _ _

theorem goto_pc_of_ne (h : e ≠ s.curenv) (pc : ProcPc) : (s.goto pc).pc e = s.pc e :=
  Function.update_of_ne h _ _

/-- Where a process stands that may run. -/
def ProcPc.Live (pc : ProcPc) : Prop := pc ≠ .free ∧ pc ≠ .embryo

/-- The running process changes its own pages, or those of the child that it is
    making, and goes on. -/
theorem EndsInv.act (h : EndsInv P s) (hedit : Edit P s s₁ a)
    (ha : a = s.curenv ∨ ∃ b k, s.pc s.curenv = .copy b a k) (hlive : (s.pc s.curenv).Live)
    (hlive' : pc'.Live) (hpair : a = s.curenv → Paired P s₁ a)
    (hpc : PcInv P (s₁.goto pc') s.curenv pc')
    (hcopy : ∀ b child k, pc' = .copy b child k → ∀ e b' k', s.pc e = .copy b' child k' →
      e = s.curenv) : EndsInv P (s₁.goto pc') := by
  have hself : (s₁.goto pc').pc s.curenv = pc' := by rw [← hedit.curenv, goto_pc_self]
  have hother : ∀ e, e ≠ s.curenv → (s₁.goto pc').pc e = s.pc e := by
    intro e he
    rw [goto_pc_of_ne (by rwa [hedit.curenv]), hedit.pc]
  -- A child that is edited is not runnable.
  have hchild : ∀ e, e = a → e ≠ s.curenv → s.pc e = .embryo := by
    rintro e rfl he
    obtain ⟨b, k, hpca⟩ := ha.resolve_left he
    have hinv := h.pcs s.curenv
    rw [hpca] at hinv
    exact hinv.embryo
  have hmaps : ∀ e v, e ≠ a → (s₁.goto pc').maps (e, v) = s.maps (e, v) :=
    fun e v he => hedit.others (e, v) he
  have hagree : ∀ e, e ≠ a → Agree P s (s₁.goto pc') e := fun e he v f _ => by rw [hmaps e v he]
  refine ⟨hedit.fdpage, hedit.library, fun e v f hpce hf => ?_, fun e he => ?_, fun e => ?_, ?_, ?_⟩
  · have hne : e ≠ s.curenv := by
      rintro rfl
      exact hlive'.1 (hself.symm.trans hpce)
    rw [hother e hne] at hpce
    have hea : e ≠ a := fun heq => by
      rw [hchild e heq hne] at hpce
      cases hpce
    rw [hmaps e v hea]
    exact h.free e v f hpce hf
  · by_cases hea : e = a
    · by_cases hcur : e = s.curenv
      · rw [hea]
        exact hpair (hea ▸ hcur)
      · exact absurd (hother e hcur ▸ hchild e hea hcur) he
    · have hold : s.pc e ≠ .embryo := by
        by_cases hcur : e = s.curenv
        · rw [hcur]
          exact hlive.2
        · rwa [hother e hcur] at he
      intro n f hf hfd
      rw [hmaps e _ hea] at hfd ⊢
      exact h.paired e hold n f hf hfd
  · by_cases hcur : e = s.curenv
    · rw [hcur, hself]
      exact hpc
    · rw [hother e hcur]
      by_cases hea : e = a
      · rw [hchild e hea hcur]
        trivial
      · refine (h.pcs e).frame (hagree e hea) (fun b child k hpce => ?_) hedit.known ?_ ?_
        · have hinv := h.pcs e
          rw [hpce] at hinv
          have hcc : child ≠ s.curenv := fun heq => hlive.2 (heq ▸ hinv.embryo)
          have hca : child ≠ a := by
            rintro rfl
            obtain ⟨b', k', hpca⟩ := ha.resolve_left hcc
            exact hcur (h.one hpce hpca)
          exact ⟨hagree child hca, by rw [hother child hcc, hinv.embryo]⟩
        · rw [goto_env_runs, hedit.env_runs]
        · intro runs _ hf
          have hcurenv := hf.1
          rw [goto_curenv, hedit.curenv] at hcurenv
          exact absurd hcurenv.symm hcur
  · intro e e' b b' child k k' hpce hpce'
    by_cases hcur : e = s.curenv
    · rw [hcur, hself] at hpce
      by_cases hcur' : e' = s.curenv
      · rw [hcur, hcur']
      · rw [hcur, hcopy _ _ _ hpce e' b' k' (hother e' hcur' ▸ hpce')]
    · rw [hother e hcur] at hpce
      by_cases hcur' : e' = s.curenv
      · rw [hcur', hself] at hpce'
        rw [hcur', hcopy _ _ _ hpce' e b k hpce]
      · exact h.one hpce (hother e' hcur' ▸ hpce')
  · intro e
    rw [goto_env_runs, hedit.env_runs]
    exact h.runs e

theorem EndsInv.go (h : EndsInv P s) (hlive : (s.pc s.curenv).Live) (hlive' : pc'.Live)
    (hpc : PcInv P (s.goto pc') s.curenv pc')
    (hcopy : ∀ b child k, pc' = .copy b child k → ∀ e b' k', s.pc e = .copy b' child k' →
      e = s.curenv) : EndsInv P (s.goto pc') :=
  h.act (h.edit_refl s.curenv) (Or.inl rfl) hlive hlive' (fun _ => h.paired _ hlive.2) hpc hcopy

variable {o : Option Nat} {b ok : Bool} {k : Nat} {old new : FdNum} {next : Option FdNum}

/-- The data of a descriptor that is not open may change. -/
theorem Paired.setData (h : Paired P s e) (hgone : FdGone P s e n) (hk : k < NDATA) :
    Paired P (s.setPage (e, dataPage n k) o b) e := by
  intro m f hf hfd
  rw [setPage_of_ne fun heq => fdPage_ne_dataPage m n hk (Prod.mk.inj heq).2] at hfd
  rw [setPage_of_ne]
  · exact h m f hf hfd
  · intro heq
    obtain ⟨rfl, -⟩ := dataPage_injective (by decide) hk (Prod.mk.inj heq).2
    exact hgone f hf hfd

theorem Paired.setFd (h : Paired P s e)
    (ho : ∀ f, P.IsEnd f → o = some f → s.maps (e, dataPage n 0) = some P.data) :
    Paired P (s.setPage (e, fdPage n) o b) e := by
  intro m f hf hfd
  rw [setPage_of_ne fun heq => fdPage_ne_dataPage n m (by decide) (Prod.mk.inj heq).2.symm]
  by_cases hmn : m = n
  · subst hmn
    rw [setPage_self] at hfd
    exact ho f hf hfd
  · rw [setPage_of_ne fun heq => hmn (fdPage_injective (Prod.mk.inj heq).2)] at hfd
    exact h m f hf hfd

theorem FdGone.setData (h : FdGone P s e n) (m : FdNum) (hk : k < NDATA) (o : Option Nat)
    (b : Bool) : FdGone P (s.setPage (e, dataPage m k) o b) e n := by
  intro f hf hfd
  rw [setPage_of_ne fun heq => fdPage_ne_dataPage n m hk (Prod.mk.inj heq).2] at hfd
  exact h f hf hfd

theorem fdGone_unmap (s : PipeEnvs) (e : EnvPtr) (n : FdNum) :
    FdGone P (s.unmapPage (e, fdPage n)) e n := by
  intro f _ hfd
  rw [PipeEnvs.unmapPage, setPage_self] at hfd
  cases hfd

/-! ### `close` -/

theorem EndsInv.closeFd (h : EndsInv P s) (hpc : s.pc s.curenv = .closeFd n next) :
    EndsInv P ((s.unmapPage (s.curenv, fdPage n)).goto (.closeData n next)) := by
  have hlive : (s.pc s.curenv).Live := by rw [hpc]; exact ⟨by simp, by simp⟩
  refine h.act (h.edit_unmap _ _) (Or.inl rfl) hlive ⟨by simp, by simp⟩ (fun _ => ?_) ?_ ?_
  · exact (h.paired _ hlive.2).setFd (by rintro f - ⟨⟩)
  · exact fdGone_unmap s s.curenv n
  · rintro b child k ⟨⟩

theorem EndsInv.closeData (h : EndsInv P s) (hpc : s.pc s.curenv = .closeData n next) :
    EndsInv P ((s.unmapPage (s.curenv, dataPage n 0)).goto (.fdClose n next)) := by
  have hlive : (s.pc s.curenv).Live := by rw [hpc]; exact ⟨by simp, by simp⟩
  have hgone : FdGone P s s.curenv n := by
    have := h.pcs s.curenv
    rwa [hpc] at this
  refine h.act (h.edit_unmap _ _) (Or.inl rfl) hlive ⟨by simp, by simp⟩ (fun _ => ?_) ?_ ?_
  · exact (h.paired _ hlive.2).setData hgone (by decide)
  · exact hgone.setData n (by decide) none false
  · rintro b child k ⟨⟩

theorem EndsInv.fdClose (h : EndsInv P s) (hpc : s.pc s.curenv = .fdClose n next) :
    EndsInv P ((s.unmapPage (s.curenv, fdPage n)).goto (PipeEnvs.afterClose n next)) := by
  have hlive : (s.pc s.curenv).Live := by rw [hpc]; exact ⟨by simp, by simp⟩
  refine h.act (h.edit_unmap _ _) (Or.inl rfl) hlive ?_ (fun _ => ?_) ?_ ?_
  · cases next <;> exact ⟨by simp [PipeEnvs.afterClose], by simp [PipeEnvs.afterClose]⟩
  · exact (h.paired _ hlive.2).setFd (by rintro f - ⟨⟩)
  · cases next with
    | none => trivial
    | some old => exact ⟨fdGone_unmap s s.curenv n, fun hk => absurd hk (Nat.lt_irrefl 0)⟩
  · cases next <;> rintro b child k ⟨⟩

/-! ### `dup` -/

theorem EndsInv.dupData (h : EndsInv P s) (hpc : s.pc s.curenv = .dupData old new k) :
    EndsInv P (s.dupDataStep old new k true) := by
  have hlive : (s.pc s.curenv).Live := by rw [hpc]; exact ⟨by simp, by simp⟩
  obtain ⟨hgone, hdata⟩ : FdGone P s s.curenv new ∧ (0 < k → DataCopied P s s.curenv old new) := by
    have := h.pcs s.curenv
    rwa [hpc] at this
  unfold PipeEnvs.dupDataStep
  split
  · rename_i hk
    simp only [Bool.and_true]
    split
    · have hedit : Edit P s (s.mapPage (s.curenv, dataPage old k) (s.curenv, dataPage new k))
          s.curenv := h.edit_map fun m hm => absurd hm.symm (fdPage_ne_dataPage m old hk)
      refine h.act hedit (Or.inl rfl) hlive ⟨by simp, by simp⟩ (fun _ => ?_) ⟨?_, fun _ => ?_⟩ ?_
      · exact (h.paired _ hlive.2).setData hgone hk
      · exact hgone.setData new hk _ (s.library (s.curenv, dataPage old k))
      · -- The first turn copies the page; the others copy pages behind it.
        intro hold
        rw [goto_maps, PipeEnvs.mapPage] at hold ⊢
        by_cases hk₀ : k = 0
        · subst hk₀
          rw [setPage_self]
          by_cases hon : old = new
          · rw [hon, setPage_self] at hold
            rw [hon, hold]
          · rwa [setPage_of_ne fun heq => hon (dataPage_injective hk hk (Prod.mk.inj heq).2).1] at hold
        · have hne : ∀ m, (s.curenv, dataPage m 0) ≠ (s.curenv, dataPage new k) := by
            intro m heq
            exact hk₀ (dataPage_injective (by decide) hk (Prod.mk.inj heq).2).2.symm
          rw [setPage_of_ne (hne _)] at hold ⊢
          exact hdata (Nat.pos_of_ne_zero hk₀) hold
      · rintro b child k ⟨⟩
    · rename_i hnone
      refine h.go hlive ⟨by simp, by simp⟩ ⟨hgone, fun _ hold => ?_⟩ (by rintro b child k ⟨⟩)
      by_cases hk₀ : k = 0
      · subst hk₀
        rw [goto_maps] at hold
        exact absurd (by rw [hold]; rfl) hnone
      · exact hdata (Nat.pos_of_ne_zero hk₀) hold
  · rename_i hk
    refine h.go hlive ⟨by simp, by simp⟩ ⟨hgone, ?_⟩ (by rintro b child k ⟨⟩)
    exact hdata (lt_of_lt_of_le (by decide) (Nat.le_of_not_lt hk))

theorem EndsInv.dupFd (h : EndsInv P s) (hpc : s.pc s.curenv = .dupFd old new) (ok : Bool) :
    EndsInv P (s.dupFdStep old new ok) := by
  have hlive : (s.pc s.curenv).Live := by rw [hpc]; exact ⟨by simp, by simp⟩
  obtain ⟨hgone, hdata⟩ : FdGone P s s.curenv new ∧ DataCopied P s s.curenv old new := by
    have := h.pcs s.curenv
    rwa [hpc] at this
  unfold PipeEnvs.dupFdStep
  simp only
  split
  · have hedit : Edit P s (s.mapPage (s.curenv, fdPage old) (s.curenv, fdPage new)) s.curenv :=
      h.edit_map fun m hm => ⟨new, rfl⟩
    refine h.act hedit (Or.inl rfl) hlive ⟨by simp, by simp⟩ (fun _ => ?_) trivial ?_
    · exact (h.paired _ hlive.2).setFd fun f hf hfd => hdata (h.paired _ hlive.2 old f hf hfd)
    · rintro b child k ⟨⟩
  · refine h.act (h.edit_unmap _ _) (Or.inl rfl) hlive ⟨by simp, by simp⟩ (fun _ => ?_) ?_ ?_
    · exact (h.paired _ hlive.2).setFd (by rintro f - ⟨⟩)
    · exact fdGone_unmap s s.curenv new
    · rintro b child k ⟨⟩

theorem EndsInv.dupErr (h : EndsInv P s) (hpc : s.pc s.curenv = .dupErr new k) :
    EndsInv P (s.dupErrStep new k) := by
  have hlive : (s.pc s.curenv).Live := by rw [hpc]; exact ⟨by simp, by simp⟩
  have hgone : FdGone P s s.curenv new := by
    have := h.pcs s.curenv
    rwa [hpc] at this
  unfold PipeEnvs.dupErrStep
  split
  · rename_i hk
    refine h.act (h.edit_unmap _ _) (Or.inl rfl) hlive ⟨by simp, by simp⟩ (fun _ => ?_) ?_ ?_
    · exact (h.paired _ hlive.2).setData hgone hk
    · exact hgone.setData new hk none false
    · rintro b child k ⟨⟩
  · exact h.go hlive ⟨by simp, by simp⟩ trivial (by rintro b child k ⟨⟩)

/-! ### `fork` and `spawn` -/

variable {child : EnvPtr}

theorem dataPage_ne_uxstack (n : FdNum) : dataPage n 0 ≠ uxstackPage := by
  intro h
  have hv := congrArg Fin.val h
  rw [dataPage_val n (by decide), show uxstackPage.val = 0x7efffff from rfl] at hv
  have := n.isLt
  unfold NDATA at hv
  omega

/-- A child that has all pages of the pipe has them in pairs, like its parent. -/
theorem Copied.paired (h : Copied P s e child (2 ^ 27)) (hp : Paired P s e) : Paired P s child := by
  intro n f hf hfd
  refine h.forth _ _ (dataPage n 0).isLt (dataPage_ne_uxstack n) (Or.inr rfl) ?_
  exact hp n f hf (h.back _ f (Or.inl hf) hfd)

/-- A child that nobody makes any more is set runnable. -/
theorem EndsInv.wake (h : EndsInv P s) (hnone : ∀ e b k, s.pc e ≠ .copy b child k)
    (hpair : Paired P s child) : EndsInv P (s.setPc child .run) := by
  have hself : (s.setPc child .run).pc child = .run := Function.update_self _ _ _
  have hother : ∀ e, e ≠ child → (s.setPc child .run).pc e = s.pc e :=
    fun e he => Function.update_of_ne he _ _
  refine ⟨h.fdpage, h.library, fun e v f hpce => ?_, fun e he => ?_, fun e => ?_, ?_, h.runs⟩
  · by_cases hec : e = child
    · rw [hec, hself] at hpce
      cases hpce
    · exact h.free e v f (hother e hec ▸ hpce)
  · by_cases hec : e = child
    · rw [hec]
      exact hpair
    · exact h.paired e (hother e hec ▸ he)
  · by_cases hec : e = child
    · rw [hec, hself]
      trivial
    · rw [hother e hec]
      refine (h.pcs e).frame (fun v f _ => Iff.rfl) (fun b c k hpce => ⟨fun v f _ => Iff.rfl, ?_⟩)
        (fun x f _ hx => ⟨x, hx⟩) le_rfl fun runs _ hf => ⟨hf, fun f _ => rfl⟩
      have hinv := h.pcs e
      rw [hpce] at hinv
      have hcc : c ≠ child := fun heq => hnone e b k (heq ▸ hpce)
      rw [hother c hcc, hinv.embryo]
  · intro e e' b b' c k k' hpce hpce'
    by_cases hec : e = child
    · rw [hec, hself] at hpce
      cases hpce
    · by_cases hec' : e' = child
      · rw [hec', hself] at hpce'
        cases hpce'
      · exact h.one (hother e hec ▸ hpce) (hother e' hec' ▸ hpce')

theorem EndsInv.copy (h : EndsInv P s) (hpc : s.pc s.curenv = .copy b child k) (ok : Bool) :
    EndsInv P (s.copyStep b child k ok) := by
  have hlive : (s.pc s.curenv).Live := by rw [hpc]; exact ⟨by simp, by simp⟩
  have hcopied : Copied P s s.curenv child k := by
    have := h.pcs s.curenv
    rwa [hpc] at this
  have hcc : child ≠ s.curenv := fun heq => hlive.2 (heq ▸ hcopied.embryo)
  have hone : ∀ b₁ c k₁, ProcPc.copy b child (k + 1) = .copy b₁ c k₁ →
      ∀ e b' k', s.pc e = .copy b' c k' → e = s.curenv := by
    rintro b₁ c k₁ ⟨⟩ e b' k' hpce
    exact h.one hpce hpc
  have hfail : EndsInv P (s.goto (if b then .run else .stuck)) := by
    cases b with
    | false => exact h.go hlive ⟨by simp, by simp⟩ trivial (by rintro b c k ⟨⟩)
    | true => exact h.go hlive ⟨by simp, by simp⟩ trivial (by rintro b c k ⟨⟩)
  unfold PipeEnvs.copyStep
  split
  · rename_i hk
    simp only
    split
    · -- A page that is left out is no page of the pipe, or the exception stack.
      rename_i hskip
      refine h.go hlive ⟨by simp, by simp⟩ ?_ hone
      refine ⟨by rw [goto_pc_of_ne hcc, hcopied.embryo], hcopied.back, ?_⟩
      intro v f hv hux hf hm
      rcases Nat.lt_succ_iff_lt_or_eq.mp hv with hvk | hvk
      · exact hcopied.forth v f hvk hux hf hm
      · have hvk' : v = ⟨k, hk⟩ := Fin.ext hvk
        subst hvk'
        rw [goto_maps] at hm
        have hlib := h.library _ f hf hm
        simp only [PipeEnvs.skips, hm, hlib, Option.isNone_some, Bool.false_or] at hskip
        cases b with
        | false => exact absurd (by simpa using hskip) hux
        | true => simp at hskip
    · split
      · have hedit : Edit P s (s.mapPage (s.curenv, ⟨k, hk⟩) (child, ⟨k, hk⟩)) child :=
          h.edit_map fun n hn => ⟨n, hn⟩
        refine h.act hedit (Or.inr ⟨b, k, hpc⟩) hlive ⟨by simp, by simp⟩ (fun heq => absurd heq hcc)
          ?_ hone
        refine ⟨?_, fun v f hf hm => ?_, fun v f hv hux hf hm => ?_⟩
        · exact (goto_pc_of_ne hcc _).trans hcopied.embryo
        · rw [goto_maps, PipeEnvs.mapPage] at hm ⊢
          rw [setPage_of_ne fun heq => hcc (Prod.mk.inj heq).1.symm]
          by_cases hvk : v = ⟨k, hk⟩
          · rw [hvk, setPage_self] at hm
            rw [hvk, hm]
          · rw [setPage_of_ne fun heq => hvk (Prod.mk.inj heq).2] at hm
            exact hcopied.back v f hf hm
        · rw [goto_maps, PipeEnvs.mapPage] at hm ⊢
          rw [setPage_of_ne fun heq => hcc (Prod.mk.inj heq).1.symm] at hm
          by_cases hvk : v = ⟨k, hk⟩
          · rw [hvk, setPage_self, ← hvk, hm]
          · rw [setPage_of_ne fun heq => hvk (Prod.mk.inj heq).2]
            have hlt : v.val ≠ k := fun heq => hvk (Fin.ext heq)
            exact hcopied.forth v f (by omega) hux hf hm
      · exact hfail
  · rename_i hk
    split
    · have hend : Copied P s s.curenv child (2 ^ 27) :=
        ⟨hcopied.embryo, hcopied.back, fun v f hv => hcopied.forth v f (by omega)⟩
      have hrun : EndsInv P (s.goto .run) := h.go hlive ⟨by simp, by simp⟩ trivial (by rintro b c k ⟨⟩)
      have hcomm : (s.setPc child .run).goto .run = (s.goto .run).setPc child .run := by
        unfold PipeEnvs.goto PipeEnvs.setPc
        simp only [Function.update_comm hcc.symm]
      rw [hcomm]
      refine hrun.wake (fun e b' k' hpce => ?_) ?_
      · by_cases hec : e = s.curenv
        · rw [hec, goto_pc_self] at hpce
          cases hpce
        · rw [goto_pc_of_ne hec] at hpce
          exact hec (h.one hpce hpc)
      · exact hend.paired (h.paired _ hlive.2)
    · exact hfail

/-! ### `_pipeisclosed` -/

variable {runs : U32} {fdref pref : Nat} {r : Word}

/-- What an `int` that was loaded from a `u64` is, compared with a `u64`. -/
theorem signExtend_toNat (runs : U32) : (runs.signExtend 64).toNat =
    if runs.toNat < 2 ^ 31 then runs.toNat else runs.toNat + (2 ^ 64 - 2 ^ 32) := by
  have hlt := runs.isLt
  rw [BitVec.toNat_signExtend, BitVec.toNat_setWidth, BitVec.msb_eq_decide]
  simp only [decide_eq_true_eq]
  split <;> split <;> omega

theorem runs_eq_of_signExtend (h : runs.signExtend 64 = r) (hr : r.toNat < 2 ^ 31) :
    runs.toNat = r.toNat := by
  have hlt := runs.isLt
  have hnat := congrArg BitVec.toNat h
  rw [signExtend_toNat] at hnat
  split at hnat <;> omega

/-- A counter is recognised after the detour through an `int` while it is small,
    or huge. -/
theorem signExtend_setWidth_iff (r : Word) : (r.setWidth 32).signExtend 64 = r ↔
    r.toNat < 2 ^ 31 ∨ 2 ^ 64 - 2 ^ 31 ≤ r.toNat := by
  have hlt := r.isLt
  rw [← BitVec.toNat_inj, signExtend_toNat, BitVec.toNat_setWidth]
  split <;> omega

theorem pageref_of_maps {m : Mappings} {va : Nat} (h : m (e, vpn va) = some f) :
    pageref m e va = m.ref f := by
  unfold pageref
  rw [h]

theorem Paired.data (h : Paired P s e) (hf : P.IsEnd f) (hfd : s.maps (e, fdPage n) = some f) :
    s.maps (e, vpn (INDEX2DATA n)) = some P.data := by
  have := h n f hf hfd
  rwa [dataPage, Nat.zero_mul, Nat.add_zero] at this

theorem EndsInv.lookRuns (h : EndsInv P s) (hpc : s.pc s.curenv = .look n) :
    EndsInv P (s.goto (.lookFd n ((s.env_runs s.curenv).setWidth 32))) := by
  have hlive : (s.pc s.curenv).Live := by rw [hpc]; exact ⟨by simp, by simp⟩
  have hfd : HasFd P s s.curenv n := by
    have := h.pcs s.curenv
    rwa [hpc] at this
  refine h.go hlive ⟨by simp, by simp⟩ ⟨hfd, ?_⟩ (by rintro b c k ⟨⟩)
  rw [BitVec.toNat_setWidth]
  exact Nat.mod_le _ _

theorem EndsInv.lookFd (h : EndsInv P s) (hpc : s.pc s.curenv = .lookFd n runs) :
    EndsInv P (s.goto (.lookData n runs (pageref s.maps s.curenv (INDEX2FD n)))) := by
  have hlive : (s.pc s.curenv).Live := by rw [hpc]; exact ⟨by simp, by simp⟩
  obtain ⟨hfd, hle⟩ : HasFd P s s.curenv n ∧ runs.toNat ≤ (s.env_runs s.curenv).toNat := by
    have := h.pcs s.curenv
    rwa [hpc] at this
  refine h.go hlive ⟨by simp, by simp⟩ ⟨hfd, hle, fun _ f _ hm => ?_⟩ (by rintro b c k ⟨⟩)
  exact pageref_of_maps hm

theorem EndsInv.lookData (h : EndsInv P s) (hpc : s.pc s.curenv = .lookData n runs fdref)
    (hpairs : ∀ e, s.pc e = .embryo → Paired P s e) :
    EndsInv P (s.goto (.lookEnd n runs fdref (pageref s.maps s.curenv (INDEX2DATA n)))) := by
  have hlive : (s.pc s.curenv).Live := by rw [hpc]; exact ⟨by simp, by simp⟩
  have hinv : PcInv P s s.curenv (.lookData n runs fdref) := by
    have := h.pcs s.curenv
    rwa [hpc] at this
  obtain ⟨hfd, hle, hrefs⟩ := hinv
  have hall : ∀ e, Paired P s e := fun e => by
    by_cases hpce : s.pc e = .embryo
    · exact hpairs e hpce
    · exact h.paired e hpce
  refine h.go hlive ⟨by simp, by simp⟩ ⟨hfd, hle, fun hfresh heq f hf hm => ?_⟩
    (by rintro b c k ⟨⟩)
  refine opposite_gone h.fdpage hall hf ?_
  have hdata : pageref s.maps s.curenv (INDEX2DATA n) = s.maps.ref P.data :=
    pageref_of_maps ((hall _).data hf hm)
  exact (hrefs hfresh f hf hm).symm.trans (heq.trans hdata)

theorem EndsInv.lookEnd (h : EndsInv P s) (hpc : s.pc s.curenv = .lookEnd n runs fdref pref) :
    EndsInv P (s.goto (if runs.signExtend 64 ≠ s.env_runs s.curenv then .look n
      else .closed n (decide (fdref = pref)))) := by
  have hlive : (s.pc s.curenv).Live := by rw [hpc]; exact ⟨by simp, by simp⟩
  have hinv : PcInv P s s.curenv (.lookEnd n runs fdref pref) := by
    have := h.pcs s.curenv
    rwa [hpc] at this
  obtain ⟨hfd, hle, hgone⟩ := hinv
  by_cases hruns : runs.signExtend 64 = s.env_runs s.curenv
  · rw [if_neg (not_not.mpr hruns)]
    refine h.go hlive ⟨by simp, by simp⟩ (fun heq => ?_) (by rintro b c k ⟨⟩)
    exact hgone ⟨rfl, runs_eq_of_signExtend hruns (h.runs _)⟩ (of_decide_eq_true heq)
  · rw [if_pos hruns]
    exact h.go hlive ⟨by simp, by simp⟩ hfd (by rintro b c k ⟨⟩)

/-! ## Runs -/

theorem endsInv_exec (h : EndsInv P s) (hok : PipeStepOk P s (.exec ok)) :
    EndsInv P (s.exec ok) := by
  unfold PipeEnvs.exec
  cases hpc : s.pc s.curenv with
  | free => exact h
  | embryo => exact h
  | run => exact h
  | stuck => exact h
  | copy b child k => exact h.copy hpc ok
  | closeFd n next => exact h.closeFd hpc
  | closeData n next => exact h.closeData hpc
  | fdClose n next => exact h.fdClose hpc
  | dupData old new k =>
      obtain rfl : ok = true := hok.2 old new k hpc
      exact h.dupData hpc
  | dupFd old new => exact h.dupFd hpc ok
  | dupErr new k => exact h.dupErr hpc
  | look n => exact h.lookRuns hpc
  | lookFd n runs => exact h.lookFd hpc
  | lookData n runs fdref => exact h.lookData hpc (hok.1 n runs fdref hpc)
  | lookEnd n runs fdref pref => exact h.lookEnd hpc
  | closed n r =>
      have hlive : (s.pc s.curenv).Live := by rw [hpc]; exact ⟨by simp, by simp⟩
      exact h.go hlive ⟨by simp, by simp⟩ trivial (by rintro b c k ⟨⟩)

theorem envRun_env_runs_self (s : PipeEnvs) (e : EnvPtr) :
    (s.envRun e).env_runs e = s.env_runs e + 1 := Function.update_self _ _ _

theorem envRun_env_runs_of_ne {e e' : EnvPtr} (h : e' ≠ e) (s : PipeEnvs) :
    (s.envRun e).env_runs e' = s.env_runs e' := Function.update_of_ne h _ _

theorem endsInv_sched (h : EndsInv P s) (hok : PipeStepOk P s (.sched e)) :
    EndsInv P (s.envRun e) := by
  have hok' : (s.env_runs e).toNat + 1 < 2 ^ 31 := hok
  have hnext : ((s.envRun e).env_runs e).toNat = (s.env_runs e).toNat + 1 := by
    rw [envRun_env_runs_self, BitVec.toNat_add, show (1 : Word).toNat = 1 from rfl]
    omega
  refine ⟨h.fdpage, h.library, h.free, h.paired, fun e' => ?_, h.one, fun e' => ?_⟩
  · refine (h.pcs e').frame (fun v f _ => Iff.rfl) (fun b c k hpce => ⟨fun v f _ => Iff.rfl, ?_⟩)
      (fun x f _ hx => ⟨x, hx⟩) ?_ fun runs hle hf => ?_
    · have hinv := h.pcs e'
      rw [hpce] at hinv
      exact hinv.embryo
    · by_cases he : e' = e
      · subst he
        omega
      · rw [envRun_env_runs_of_ne he]
    · -- Whoever is scheduled has been counted once more.
      obtain ⟨hcur, hruns⟩ := hf
      have he : e = e' := hcur
      subst he
      omega
  · by_cases he : e' = e
    · subst he
      omega
    · rw [envRun_env_runs_of_ne he]
      exact h.runs e'

theorem ref_congr {m m' : Mappings} (h : ∀ x, m' x = some f ↔ m x = some f) : m'.ref f = m.ref f := by
  unfold Mappings.ref slotCount
  congr 1
  exact Finset.filter_congr fun x _ => h x

theorem endsInv_other (h : EndsInv P s) (hold : ∀ f, P.Has f → s.maps x ≠ some f)
    (hnew : ∀ f, P.Has f → o ≠ some f) : EndsInv P (s.setPage x o b) := by
  have hmaps : ∀ y f, P.Has f → ((s.setPage x o b).maps y = some f ↔ s.maps y = some f) := by
    intro y f hf
    by_cases hy : y = x
    · subst hy
      rw [setPage_self]
      exact ⟨fun ho => absurd ho (hnew f hf), fun hm => absurd hm (hold f hf)⟩
    · rw [setPage_of_ne hy]
  refine ⟨fun y f hf hy => ?_, fun y f hf hy => ?_, fun e v f hpce hf hy => ?_, fun e he n f hf hy => ?_,
    fun e => ?_, h.one, h.runs⟩
  · exact h.fdpage y f hf ((hmaps y f (Or.inl hf)).mp hy)
  · have hm := (hmaps y f hf).mp hy
    rw [setPage_library_of_ne]
    · exact h.library y f hf hm
    · rintro rfl
      exact hold f hf hm
  · exact h.free e v f hpce hf ((hmaps _ f hf).mp hy)
  · exact (hmaps _ _ (Or.inr rfl)).mpr (h.paired e he n f hf ((hmaps _ f (Or.inl hf)).mp hy))
  · refine (h.pcs e).frame (fun v f hf => hmaps _ f hf)
      (fun b c k hpce => ⟨fun v f hf => hmaps _ f hf, ?_⟩)
      (fun y f hf hy => ⟨y, (hmaps y f hf).mp hy⟩) le_rfl
      fun runs _ hf => ⟨hf, fun f hf => ref_congr fun y => hmaps y f hf⟩
    have hinv := h.pcs e
    rw [hpce] at hinv
    exact hinv.embryo

theorem endsInv_destroy (h : EndsInv P s) (hpc : s.pc s.curenv = .run)
    (he : ∀ e' b k, s.pc e' ≠ .copy b e k) : EndsInv P (s.envFree e) := by
  have hself : (s.envFree e).pc e = .free := Function.update_self _ _ _
  have hother : ∀ e', e' ≠ e → (s.envFree e).pc e' = s.pc e' :=
    fun e' hne => Function.update_of_ne hne _ _
  have hmaps : ∀ x, x.1 ≠ e → (s.envFree e).maps x = s.maps x := fun x hx => if_neg hx
  have hsub : ∀ x f, (s.envFree e).maps x = some f → x.1 ≠ e ∧ s.maps x = some f := by
    intro x f hx
    by_cases hxe : x.1 = e
    · have hnone : (s.envFree e).maps x = none := if_pos hxe
      rw [hnone] at hx
      cases hx
    · exact ⟨hxe, hmaps x hxe ▸ hx⟩
  refine ⟨fun x f hf hx => h.fdpage x f hf (hsub x f hx).2,
    fun x f hf hx => h.library x f hf (hsub x f hx).2, fun e' v f hpce hf hx => ?_,
    fun e' hpce n f hf hfd => ?_, fun e' => ?_, ?_, h.runs⟩
  · obtain ⟨hne, hx⟩ := hsub _ f hx
    exact h.free e' v f (hother e' hne ▸ hpce) hf hx
  · obtain ⟨hne, hfd⟩ := hsub _ f hfd
    have hne' : e' ≠ e := hne
    rw [hmaps (e', dataPage n 0) hne']
    exact h.paired e' (hother e' hne' ▸ hpce) n f hf hfd
  · by_cases hne : e' = e
    · rw [hne, hself]
      trivial
    · rw [hother e' hne]
      by_cases hcur : e' = s.curenv
      · rw [hcur, hpc]
        trivial
      · have hagree : ∀ e', e' ≠ e → Agree P s (s.envFree e) e' :=
          fun e' hne v f _ => by rw [hmaps (e', v) hne]
        refine (h.pcs e').frame (hagree e' hne) (fun b c k hpce => ?_)
          (fun x f _ hx => ⟨x, (hsub x f hx).2⟩) le_rfl fun runs _ hf => absurd hf.1.symm hcur
        have hce : c ≠ e := fun heq => he e' b k (heq ▸ hpce)
        have hinv := h.pcs e'
        rw [hpce] at hinv
        exact ⟨hagree c hce, by rw [hother c hce, hinv.embryo]⟩
  · intro e₁ e₂ b₁ b₂ c k₁ k₂ h₁ h₂
    by_cases hne₁ : e₁ = e
    · rw [hne₁, hself] at h₁
      cases h₁
    · by_cases hne₂ : e₂ = e
      · rw [hne₂, hself] at h₂
        cases h₂
      · exact h.one (hother e₁ hne₁ ▸ h₁) (hother e₂ hne₂ ▸ h₂)

theorem endsInv_envAlloc (h : EndsInv P s) (hpc : s.pc s.curenv = .run) (hfree : s.pc child = .free)
    (b : Bool) : EndsInv P ((s.setPc child .embryo).goto (.copy b child 0)) := by
  have hcc : child ≠ s.curenv := by
    rintro rfl
    rw [hpc] at hfree
    cases hfree
  have hself : (s.setPc child .embryo).pc child = .embryo := Function.update_self _ _ _
  have hother : ∀ e, e ≠ child → (s.setPc child .embryo).pc e = s.pc e :=
    fun e he => Function.update_of_ne he _ _
  have hnone : ∀ e b k, s.pc e ≠ .copy b child k := by
    intro e b k hpce
    have hinv := h.pcs e
    rw [hpce] at hinv
    have := hinv.embryo
    rw [hfree] at this
    cases this
  have hold : ∀ e b c k, (s.setPc child .embryo).pc e = .copy b c k → s.pc e = .copy b c k := by
    intro e b c k hpce
    by_cases hec : e = child
    · rw [hec, hself] at hpce
      cases hpce
    · exact hother e hec ▸ hpce
  have hinv : EndsInv P (s.setPc child .embryo) := by
    refine ⟨h.fdpage, h.library, fun e v f hpce => ?_, fun e hpce => ?_, fun e => ?_, ?_, h.runs⟩
    · by_cases hec : e = child
      · rw [hec, hself] at hpce
        cases hpce
      · exact h.free e v f (hother e hec ▸ hpce)
    · by_cases hec : e = child
      · rw [hec, hself] at hpce
        exact absurd rfl hpce
      · exact h.paired e (hother e hec ▸ hpce)
    · by_cases hec : e = child
      · rw [hec, hself]
        trivial
      · rw [hother e hec]
        refine (h.pcs e).frame (fun v f _ => Iff.rfl) (fun b c k hpce => ⟨fun v f _ => Iff.rfl, ?_⟩)
          (fun x f _ hx => ⟨x, hx⟩) le_rfl fun runs _ hf => ⟨hf, fun f _ => rfl⟩
        have hinv := h.pcs e
        rw [hpce] at hinv
        by_cases hc : c = child
        · exact absurd (hc ▸ hpce) (hnone e b k)
        · rw [hother c hc, hinv.embryo]
    · intro e e' b b' c k k' hpce hpce'
      exact h.one (hold e b c k hpce) (hold e' b' c k' hpce')
  have hlive : ((s.setPc child .embryo).pc s.curenv).Live := by
    rw [hother _ hcc.symm, hpc]
    exact ⟨by simp, by simp⟩
  refine hinv.go hlive ⟨by simp, by simp⟩ ⟨?_, fun v f hf hm => ?_, fun v f hv => ?_⟩ ?_
  · rw [goto_pc_of_ne (by exact hcc), hself]
  · exact absurd hm (h.free child v f hfree hf)
  · exact absurd hv (Nat.not_lt_zero _)
  · rintro b c k ⟨⟩ e b' k' hpce
    exact absurd (hold e b' child k' hpce) (hnone e b' k')

theorem endsInv_step {ev : PipeEvent} (h : EndsInv P s) (hok : PipeStepOk P s ev)
    (hstep : PipeStep P s ev s') : EndsInv P s' := by
  have hlive : s.pc s.curenv = .run → (s.pc s.curenv).Live := by
    intro hpc
    rw [hpc]
    exact ⟨by simp, by simp⟩
  cases hstep with
  | sched hfree hembryo => exact endsInv_sched h hok
  | exec ok => exact endsInv_exec h hok
  | envAlloc b hpc hfree => exact endsInv_envAlloc h hpc hfree b
  | close hpc hf hfd => exact h.go (hlive hpc) ⟨by simp, by simp⟩ trivial (by rintro b c k ⟨⟩)
  | dupClose hpc hf hfd => exact h.go (hlive hpc) ⟨by simp, by simp⟩ trivial (by rintro b c k ⟨⟩)
  | dupOther hpc hfd =>
      refine h.go (hlive hpc) ⟨by simp, by simp⟩ (fun f hf => ?_) (by rintro b c k ⟨⟩)
      exact hfd f (Or.inl hf)
  | dupNew hpc hfd =>
      refine h.go (hlive hpc) ⟨by simp, by simp⟩ ⟨fun f hf hm => ?_, fun hk => ?_⟩
        (by rintro b c k ⟨⟩)
      · rw [goto_maps, hfd] at hm
        cases hm
      · exact absurd hk (Nat.lt_irrefl 0)
  | look hpc hf hfd =>
      exact h.go (hlive hpc) ⟨by simp, by simp⟩ ⟨_, hf, hfd⟩ (by rintro b c k ⟨⟩)
  | destroy hpc he => exact endsInv_destroy h hpc he
  | other hold hnew => exact endsInv_other h hold hnew

/-- One pass of the loop of `_pipeisclosed`. -/
def PipeEnvs.pass (s : PipeEnvs) : PipeEnvs :=
  (((s.exec true).exec true).exec true).exec true

@[simp] theorem goto_goto (s : PipeEnvs) (pc pc' : ProcPc) : (s.goto pc).goto pc' = s.goto pc' := by
  unfold PipeEnvs.goto PipeEnvs.setPc
  simp only [Function.update_idem]

theorem exec_look (hpc : s.pc s.curenv = .look n) (ok : Bool) :
    s.exec ok = s.goto (.lookFd n ((s.env_runs s.curenv).setWidth 32)) := by
  rw [PipeEnvs.exec, hpc]

theorem exec_lookFd (hpc : s.pc s.curenv = .lookFd n runs) (ok : Bool) :
    s.exec ok = s.goto (.lookData n runs (pageref s.maps s.curenv (INDEX2FD n))) := by
  rw [PipeEnvs.exec, hpc]

theorem exec_lookData (hpc : s.pc s.curenv = .lookData n runs fdref) (ok : Bool) :
    s.exec ok = s.goto (.lookEnd n runs fdref (pageref s.maps s.curenv (INDEX2DATA n))) := by
  rw [PipeEnvs.exec, hpc]

theorem exec_lookEnd (hpc : s.pc s.curenv = .lookEnd n runs fdref pref) (ok : Bool) :
    s.exec ok = s.goto (if runs.signExtend 64 ≠ s.env_runs s.curenv then .look n
      else .closed n (decide (fdref = pref))) := by
  rw [PipeEnvs.exec, hpc]

theorem pass_eq (hpc : s.pc s.curenv = .look n) :
    s.pass = s.goto (if ((s.env_runs s.curenv).setWidth 32).signExtend 64 ≠ s.env_runs s.curenv
      then .look n
      else .closed n (decide (pageref s.maps s.curenv (INDEX2FD n) =
        pageref s.maps s.curenv (INDEX2DATA n)))) := by
  unfold PipeEnvs.pass
  rw [exec_look hpc, exec_lookFd (goto_pc_self _ _), exec_lookData (goto_pc_self _ _),
    exec_lookEnd (goto_pc_self _ _)]
  simp only [goto_goto, goto_maps, goto_curenv, goto_env_runs]

/-- A pass that nobody interrupts is the last one, as long as an `int` can hold
    `env_runs`. -/
theorem pass_closed_iff (hpc : s.pc s.curenv = .look n) :
    (∃ r, s.pass.pc s.curenv = .closed n r) ↔
      ((s.env_runs s.curenv).toNat < 2 ^ 31 ∨ 2 ^ 64 - 2 ^ 31 ≤ (s.env_runs s.curenv).toNat) := by
  rw [← signExtend_setWidth_iff, pass_eq hpc, goto_pc_self]
  by_cases hruns : ((s.env_runs s.curenv).setWidth 32).signExtend 64 = s.env_runs s.curenv
  · rw [if_neg (not_not.mpr hruns)]
    exact iff_of_true ⟨_, rfl⟩ hruns
  · rw [if_pos hruns]
    refine iff_of_false ?_ hruns
    rintro ⟨r, ⟨⟩⟩

/-- What `_pipeisclosed` promises in a state: where it has returned 1, nobody has
    the other end, and from the top of its loop one pass by itself finishes it. -/
def NoFalseEnd (P : PipeFrames) (s : PipeEnvs) : Prop :=
  (∀ e n f, s.pc e = .closed n true → P.IsEnd f → s.maps (e, fdPage n) = some f →
    ∀ x, s.maps x ≠ some (P.opposite f)) ∧
  ∀ n, s.pc s.curenv = .look n → ∃ r, s.pass.pc s.curenv = .closed n r

def threeFrames : PipeFrames := ⟨1, 2, 3, by decide, by decide, by decide⟩

def noPages : PipeEnvs where
  maps := fun _ => none
  library := fun _ => true
  curenv := 1
  env_runs := fun _ => 0
  pc := fun e => if e = 1 ∨ e = 2 then .run else .free

/-- Process 1 has both ends of the pipe, process 2 the end that is read. -/
def twoReaders : PipeEnvs :=
  (((((noPages.setPage (1, dataPage 0 0) (some 3) true).setPage (1, dataPage 1 0) (some 3) true).setPage
    (2, dataPage 0 0) (some 3) true).setPage (1, fdPage 0) (some 1) true).setPage
    (1, fdPage 1) (some 2) true).setPage (2, fdPage 0) (some 1) true

theorem ref_setPage {q : Nat} (hq : o = some q) (hx : s.maps x = none) :
    (s.setPage x o b).maps.ref f = s.maps.ref f + if q = f then 1 else 0 := by
  have hw := slotCount_write (mem_allSlots x) (f := s.maps) (g := (s.setPage x o b).maps)
    (fun y _ hy => setPage_of_ne hy s o b) f
  have hold : slotShare s.maps x f = 0 := by rw [slotShare, hx, if_neg (by simp)]
  have hnew : slotShare (s.setPage x o b).maps x f = if q = f then 1 else 0 := by
    simp only [slotShare, setPage_self, hq, Option.some.injEq]
  rw [hold, hnew, Nat.add_zero] at hw
  exact hw

theorem noPages_ref (f : Nat) : noPages.maps.ref f = 0 :=
  Finset.card_eq_zero.mpr (Finset.filter_eq_empty_iff.mpr fun _ _ h => nomatch h)

theorem setPage_eq_some {y : EnvPtr × Vpn} (h : (s.setPage x o b).maps y = some f) :
    (y = x ∧ o = some f) ∨ s.maps y = some f := by
  by_cases hy : y = x
  · subst hy
    rw [setPage_self] at h
    exact Or.inl ⟨rfl, h⟩
  · rw [setPage_of_ne hy] at h
    exact Or.inr h

theorem twoReaders_pages (h : twoReaders.maps x = some f) :
    (f = 3 ∧ ∃ e n, x = (e, dataPage n 0) ∧ (e = 1 ∨ e = 2)) ∨
    (f = 1 ∧ (x = (1, fdPage 0) ∨ x = (2, fdPage 0))) ∨ f = 2 ∧ x = (1, fdPage 1) := by
  rcases setPage_eq_some h with ⟨rfl, ⟨⟩⟩ | h
  · exact Or.inr (Or.inl ⟨rfl, Or.inr rfl⟩)
  rcases setPage_eq_some h with ⟨rfl, ⟨⟩⟩ | h
  · exact Or.inr (Or.inr ⟨rfl, rfl⟩)
  rcases setPage_eq_some h with ⟨rfl, ⟨⟩⟩ | h
  · exact Or.inr (Or.inl ⟨rfl, Or.inl rfl⟩)
  rcases setPage_eq_some h with ⟨rfl, ⟨⟩⟩ | h
  · exact Or.inl ⟨rfl, 2, 0, rfl, Or.inr rfl⟩
  rcases setPage_eq_some h with ⟨rfl, ⟨⟩⟩ | h
  · exact Or.inl ⟨rfl, 1, 1, rfl, Or.inl rfl⟩
  rcases setPage_eq_some h with ⟨rfl, ⟨⟩⟩ | h
  · exact Or.inl ⟨rfl, 1, 0, rfl, Or.inl rfl⟩
  · cases h

theorem twoReaders_started : twoReaders.Started threeFrames := by
  have hpc : ∀ e, twoReaders.pc e = if e = 1 ∨ e = 2 then .run else .free := fun _ => rfl
  have hends : ∀ x f, threeFrames.IsEnd f → twoReaders.maps x = some f →
      (f = 1 ∧ (x = (1, fdPage 0) ∨ x = (2, fdPage 0))) ∨ f = 2 ∧ x = (1, fdPage 1) := by
    intro x f hf hx
    rcases twoReaders_pages hx with ⟨rfl, -⟩ | h
    · rcases hf with h3 | h3
      · exact absurd h3 (by decide)
      · exact absurd h3 (by decide)
    · exact h
  constructor
  · intro e
    rw [hpc]
    split
    · exact Or.inr rfl
    · exact Or.inl rfl
  · intro e v f hfree _ hx
    have he : ¬(e = 1 ∨ e = 2) := by
      intro he
      rw [hpc, if_pos he] at hfree
      cases hfree
    refine he ?_
    rcases twoReaders_pages hx with ⟨-, e', n, heq, he'⟩ | ⟨-, heq | heq⟩ | ⟨-, heq⟩
    · rw [(Prod.mk.inj heq).1]
      exact he'
    · exact Or.inl (Prod.mk.inj heq).1
    · exact Or.inr (Prod.mk.inj heq).1
    · exact Or.inl (Prod.mk.inj heq).1
  · intro x f hf hx
    rcases hends x f hf hx with ⟨-, rfl | rfl⟩ | ⟨-, rfl⟩
    · exact ⟨0, rfl⟩
    · exact ⟨0, rfl⟩
    · exact ⟨1, rfl⟩
  · intro x f _ _
    simp only [twoReaders, PipeEnvs.setPage, noPages, Function.update_apply, ite_self]
  · intro e n f hf hx
    rcases hends _ f hf hx with ⟨-, heq | heq⟩ | ⟨-, heq⟩
    · obtain ⟨rfl, hn⟩ := Prod.mk.inj heq
      rw [fdPage_injective hn]
      rfl
    · obtain ⟨rfl, hn⟩ := Prod.mk.inj heq
      rw [fdPage_injective hn]
      rfl
    · obtain ⟨rfl, hn⟩ := Prod.mk.inj heq
      rw [fdPage_injective hn]
      rfl
  · intro e
    exact (by decide : (0 : Word).toNat < 2 ^ 31)

/-- Process 1 forks process 3, and has come to page `k`. -/
def forking (k : Nat) : PipeEnvs := (twoReaders.setPc 3 .embryo).goto (.copy false 3 k)

/-- It has copied the page of descriptor 0, and process 2 asks about the pipe. -/
def halfCopied : PipeEnvs :=
  (((forking 0x70000).mapPage (1, fdPage 0) (3, fdPage 0)).goto (.copy false 3 0x70001)).envRun 2

theorem forking_exec {k : Nat} (hk : k < 0x70000) : (forking k).exec true = forking (k + 1) := by
  have hlt : k < 2 ^ 27 := by omega
  have hnone : twoReaders.maps (1, ⟨k, hlt⟩) = none := by
    cases hm : twoReaders.maps (1, ⟨k, hlt⟩) with
    | none => rfl
    | some f =>
        have hpage : 0x70000 ≤ k := by
          rcases twoReaders_pages hm with ⟨-, e, n, heq, -⟩ | ⟨-, heq | heq⟩ | ⟨-, heq⟩
          · have hv := congrArg Fin.val (Prod.mk.inj heq).2
            rw [dataPage_val n (by decide)] at hv
            have hv' : k = 0x80000 + n.val * NDATA + 0 := hv
            omega
          · exact le_of_eq (congrArg Fin.val (Prod.mk.inj heq).2).symm
          · exact absurd (Prod.mk.inj heq).1 (by decide)
          · have hv := congrArg Fin.val (Prod.mk.inj heq).2
            rw [fdPage_val] at hv
            have hv' : k = 0x70000 + (1 : FdNum).val := hv
            omega
        omega
  have hskip : (forking k).skips false ⟨k, hlt⟩ = true := by
    have hmaps : (forking k).maps = twoReaders.maps := rfl
    have hcur : (forking k).curenv = 1 := rfl
    rw [PipeEnvs.skips, hmaps, hcur, hnone]
    rfl
  have hexec : (forking k).exec true = (forking k).copyStep false 3 k true := by
    rw [PipeEnvs.exec, show (forking k).pc (forking k).curenv = .copy false 3 k from goto_pc_self _ _]
  rw [hexec, PipeEnvs.copyStep, dif_pos hlt, if_pos hskip, forking, goto_goto, forking]

theorem forking_run {k : Nat} (hk : k ≤ 0x70000) :
    ∃ tr, Run (PipeStep threeFrames) (forking 0) tr (forking k) := by
  induction k with
  | zero => exact ⟨[], .nil⟩
  | succ k ih =>
      obtain ⟨tr, hrun⟩ := ih (by omega)
      have hk' : k < 0x70000 := by omega
      have hstep : PipeStep threeFrames (forking k) (.exec true) (forking (k + 1)) := by
        rw [← forking_exec hk']
        exact .exec true
      exact ⟨_, .snoc hrun hstep⟩

theorem forking_copies : (forking 0x70000).exec true =
    ((forking 0x70000).mapPage (1, fdPage 0) (3, fdPage 0)).goto (.copy false 3 0x70001) := by
  have hlt : 0x70000 < 2 ^ 27 := by decide
  have hpage : (⟨0x70000, hlt⟩ : Vpn) = fdPage 0 := rfl
  have hskip : (forking 0x70000).skips false (fdPage 0) = false := by decide
  have hexec : (forking 0x70000).exec true = (forking 0x70000).copyStep false 3 0x70000 true := by
    rw [PipeEnvs.exec, show (forking 0x70000).pc (forking 0x70000).curenv = .copy false 3 0x70000 from
      goto_pc_self _ _]
  rw [hexec, PipeEnvs.copyStep, dif_pos hlt]
  simp only [hpage, hskip, Bool.false_eq_true, if_false, if_true]
  rfl

theorem halfCopied_run : ∃ tr, Run (PipeStep threeFrames) twoReaders tr (halfCopied.goto (.look 0)) := by
  have halloc : PipeStep threeFrames twoReaders .other (forking 0) := .envAlloc false rfl rfl
  obtain ⟨tr, hrun⟩ := forking_run (le_refl 0x70000)
  have hcopy : PipeStep threeFrames (forking 0x70000) (.exec true)
      (((forking 0x70000).mapPage (1, fdPage 0) (3, fdPage 0)).goto (.copy false 3 0x70001)) := by
    rw [← forking_copies]
    exact .exec true
  have hrunning : (((forking 0x70000).mapPage (1, fdPage 0) (3, fdPage 0)).goto
      (.copy false 3 0x70001)).pc 2 = .run := rfl
  have hsched : PipeStep threeFrames _ (.sched 2) halfCopied :=
    .sched (by rw [hrunning]; nofun) (by rw [hrunning]; nofun)
  have hlook : PipeStep threeFrames halfCopied .other (halfCopied.goto (.look 0)) :=
    .look rfl (Or.inl rfl) rfl
  exact ⟨_, (((Run.cons halloc hrun).snoc hcopy).snoc hsched).snoc hlook⟩

/-- Three processes have the end that is read, and the data is mapped three times. -/
theorem halfCopied_refs : halfCopied.maps.ref 1 = 3 ∧ halfCopied.maps.ref 3 = 3 := by
  have hmaps : halfCopied.maps = (twoReaders.setPage (3, fdPage 0) (some 1) true).maps := rfl
  have href : ∀ f, halfCopied.maps.ref f = noPages.maps.ref f + (if 3 = f then 1 else 0) +
      (if 3 = f then 1 else 0) + (if 3 = f then 1 else 0) + (if 1 = f then 1 else 0) +
      (if 2 = f then 1 else 0) + (if 1 = f then 1 else 0) + (if 1 = f then 1 else 0) := by
    intro f
    rw [hmaps, ref_setPage rfl (by decide), twoReaders, ref_setPage rfl (by decide),
      ref_setPage rfl (by decide), ref_setPage rfl (by decide), ref_setPage rfl (by decide),
      ref_setPage rfl (by decide), ref_setPage rfl rfl]
  rw [href, href, noPages_ref, noPages_ref]
  exact ⟨by decide, by decide⟩

end RpiMos
