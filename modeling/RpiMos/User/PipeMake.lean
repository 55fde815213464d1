/-
  RpiMos.User.PipeMake

  `pipe` of user/pipe.c: two descriptors, a page between them, and the ladder of
  labels that takes them back.  The results of its system calls go through a
  `u64`, so that none of the comparisons with 0 is ever true.
-/

import RpiMos.User.Client

namespace RpiMos

open Lib

def pipePerm : Word := VALID ||| PTE_RW ||| PTE_LIBRARY ||| PTE_USER

/-- `devpipe.dev_id`. -/
def DEV_PIPE : U32 := 112

/-- `fd->fd_dev_id = ..` and `fd->fd_omode = ..`. -/
def setFd (fd : Word) (omode : U32) : ClientM PUnit := do
  storeU32 fd DEV_PIPE
  storeU32 (fd + 16) omode

/-- `pipe(pfd)`: its result, and what it stores into `pfd`.  The pointers hold `fd0`
    and `fd1` before they are set. -/
def pipe (fd0 fd1 : Word) : ClientM (U32 × Option (U32 × U32)) := do
  let (_, fd0) ← fdAlloc fd0
  let r ← memAlloc fd0 pipePerm
  -- `r` is the result of the comparison.
  if r.msb then pure (1, none)
  else
    let (_, fd1) ← fdAlloc fd1
    let r ← memAlloc fd1 pipePerm
    if r.msb then
      let _ ← memUnmap fd0
      pure (1, none)
    else
      -- A `u64` is not negative: `err3` and `err4` are never reached.
      let va := fd2data fd0
      let _ ← memAlloc va pipePerm
      let _ ← memMap va (fd2data fd1) pipePerm
      setFd fd0 O_RDONLY
      setFd fd1 O_WRONLY
      pure (0, some (fd2num fd0, fd2num fd1))

/-! ## What is asked of it -/

/-- Two of the descriptors that `fd_alloc` tries are free. -/
def Client.TwoFree (s : Client) : Prop :=
  ∃ i j, i < j ∧ j < MAXFD - 1 ∧ s.mapped (fdVa (BitVec.ofNat 32 i)) = false ∧
    s.mapped (fdVa (BitVec.ofNat 32 j)) = false

/-- There are two descriptors, and the kernel refuses none of the four calls. -/
structure NoStepFails (s : Client) : Prop where
  free : s.TwoFree
  answers : ∀ k, k < 4 → (s.answers (s.calls + k)).isSome = true

/-- A descriptor of a pipe that is open. -/
structure PipeFd (s : Client) (fdnum omode : U32) : Prop where
  lookup : s.fdLookup fdnum = .ok (fdVa fdnum)
  dev : s.mem.ld32 (fdVa fdnum).toNat = DEV_PIPE
  mode : s.mem.ld32 (fdVa fdnum + 16).toNat = omode

/-- Both descriptors can be used, and one page is at the data of both. -/
structure PipeMade (s : Client) (fds : U32 × U32) : Prop where
  reader : PipeFd s fds.1 O_RDONLY
  writer : PipeFd s fds.2 O_WRONLY
  data : ∃ frame, s.pages (pageOf (dataVa fds.1)) = some ⟨frame, pipePerm⟩ ∧
    s.pages (pageOf (dataVa fds.2)) = some ⟨frame, pipePerm⟩

/-- When a step fails the result is negative, no page is there that was not, and
    `pfd` is as before; the result is 0 only when the pipe is made. -/
structure PipeReports (fd0 fd1 : Word) (s : Client) : Prop where
  failed : ¬ NoStepFails s → ∃ r s', pipe fd0 fd1 s = .ret (r, none) s' ∧ r.msb = true ∧
    ∀ v, s.pages v = none → s'.pages v = none
  made : ∀ fds s', pipe fd0 fd1 s = .ret (0, fds) s' → ∃ fd, fds = some fd ∧ PipeMade s' fd

/-! ## Its results -/

variable {s s' : Client} {va perm : Word}

/-- Neither 0 nor 1 is negative. -/
theorem pipe_result (fd0 fd1 : Word) :
    Prog.Yields (fun x : U32 × Option (U32 × U32) => x.1.msb = false) (fun _ => True) (pipe fd0 fd1) := by
  have hany : ∀ {α : Type} (x : ClientM α), Prog.Yields (fun _ : α => True) (fun _ => True) x :=
    fun x s => ⟨fun _ _ _ => trivial, fun _ _ _ => trivial⟩
  refine (hany _).bind fun a _ => (hany _).bind fun r _ => ?_
  split
  · exact Prog.yields_pure rfl
  refine (hany _).bind fun b _ => (hany _).bind fun r' _ => ?_
  split
  · exact (hany _).bind fun _ _ => Prog.yields_pure rfl
  exact (hany _).bind fun _ _ => (hany _).bind fun _ _ => (hany _).bind fun _ _ =>
    (hany _).bind fun _ _ => Prog.yields_pure (show (0 : U32).msb = false from rfl)

/-! ## A run without failures -/

theorem memAlloc_ok {frame : Nat} (hva : ¬ KERNBASE ≤ va) (ha : s.answers s.calls = some frame) :
    memAlloc va perm s = .ret 0 (s.asked.allocPage (pageOf va) ⟨frame, perm ||| VALID⟩) := by
  unfold memAlloc
  rw [if_neg hva]
  refine (Prog.bind_ret (Prog.get_apply s)).trans ((Prog.bind_ret (Prog.modify_apply _ s)).trans ?_)
  have hanswer : s.answer = some frame := ha
  rw [hanswer]
  rfl

theorem memMap_ok {srcva dstva : Word} {pte : UserPte} (hsrc : ¬ KERNBASE ≤ srcva) (hdst : ¬ KERNBASE ≤ dstva)
    (hpage : s.pages (pageOf srcva) = some pte) (ha : (s.answers s.calls).isSome = true) :
    memMap srcva dstva perm s =
      .ret 0 (s.asked.copyPage (pageOf srcva) (pageOf dstva) ⟨pte.frame, perm ||| VALID⟩) := by
  obtain ⟨frame, hframe⟩ := Option.isSome_iff_exists.mp ha
  have hanswer : s.answer = some frame := hframe
  unfold memMap
  rw [if_neg (not_or.mpr ⟨hsrc, hdst⟩)]
  refine (Prog.bind_ret (Prog.get_apply s)).trans ?_
  simp only [hpage]
  refine (Prog.bind_ret (Prog.modify_apply _ s)).trans ?_
  rw [hanswer]
  rfl

theorem memAlloc_refused (ha : s.answers s.calls = none) : ∃ s', memAlloc va perm s = .ret REFUSED s' ∧
    s'.pages = s.pages := by
  unfold memAlloc
  by_cases hva : KERNBASE ≤ va
  · rw [if_pos hva]
    exact ⟨s, rfl, rfl⟩
  · have hanswer : s.answer = none := ha
    rw [if_neg hva]
    refine ⟨s.asked, ?_, rfl⟩
    refine (Prog.bind_ret (Prog.get_apply s)).trans ((Prog.bind_ret (Prog.modify_apply _ s)).trans ?_)
    rw [hanswer]
    rfl

theorem memMap_unmapped {srcva dstva : Word} (hpage : s.pages (pageOf srcva) = none) :
    memMap srcva dstva perm s = .ret REFUSED s := by
  unfold memMap
  split
  · rfl
  · refine (Prog.bind_ret (Prog.get_apply s)).trans ?_
    simp only [hpage]
    rfl

/-- The two words of a descriptor. -/
def fdMem (m : ByteMem) (fd : Word) (omode : U32) : ByteMem :=
  (m.st32 fd.toNat DEV_PIPE).st32 (fd + 16).toNat omode

theorem setFd_ok {omode : U32} (n : FdNum) (h : (s.pages (fdPage n)).isSome = true) :
    setFd (fdVa (BitVec.ofNat 32 n.val)) omode s =
      .ret ⟨⟩ { s with mem := fdMem s.mem (fdVa (BitVec.ofNat 32 n.val)) omode } := by
  have hat : ∀ (m : ByteMem) (k : Nat), k < BY2PG →
      ({ s with mem := m } : Client).mapped (fdVa (BitVec.ofNat 32 n.val) + BitVec.ofNat 64 k) = true := by
    intro m k hk
    rw [Client.mapped, pageOf_fdVa_add n hk]
    exact h
  have hfirst : s.mapped (fdVa (BitVec.ofNat 32 n.val)) = true := by
    rw [Client.mapped, pageOf_fdVa]
    exact h
  have hthird := hat s.mem 3 (by decide)
  have hmode := hat (s.mem.st32 (fdVa (BitVec.ofNat 32 n.val)).toNat DEV_PIPE) 16 (by decide)
  have hmode₃ := hat (s.mem.st32 (fdVa (BitVec.ofNat 32 n.val)).toNat DEV_PIPE) 19 (by decide)
  refine (Prog.bind_ret (storeU32_ok hfirst hthird)).trans (storeU32_ok hmode ?_)
  rw [BitVec.add_assoc]
  exact hmode₃

theorem fdMem_dev (m : ByteMem) (n : FdNum) (omode : U32) :
    (fdMem m (fdVa (BitVec.ofNat 32 n.val)) omode).ld32 (fdVa (BitVec.ofNat 32 n.val)).toNat = DEV_PIPE := by
  have h16 := fdVa_add_toNat n (k := 16) (by decide)
  have h0 := fdVa_toNat n.isLt
  rw [fdMem, (ByteMem.same_st32 (b := (fdVa (BitVec.ofNat 32 n.val)).toNat) (n := 4) _ ?_).ld32,
    ByteMem.ld32_st32]
  refine Or.inr ?_
  rw [h0]
  exact Nat.le_trans (by omega) (le_of_eq h16.symm)

theorem fdMem_mode (m : ByteMem) (fd : Word) (omode : U32) : (fdMem m fd omode).ld32 (fd + 16).toNat = omode :=
  ByteMem.ld32_st32 omode

/-- Another descriptor keeps its words. -/
theorem fdMem_other (m : ByteMem) {n n' : FdNum} (hne : n ≠ n') (omode : U32) {k : Nat} (hk : k + 4 ≤ BY2PG) :
    (fdMem m (fdVa (BitVec.ofNat 32 n'.val)) omode).ld32 (fdVa (BitVec.ofNat 32 n.val) + BitVec.ofNat 64 k).toNat =
      m.ld32 (fdVa (BitVec.ofNat 32 n.val) + BitVec.ofNat 64 k).toNat := by
  have hval : n.val ≠ n'.val := fun h => hne (Fin.ext h)
  have h16 : (fdVa (BitVec.ofNat 32 n'.val) + 16).toNat = 0x70000000 + n'.val * 4096 + 16 :=
    fdVa_add_toNat n' (k := 16) (by decide)
  have h0 := fdVa_toNat n'.isLt
  have hat := fdVa_add_toNat n (k := k) (by omega)
  rw [BY2PG] at hk
  have hsame : ByteMem.Same m (fdMem m (fdVa (BitVec.ofNat 32 n'.val)) omode)
      (fdVa (BitVec.ofNat 32 n.val) + BitVec.ofNat 64 k).toNat 4 := by
    intro x hlo hhi
    rw [hat] at hlo hhi
    rw [fdMem, ByteMem.st32_of_out _ (by rw [h16]; omega), ByteMem.st32_of_out _ (by rw [h0]; omega)]
  exact hsame.ld32

/-- After a descriptor's page has been mapped. -/
def Client.withFd (s : Client) (n : FdNum) (pte : UserPte) : Client := s.asked.allocPage (fdPage n) pte

theorem withFd_self (s : Client) (n : FdNum) (pte : UserPte) :
    (s.withFd n pte).pages (fdPage n) = some pte := by
  rw [Client.withFd, Client.allocPage_pages, Client.setPage_self]

theorem withFd_of_ne {n : FdNum} {v : Vpn} (h : v ≠ fdPage n) (pte : UserPte) :
    (s.withFd n pte).pages v = s.pages v := by
  rw [Client.withFd, Client.allocPage_pages, Client.setPage_of_ne h, Client.asked_pages]

@[simp] theorem withFd_calls (s : Client) (n : FdNum) (pte : UserPte) : (s.withFd n pte).calls = s.calls + 1 := rfl
@[simp] theorem withFd_answers (s : Client) (n : FdNum) (pte : UserPte) : (s.withFd n pte).answers = s.answers := rfl

theorem memAlloc_fd {frame : Nat} (n : FdNum) (ha : s.answers s.calls = some frame) :
    memAlloc (fdVa (BitVec.ofNat 32 n.val)) perm s = .ret 0 (s.withFd n ⟨frame, perm ||| VALID⟩) := by
  rw [memAlloc_ok (fdVa_user n) ha, pageOf_fdVa]
  rfl

/-- The descriptors that a process finds free, one after the other. -/
theorem two_found (h : s.TwoFree) (pte : UserPte) : ∃ n₀ n₁ : FdNum, n₀ ≠ n₁ ∧
    s.firstFree = some n₀.val ∧ (s.withFd n₀ pte).firstFree = some n₁.val := by
  obtain ⟨i, j, hij, hj, hifree, hjfree⟩ := h
  have hmax : MAXFD = 32 := rfl
  obtain ⟨k₀, hk₀, hfirst, -⟩ := firstFree_of_free (show i < MAXFD - 1 by omega) hifree
  have hk₀lt : k₀ < 32 := by omega
  have hjlt : j < 32 := by omega
  have hjne : (⟨j, hjlt⟩ : FdNum) ≠ ⟨k₀, hk₀lt⟩ := by
    intro heq
    have hval : j = k₀ := congrArg Fin.val heq
    omega
  -- The later one is still free, and the first no more.
  have hfree : (s.withFd ⟨k₀, hk₀lt⟩ pte).mapped (fdVa (BitVec.ofNat 32 j)) = false := by
    have hmapped := mapped_fdVa (s.withFd ⟨k₀, hk₀lt⟩ pte) ⟨j, hjlt⟩
    rw [withFd_of_ne (fdPage_ne hjne), ← mapped_fdVa s ⟨j, hjlt⟩] at hmapped
    exact hmapped.trans hjfree
  obtain ⟨k₁, hk₁, hsecond, hk₁free⟩ := firstFree_of_free hj hfree
  have hk₁lt : k₁ < 32 := by omega
  refine ⟨⟨k₀, hk₀lt⟩, ⟨k₁, hk₁lt⟩, ?_, hfirst, hsecond⟩
  intro heq
  have hmapped := mapped_fdVa (s.withFd ⟨k₀, hk₀lt⟩ pte) ⟨k₁, hk₁lt⟩
  rw [← heq, withFd_self] at hmapped
  have hval : k₀ = k₁ := congrArg Fin.val heq
  rw [← hval] at hk₁free
  rw [hk₁free] at hmapped
  cases hmapped

theorem pipePerm_valid : pipePerm ||| VALID = pipePerm := by decide

theorem dataPage_ne {n n' : FdNum} (h : n ≠ n') : dataPage n 0 ≠ dataPage n' 0 := by
  intro heq
  exact h (dataPage_injective (by decide) (by decide) heq).1

/-- The data of both descriptors is one page. -/
theorem share_data {n₀ n₁ : FdNum} (hne : n₀ ≠ n₁) (h₀ : (s.answers s.calls).isSome = true)
    (h₁ : (s.answers (s.calls + 1)).isSome = true) : ∃ s₁ s₂ f,
    memAlloc (dataVa (BitVec.ofNat 32 n₀.val)) pipePerm s = .ret 0 s₁ ∧
    memMap (dataVa (BitVec.ofNat 32 n₀.val)) (dataVa (BitVec.ofNat 32 n₁.val)) pipePerm s₁ = .ret 0 s₂ ∧
    s₂.pages (dataPage n₀ 0) = some ⟨f, pipePerm⟩ ∧ s₂.pages (dataPage n₁ 0) = some ⟨f, pipePerm⟩ ∧
    ∀ n, s₂.pages (fdPage n) = s.pages (fdPage n) := by
  obtain ⟨f, hf⟩ := Option.isSome_iff_exists.mp h₀
  have halloc : memAlloc (dataVa (BitVec.ofNat 32 n₀.val)) pipePerm s = _ := memAlloc_ok (dataVa_user n₀) hf
  rw [pipePerm_valid, pageOf_dataVa] at halloc
  have hself : (s.asked.allocPage (dataPage n₀ 0) ⟨f, pipePerm⟩).pages (dataPage n₀ 0) = some ⟨f, pipePerm⟩ := by
    rw [Client.allocPage_pages, Client.setPage_self]
  have hmap : memMap (dataVa (BitVec.ofNat 32 n₀.val)) (dataVa (BitVec.ofNat 32 n₁.val)) pipePerm
      (s.asked.allocPage (dataPage n₀ 0) ⟨f, pipePerm⟩) = _ :=
    memMap_ok (dataVa_user n₀) (dataVa_user n₁) (by rw [pageOf_dataVa]; exact hself) h₁
  rw [pipePerm_valid, pageOf_dataVa, pageOf_dataVa] at hmap
  refine ⟨_, _, f, halloc, hmap, ?_, ?_, fun n => ?_⟩
  · rw [Client.copyPage_pages, Client.setPage_of_ne (dataPage_ne hne), Client.asked_pages]
    exact hself
  · rw [Client.copyPage_pages, Client.setPage_self]
  · rw [Client.copyPage_pages, Client.setPage_of_ne (fdPage_ne_dataPage n n₁ (by decide)), Client.asked_pages,
      Client.allocPage_pages, Client.setPage_of_ne (fdPage_ne_dataPage n n₀ (by decide)), Client.asked_pages]

/-- Both descriptors are set up, and no page is touched. -/
theorem set_fds {n₀ n₁ : FdNum} (hne : n₀ ≠ n₁) (h₀ : (s.pages (fdPage n₀)).isSome = true)
    (h₁ : (s.pages (fdPage n₁)).isSome = true) : ∃ s₁ s₂,
    setFd (fdVa (BitVec.ofNat 32 n₀.val)) O_RDONLY s = .ret ⟨⟩ s₁ ∧
    setFd (fdVa (BitVec.ofNat 32 n₁.val)) O_WRONLY s₁ = .ret ⟨⟩ s₂ ∧ s₂.pages = s.pages ∧
    PipeFd s₂ (BitVec.ofNat 32 n₀.val) O_RDONLY ∧ PipeFd s₂ (BitVec.ofNat 32 n₁.val) O_WRONLY := by
  have hset : setFd (fdVa (BitVec.ofNat 32 n₀.val)) O_RDONLY s = _ := setFd_ok n₀ h₀
  have hset' : setFd (fdVa (BitVec.ofNat 32 n₁.val)) O_WRONLY
      { s with mem := fdMem s.mem (fdVa (BitVec.ofNat 32 n₀.val)) O_RDONLY } = _ := setFd_ok n₁ h₁
  refine ⟨_, _, hset, hset', rfl, ⟨?_, ?_, ?_⟩, ⟨?_, ?_, ?_⟩⟩
  · exact fdLookup_ok n₀ h₀
  · have hother := fdMem_other (fdMem s.mem (fdVa (BitVec.ofNat 32 n₀.val)) O_RDONLY) hne O_WRONLY (k := 0)
      (by decide)
    rw [BitVec.add_zero] at hother
    exact hother.trans (fdMem_dev _ n₀ _)
  · exact (fdMem_other _ hne O_WRONLY (k := 16) (by decide)).trans (fdMem_mode _ _ _)
  · exact fdLookup_ok n₁ h₁
  · exact fdMem_dev _ n₁ _
  · exact fdMem_mode _ _ _

/-- With both descriptors there, `pipe` returns 0 whatever the last two calls say. -/
theorem pipe_eq_ret {fd0 fd1 : Word} {n₀ n₁ : FdNum} {f₀ f₁ : Nat} {r r' : U32} {s₃ s₄ s₅ s₆ : Client}
    (hfirst : s.firstFree = some n₀.val) (hf₀ : s.answers s.calls = some f₀)
    (hsecond : (s.withFd n₀ ⟨f₀, pipePerm⟩).firstFree = some n₁.val)
    (hf₁ : s.answers (s.calls + 1) = some f₁)
    (hdata : memAlloc (dataVa (BitVec.ofNat 32 n₀.val)) pipePerm
      ((s.withFd n₀ ⟨f₀, pipePerm⟩).withFd n₁ ⟨f₁, pipePerm⟩) = .ret r s₃)
    (hmap : memMap (dataVa (BitVec.ofNat 32 n₀.val)) (dataVa (BitVec.ofNat 32 n₁.val)) pipePerm s₃ = .ret r' s₄)
    (hset₀ : setFd (fdVa (BitVec.ofNat 32 n₀.val)) O_RDONLY s₄ = .ret ⟨⟩ s₅)
    (hset₁ : setFd (fdVa (BitVec.ofNat 32 n₁.val)) O_WRONLY s₅ = .ret ⟨⟩ s₆) :
    pipe fd0 fd1 s = .ret (0, some (BitVec.ofNat 32 n₀.val, BitVec.ofNat 32 n₁.val)) s₆ := by
  have hsign : ¬ (0 : U32).msb = true := by decide
  have halloc₀ : memAlloc (fdVa (BitVec.ofNat 32 n₀.val)) pipePerm s = _ := memAlloc_fd n₀ hf₀
  have hf₁' : (s.withFd n₀ ⟨f₀, pipePerm⟩).answers (s.withFd n₀ ⟨f₀, pipePerm⟩).calls = some f₁ := by
    rw [withFd_answers, withFd_calls]
    exact hf₁
  have halloc₁ : memAlloc (fdVa (BitVec.ofNat 32 n₁.val)) pipePerm (s.withFd n₀ ⟨f₀, pipePerm⟩) = _ :=
    memAlloc_fd n₁ hf₁'
  rw [pipePerm_valid] at halloc₀ halloc₁
  unfold pipe
  rw [Prog.bind_ret (fdAlloc_ok hfirst)]
  dsimp only
  rw [Prog.bind_ret halloc₀, if_neg hsign, Prog.bind_ret (fdAlloc_ok hsecond)]
  dsimp only
  rw [Prog.bind_ret halloc₁, if_neg hsign]
  simp only [fd2data_fdVa, fd2num_fdVa]
  rw [Prog.bind_ret hdata, Prog.bind_ret hmap, Prog.bind_ret hset₀, Prog.bind_ret hset₁]
  rfl

/-- Four pages are mapped, and the descriptors set up. -/
theorem pipe_made (h : NoStepFails s) (fd0 fd1 : Word) :
    ∃ fds s', pipe fd0 fd1 s = .ret (0, some fds) s' ∧ PipeMade s' fds := by
  obtain ⟨f₀, hf₀⟩ := Option.isSome_iff_exists.mp (h.answers 0 (by omega))
  obtain ⟨f₁, hf₁⟩ := Option.isSome_iff_exists.mp (h.answers 1 (by omega))
  obtain ⟨n₀, n₁, hne, hfirst, hsecond⟩ := two_found h.free ⟨f₀, pipePerm⟩
  obtain ⟨s₃, s₄, f, hdata, hmap, hpage₀, hpage₁, hfds⟩ :=
    share_data (s := (s.withFd n₀ ⟨f₀, pipePerm⟩).withFd n₁ ⟨f₁, pipePerm⟩) hne
      (by simpa using h.answers 2 (by omega)) (by simpa using h.answers 3 (by omega))
  have hfd₀ : (s₄.pages (fdPage n₀)).isSome = true := by
    rw [hfds, withFd_of_ne (fdPage_ne hne), withFd_self]
    rfl
  have hfd₁ : (s₄.pages (fdPage n₁)).isSome = true := by
    rw [hfds, withFd_self]
    rfl
  obtain ⟨s₅, s₆, hset₀, hset₁, hpages, hready₀, hready₁⟩ := set_fds hne hfd₀ hfd₁
  refine ⟨(BitVec.ofNat 32 n₀.val, BitVec.ofNat 32 n₁.val), s₆, ?_, hready₀, hready₁, f, ?_, ?_⟩
  · exact pipe_eq_ret hfirst hf₀ hsecond hf₁ hdata hmap hset₀ hset₁
  · rw [hpages, pageOf_dataVa]
    exact hpage₀
  · rw [hpages, pageOf_dataVa]
    exact hpage₁

/-- `pipe` does as it is asked if and only if no step fails: no failure is ever
    reported. -/
theorem pipe_reports_iff (fd0 fd1 : Word) (s : Client) : PipeReports fd0 fd1 s ↔ NoStepFails s := by
  constructor
  · intro h
    by_contra hfails
    obtain ⟨r, s', hpipe, hneg, -⟩ := h.failed hfails
    have hsign := ((pipe_result fd0 fd1) s).1 _ _ hpipe
    rw [hsign] at hneg
    cases hneg
  · intro h
    obtain ⟨fds, s', hpipe, hmade⟩ := pipe_made h fd0 fd1
    refine ⟨fun hfails => absurd h hfails, fun fds' s₁ hret => ?_⟩
    rw [hpipe] at hret
    cases hret
    exact ⟨fds, rfl, hmade⟩

/-! ## No page for the data -/

/-- The kernel has two pages, and no third one. -/
def twoPages : Client := ⟨fun _ => none, fun _ => 0, fun k => if k < 2 then some k else none, 0⟩

/-- `pipe` returns 0 all the same, and there is no page between the descriptors. -/
theorem pipe_without_data : ¬ NoStepFails twoPages ∧ ∃ fds s', pipe 0 0 twoPages = .ret (0, some fds) s' ∧
    s'.pages (pageOf (dataVa fds.1)) = none ∧ ¬ PipeReports 0 0 twoPages := by
  have hfree : twoPages.TwoFree := ⟨0, 1, by decide, by decide, rfl, rfl⟩
  have hfails : ¬ NoStepFails twoPages := fun h => absurd (h.answers 2 (by decide)) (by decide)
  obtain ⟨n₀, n₁, hne, hfirst, hsecond⟩ := two_found hfree ⟨0, pipePerm⟩
  obtain ⟨s₃, hdata, hpages₃⟩ : ∃ s₃, memAlloc (dataVa (BitVec.ofNat 32 n₀.val)) pipePerm
      ((twoPages.withFd n₀ ⟨0, pipePerm⟩).withFd n₁ ⟨1, pipePerm⟩) = .ret REFUSED s₃ ∧ s₃.pages = _ :=
    memAlloc_refused rfl
  have hnone : s₃.pages (dataPage n₀ 0) = none := by
    rw [hpages₃, withFd_of_ne (fdPage_ne_dataPage _ _ (by decide)).symm,
      withFd_of_ne (fdPage_ne_dataPage _ _ (by decide)).symm]
    rfl
  have hmap : memMap (dataVa (BitVec.ofNat 32 n₀.val)) (dataVa (BitVec.ofNat 32 n₁.val)) pipePerm s₃ = _ :=
    memMap_unmapped (by rw [pageOf_dataVa]; exact hnone)
  have hfd₀ : (s₃.pages (fdPage n₀)).isSome = true := by
    rw [hpages₃, withFd_of_ne (fdPage_ne hne), withFd_self]
    rfl
  have hfd₁ : (s₃.pages (fdPage n₁)).isSome = true := by
    rw [hpages₃, withFd_self]
    rfl
  obtain ⟨s₅, s₆, hset₀, hset₁, hpages, -, -⟩ := set_fds hne hfd₀ hfd₁
  have hpipe : pipe 0 0 twoPages = _ := pipe_eq_ret hfirst rfl hsecond rfl hdata hmap hset₀ hset₁
  refine ⟨hfails, _, s₆, hpipe, ?_, fun h => ?_⟩
  · rw [hpages, pageOf_dataVa]
    exact hnone
  · obtain ⟨r, s', hret, -⟩ := h.failed hfails
    rw [hpipe] at hret
    cases hret

end RpiMos
