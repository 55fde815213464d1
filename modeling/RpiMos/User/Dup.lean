/-
  RpiMos.User.Dup

  `dup` of user/fd.c: the second descriptor is closed, the pages of the first one's
  window are mapped in the second one's, and last the page of the descriptor.  What
  the mapping of a data page returns is compared with what `r` holds, and forgotten.
-/

import RpiMos.User.FdClose

namespace RpiMos

open Lib

namespace FileIo

/-- Page `k` of the data of a descriptor, for any number. -/
def winVa (fdnum : U32) (k : Nat) : Word := fd2data (fdVa fdnum) + BitVec.ofNat 64 (k * 4096)

def winPage (fdnum : U32) (k : Nat) : Vpn := pageOf (winVa fdnum k)

/-- The permissions that `dup` hands on. -/
def dupMask : Word := VALID ||| PTE_RW ||| PTE_LIBRARY ||| PTE_USER

/-- One turn of the two loops over the window, for an entry of the page table. -/
def dupPage (src dst : Word) : FileM PUnit := do
  let s ← Prog.get
  match s.client.pages (pageOf src) with
  | none => pure ⟨⟩
  | some pte => do
      let _ ← onClient (memMap src dst (pte.perm &&& dupMask))
      pure ⟨⟩

/-- The permissions of an entry, 0 where there is none. -/
def ptePerm (pte : Option UserPte) : Word := pte.elim 0 UserPte.perm

/-- What `dup` does when the window is mapped. -/
def dupFd (oldfd newfd : Word) (newfdnum : U32) : FileM U32 := do
  let s ← Prog.get
  let r ← onClient (memMap oldfd newfd (ptePerm (s.client.pages (pageOf oldfd)) &&& dupMask))
  if r.msb then do
    let _ ← onClient (memUnmap newfd)
    Prog.forRange 0 NDATA fun k => do
      let _ ← onClient (memUnmap (winVa newfdnum k))
      pure ⟨⟩
    Prog.throw r
  else pure newfdnum

/-- `dup(oldfdnum, newfdnum)`. -/
def dup (turns : Nat) (oldfdnum newfdnum : U32) : FileM U32 := do
  let s ← Prog.get
  match s.client.fdLookup oldfdnum with
  | .error r => Prog.throw r
  | .ok oldfd => do
      let _ ← Prog.attempt (close turns newfdnum)
      -- Turn `j` of turn `i` is for page `512 * i + j`; a table that is not there has none.
      Prog.forRange 0 NDATA fun k => dupPage (winVa oldfdnum k) (winVa newfdnum k)
      dupFd oldfd (fdVa newfdnum) newfdnum

/-! ## What is asked of it -/

/-- The pages of a descriptor: its own, and those of its window. -/
def FdPages (fdnum : U32) (v : Vpn) : Prop := v = pageOf (fdVa fdnum) ∨ ∃ k, k < NDATA ∧ v = winPage fdnum k

/-- If `dup` returns a number that is not negative there is a descriptor of that number,
    and its pages are those that `oldfdnum` had; if it returns a negative number
    `oldfdnum` has its pages. -/
structure DupRight (s : FileClient) (oldfdnum newfdnum : U32) (turns : Nat) : Prop where
  made : ∀ r s', dup turns oldfdnum newfdnum s = .ret r s' → r.msb = false →
    s'.client.fdLookup r = .ok (fdVa r) ∧
    s'.client.pages (pageOf (fdVa r)) = s.client.pages (pageOf (fdVa oldfdnum)) ∧
    ∀ k, k < NDATA → s'.client.pages (winPage r k) = s.client.pages (winPage oldfdnum k)
  kept : ∀ s', ((∃ e, dup turns oldfdnum newfdnum s = .fail e s') ∨
      ∃ r, dup turns oldfdnum newfdnum s = .ret r s' ∧ r.msb = true) →
    ∀ v, FdPages oldfdnum v → s'.client.pages v = s.client.pages v

/-- An entry as `dup` hands it on. -/
def dupPte (pte : UserPte) : UserPte := ⟨pte.frame, (pte.perm &&& dupMask) ||| VALID⟩

/-- How often the kernel has been asked before the loop comes to page `k`. -/
def asked (c : Client) (oldfdnum newfdnum : U32) : Nat → Nat
  | 0 => 0
  | k + 1 => asked c oldfdnum newfdnum k +
      if (c.pages (winPage oldfdnum k)).isSome ∧ ¬ KERNBASE ≤ winVa newfdnum k then 1 else 0

/-- The kernel maps page `k`. -/
def MapsPage (c : Client) (oldfdnum newfdnum : U32) (k : Nat) : Prop :=
  ¬ KERNBASE ≤ winVa newfdnum k ∧ (c.answers (c.calls + asked c oldfdnum newfdnum k)).isSome = true

/-- The kernel maps the page of the descriptor. -/
def MapsFd (c : Client) (oldfdnum newfdnum : U32) : Prop :=
  ¬ KERNBASE ≤ fdVa newfdnum ∧ (c.answers (c.calls + asked c oldfdnum newfdnum NDATA)).isSome = true

/-- `close(fdnum)` unmaps the page. -/
def CloseUnmaps (s : FileClient) (fdnum : U32) (v : Vpn) : Prop :=
  ∃ n : FdNum, fdnum = BitVec.ofNat 32 n.val ∧ Unmaps s n v

/-- `close(fdnum)` does not come to an end. -/
def CloseEndless (s : FileClient) (fdnum : U32) : Prop := ∃ n : FdNum, fdnum = BitVec.ofNat 32 n.val ∧ NeverClosed s n

/-- A page that `dup` unmaps when it fails. -/
def DupUnmaps (fdnum : U32) (v : Vpn) : Prop :=
  (v = pageOf (fdVa fdnum) ∧ ¬ KERNBASE ≤ fdVa fdnum) ∨
  ∃ k, k < NDATA ∧ v = winPage fdnum k ∧ ¬ KERNBASE ≤ winVa fdnum k

/-- Page `k` of the new window becomes that of the old one: where there is none no page
    is left by `close`, and where there is one the kernel maps it and `dupMask` takes
    nothing away, or it is there already. -/
def PageFits (s : FileClient) (oldfdnum newfdnum : U32) (k : Nat) : Prop :=
  match s.client.pages (winPage oldfdnum k) with
  | none => s.client.pages (winPage newfdnum k) = none ∨ CloseUnmaps s newfdnum (winPage newfdnum k)
  | some pte =>
      (MapsPage s.client oldfdnum newfdnum k ∧ dupPte pte = pte) ∨
      (¬ MapsPage s.client oldfdnum newfdnum k ∧ s.client.pages (winPage newfdnum k) = some pte ∧
        ¬ CloseUnmaps s newfdnum (winPage newfdnum k))

/-- What is asked of a run to a number that is not negative: no page of the old
    descriptor is unmapped, and all are mapped for a new one that is in range, or the
    last one is not. -/
structure DupGoes (s : FileClient) (oldfdnum newfdnum : U32) : Prop where
  kept : ∀ v, FdPages oldfdnum v → (s.client.pages v).isSome = true → ¬ CloseUnmaps s newfdnum v
  ending : (¬ MapsFd s.client oldfdnum newfdnum ∧
      ∀ v, FdPages oldfdnum v → (s.client.pages v).isSome = true → ¬ DupUnmaps newfdnum v) ∨
    (MapsFd s.client oldfdnum newfdnum ∧ newfdnum.toNat < 32 ∧
      (∀ pte, s.client.pages (pageOf (fdVa oldfdnum)) = some pte → dupPte pte = pte) ∧
      ∀ k, k < NDATA → PageFits s oldfdnum newfdnum k)

/-- And of a run to a negative one, that says it has failed: where it maps a page over
    one of the old descriptor's, that page is mapped there already. -/
structure DupStrays (s : FileClient) (oldfdnum newfdnum : U32) : Prop where
  refused : ¬ MapsFd s.client oldfdnum newfdnum →
    ∀ v, FdPages oldfdnum v → (s.client.pages v).isSome = true → ¬ DupUnmaps newfdnum v
  window : MapsFd s.client oldfdnum newfdnum → ∀ k, k < NDATA → ∀ pte,
    s.client.pages (winPage oldfdnum k) = some pte → MapsPage s.client oldfdnum newfdnum k →
    FdPages oldfdnum (winPage newfdnum k) → winPage newfdnum k ≠ pageOf (fdVa newfdnum) →
    s.client.pages (winPage newfdnum k) = some (dupPte pte)
  fd : MapsFd s.client oldfdnum newfdnum → FdPages oldfdnum (pageOf (fdVa newfdnum)) → ∀ pte,
    s.client.pages (pageOf (fdVa oldfdnum)) = some pte → s.client.pages (pageOf (fdVa newfdnum)) = some (dupPte pte)

/-- A negative number finds no descriptor, though nothing keeps it from being looked up. -/
def NotBelow (s : FileClient) (fdnum : U32) : Prop := fdnum.msb = true → ∃ e, s.client.fdLookup fdnum = .error e

/-- `oldfdnum` is not open, or `close` does not come to an end, or all goes well. -/
def DupFits (s : FileClient) (oldfdnum newfdnum : U32) : Prop :=
  (∃ e, s.client.fdLookup oldfdnum = .error e) ∨
  (NotBelow s oldfdnum ∧ NotBelow s newfdnum ∧
    (CloseEndless s newfdnum ∨ (newfdnum.msb = false ∧ DupGoes s oldfdnum newfdnum) ∨
      (newfdnum.msb = true ∧ DupStrays s oldfdnum newfdnum)))

variable {s s' s₁ s₂ : FileClient} {c : Client} {old new : U32} {o n : FdNum} {j k turns : Nat}
    {src dst perm va : Word}
  {v : Vpn} {pte : UserPte}

/-! ## Windows -/

/-- A window is one of the 512 parts of the address space that the page tables know. -/
theorem winPage_val (fdnum : U32) : ∃ r, r < 512 ∧ ∀ k, k < NDATA → (winPage fdnum k).val = r * NDATA + k := by
  obtain ⟨q, hbase⟩ : ∃ q, (fd2data (fdVa fdnum)).toNat = q * 2 ^ 30 := by
    refine ⟨(2 + ((fd2num (fdVa fdnum)).signExtend 64).toNat) % 2 ^ 34, ?_⟩
    rw [fd2data, dataVa, BitVec.toNat_add, BitVec.toNat_mul]
    show (0x80000000 + ((fd2num (fdVa fdnum)).signExtend 64).toNat * 0x40000000 % 2 ^ 64) % 2 ^ 64 = _
    omega
  have hlt := (fd2data (fdVa fdnum)).isLt
  refine ⟨q % 512, Nat.mod_lt _ (by decide), fun k hk => ?_⟩
  rw [NDATA] at hk ⊢
  show (winVa fdnum k).toNat / BY2PG % 2 ^ 27 = _
  rw [winVa, BitVec.toNat_add, hbase, BitVec.toNat_ofNat, BY2PG]
  omega

theorem winPage_inj {fdnum : U32} (hj : j < NDATA) (hk : k < NDATA)
    (h : winPage fdnum j = winPage fdnum k) : j = k := by
  obtain ⟨r, -, hval⟩ := winPage_val fdnum
  have heq := congrArg Fin.val h
  rw [hval j hj, hval k hk] at heq
  omega

/-- Two windows are one, or they have no page in common. -/
theorem windows (x y : U32) : (∀ k, k < NDATA → winPage x k = winPage y k) ∨
    ∀ j k, j < NDATA → k < NDATA → winPage x j ≠ winPage y k := by
  obtain ⟨r, hr, hx⟩ := winPage_val x
  obtain ⟨q, hq, hy⟩ := winPage_val y
  by_cases heq : r = q
  · refine Or.inl fun k hk => Fin.ext ?_
    rw [hx k hk, hy k hk, heq]
  · refine Or.inr fun j k hj hk h => heq ?_
    have hval := congrArg Fin.val h
    rw [hx j hj, hy k hk] at hval
    rw [NDATA] at *
    omega

theorem winVa_toNat (n : FdNum) (hk : k < NDATA) :
    (winVa (BitVec.ofNat 32 n.val) k).toNat = INDEX2DATA n + k * BY2PG := by
  have hn := n.isLt
  rw [NDATA] at hk
  rw [winVa, fd2data_fdVa, BitVec.toNat_add, dataVa_toNat, BitVec.toNat_ofNat]
  unfold INDEX2DATA FILEBASE PDMAP BY2PG
  omega

theorem winPage_fd (n : FdNum) (hk : k < NDATA) : winPage (BitVec.ofNat 32 n.val) k = dataPage n k := by
  rw [winPage, pageOf, winVa_toNat n hk, dataPage]

theorem winVa_user (n : FdNum) (hk : k < NDATA) : ¬ KERNBASE ≤ winVa (BitVec.ofNat 32 n.val) k := by
  have hn := n.isLt
  rw [BitVec.le_def, winVa_toNat n hk]
  show ¬ 0xffffff8000000000 ≤ FILEBASE + n.val * PDMAP + k * BY2PG
  rw [NDATA] at hk
  unfold FILEBASE PDMAP BY2PG
  omega

/-! ## `syscall_mem_map` -/

/-- The kernel has been asked, and has refused. -/
def askedOnce (s : FileClient) : FileClient := { s with client := s.client.asked }

/-- The page at `src` is at `dst` too. -/
def shared (s : FileClient) (src dst : Word) (pte : UserPte) : FileClient :=
  { s with client := s.client.asked.copyPage (pageOf src) (pageOf dst) pte }

@[simp] theorem shared_self (s : FileClient) (src dst : Word) (pte : UserPte) :
    (shared s src dst pte).client.pages (pageOf dst) = some pte := Client.setPage_self

theorem shared_of_ne (h : v ≠ pageOf dst) : (shared s src dst pte).client.pages v = s.client.pages v :=
  Client.setPage_of_ne h

theorem memMap_high (h : KERNBASE ≤ dst) : onClient (memMap src dst perm) s = .ret REFUSED s := by
  have hmap : memMap src dst perm s.client = .ret REFUSED s.client := by
    unfold memMap
    rw [if_pos (Or.inr h)]
    rfl
  exact onClient_ret hmap

theorem memMap_none (h : s.client.pages (pageOf src) = none) : onClient (memMap src dst perm) s = .ret REFUSED s :=
  onClient_ret (memMap_unmapped h)

theorem memMap_no (hsrc : ¬ KERNBASE ≤ src) (hdst : ¬ KERNBASE ≤ dst) (h : s.client.pages (pageOf src) = some pte)
    (ha : s.client.answers s.client.calls = none) :
        onClient (memMap src dst perm) s = .ret REFUSED (askedOnce s) := by
  have hanswer : s.client.answer = none := ha
  have hmap : memMap src dst perm s.client = .ret REFUSED s.client.asked := by
    unfold memMap
    rw [if_neg (not_or.mpr ⟨hsrc, hdst⟩), Prog.bind_ret (Prog.get_apply s.client), h]
    dsimp only
    rw [Prog.bind_ret (Prog.modify_apply _ s.client), hanswer]
    rfl
  exact onClient_ret hmap

theorem memMap_yes (hsrc : ¬ KERNBASE ≤ src) (hdst : ¬ KERNBASE ≤ dst) (h : s.client.pages (pageOf src) = some pte)
    (ha : (s.client.answers s.client.calls).isSome = true) :
    onClient (memMap src dst perm) s = .ret 0 (shared s src dst ⟨pte.frame, perm ||| VALID⟩) :=
  onClient_ret (memMap_ok hsrc hdst h ha)

/-! ## The loop over the window -/

open Classical in
/-- What is at page `j` of the new window behind the loop. -/
noncomputable def copyOf (c : Client) (old new : U32) (j : Nat) : Option UserPte :=
  match c.pages (winPage old j) with
  | none => c.pages (winPage new j)
  | some pte => if MapsPage c old new j then some (dupPte pte) else c.pages (winPage new j)

/-- Before turn `k`: the pages before it are done, all others as they were. -/
structure Duped (c : Client) (old new : U32) (k : Nat) (s : FileClient) : Prop where
  done : ∀ j, j < k → s.client.pages (winPage new j) = copyOf c old new j
  left : ∀ j, k ≤ j → j < NDATA → s.client.pages (winPage new j) = c.pages (winPage new j)
  other : ∀ v, (∀ j, j < NDATA → v ≠ winPage new j) → s.client.pages v = c.pages v
  calls : s.client.calls = c.calls + asked c old new k
  answers : s.client.answers = c.answers

/-- The loop has not yet come to the page that it reads. -/
theorem Duped.source (h : Duped c old new k s) (hk : k < NDATA) :
    s.client.pages (winPage old k) = c.pages (winPage old k) := by
  rcases windows old new with hsame | hapart
  · rw [hsame k hk]
    exact h.left k (Nat.le_refl k) hk
  · exact h.other _ fun j hj => hapart k j hk hj

/-- A turn that changes no page. -/
theorem Duped.skip (h : Duped c old new k s) (hk : k < NDATA) (hpages : s'.client.pages = s.client.pages)
    (hanswers : s'.client.answers = s.client.answers)
    (hcalls : s'.client.calls = c.calls + asked c old new (k + 1))
    (hcopy : copyOf c old new k = c.pages (winPage new k)) : Duped c old new (k + 1) s' := by
  refine ⟨fun j hj => ?_, fun j hj hjn => ?_, fun v hv => ?_, hcalls, hanswers.trans h.answers⟩
  · rw [hpages]
    rcases Nat.lt_succ_iff_lt_or_eq.mp hj with hlt | rfl
    · exact h.done j hlt
    · rw [hcopy]
      exact h.left j (Nat.le_refl j) hk
  · rw [hpages]
    exact h.left j (Nat.le_of_succ_le hj) hjn
  · rw [hpages]
    exact h.other v hv

/-- A turn in which the page is mapped. -/
theorem Duped.share (h : Duped c old new k s) (hk : k < NDATA) (hcopy : copyOf c old new k = some pte)
    (hcalls : c.calls + asked c old new (k + 1) = s.client.calls + 1) :
    Duped c old new (k + 1) (shared s src (winVa new k) pte) := by
  refine ⟨fun j hj => ?_, fun j hj hjn => ?_, fun v hv => ?_, hcalls.symm, h.answers⟩
  · rcases Nat.lt_succ_iff_lt_or_eq.mp hj with hlt | rfl
    · have hne : winPage new j ≠ winPage new k := by
        intro heq
        have := winPage_inj (Nat.lt_trans hlt hk) hk heq
        omega
      exact (shared_of_ne hne).trans (h.done j hlt)
    · rw [hcopy]
      exact shared_self s src (winVa new j) pte
  · have hne : winPage new j ≠ winPage new k := by
      intro heq
      have := winPage_inj hjn hk heq
      omega
    exact (shared_of_ne hne).trans (h.left j (Nat.le_of_succ_le hj) hjn)
  · exact (shared_of_ne (hv k hk)).trans (h.other v hv)

theorem dupPage_ret (h : Duped c (BitVec.ofNat 32 o.val) new k s) (hk : k < NDATA) :
    ∃ s', dupPage (winVa (BitVec.ofNat 32 o.val) k) (winVa new k) s = .ret ⟨⟩ s' ∧
      Duped c (BitVec.ofNat 32 o.val) new (k + 1) s' := by
  have hsource : s.client.pages (pageOf (winVa (BitVec.ofNat 32 o.val) k)) =
      c.pages (winPage (BitVec.ofNat 32 o.val) k) :=
    h.source hk
  unfold dupPage
  rw [Prog.bind_ret (Prog.get_apply s)]
  cases hpage : c.pages (winPage (BitVec.ofNat 32 o.val) k) with
  | none =>
      rw [hpage] at hsource
      rw [hsource]
      refine ⟨s, rfl, h.skip hk rfl rfl ?_ ?_⟩
      · rw [asked, hpage, if_neg (by rintro ⟨⟨⟩, -⟩), h.calls]
        rfl
      · rw [copyOf, hpage]
  | some pte =>
      rw [hpage] at hsource
      rw [hsource]
      dsimp only
      by_cases hhigh : KERNBASE ≤ winVa new k
      · -- The address is the kernel's.
        rw [Prog.bind_ret (memMap_high hhigh)]
        refine ⟨s, rfl, h.skip hk rfl rfl ?_ ?_⟩
        · rw [asked, if_neg (fun hboth => hboth.2 hhigh), h.calls]
          rfl
        · rw [copyOf, hpage]
          exact if_neg fun hmaps => hmaps.1 hhigh
      have hasked : asked c (BitVec.ofNat 32 o.val) new (k + 1) = asked c (BitVec.ofNat 32 o.val) new k + 1 := by
        rw [asked, hpage, if_pos ⟨rfl, hhigh⟩]
      have hanswer :
          s.client.answers s.client.calls = c.answers (c.calls + asked c (BitVec.ofNat 32 o.val) new k) := by
        rw [h.answers, h.calls]
      cases ha : c.answers (c.calls + asked c (BitVec.ofNat 32 o.val) new k) with
      | none =>
          rw [Prog.bind_ret (memMap_no (winVa_user o hk) hhigh hsource (hanswer.trans ha))]
          refine ⟨askedOnce s, rfl, h.skip hk rfl rfl ?_ ?_⟩
          · rw [hasked]
            show s.client.calls + 1 = _
            rw [h.calls, Nat.add_assoc]
          · rw [copyOf, hpage]
            refine if_neg fun hmaps => ?_
            rw [MapsPage, ha] at hmaps
            cases hmaps.2
      | some frame =>
          have hsome : (s.client.answers s.client.calls).isSome = true := by
            rw [hanswer, ha]
            rfl
          rw [Prog.bind_ret (memMap_yes (winVa_user o hk) hhigh hsource hsome)]
          refine ⟨_, rfl, h.share hk ?_ ?_⟩
          · rw [copyOf, hpage]
            exact if_pos ⟨hhigh, by rw [ha]; rfl⟩
          · rw [hasked, h.calls, Nat.add_assoc]

/-- The loop maps what it can; the invariant is `Duped`. -/
theorem dupLoop_ret (s : FileClient) (o : FdNum) (new : U32) :
    ∃ s', Prog.forRange 0 NDATA (fun k => dupPage (winVa (BitVec.ofNat 32 o.val) k) (winVa new k)) s = .ret ⟨⟩ s' ∧
      Duped s.client (BitVec.ofNat 32 o.val) new NDATA s' := by
  have hstart : Duped s.client (BitVec.ofNat 32 o.val) new 0 s :=
    ⟨fun j hj => absurd hj (Nat.not_lt_zero j), fun _ _ _ => rfl, fun _ _ => rfl, rfl, rfl⟩
  have hloop := Prog.Sat.forRange (E := fun _ _ => False) (n := NDATA) hstart fun k _ hk s₁ hs₁ => by
    rw [Nat.zero_add] at hk
    obtain ⟨s', hturn, hnext⟩ := dupPage_ret hs₁ hk
    exact Prog.Sat.of_ret hturn hnext
  obtain ⟨u, s', hrun, hdone⟩ := hloop.exists_ret
  rw [Nat.zero_add] at hdone
  exact ⟨s', hrun, hdone⟩

/-! ## The page of the descriptor -/

/-- The pages with `P` are unmapped, the others as they were. -/
structure Unmapped (P : Vpn → Prop) (s s' : FileClient) : Prop where
  gone : ∀ v, P v → s'.client.pages v = none
  kept : ∀ v, ¬ P v → s'.client.pages v = s.client.pages v

theorem Unmapped.trans {P Q : Vpn → Prop} (h : Unmapped P s s₁) (h' : Unmapped Q s₁ s') :
    Unmapped (fun v => P v ∨ Q v) s s' := by
  refine ⟨fun v hv => ?_, fun v hv => ?_⟩
  · by_cases hq : Q v
    · exact h'.gone v hq
    · rw [h'.kept v hq]
      exact h.gone v (hv.resolve_right hq)
  · rw [h'.kept v fun hq => hv (Or.inr hq)]
    exact h.kept v fun hp => hv (Or.inl hp)

theorem Unmapped.congr {P Q : Vpn → Prop} (h : Unmapped P s s') (hPQ : ∀ v, P v ↔ Q v) : Unmapped Q s s' :=
  ⟨fun v hv => h.gone v ((hPQ v).mpr hv), fun v hv => h.kept v fun hp => hv ((hPQ v).mp hp)⟩

theorem memUnmap_any (s : FileClient) (va : Word) :
    ∃ r s', onClient (memUnmap va) s = .ret r s' ∧ Unmapped (fun v => v = pageOf va ∧ ¬ KERNBASE ≤ va) s s' := by
  by_cases hhigh : KERNBASE ≤ va
  · have hunmap : memUnmap va s.client = .ret REFUSED s.client := by
      unfold memUnmap
      rw [if_pos hhigh]
      rfl
    exact ⟨_, _, onClient_ret hunmap, fun v hv => absurd hhigh hv.2, fun _ _ => rfl⟩
  · refine ⟨_, _, memUnmap_apply hhigh, fun v hv => ?_, fun v hv => ?_⟩
    · rw [hv.1, unmapped_self]
    · exact unmapped_of_ne fun heq => hv ⟨heq, hhigh⟩

/-- The loop that unmaps a window; induction on the pages. -/
theorem unmapWindow_ret (s : FileClient) (new : U32) (k : Nat) : ∃ s', Prog.forRange 0 k (fun k => do
      let _ ← onClient (memUnmap (winVa new k))
      pure ⟨⟩) s = .ret ⟨⟩ s' ∧
    Unmapped (fun v => ∃ j, j < k ∧ v = winPage new j ∧ ¬ KERNBASE ≤ winVa new j) s s' := by
  have hturn : ∀ j, 0 ≤ j → j < 0 + k → ∀ s₁,
      Unmapped (fun v => ∃ i, i < j ∧ v = winPage new i ∧ ¬ KERNBASE ≤ winVa new i) s s₁ →
      Prog.Sat (do
        let _ ← onClient (memUnmap (winVa new j))
        pure ⟨⟩ : FileM PUnit) s₁ (fun _ s' => Unmapped (fun v => ∃ i, i < j + 1 ∧ v = winPage new i ∧
            ¬ KERNBASE ≤ winVa new i) s s')
        (fun _ _ => False) := by
    intro j _ _ s₁ hs₁
    obtain ⟨r, s₂, hunmap, hgone⟩ := memUnmap_any s₁ (winVa new j)
    refine Prog.Sat.of_ret ((Prog.bind_ret hunmap).trans rfl) ((hs₁.trans hgone).congr fun v => ?_)
    constructor
    · rintro (⟨i, hi, hv⟩ | hv)
      · exact ⟨i, Nat.lt_succ_of_lt hi, hv⟩
      · exact ⟨j, Nat.lt_succ_self j, hv⟩
    · rintro ⟨i, hi, hv⟩
      rcases Nat.lt_succ_iff_lt_or_eq.mp hi with hlt | rfl
      · exact Or.inl ⟨i, hlt, hv⟩
      · exact Or.inr hv
  have hstart : Unmapped (fun v => ∃ i, i < 0 ∧ v = winPage new i ∧ ¬ KERNBASE ≤ winVa new i) s s :=
    ⟨fun v hv => absurd hv.choose_spec.1 (Nat.not_lt_zero _), fun _ _ => rfl⟩
  have hloop := Prog.Sat.forRange hstart hturn
  obtain ⟨u, s', hrun, hgone⟩ := hloop.exists_ret
  rw [Nat.zero_add] at hgone
  exact ⟨s', hrun, hgone⟩

/-- The page of the descriptor is mapped, and `dup` returns the number. -/
theorem dupFd_maps {oldfd newfd : Word} (hold : ¬ KERNBASE ≤ oldfd) (hnew : ¬ KERNBASE ≤ newfd)
    (hpage : s.client.pages (pageOf oldfd) = some pte) (ha : (s.client.answers s.client.calls).isSome = true) :
    dupFd oldfd newfd new s = .ret new (shared s oldfd newfd (dupPte pte)) := by
  unfold dupFd
  rw [Prog.bind_ret (Prog.get_apply s), hpage, Prog.bind_ret (memMap_yes hold hnew hpage ha), if_neg (by decide)]
  rfl

/-- Else all the new pages are unmapped. -/
theorem dupFd_refused {oldfd : Word} (hold : ¬ KERNBASE ≤ oldfd)
    (h : s.client.pages (pageOf oldfd) = none ∨ KERNBASE ≤ fdVa new ∨ s.client.answers s.client.calls = none) :
    ∃ s', dupFd oldfd (fdVa new) new s = .fail REFUSED s' ∧ Unmapped (DupUnmaps new) s s' := by
  obtain ⟨s₁, hmap, hpages⟩ : ∃ s₁, onClient (memMap oldfd (fdVa new)
      (ptePerm (s.client.pages (pageOf oldfd)) &&& dupMask)) s = .ret REFUSED s₁ ∧
          s₁.client.pages = s.client.pages := by
    by_cases hhigh : KERNBASE ≤ fdVa new
    · exact ⟨s, memMap_high hhigh, rfl⟩
    cases hpage : s.client.pages (pageOf oldfd) with
    | none => exact ⟨s, memMap_none hpage, rfl⟩
    | some pte =>
        rw [hpage] at h
        have ha := (h.resolve_left nofun).resolve_left hhigh
        exact ⟨askedOnce s, memMap_no hold hhigh hpage ha, rfl⟩
  obtain ⟨r, s₂, hunmap, hfd⟩ := memUnmap_any s₁ (fdVa new)
  obtain ⟨s₃, hloop, hwindow⟩ := unmapWindow_ret s₂ new NDATA
  have hboth := hfd.trans hwindow
  refine ⟨s₃, ?_, hboth.gone, fun v hv => (hboth.kept v hv).trans (congrFun hpages v)⟩
  unfold dupFd
  rw [Prog.bind_ret (Prog.get_apply s), Prog.bind_ret hmap, if_pos (by decide), Prog.bind_ret hunmap]
  exact (Prog.bind_ret hloop).trans rfl

/-! ## Numbers -/

/-- What a number can be. -/
theorem fdnum_cases (x : U32) :
    (∃ n : FdNum, x = BitVec.ofNat 32 n.val) ∨ (x.msb = false ∧ 32 ≤ x.toInt) ∨ x.msb = true := by
  have hlt := x.isLt
  cases hmsb : x.msb with
  | true => exact Or.inr (Or.inr rfl)
  | false =>
      have hint := BitVec.toInt_eq_toNat_of_msb hmsb
      by_cases h32 : x.toNat < 32
      · refine Or.inl ⟨⟨x.toNat, h32⟩, ?_⟩
        exact (BitVec.ofNat_toNat 32 x).symm ▸ rfl
      · exact Or.inr (Or.inl ⟨rfl, by omega⟩)

theorem fdNum_msb (n : FdNum) : (BitVec.ofNat 32 n.val).msb = false := by
  have hn := n.isLt
  rw [BitVec.msb_eq_decide, BitVec.toNat_ofNat]
  exact decide_eq_false (by omega)

theorem fdNum_lt (n : FdNum) : (BitVec.ofNat 32 n.val).toNat < 32 := by
  have hn := n.isLt
  rw [BitVec.toNat_ofNat]
  omega

theorem fdLookup_large {x : U32} (h : 32 ≤ x.toInt) (c : Client) : c.fdLookup x = .error (-E_INVAL) := if_pos h

/-- A number that is looked up with success, and is not negative, is a descriptor's. -/
theorem found {fd : Word} (hbelow : NotBelow s old) (h : s.client.fdLookup old = .ok fd) :
    ∃ o : FdNum, old = BitVec.ofNat 32 o.val ∧ (s.client.pages (fdPage o)).isSome = true := by
  rcases fdnum_cases old with ⟨o, rfl⟩ | ⟨-, hlarge⟩ | hneg
  · refine ⟨o, rfl, ?_⟩
    cases hpage : s.client.pages (fdPage o) with
    | some pte => rfl
    | none =>
        rw [fdLookup_none o hpage] at h
        cases h
  · rw [fdLookup_large hlarge] at h
    cases h
  · obtain ⟨e, herror⟩ := hbelow hneg
    rw [herror] at h
    cases h

theorem fdPages_ne_zero (h : FdPages (BitVec.ofNat 32 o.val) v) : v ≠ pageOf 0 := by
  rcases h with rfl | ⟨k, hk, rfl⟩
  · rw [pageOf_fdVa]
    exact fdPage_ne_zero o
  · rw [winPage_fd o hk]
    exact dataPage_ne_zero o hk

/-! ## A run -/

/-- Behind `close(newfdnum)`, for any number. -/
structure AfterClose (s : FileClient) (new : U32) (s' : FileClient) : Prop where
  gone : ∀ v, CloseUnmaps s new v → s'.client.pages v = none
  kept : ∀ v, v ≠ pageOf 0 → ¬ CloseUnmaps s new v → s'.client.pages v = s.client.pages v
  answers : s'.client.answers = s.client.answers
  calls : s'.client.calls = s.client.calls

theorem ofNat_fdNum_inj {n m : FdNum} (h : (BitVec.ofNat 32 n.val : U32) = BitVec.ofNat 32 m.val) : n = m := by
  have hn := n.isLt
  have hm := m.isLt
  have hval := congrArg BitVec.toNat h
  rw [BitVec.toNat_ofNat, BitVec.toNat_ofNat] at hval
  exact Fin.ext (by omega)

theorem Closed.after (h : Closed s n s') : AfterClose s (BitVec.ofNat 32 n.val) s' := by
  refine ⟨?_, fun v h0 hv => h.kept v h0 fun hu => hv ⟨n, rfl, hu⟩, h.answers, h.calls⟩
  rintro v ⟨m, heq, hu⟩
  rw [← ofNat_fdNum_inj heq] at hu
  exact h.gone v hu

/-- A number that is not looked up with success. -/
theorem close_notFound {e : U32} (hn : ∀ n : FdNum, new ≠ BitVec.ofNat 32 n.val)
    (h : s.client.fdLookup new = .error e) :
    Prog.attempt (close turns new) s = .ret (.error e) s ∧ AfterClose s new s := by
  constructor
  · apply Prog.attempt_fail
    unfold close
    rw [Prog.bind_ret (Prog.get_apply s), h]
    rfl
  · refine ⟨?_, fun _ _ _ => rfl, rfl, rfl⟩
    rintro v ⟨n, heq, -⟩
    exact absurd heq (hn n)

theorem closeNew_ret (s : FileClient) (new : U32) (hbelow : NotBelow s new) (hends : ¬ CloseEndless s new) :
    ∃ N, ∀ turns, N ≤ turns → ∃ r s', Prog.attempt (close turns new) s = .ret r s' ∧ AfterClose s new s' := by
  rcases fdnum_cases new with ⟨n, rfl⟩ | ⟨hpos, hlarge⟩ | hneg
  · obtain ⟨N, hclose⟩ := close_ret s n fun hnever => hends ⟨n, rfl, hnever⟩
    refine ⟨N, fun turns hturns => ?_⟩
    obtain ⟨r, s', hrun, hclosed⟩ := hclose turns hturns
    exact ⟨r, s', hrun, hclosed.after⟩
  · have hn : ∀ n : FdNum, new ≠ BitVec.ofNat 32 n.val := by
      rintro n rfl
      have := n.isLt
      rw [BitVec.toInt_eq_toNat_of_msb hpos, BitVec.toNat_ofNat] at hlarge
      omega
    exact ⟨0, fun turns _ => ⟨_, s, close_notFound hn (fdLookup_large hlarge _)⟩⟩
  · have hn : ∀ n : FdNum, new ≠ BitVec.ofNat 32 n.val := by
      rintro n rfl
      rw [fdNum_msb] at hneg
      cases hneg
    obtain ⟨e, herror⟩ := hbelow hneg
    exact ⟨0, fun turns _ => ⟨_, s, close_notFound hn herror⟩⟩

/-- A run of `dup`: the new descriptor has been closed, the window mapped. -/
structure DupRun (s : FileClient) (o : FdNum) (new : U32) (turns : Nat) (s₁ s₂ : FileClient) : Prop where
  closed : AfterClose s new s₁
  duped : Duped s₁.client (BitVec.ofNat 32 o.val) new NDATA s₂
  run : dup turns (BitVec.ofNat 32 o.val) new s = dupFd (fdVa (BitVec.ofNat 32 o.val)) (fdVa new) new s₂

theorem dup_run (hmapped : (s.client.pages (fdPage o)).isSome = true) (hbelow : NotBelow s new)
    (hends : ¬ CloseEndless s new) : ∃ N, ∀ turns, N ≤ turns → ∃ s₁ s₂, DupRun s o new turns s₁ s₂ := by
  obtain ⟨N, hclose⟩ := closeNew_ret s new hbelow hends
  refine ⟨N, fun turns hturns => ?_⟩
  obtain ⟨r, s₁, hrun, hafter⟩ := hclose turns hturns
  obtain ⟨s₂, hloop, hduped⟩ := dupLoop_ret s₁ o new
  refine ⟨s₁, s₂, hafter, hduped, ?_⟩
  unfold dup
  rw [Prog.bind_ret (Prog.get_apply s), fdLookup_ok o hmapped]
  dsimp only
  rw [Prog.bind_ret hrun]
  exact Prog.bind_ret hloop

/-- A `close` that does not end. -/
theorem dup_endless (hmapped : (s.client.pages (fdPage o)).isSome = true) (hends : CloseEndless s new) :
    ∃ m, dup turns (BitVec.ofNat 32 o.val) new s = .stop m := by
  obtain ⟨n, rfl, hnever⟩ := hends
  obtain ⟨m, hstop⟩ : ∃ m, Prog.attempt (close turns (BitVec.ofNat 32 n.val)) s = .stop m := close_endless hnever
  refine ⟨m, ?_⟩
  unfold dup
  rw [Prog.bind_ret (Prog.get_apply s), fdLookup_ok o hmapped]
  dsimp only
  rw [Prog.bind_stop hstop]

/-! ## What a run leaves -/

namespace DupRun

variable (h : DupRun s o new turns s₁ s₂)

include h

/-- A page that is not unmapped from the old descriptor is as before. -/
theorem old_kept (hv : FdPages (BitVec.ofNat 32 o.val) v)
    (hkept : (s.client.pages v).isSome = true → ¬ CloseUnmaps s new v) :
    s₁.client.pages v = s.client.pages v := by
  by_cases hu : CloseUnmaps s new v
  · rw [h.closed.gone v hu]
    cases hpage : s.client.pages v with
    | none => rfl
    | some pte => exact absurd hu (hkept (by rw [hpage]; rfl))
  · exact h.closed.kept v (fdPages_ne_zero hv) hu

/-- A page of the old descriptor that is gone is not mapped again. -/
theorem old_gone (hv : FdPages (BitVec.ofNat 32 o.val) v)
    (hout : ∀ k, k < NDATA → pageOf (fdVa (BitVec.ofNat 32 o.val)) ≠ winPage new k)
    (hnone : s₁.client.pages v = none) : s₂.client.pages v = none := by
  rcases hv with rfl | ⟨k, hk, rfl⟩
  · rw [h.duped.other _ hout]
    exact hnone
  · rcases windows (BitVec.ofNat 32 o.val) new with hsame | hapart
    · rw [hsame k hk, h.duped.done k hk, copyOf, hnone]
      dsimp only
      rw [← hsame k hk]
      exact hnone
    · rw [h.duped.other _ fun j hj => hapart k j hk hj]
      exact hnone

/-- What `dup` would not unmap it does not map either. -/
theorem old_else (hu : ¬ DupUnmaps new v) : s₂.client.pages v = s₁.client.pages v := by
  by_cases hwin : ∃ j, j < NDATA ∧ v = winPage new j
  · obtain ⟨j, hj, rfl⟩ := hwin
    have hhigh : KERNBASE ≤ winVa new j := by
      by_contra hlow
      exact hu (Or.inr ⟨j, hj, rfl, hlow⟩)
    have hno : ¬ MapsPage s₁.client (BitVec.ofNat 32 o.val) new j := fun hmaps => hmaps.1 hhigh
    rw [h.duped.done j hj, copyOf]
    split
    · rfl
    · exact if_neg hno
  · exact h.duped.other v fun j hj heq => hwin ⟨j, hj, heq⟩

/-- A page that is mapped stays mapped. -/
theorem mapped (hpage : (s₁.client.pages v).isSome = true) : (s₂.client.pages v).isSome = true := by
  by_cases hwin : ∃ j, j < NDATA ∧ v = winPage new j
  · obtain ⟨j, hj, rfl⟩ := hwin
    rw [h.duped.done j hj, copyOf]
    split
    · exact hpage
    · split
      · rfl
      · exact hpage
  · rw [h.duped.other v fun j hj heq => hwin ⟨j, hj, heq⟩]
    exact hpage

omit h in
theorem asked_congr {c' : Client} (hpages : ∀ j, j < NDATA → c'.pages (winPage old j) = c.pages (winPage old j))
    (hk : k ≤ NDATA) : asked c' old new k = asked c old new k := by
  induction k with
  | zero => rfl
  | succ k ih => rw [asked, asked, ih (Nat.le_of_succ_le hk), hpages k hk]

variable (hkept : ∀ v, FdPages (BitVec.ofNat 32 o.val) v → (s.client.pages v).isSome = true → ¬ CloseUnmaps s new v)

include hkept

/-- `close` does not change what the loop asks the kernel. -/
theorem asked_eq (hk : k ≤ NDATA) :
    asked s₁.client (BitVec.ofNat 32 o.val) new k = asked s.client (BitVec.ofNat 32 o.val) new k :=
  asked_congr (fun j hj => h.old_kept (Or.inr ⟨j, hj, rfl⟩) (hkept _ (Or.inr ⟨j, hj, rfl⟩))) hk

theorem mapsPage_iff (hk : k < NDATA) :
    MapsPage s₁.client (BitVec.ofNat 32 o.val) new k ↔ MapsPage s.client (BitVec.ofNat 32 o.val) new k := by
  rw [MapsPage, MapsPage, h.asked_eq hkept (Nat.le_of_lt hk), h.closed.answers, h.closed.calls]

theorem mapsFd_iff : MapsFd s.client (BitVec.ofNat 32 o.val) new ↔
    ¬ KERNBASE ≤ fdVa new ∧ (s₂.client.answers s₂.client.calls).isSome = true := by
  rw [MapsFd, h.duped.answers, h.duped.calls, h.asked_eq hkept (Nat.le_refl _), h.closed.answers, h.closed.calls]

/-- The kernel refuses the last page: all that has been mapped is unmapped. -/
theorem refused (hno : ¬ MapsFd s.client (BitVec.ofNat 32 o.val) new) :
    ∃ s', dup turns (BitVec.ofNat 32 o.val) new s = .fail REFUSED s' ∧ Unmapped (DupUnmaps new) s₂ s' := by
  rw [h.mapsFd_iff hkept, not_and_or, not_not] at hno
  obtain ⟨s', hrun, hgone⟩ : ∃ s', dupFd (fdVa (BitVec.ofNat 32 o.val)) (fdVa new) new s₂ = .fail REFUSED s' ∧ _ :=
    dupFd_refused (fdVa_user o) (Or.inr (hno.imp_right fun hnot => Option.not_isSome_iff_eq_none.mp hnot))
  exact ⟨s', h.run.trans hrun, hgone⟩

/-- The kernel maps it. -/
theorem maps (hmapped : (s.client.pages (fdPage o)).isSome = true)
    (hmaps : MapsFd s.client (BitVec.ofNat 32 o.val) new) :
    ∃ pte, s₂.client.pages (fdPage o) = some pte ∧ dup turns (BitVec.ofNat 32 o.val) new s =
      .ret new (shared s₂ (fdVa (BitVec.ofNat 32 o.val)) (fdVa new) (dupPte pte)) := by
  obtain ⟨hlow, ha⟩ := (h.mapsFd_iff hkept).mp hmaps
  have hfd : FdPages (BitVec.ofNat 32 o.val) (fdPage o) := Or.inl (pageOf_fdVa o).symm
  have hpage : (s₂.client.pages (fdPage o)).isSome = true := by
    apply h.mapped
    rw [h.old_kept hfd (hkept _ hfd)]
    exact hmapped
  obtain ⟨pte, hpte⟩ := Option.isSome_iff_exists.mp hpage
  rw [← pageOf_fdVa] at hpte
  exact ⟨pte, by rw [← pageOf_fdVa]; exact hpte, h.run.trans (dupFd_maps (fdVa_user o) hlow hpte ha)⟩

/-- Page `k` of the new window, for one that is in range. -/
theorem window_page (hk : k < NDATA) (hne : winPage new k ≠ pageOf 0) :
    s₂.client.pages (winPage new k) = s.client.pages (winPage (BitVec.ofNat 32 o.val) k) ↔
      PageFits s (BitVec.ofNat 32 o.val) new k := by
  have hold := h.old_kept (Or.inr ⟨k, hk, rfl⟩) (hkept (winPage (BitVec.ofNat 32 o.val) k) (Or.inr ⟨k, hk, rfl⟩))
  rw [h.duped.done k hk, copyOf, hold, PageFits]
  by_cases hu : CloseUnmaps s new (winPage new k)
  · rw [h.closed.gone _ hu]
    cases hpage : s.client.pages (winPage (BitVec.ofNat 32 o.val) k) with
    | none => exact iff_of_true rfl (Or.inr hu)
    | some pte =>
        dsimp only
        by_cases hmaps : MapsPage s.client (BitVec.ofNat 32 o.val) new k
        · rw [if_pos ((h.mapsPage_iff hkept hk).mpr hmaps)]
          simp [hmaps]
        · rw [if_neg (mt (h.mapsPage_iff hkept hk).mp hmaps)]
          simp [hmaps, hu]
  · rw [h.closed.kept _ hne hu]
    cases hpage : s.client.pages (winPage (BitVec.ofNat 32 o.val) k) with
    | none => exact ⟨fun hnone => Or.inl hnone, fun hnone => hnone.resolve_right hu⟩
    | some pte =>
        dsimp only
        by_cases hmaps : MapsPage s.client (BitVec.ofNat 32 o.val) new k
        · rw [if_pos ((h.mapsPage_iff hkept hk).mpr hmaps)]
          simp [hmaps]
        · rw [if_neg (mt (h.mapsPage_iff hkept hk).mp hmaps)]
          simp [hmaps, hu]

/-- With the last page refused, the old descriptor keeps its pages if and only if none
    of them is among those unmapped. -/
theorem refused_right_iff (hno : ¬ MapsFd s.client (BitVec.ofNat 32 o.val) new) :
    DupRight s (BitVec.ofNat 32 o.val) new turns ↔
      ∀ v, FdPages (BitVec.ofNat 32 o.val) v → (s.client.pages v).isSome = true → ¬ DupUnmaps new v := by
  obtain ⟨s', hrun, hgone⟩ := h.refused hkept hno
  constructor
  · intro hright v hv hpage hu
    have hsame := hright.kept s' (Or.inl ⟨_, hrun⟩) v hv
    rw [hgone.gone v hu] at hsame
    rw [← hsame] at hpage
    cases hpage
  · intro hout
    refine ⟨fun r s'' hret => ?_, fun s'' hneg v hv => ?_⟩
    · rw [hrun] at hret
      cases hret
    · rw [hrun] at hneg
      rcases hneg with ⟨e, ⟨⟩⟩ | ⟨r, ⟨⟩, -⟩
      by_cases hu : DupUnmaps new v
      · rw [hgone.gone v hu]
        exact (Option.not_isSome_iff_eq_none.mp fun hpage => hout v hv hpage hu).symm
      · rw [hgone.kept v hu, h.old_else hu]
        exact h.old_kept hv (hkept v hv)

/-- With all mapped, `dup` returns the number, for a number that is in no table. -/
theorem large_wrong (hmapped : (s.client.pages (fdPage o)).isSome = true)
    (hmaps : MapsFd s.client (BitVec.ofNat 32 o.val) new) (hpos : new.msb = false) (hlarge : 32 ≤ new.toInt) :
    ¬ DupRight s (BitVec.ofNat 32 o.val) new turns := by
  intro hright
  obtain ⟨pte, -, hrun⟩ := h.maps hkept hmapped hmaps
  obtain ⟨hlookup, -⟩ := hright.made _ _ hrun hpos
  rw [fdLookup_large hlarge] at hlookup
  cases hlookup

/-- The same for a negative one, which looks like an error. -/
theorem stray_right_iff (hmapped : (s.client.pages (fdPage o)).isSome = true)
    (hmaps : MapsFd s.client (BitVec.ofNat 32 o.val) new) (hneg : new.msb = true)
        (hne : fdPage o ≠ pageOf (fdVa new)) :
    DupRight s (BitVec.ofNat 32 o.val) new turns ↔
      (∀ k, k < NDATA → ∀ pte, s.client.pages (winPage (BitVec.ofNat 32 o.val) k) = some pte →
        MapsPage s.client (BitVec.ofNat 32 o.val) new k → FdPages (BitVec.ofNat 32 o.val) (winPage new k) →
        winPage new k ≠ pageOf (fdVa new) → s.client.pages (winPage new k) = some (dupPte pte)) ∧
      (FdPages (BitVec.ofNat 32 o.val) (pageOf (fdVa new)) → ∀ pte,
        s.client.pages (pageOf (fdVa (BitVec.ofNat 32 o.val))) = some pte →
        s.client.pages (pageOf (fdVa new)) = some (dupPte pte)) := by
  obtain ⟨pte₂, hpte₂, hrun⟩ := h.maps hkept hmapped hmaps
  have hfd : FdPages (BitVec.ofNat 32 o.val) (fdPage o) := Or.inl (pageOf_fdVa o).symm
  -- What a turn of the loop maps, where the page of the descriptor does not come over it.
  have hturn : ∀ k, k < NDATA → ∀ pte, s.client.pages (winPage (BitVec.ofNat 32 o.val) k) = some pte →
      MapsPage s.client (BitVec.ofNat 32 o.val) new k → s₂.client.pages (winPage new k) = some (dupPte pte) := by
    intro k hk pte hpage hpageMaps
    have hold := h.old_kept (Or.inr ⟨k, hk, rfl⟩) (hkept (winPage (BitVec.ofNat 32 o.val) k) (Or.inr ⟨k, hk, rfl⟩))
    rw [h.duped.done k hk, copyOf, hold, hpage]
    exact if_pos ((h.mapsPage_iff hkept hk).mpr hpageMaps)
  constructor
  · intro hright
    have hsame := hright.kept _ (Or.inr ⟨_, hrun, hneg⟩)
    refine ⟨fun k hk pte hpage hpageMaps hv hnefd => ?_, fun hv pte hpage => ?_⟩
    · rw [← hsame _ hv, shared_of_ne hnefd]
      exact hturn k hk pte hpage hpageMaps
    · have hpte := hsame _ hfd
      rw [shared_of_ne hne, hpte₂, ← pageOf_fdVa, hpage] at hpte
      cases hpte
      rw [← hsame _ hv, shared_self]
  · rintro ⟨hwindow, hnewfd⟩
    have hloop : ∀ v, FdPages (BitVec.ofNat 32 o.val) v → v ≠ pageOf (fdVa new) →
        s₂.client.pages v = s.client.pages v := by
      intro v hv hnefd
      have hv₁ := h.old_kept hv (hkept v hv)
      by_cases hwin : ∃ j, j < NDATA ∧ v = winPage new j
      · obtain ⟨j, hj, rfl⟩ := hwin
        have hold := h.old_kept (Or.inr ⟨j, hj, rfl⟩)
            (hkept (winPage (BitVec.ofNat 32 o.val) j) (Or.inr ⟨j, hj, rfl⟩))
        rw [h.duped.done j hj, copyOf, hold]
        split
        · exact hv₁
        · rename_i pte hpage
          split
          · rename_i hpageMaps
            exact (hwindow j hj pte hpage ((h.mapsPage_iff hkept hj).mp hpageMaps) hv hnefd).symm
          · exact hv₁
      · rw [h.duped.other v fun j hj heq => hwin ⟨j, hj, heq⟩]
        exact hv₁
    refine ⟨fun r s'' hret hpos => ?_, fun s'' hback v hv => ?_⟩
    · rw [hrun] at hret
      cases hret
      rw [hneg] at hpos
      cases hpos
    · rw [hrun] at hback
      rcases hback with ⟨e, ⟨⟩⟩ | ⟨r, ⟨⟩, -⟩
      by_cases hvfd : v = pageOf (fdVa new)
      · have hpte := hloop _ hfd hne
        rw [hpte₂] at hpte
        rw [hvfd, shared_self]
        rw [hvfd] at hv
        exact (hnewfd hv pte₂ (by rw [pageOf_fdVa]; exact hpte.symm)).symm
      · rw [shared_of_ne hvfd]
        exact hloop v hv hvfd

end DupRun

/-- With all mapped to a number in range, the pages are those of the old descriptor if
    and only if each of them is. -/
theorem made_right_iff (h : DupRun s o (BitVec.ofNat 32 n.val) turns s₁ s₂)
    (hkept : ∀ v, FdPages (BitVec.ofNat 32 o.val) v → (s.client.pages v).isSome = true →
      ¬ CloseUnmaps s (BitVec.ofNat 32 n.val) v)
    (hmapped : (s.client.pages (fdPage o)).isSome = true)
    (hmaps : MapsFd s.client (BitVec.ofNat 32 o.val) (BitVec.ofNat 32 n.val)) :
    DupRight s (BitVec.ofNat 32 o.val) (BitVec.ofNat 32 n.val) turns ↔
      (∀ pte, s.client.pages (pageOf (fdVa (BitVec.ofNat 32 o.val))) = some pte → dupPte pte = pte) ∧
      ∀ k, k < NDATA → PageFits s (BitVec.ofNat 32 o.val) (BitVec.ofNat 32 n.val) k := by
  obtain ⟨pte₂, hpte₂, hrun⟩ := h.maps hkept hmapped hmaps
  have hfd : FdPages (BitVec.ofNat 32 o.val) (fdPage o) := Or.inl (pageOf_fdVa o).symm
  have hout : ∀ (m : FdNum) j, j < NDATA → fdPage m ≠ winPage (BitVec.ofNat 32 n.val) j := by
    intro m j hj
    rw [winPage_fd n hj]
    exact fdPage_ne_dataPage m n hj
  have hpte : s.client.pages (fdPage o) = some pte₂ := by
    rw [← h.old_kept hfd (hkept _ hfd), ← h.duped.other _ (hout o), hpte₂]
  have hwindow : ∀ k, k < NDATA →
      ((shared s₂ (fdVa (BitVec.ofNat 32 o.val)) (fdVa (BitVec.ofNat 32 n.val)) (dupPte pte₂)).client.pages
        (winPage (BitVec.ofNat 32 n.val) k) = s.client.pages (winPage (BitVec.ofNat 32 o.val) k) ↔
      PageFits s (BitVec.ofNat 32 o.val) (BitVec.ofNat 32 n.val) k) := by
    intro k hk
    have hne : winPage (BitVec.ofNat 32 n.val) k ≠ pageOf 0 := by
      rw [winPage_fd n hk]
      exact dataPage_ne_zero n hk
    rw [shared_of_ne (by rw [pageOf_fdVa]; exact (hout n k hk).symm)]
    exact h.window_page hkept hk hne
  rw [pageOf_fdVa]
  constructor
  · intro hright
    obtain ⟨-, hpages, hwin⟩ := hright.made _ _ hrun (fdNum_msb n)
    refine ⟨fun pte hpage => ?_, fun k hk => (hwindow k hk).mp (hwin k hk)⟩
    rw [shared_self, pageOf_fdVa, hpage] at hpages
    rw [hpte] at hpage
    cases hpage
    exact Option.some.inj hpages
  · rintro ⟨hplain, hpages⟩
    refine ⟨fun r s'' hret _ => ?_, fun s'' hback => ?_⟩
    · rw [hrun] at hret
      cases hret
      refine ⟨fdLookup_ok n ?_, ?_, fun k hk => (hwindow k hk).mpr (hpages k hk)⟩
      · rw [← pageOf_fdVa, shared_self]
        rfl
      · rw [shared_self, pageOf_fdVa, hpte, hplain pte₂ hpte]
    · rw [hrun] at hback
      rcases hback with ⟨e, ⟨⟩⟩ | ⟨r, ⟨⟩, hneg⟩
      rw [fdNum_msb] at hneg
      cases hneg

/-- A file so long that its pages reach another window fills its own. -/
theorem unmaps_window (hk : k < NDATA) (h : Unmaps s n (dataPage o k)) : Unmaps s n (dataPage n k) := by
  have hn := n.isLt
  have ho := o.isLt
  have hval := dataPage_val o hk
  generalize hv : dataPage o k = v at h hval
  cases h with
  | fd _ _ => exact absurd hv.symm (fdPage_ne_dataPage n o hk)
  | @block j hmapped hdev hreply hj =>
      have hsize := (s.fSize n).isLt
      have hblock : (blockPage n j).val = (INDEX2DATA n + j * BY2PG) / BY2PG % 2 ^ 27 := rfl
      rw [hblock, INDEX2DATA, FILEBASE, PDMAP, BY2PG] at hval
      rw [blockCount] at hj
      rw [NDATA] at hk hval
      exact .block hmapped hdev hreply (by rw [blockCount]; omega)
  | pipe hmapped hdev =>
      obtain ⟨-, rfl⟩ := dataPage_injective hk (by decide) (show dataPage o k = dataPage n 0 from hv)
      exact .pipe hmapped hdev

/-- Where all is right, `close` has unmapped no page of the old descriptor. -/
theorem kept_of_right (h : DupRun s o new turns s₁ s₂) (hright : DupRight s (BitVec.ofNat 32 o.val) new turns) :
    ∀ v, FdPages (BitVec.ofNat 32 o.val) v → (s.client.pages v).isSome = true → ¬ CloseUnmaps s new v := by
  intro v hv hpage hu
  have hnone := h.closed.gone v hu
  obtain ⟨n, rfl, hunmaps⟩ := hu
  have hout : ∀ j, j < NDATA → pageOf (fdVa (BitVec.ofNat 32 o.val)) ≠ winPage (BitVec.ofNat 32 n.val) j := by
    intro j hj
    rw [pageOf_fdVa, winPage_fd n hj]
    exact fdPage_ne_dataPage o n hj
  have hgone := h.old_gone hv hout hnone
  by_cases hmaps : s₂.client.pages (pageOf (fdVa (BitVec.ofNat 32 o.val))) = none ∨
      KERNBASE ≤ fdVa (BitVec.ofNat 32 n.val) ∨ s₂.client.answers s₂.client.calls = none
  · obtain ⟨s', hrun, hunmapped⟩ := dupFd_refused (fdVa_user o) hmaps
    have hsame := hright.kept s' (Or.inl ⟨_, h.run.trans hrun⟩) v hv
    have hnone' : s'.client.pages v = none := by
      by_cases hu : DupUnmaps (BitVec.ofNat 32 n.val) v
      · exact hunmapped.gone v hu
      · rw [hunmapped.kept v hu, hgone]
    rw [← hsame, hnone'] at hpage
    cases hpage
  · push Not at hmaps
    obtain ⟨hfd, hlow, ha⟩ := hmaps
    obtain ⟨pte, hpte⟩ := Option.ne_none_iff_exists'.mp hfd
    have hrun : dupFd _ _ (BitVec.ofNat 32 n.val) s₂ = _ :=
      dupFd_maps (fdVa_user o) hlow hpte (Option.isSome_iff_ne_none.mpr ha)
    rcases hv with rfl | ⟨k, hk, rfl⟩
    · exact hfd hgone
    -- The page of the new window has gone with it.
    have hwin : s₁.client.pages (winPage (BitVec.ofNat 32 n.val) k) = none := by
      rw [winPage_fd o hk] at hunmaps
      apply h.closed.gone
      rw [winPage_fd n hk]
      exact ⟨n, rfl, unmaps_window hk hunmaps⟩
    have hmade := (hright.made _ _ (h.run.trans hrun) (fdNum_msb n)).2.2 k hk
    have hne : winPage (BitVec.ofNat 32 n.val) k ≠ pageOf (fdVa (BitVec.ofNat 32 n.val)) := by
      rw [pageOf_fdVa, winPage_fd n hk]
      exact (fdPage_ne_dataPage n n hk).symm
    rw [shared_of_ne hne, h.duped.done k hk, copyOf, hnone] at hmade
    dsimp only at hmade
    rw [← hmade, hwin] at hpage
    cases hpage

/-- What `dup` does is right, given turns enough. -/
def DupEnds (s : FileClient) (old new : U32) : Prop := ∃ N, ∀ turns, N ≤ turns → DupRight s old new turns

theorem dup_notFound {e : U32} (h : s.client.fdLookup old = .error e) : DupRight s old new turns := by
  have hrun : dup turns old new s = .fail e s := by
    unfold dup
    rw [Prog.bind_ret (Prog.get_apply s), h]
    rfl
  refine ⟨fun r s' hret => ?_, fun s' hback v _ => ?_⟩
  · rw [hrun] at hret
    cases hret
  · rw [hrun] at hback
    rcases hback with ⟨e', ⟨⟩⟩ | ⟨r, ⟨⟩, -⟩
    rfl

/-- Only a number in range can be closed. -/
theorem fdNum_of_unmaps (hu : CloseUnmaps s new v) : new.msb = false := by
  obtain ⟨n, rfl, -⟩ := hu
  exact fdNum_msb n

/-- The page of a negative number that is not found is not mapped. -/
theorem stray_none {e : U32} (hneg : new.msb = true) (h : s.client.fdLookup new = .error e) :
    s.client.pages (pageOf (fdVa new)) = none := by
  have hlow : ¬ 32 ≤ new.toInt := by
    have hint := BitVec.toInt_neg_of_msb_true hneg
    omega
  by_contra hpage
  have hmapped : s.client.mapped (fdVa new) = true := Option.isSome_iff_ne_none.mpr hpage
  rw [Client.fdLookup, if_neg hlow, if_pos hmapped] at h
  cases h

/-- For a run of an open descriptor, by what the kernel says to the last page and what
    number it is. -/
theorem run_right_iff (h : DupRun s o new turns s₁ s₂) (hmapped : (s.client.pages (fdPage o)).isSome = true)
    (hbelow : NotBelow s new) : DupRight s (BitVec.ofNat 32 o.val) new turns ↔
      (new.msb = false ∧ DupGoes s (BitVec.ofNat 32 o.val) new) ∨
      (new.msb = true ∧ DupStrays s (BitVec.ofNat 32 o.val) new) := by
  have hkept_stray : new.msb = true → ∀ v, FdPages (BitVec.ofNat 32 o.val) v →
      (s.client.pages v).isSome = true → ¬ CloseUnmaps s new v := by
    intro hneg v _ _ hu
    rw [fdNum_of_unmaps hu] at hneg
    cases hneg
  by_cases hmaps : MapsFd s.client (BitVec.ofNat 32 o.val) new
  · rcases fdnum_cases new with ⟨n, rfl⟩ | ⟨hpos, hlarge⟩ | hneg
    · constructor
      · intro hright
        have hkept := kept_of_right h hright
        obtain ⟨hplain, hpages⟩ := (made_right_iff h hkept hmapped hmaps).mp hright
        exact Or.inl ⟨fdNum_msb n, hkept, Or.inr ⟨hmaps, fdNum_lt n, hplain, hpages⟩⟩
      · rintro (⟨-, hkept, ⟨hno, -⟩ | ⟨-, -, hplain, hpages⟩⟩ | ⟨hneg, -⟩)
        · exact absurd hmaps hno
        · exact (made_right_iff h hkept hmapped hmaps).mpr ⟨hplain, hpages⟩
        · rw [fdNum_msb] at hneg
          cases hneg
    · -- A number from 32 on is returned, and not found.
      constructor
      · intro hright
        exact absurd hright (h.large_wrong (kept_of_right h hright) hmapped hmaps hpos hlarge)
      · rintro (⟨-, -, ⟨hno, -⟩ | ⟨-, hlt, -⟩⟩ | ⟨hneg, -⟩)
        · exact absurd hmaps hno
        · rw [BitVec.toInt_eq_toNat_of_msb hpos] at hlarge
          omega
        · rw [hpos] at hneg
          cases hneg
    · obtain ⟨e, herror⟩ := hbelow hneg
      have hne : fdPage o ≠ pageOf (fdVa new) := by
        intro heq
        rw [heq, stray_none hneg herror] at hmapped
        cases hmapped
      rw [h.stray_right_iff (hkept_stray hneg) hmapped hmaps hneg hne]
      constructor
      · rintro ⟨hwindow, hfd⟩
        exact Or.inr ⟨hneg, fun hno => absurd hmaps hno, fun _ => hwindow, fun _ => hfd⟩
      · rintro (⟨hpos, -⟩ | ⟨-, hstrays⟩)
        · rw [hneg] at hpos
          cases hpos
        · exact ⟨hstrays.window hmaps, hstrays.fd hmaps⟩
  · constructor
    · intro hright
      have hkept := kept_of_right h hright
      have hout := (h.refused_right_iff hkept hmaps).mp hright
      cases hmsb : new.msb with
      | false => exact Or.inl ⟨rfl, hkept, Or.inl ⟨hmaps, hout⟩⟩
      | true => exact Or.inr ⟨rfl, fun _ => hout, fun hyes => absurd hyes hmaps, fun hyes => absurd hyes hmaps⟩
    · rintro (⟨-, hkept, ⟨-, hout⟩ | ⟨hyes, -⟩⟩ | ⟨hneg, hstrays⟩)
      · exact (h.refused_right_iff hkept hmaps).mpr hout
      · exact absurd hyes hmaps
      · exact (h.refused_right_iff (hkept_stray hneg) hmaps).mpr (hstrays.refused hmaps)

/-- Where `close` does not come to an end nothing is returned. -/
theorem endless_right (hmapped : (s.client.pages (fdPage o)).isSome = true) (hends : CloseEndless s new) :
    DupRight s (BitVec.ofNat 32 o.val) new turns := by
  obtain ⟨m, hstop⟩ : ∃ m, dup turns (BitVec.ofNat 32 o.val) new s = .stop m := dup_endless hmapped hends
  refine ⟨fun r s' hret => ?_, fun s' hback => ?_⟩
  · rw [hstop] at hret
    cases hret
  · rw [hstop] at hback
    rcases hback with ⟨e, ⟨⟩⟩ | ⟨r, ⟨⟩, -⟩

/-- An open descriptor, and a number that is not negative or at which nothing is found. -/
theorem open_right_iff (hmapped : (s.client.pages (fdPage o)).isSome = true) (hbelow : NotBelow s new) :
    DupEnds s (BitVec.ofNat 32 o.val) new ↔
      CloseEndless s new ∨ (new.msb = false ∧ DupGoes s (BitVec.ofNat 32 o.val) new) ∨
        (new.msb = true ∧ DupStrays s (BitVec.ofNat 32 o.val) new) := by
  by_cases hends : CloseEndless s new
  · exact iff_of_true ⟨0, fun _ _ => endless_right hmapped hends⟩ (Or.inl hends)
  · obtain ⟨N, hruns⟩ := dup_run hmapped hbelow hends
    rw [or_iff_right hends]
    constructor
    · rintro ⟨M, hright⟩
      obtain ⟨s₁, s₂, hrun⟩ := hruns (max M N) (Nat.le_max_right M N)
      exact (run_right_iff hrun hmapped hbelow).mp (hright _ (Nat.le_max_left M N))
    · intro hfits
      refine ⟨N, fun turns hturns => ?_⟩
      obtain ⟨s₁, s₂, hrun⟩ := hruns turns hturns
      exact (run_right_iff hrun hmapped hbelow).mpr hfits

/-- The console is open at 0, with a page in its window; `answers` is what the kernel
    has for the process. -/
def console (answers : Nat → Option Nat) : FileClient where
  client := ⟨fun v => if v = fdPage 0 ∨ v = dataPage 0 0 then some ⟨7, VALID⟩ else none,
    fun a => if a = 0x70000000 then 99 else 0, answers, 0⟩
  replies := fun _ => ⟨-E_INVAL, 0, none⟩
  sent := []
  copies := []

section Console

variable {answers : Nat → Option Nat}

theorem console_pages (v : Vpn) : (console answers).client.pages v =
    if v = fdPage 0 ∨ v = dataPage 0 0 then some ⟨7, VALID⟩ else none := rfl

theorem console_fd : (console answers).client.pages (fdPage 0) = some ⟨7, VALID⟩ := by
  rw [console_pages, if_pos (Or.inl rfl)]

theorem console_data : (console answers).client.pages (dataPage 0 0) = some ⟨7, VALID⟩ := by
  rw [console_pages, if_pos (Or.inr rfl)]

theorem console_fd_none (h : n ≠ 0) : (console answers).client.pages (fdPage n) = none := by
  have hdata : (0 : Nat) < NDATA := by decide
  rw [console_pages, if_neg (not_or.mpr ⟨fdPage_ne h, fdPage_ne_dataPage n 0 hdata⟩)]

theorem console_data_none (hk : k < NDATA) (h : ¬ (n = 0 ∧ k = 0)) :
    (console answers).client.pages (dataPage n k) = none := by
  have hdata : dataPage n k ≠ dataPage 0 0 := fun heq => h (dataPage_injective hk (by decide) heq)
  rw [console_pages, if_neg (not_or.mpr ⟨(fdPage_ne_dataPage 0 n hk).symm, hdata⟩)]

theorem console_dev : devId (console answers) 0 = DEV_CONS := by
  have haddr : (fdVa (BitVec.ofNat 32 (0 : FdNum).val) + BitVec.ofNat 64 0).toNat = 0x70000000 + 0 :=
    fdVa_add_toNat 0 (by decide)
  rw [devId, FileClient.field, haddr]
  simp [console, ByteMem.ld32, DEV_CONS]

theorem console_mapped : ((console answers).client.pages (fdPage 0)).isSome = true := by
  rw [console_fd]
  rfl

/-- Only its own page is unmapped, and only by `close(0)`. -/
theorem console_unmaps_iff : CloseUnmaps (console answers) new v ↔ new = 0 ∧ v = fdPage 0 := by
  constructor
  · rintro ⟨n, rfl, hu⟩
    have hn : n = 0 := by
      by_contra hn
      cases hu with
      | fd hmapped _ | block hmapped _ _ _ | pipe hmapped _ =>
          rw [console_fd_none hn] at hmapped
          cases hmapped
    subst hn
    cases hu with
    | fd _ _ => exact ⟨rfl, rfl⟩
    | block _ hdev _ _ | pipe _ hdev =>
        rw [console_dev] at hdev
        exact absurd hdev (by decide)
  · rintro ⟨rfl, rfl⟩
    exact ⟨0, rfl, .fd console_mapped (Or.inr (Or.inr console_dev))⟩

theorem console_ends : ¬ CloseEndless (console answers) new := by
  rintro ⟨n, -, hmapped, hdev, -⟩
  have hn : n = 0 := by
    by_contra hn
    rw [console_fd_none hn] at hmapped
    cases hmapped
  rw [hn, console_dev] at hdev
  exact absurd hdev (by decide)

/-- For a number that is not negative. -/
theorem console_right_iff (hpos : new.msb = false) :
    DupEnds (console answers) 0 new ↔ DupGoes (console answers) 0 new := by
  have hbelow : NotBelow (console answers) new := fun hneg => by
    rw [hpos] at hneg
    cases hneg
  have hiff : DupEnds (console answers) 0 new ↔ _ := open_right_iff (o := 0) console_mapped hbelow
  rw [hiff, or_iff_right console_ends]
  constructor
  · rintro (⟨-, hgoes⟩ | ⟨hneg, -⟩)
    · exact hgoes
    · rw [hpos] at hneg
      cases hneg
  · intro hgoes
    exact Or.inl ⟨hpos, hgoes⟩

/-- With a page at 0 the kernel is asked at least once; induction on the pages. -/
theorem asked_pos (h : (c.pages (winPage old 0)).isSome = true) (hlow : ¬ KERNBASE ≤ winVa new 0) (hk : 0 < k) :
    0 < asked c old new k := by
  induction k, hk using Nat.le_induction with
  | base =>
      rw [asked, if_pos ⟨h, hlow⟩]
      exact Nat.succ_pos _
  | succ k _ ih => exact Nat.lt_of_lt_of_le ih (Nat.le_add_right _ _)

/-- The page of the window, and the one that it would be in the window of 1. -/
theorem console_window : (console answers).client.pages (winPage 0 0) = some ⟨7, VALID⟩ ∧
    (console answers).client.pages (winPage 1 0) = none := by
  have hold : winPage 0 0 = dataPage 0 0 := winPage_fd 0 (by decide)
  have hnew : winPage 1 0 = dataPage 1 0 := winPage_fd 1 (by decide)
  rw [hold, hnew]
  exact ⟨console_data, console_data_none (by decide) (by decide)⟩

theorem low_one (hk : k < NDATA) : ¬ KERNBASE ≤ winVa 1 k := winVa_user 1 hk

end Console

end FileIo

end RpiMos
