/-
  RpiMos.User.FdClose

  `close` of user/fd.c with the `dev_close` of files, pipes and the console, and
  which pages it unmaps.
-/

import RpiMos.User.FileFd
import RpiMos.User.PipeMake

namespace RpiMos

open Lib

namespace FileIo

/-- `devcons.dev_id`. -/
def DEV_CONS : U32 := 99

/-! ## The devices -/

def fsipcDirty (fileid offset : U32) : FileM U32 := do
  let r ← fsipc (.dirty fileid offset) 0
  pure r.value

def fsipcClose (fileid : U32) : FileM U32 := do
  let r ← fsipc (.close fileid) 0
  pure r.value

/-- `file_close(fd)`. -/
def fileClose (turns : Nat) (fd : Word) : FileM PUnit := do
  let s ← Prog.get
  let fileid := s.field fd 24
  let size := s.field fd 160
  forBlocks (fun i => decide (i < size)) (fun i => do
    let _ ← fsipcDirty fileid i
    pure ⟨⟩) turns 0
  let r ← fsipcClose fileid
  if r.msb then Prog.throw r
  else
    forBlocks (fun i => decide (i < size)) (fun i => do
      let r ← onClient (memUnmap (fd2data fd + i.setWidth 64))
      if r.msb then Prog.throw r else pure ⟨⟩) turns 0

/-- `pipeclose(fd)`. -/
def pipeclose (fd : Word) : FileM PUnit := do
  let _ ← onClient (memUnmap fd)
  let _ ← onClient (memUnmap (fd2data fd))
  pure ⟨⟩

/-- `dev_lookup`, as far as `close` uses it.  The table ends behind its three entries. -/
def devClose (turns : Nat) (id : U32) : Option (Word → FileM PUnit) :=
  if id = DEV_FILE then some (fileClose turns)
  else if id = DEV_PIPE then some pipeclose
  else if id = DEV_CONS then some fun _ => pure ⟨⟩
  else none

/-- `close(fdnum)`. -/
def close (turns : Nat) (fdnum : U32) : FileM PUnit := do
  let s ← Prog.get
  match s.client.fdLookup fdnum with
  | .error r => Prog.throw r
  | .ok fd =>
      match devClose turns (s.field fd 0) with
      | none => Prog.throw (-E_INVAL)
      | some dev_close => do
          let r ← Prog.attempt (dev_close fd)
          -- `fd_close`
          let _ ← onClient (memUnmap fd)
          match r with
          | .error e => Prog.throw e
          | .ok _ => pure ⟨⟩

/-! ## What is unmapped -/

/-- `fd_dev_id`. -/
def devId (s : FileClient) (n : FdNum) : U32 := s.field (fdVa (BitVec.ofNat 32 n.val)) 0

/-- The blocks of a file. -/
def blockCount (size : U32) : Nat := (size.toNat + 4095) / 4096

/-- The reply to the last request of `file_close`. -/
def closeReply (s : FileClient) (n : FdNum) : FileReply := s.replies (s.sent.length + blockCount (s.fSize n))

/-- The page of block `j`; behind the window it is in that of another descriptor. -/
def blockPage (n : FdNum) (j : Nat) : Vpn := vpn (INDEX2DATA n + j * BY2PG)

/-- The pages that `close` unmaps. -/
inductive Unmaps (s : FileClient) (n : FdNum) : Vpn → Prop
  | fd (hmapped : (s.client.pages (fdPage n)).isSome = true)
      (hdev : devId s n = DEV_FILE ∨ devId s n = DEV_PIPE ∨ devId s n = DEV_CONS) : Unmaps s n (fdPage n)
  | block {j : Nat} (hmapped : (s.client.pages (fdPage n)).isSome = true) (hdev : devId s n = DEV_FILE)
      (hreply : (closeReply s n).value.msb = false) (hj : j < blockCount (s.fSize n)) : Unmaps s n (blockPage n j)
  | pipe (hmapped : (s.client.pages (fdPage n)).isSome = true) (hdev : devId s n = DEV_PIPE) :
      Unmaps s n (blockPage n 0)

/-- The loops of `file_close` do not end: their `u32` wraps before it comes to the size. -/
def NeverClosed (s : FileClient) (n : FdNum) : Prop :=
  (s.client.pages (fdPage n)).isSome = true ∧ devId s n = DEV_FILE ∧ 0xfffff000 < (s.fSize n).toNat

/-- Behind `close`: its pages are gone, and the others as before.  A reply may bring a
    page to address 0. -/
structure Closed (s : FileClient) (n : FdNum) (s' : FileClient) : Prop where
  gone : ∀ v, Unmaps s n v → s'.client.pages v = none
  kept : ∀ v, v ≠ pageOf 0 → ¬ Unmaps s n v → s'.client.pages v = s.client.pages v
  answers : s'.client.answers = s.client.answers
  calls : s'.client.calls = s.client.calls

variable {s s' s₁ : FileClient} {n : FdNum} {turns k : Nat} {va : Word} {size fileid i : U32} {v : Vpn}

/-! ## `syscall_mem_unmap` -/

/-- A page is unmapped. -/
def unmapped (s : FileClient) (va : Word) : FileClient := { s with client := s.client.setPage (pageOf va) none }

theorem memUnmap_apply (h : ¬ KERNBASE ≤ va) : onClient (memUnmap va) s = .ret SYS_mem_unmap (unmapped s va) := by
  have hunmap : memUnmap va s.client = .ret SYS_mem_unmap (s.client.setPage (pageOf va) none) := by
    unfold memUnmap
    rw [if_neg h]
    rfl
  exact onClient_ret hunmap

@[simp] theorem unmapped_self (s : FileClient) (va : Word) : (unmapped s va).client.pages (pageOf va) = none :=
  Client.setPage_self

theorem unmapped_of_ne (h : v ≠ pageOf va) : (unmapped s va).client.pages v = s.client.pages v :=
  Client.setPage_of_ne h

theorem unmapped_none (h : s.client.pages v = none) : (unmapped s va).client.pages v = none := by
  by_cases hv : v = pageOf va
  · rw [hv, unmapped_self]
  · rw [unmapped_of_ne hv, h]

/-! ## `file_close` -/

theorem blockAt_zero_toNat (hk : k * 4096 < 2 ^ 32) : (blockAt 0 k).toNat = k * 4096 := by
  rw [blockAt, BitVec.toNat_add, BitVec.toNat_ofNat]
  show (0 + k * 4096 % 2 ^ 32) % 2 ^ 32 = _
  omega

/-- The turns of the two loops. -/
theorem blockCount_turns (hsize : size.toNat ≤ 0xfffff000) :
    (∀ k, k < blockCount size → decide (blockAt 0 k < size) = true) ∧
    decide (blockAt 0 (blockCount size) < size) = false := by
  constructor
  · intro k hk
    unfold blockCount at hk
    refine decide_eq_true ?_
    rw [BitVec.lt_def, blockAt_zero_toNat (by omega)]
    omega
  · refine decide_eq_false ?_
    unfold blockCount
    rw [BitVec.lt_def, blockAt_zero_toNat (by omega)]
    omega

theorem blockVa_page (n : FdNum) (hk : k * 4096 < 2 ^ 32) :
    pageOf (fd2data (fdVa (BitVec.ofNat 32 n.val)) + (blockAt 0 k).setWidth 64) = blockPage n k := by
  have hn := n.isLt
  have hva : (fd2data (fdVa (BitVec.ofNat 32 n.val)) + (blockAt 0 k).setWidth 64).toNat =
      INDEX2DATA n + k * BY2PG := by
    rw [fd2data_fdVa, BitVec.toNat_add, dataVa_toNat, BitVec.toNat_setWidth, blockAt_zero_toNat hk]
    unfold INDEX2DATA FILEBASE PDMAP BY2PG
    omega
  rw [pageOf, hva, blockPage]

/-- What the requests of `file_close` leave alone. -/
structure Quiet (s s' : FileClient) (k : Nat) : Prop where
  replies : s'.replies = s.replies
  sent : s'.sent.length = s.sent.length + k
  pages : ∀ v, v ≠ pageOf 0 → s'.client.pages v = s.client.pages v
  answers : s'.client.answers = s.client.answers
  calls : s'.client.calls = s.client.calls

theorem receive_answers (c : Client) (dstva : Word) (r : FileReply) :
    (c.receive dstva r).answers = c.answers ∧ (c.receive dstva r).calls = c.calls := by
  unfold Client.receive
  split
  · exact ⟨rfl, rfl⟩
  · exact ⟨rfl, rfl⟩

theorem Quiet.received (h : Quiet s s' k) (req : FileReq) : Quiet s (s'.received req 0) (k + 1) := by
  obtain ⟨hanswers, hcalls⟩ := receive_answers s'.client 0 s'.reply
  refine ⟨h.replies, ?_, fun v hv => ?_, hanswers.trans h.answers, hcalls.trans h.calls⟩
  · rw [received_sent_length, h.sent, Nat.add_assoc]
  · exact (receive_pages_of_ne hv).trans (h.pages v hv)

theorem dirtyBlocks_ret (fileid : U32) (hsize : size.toNat ≤ 0xfffff000) (hturns : blockCount size < turns) :
    ∃ s', forBlocks (fun i => decide (i < size)) (fun i => do
      let _ ← fsipcDirty fileid i
      pure ⟨⟩) turns 0 s = .ret ⟨⟩ s' ∧ Quiet s s' (blockCount size) := by
  obtain ⟨hmore, hend⟩ := blockCount_turns hsize
  apply forBlocks_run (I := fun k s' => Quiet s s' k) hmore hend
  · intro k _ s' hs'
    refine ⟨s'.received (.dirty fileid (blockAt 0 k)) 0, ?_, hs'.received _⟩
    unfold fsipcDirty
    rw [Prog.bind_assoc, Prog.bind_ret (fsipc_apply not_kern_zero)]
    rfl
  · exact ⟨rfl, rfl, fun _ _ => rfl, rfl, rfl⟩
  · exact hturns

/-- A `u32` that is less than every multiple of a page: induction on the turns. -/
theorem dirtyBlocks_endless (fileid : U32) (hsize : 0xfffff000 < size.toNat) (hi : i.toNat % 4096 = 0) :
    ∃ m, forBlocks (fun i => decide (i < size)) (fun i => do
      let _ ← fsipcDirty fileid i
      pure ⟨⟩) turns i s = .stop m := by
  induction turns generalizing i s with
  | zero => exact ⟨_, rfl⟩
  | succ turns ih =>
      have hlt := i.isLt
      have hmore : decide (i < size) = true := by
        refine decide_eq_true ?_
        rw [BitVec.lt_def]
        omega
      have hnext : (i + 4096).toNat % 4096 = 0 := by
        rw [BitVec.toNat_add]
        show (i.toNat + 4096) % 2 ^ 32 % 4096 = 0
        omega
      have hbody : (do let _ ← fsipcDirty fileid i; pure ⟨⟩ : FileM PUnit) s =
          .ret ⟨⟩ (s.received (.dirty fileid i) 0) := by
        unfold fsipcDirty
        rw [Prog.bind_assoc, Prog.bind_ret (fsipc_apply not_kern_zero)]
        rfl
      rw [forBlocks_more hmore, Prog.bind_ret hbody]
      exact ih hnext

/-- The pages of the first `k` blocks are gone. -/
structure BlocksGone (s s' : FileClient) (n : FdNum) (k : Nat) : Prop where
  gone : ∀ j, j < k → s'.client.pages (blockPage n j) = none
  kept : ∀ v, (∀ j, j < k → v ≠ blockPage n j) → s'.client.pages v = s.client.pages v
  answers : s'.client.answers = s.client.answers
  calls : s'.client.calls = s.client.calls

theorem BlocksGone.next (h : BlocksGone s s' n k) (hva : pageOf va = blockPage n k) :
    BlocksGone s (unmapped s' va) n (k + 1) := by
  refine ⟨fun j hj => ?_, fun v hv => ?_, h.answers, h.calls⟩
  · rcases Nat.lt_succ_iff_lt_or_eq.mp hj with hlt | rfl
    · exact unmapped_none (h.gone j hlt)
    · rw [← hva, unmapped_self]
  · have hne : v ≠ pageOf va := by
      rw [hva]
      exact hv k (Nat.lt_succ_self k)
    rw [unmapped_of_ne hne]
    exact h.kept v fun j hj => hv j (Nat.lt_succ_of_lt hj)

theorem unmapLoop_ret (n : FdNum) (hsize : size.toNat ≤ 0xfffff000) (hturns : blockCount size < turns) :
    ∃ s', forBlocks (fun i => decide (i < size)) (fun i => do
      let r ← onClient (memUnmap (fd2data (fdVa (BitVec.ofNat 32 n.val)) + i.setWidth 64))
      if r.msb then Prog.throw r else pure ⟨⟩) turns 0 s = .ret ⟨⟩ s' ∧ BlocksGone s s' n (blockCount size) := by
  obtain ⟨hmore, hend⟩ := blockCount_turns hsize
  apply forBlocks_run (I := fun k s' => BlocksGone s s' n k) hmore hend
  · intro k hk s' hs'
    unfold blockCount at hk
    refine ⟨_, ?_, hs'.next (blockVa_page n (by omega))⟩
    rw [Prog.bind_ret (memUnmap_apply (blockVa_low n _)), if_neg (by decide)]
    rfl
  · exact ⟨fun j hj => absurd hj (Nat.not_lt_zero j), fun _ _ => rfl, rfl, rfl⟩
  · exact hturns

/-- `file_close`, by the reply to its last request. -/
theorem fileClose_ret (hsize : (s.fSize n).toNat ≤ 0xfffff000) (hturns : blockCount (s.fSize n) < turns) :
    ∃ r s₁ s', Prog.attempt (fileClose turns (fdVa (BitVec.ofNat 32 n.val))) s = .ret r s' ∧
      Quiet s s₁ (blockCount (s.fSize n) + 1) ∧
      BlocksGone s₁ s' n (if (closeReply s n).value.msb then 0 else blockCount (s.fSize n)) := by
  obtain ⟨s₀, hdirty, hquiet⟩ : ∃ s₀, _ ∧ Quiet s s₀ _ :=
    dirtyBlocks_ret (s.field (fdVa (BitVec.ofNat 32 n.val)) 24) hsize hturns
  have hreply : s₀.reply = closeReply s n := by
    rw [FileClient.reply, hquiet.replies, hquiet.sent]
    rfl
  have hclose : ∀ fileid, fsipcClose fileid s₀ = .ret (closeReply s n).value (s₀.received (.close fileid) 0) := by
    intro fileid
    unfold fsipcClose
    rw [Prog.bind_ret (fsipc_apply not_kern_zero), hreply]
    rfl
  cases hvalue : (closeReply s n).value.msb with
  | true =>
      refine ⟨.error (closeReply s n).value, _, _, Prog.attempt_fail ?_, hquiet.received (.close (s.field (fdVa (BitVec.ofNat 32 n.val)) 24)),
        ⟨fun j hj => absurd hj (Nat.not_lt_zero j), fun _ _ => rfl, rfl, rfl⟩⟩
      unfold fileClose
      rw [Prog.bind_ret (Prog.get_apply s)]
      refine (Prog.bind_ret hdirty).trans ?_
      rw [Prog.bind_ret (hclose _), if_pos hvalue]
      rfl
  | false =>
      obtain ⟨s', hunmap, hgone⟩ : ∃ s', _ ∧
          BlocksGone (s₀.received (.close (s.field (fdVa (BitVec.ofNat 32 n.val)) 24)) 0)
        s' n _ := unmapLoop_ret n hsize hturns
      refine ⟨.ok ⟨⟩, _, s', Prog.attempt_ret ?_, hquiet.received _, hgone⟩
      unfold fileClose
      rw [Prog.bind_ret (Prog.get_apply s)]
      refine (Prog.bind_ret hdirty).trans ?_
      rw [Prog.bind_ret (hclose _), hvalue, if_neg Bool.false_ne_true]
      exact hunmap

theorem fileClose_endless (hsize : 0xfffff000 < (s.fSize n).toNat) :
    ∃ m, Prog.attempt (fileClose turns (fdVa (BitVec.ofNat 32 n.val))) s = .stop m := by
  obtain ⟨m, hdirty⟩ : ∃ m, forBlocks _ _ turns 0 s = .stop m :=
    dirtyBlocks_endless (s.field (fdVa (BitVec.ofNat 32 n.val)) 24) hsize rfl
  refine ⟨m, ?_⟩
  have hstop : fileClose turns (fdVa (BitVec.ofNat 32 n.val)) s = .stop m := by
    unfold fileClose
    rw [Prog.bind_ret (Prog.get_apply s)]
    exact Prog.bind_stop hdirty
  rw [Prog.attempt, hstop]

/-! ## `close` -/

theorem close_unmapped (h : s.client.pages (fdPage n) = none) :
    Prog.attempt (close turns (BitVec.ofNat 32 n.val)) s = .ret (.error (-E_INVAL)) s := by
  apply Prog.attempt_fail
  unfold close
  rw [Prog.bind_ret (Prog.get_apply s), fdLookup_none n h]
  rfl

theorem close_unknown (h : (s.client.pages (fdPage n)).isSome = true) (hdev : devClose turns (devId s n) = none) :
    Prog.attempt (close turns (BitVec.ofNat 32 n.val)) s = .ret (.error (-E_INVAL)) s := by
  have hdev' : devClose turns (s.field (fdVa (BitVec.ofNat 32 n.val)) 0) = none := hdev
  apply Prog.attempt_fail
  unfold close
  rw [Prog.bind_ret (Prog.get_apply s), fdLookup_ok n h]
  dsimp only
  rw [hdev']
  rfl

/-- The page of the descriptor is unmapped whatever the device says. -/
theorem close_device {dev_close : Word → FileM PUnit} {r : Except U32 PUnit}
    (h : (s.client.pages (fdPage n)).isSome = true) (hdev : devClose turns (devId s n) = some dev_close)
    (hrun : Prog.attempt (dev_close (fdVa (BitVec.ofNat 32 n.val))) s = .ret r s') :
    ∃ r', Prog.attempt (close turns (BitVec.ofNat 32 n.val)) s =
        .ret r' (unmapped s' (fdVa (BitVec.ofNat 32 n.val))) := by
  have hdev' : devClose turns (s.field (fdVa (BitVec.ofNat 32 n.val)) 0) = some dev_close := hdev
  have hclose : close turns (BitVec.ofNat 32 n.val) s = match r with
      | .error e => .fail e (unmapped s' (fdVa (BitVec.ofNat 32 n.val)))
      | .ok _ => .ret ⟨⟩ (unmapped s' (fdVa (BitVec.ofNat 32 n.val))) := by
    unfold close
    rw [Prog.bind_ret (Prog.get_apply s), fdLookup_ok n h]
    dsimp only
    rw [hdev']
    dsimp only
    rw [Prog.bind_ret hrun, Prog.bind_ret (memUnmap_apply (fdVa_user n))]
    cases r with
    | error e => rfl
    | ok u => rfl
  cases r with
  | error e => exact ⟨_, Prog.attempt_fail hclose⟩
  | ok u => exact ⟨_, Prog.attempt_ret hclose⟩

theorem pipeclose_ret (s : FileClient) (n : FdNum) : Prog.attempt (pipeclose (fdVa (BitVec.ofNat 32 n.val))) s =
    .ret (.ok ⟨⟩) (unmapped (unmapped s (fdVa (BitVec.ofNat 32 n.val))) (dataVa (BitVec.ofNat 32 n.val))) := by
  apply Prog.attempt_ret
  unfold pipeclose
  rw [Prog.bind_ret (memUnmap_apply (fdVa_user n)), fd2data_fdVa, Prog.bind_ret (memUnmap_apply (dataVa_user n))]
  rfl

/-- A descriptor that is not open stays as it is. -/
theorem closed_nothing (h : ¬ ((s.client.pages (fdPage n)).isSome = true ∧
    (devId s n = DEV_FILE ∨ devId s n = DEV_PIPE ∨ devId s n = DEV_CONS))) : Closed s n s := by
  refine ⟨fun v hv => ?_, fun _ _ _ => rfl, rfl, rfl⟩
  cases hv with
  | fd hmapped hdev => exact absurd ⟨hmapped, hdev⟩ h
  | block hmapped hdev _ _ => exact absurd ⟨hmapped, Or.inl hdev⟩ h
  | pipe hmapped hdev => exact absurd ⟨hmapped, Or.inr (Or.inl hdev)⟩ h

theorem closed_file (h : (s.client.pages (fdPage n)).isSome = true) (hdev : devId s n = DEV_FILE) {j : Nat}
    (hquiet : Quiet s s₁ j) (hgone : BlocksGone s₁ s' n
      (if (closeReply s n).value.msb then 0 else blockCount (s.fSize n))) :
    Closed s n (unmapped s' (fdVa (BitVec.ofNat 32 n.val))) := by
  refine ⟨fun v hv => ?_, fun v h0 hv => ?_, hgone.answers.trans hquiet.answers, hgone.calls.trans hquiet.calls⟩
  · cases hv with
    | fd _ _ => rw [← pageOf_fdVa, unmapped_self]
    | block _ _ hreply hj =>
        rw [hreply, if_neg Bool.false_ne_true] at hgone
        exact unmapped_none (hgone.gone _ hj)
    | pipe _ hpipe =>
        rw [hdev] at hpipe
        exact absurd hpipe (by decide)
  · have hne : v ≠ fdPage n := by
      rintro rfl
      exact hv (.fd h (Or.inl hdev))
    rw [unmapped_of_ne (by rw [pageOf_fdVa]; exact hne), hgone.kept v, hquiet.pages v h0]
    rintro i hi rfl
    cases hreply : (closeReply s n).value.msb with
    | true =>
        rw [hreply, if_pos rfl] at hi
        exact Nat.not_lt_zero i hi
    | false =>
        rw [hreply, if_neg Bool.false_ne_true] at hi
        exact hv (.block h hdev hreply hi)

theorem pageOf_data (n : FdNum) : pageOf (dataVa (BitVec.ofNat 32 n.val)) = blockPage n 0 := pageOf_dataVa n

theorem closed_pipe (h : (s.client.pages (fdPage n)).isSome = true) (hdev : devId s n = DEV_PIPE) :
    Closed s n (unmapped (unmapped (unmapped s (fdVa (BitVec.ofNat 32 n.val))) (dataVa (BitVec.ofNat 32 n.val)))
      (fdVa (BitVec.ofNat 32 n.val))) := by
  refine ⟨fun v hv => ?_, fun v _ hv => ?_, rfl, rfl⟩
  · cases hv with
    | fd _ _ => rw [← pageOf_fdVa, unmapped_self]
    | block _ hfile _ _ =>
        rw [hdev] at hfile
        exact absurd hfile (by decide)
    | pipe _ _ =>
        apply unmapped_none
        rw [← pageOf_data, unmapped_self]
  · have hne : v ≠ pageOf (fdVa (BitVec.ofNat 32 n.val)) := by
      rw [pageOf_fdVa]
      rintro rfl
      exact hv (.fd h (Or.inr (Or.inl hdev)))
    have hne' : v ≠ pageOf (dataVa (BitVec.ofNat 32 n.val)) := by
      rw [pageOf_data]
      rintro rfl
      exact hv (.pipe h hdev)
    rw [unmapped_of_ne hne, unmapped_of_ne hne', unmapped_of_ne hne]

theorem closed_cons (h : (s.client.pages (fdPage n)).isSome = true) (hdev : devId s n = DEV_CONS) :
    Closed s n (unmapped s (fdVa (BitVec.ofNat 32 n.val))) := by
  refine ⟨fun v hv => ?_, fun v _ hv => ?_, rfl, rfl⟩
  · cases hv with
    | fd _ _ => rw [← pageOf_fdVa, unmapped_self]
    | block _ hfile _ _ =>
        rw [hdev] at hfile
        exact absurd hfile (by decide)
    | pipe _ hpipe =>
        rw [hdev] at hpipe
        exact absurd hpipe (by decide)
  · apply unmapped_of_ne
    rw [pageOf_fdVa]
    rintro rfl
    exact hv (.fd h (Or.inr (Or.inr hdev)))

/-- With turns enough `close` comes to an end, and has unmapped its pages. -/
theorem close_ret (s : FileClient) (n : FdNum) (hends : ¬ NeverClosed s n) : ∃ N, ∀ turns, N ≤ turns →
    ∃ r s', Prog.attempt (close turns (BitVec.ofNat 32 n.val)) s = .ret r s' ∧ Closed s n s' := by
  refine ⟨blockCount (s.fSize n) + 1, fun turns hturns => ?_⟩
  cases hfd : s.client.pages (fdPage n) with
  | none => exact ⟨_, s, close_unmapped hfd, closed_nothing fun h => by rw [hfd] at h; cases h.1⟩
  | some pte =>
      have h : (s.client.pages (fdPage n)).isSome = true := by rw [hfd]; rfl
      by_cases hfile : devId s n = DEV_FILE
      · have hsize : (s.fSize n).toNat ≤ 0xfffff000 := by
          by_contra hbig
          exact hends ⟨h, hfile, Nat.not_le.mp hbig⟩
        obtain ⟨r, s₁, s₂, hrun, hquiet, hgone⟩ := fileClose_ret hsize hturns
        obtain ⟨r', hclose⟩ := close_device h (by rw [hfile]; rfl) hrun
        exact ⟨r', _, hclose, closed_file h hfile hquiet hgone⟩
      by_cases hpipe : devId s n = DEV_PIPE
      · obtain ⟨r', hclose⟩ := close_device h (by rw [hpipe]; rfl) (pipeclose_ret s n)
        exact ⟨r', _, hclose, closed_pipe h hpipe⟩
      by_cases hcons : devId s n = DEV_CONS
      · obtain ⟨r', hclose⟩ := close_device h (by rw [hcons]; rfl) (Prog.attempt_ret (Prog.pure_apply PUnit.unit s))
        exact ⟨r', _, hclose, closed_cons h hcons⟩
      · have hnone : devClose turns (devId s n) = none := by
          rw [devClose, if_neg hfile, if_neg hpipe, if_neg hcons]
        refine ⟨_, s, close_unknown h hnone, closed_nothing fun hopen => ?_⟩
        rcases hopen.2 with hdev | hdev | hdev
        · exact hfile hdev
        · exact hpipe hdev
        · exact hcons hdev

theorem close_endless (hends : NeverClosed s n) :
    ∃ m, Prog.attempt (close turns (BitVec.ofNat 32 n.val)) s = .stop m := by
  obtain ⟨h, hfile, hsize⟩ := hends
  obtain ⟨m, hstop⟩ : ∃ m, Prog.attempt (fileClose turns (fdVa (BitVec.ofNat 32 n.val))) s = .stop m :=
    fileClose_endless hsize
  have hdev : devClose turns (s.field (fdVa (BitVec.ofNat 32 n.val)) 0) = some (fileClose turns) := if_pos hfile
  refine ⟨m, ?_⟩
  have hclose : close turns (BitVec.ofNat 32 n.val) s = .stop m := by
    unfold close
    rw [Prog.bind_ret (Prog.get_apply s), fdLookup_ok n h]
    dsimp only
    rw [hdev]
    dsimp only
    rw [Prog.bind_stop hstop]
  rw [Prog.attempt, hclose]

end FileIo

end RpiMos
