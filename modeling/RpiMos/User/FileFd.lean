/-
  RpiMos.User.FileFd

  `open` and `ftruncate` of user/file.c, with the requests of user/fsipc.c that they
  make.  The file server is whatever it answers: the k-th reply that a process gets
  is part of the state, a number, permissions and perhaps a page.
-/

import RpiMos.User.Client
import RpiMos.User.FsipcPath

namespace RpiMos

open Lib

/-! ## Requests and replies -/

/-- What stands in the request page. -/
inductive FileReq where
  | open (path : List Byte) (omode : U32)
  | map (fileid offset : U32)
  | set_size (fileid size : U32)
  | dirty (fileid offset : U32)
  | close (fileid : U32)

/-- A page that comes with a reply, its bytes from 0 on. -/
structure SentPage where
  frame : Nat
  bytes : ByteMem

/-- A reply of the file server.  There is no page when it sends none, or when the
    kernel has no memory for it. -/
structure FileReply where
  value : U32
  perm : Word
  page : Option SentPage

/-- The permissions are those that `fsipc_map` expects. -/
def FileReply.expected (r : FileReply) : Bool := r.perm &&& ~~~ (PTE_RW ||| PTE_LIBRARY ||| PTE_USER) = VALID

/-- A call of `user_bcopy`. -/
structure Copy where
  src : Word
  dst : Word
  len : Word

structure FileClient where
  client : Client
  replies : Nat → FileReply
  sent : List FileReq
  copies : List Copy

/-- A function of user/file.c: an error is the negative `int` it returns. -/
abbrev FileM := Prog FileClient U32

/-- The page of a reply is mapped where the process waits for it. -/
def Client.receive (c : Client) (dstva : Word) (r : FileReply) : Client :=
  match r.page with
  | none => c
  | some p =>
      { c.setPage (pageOf dstva) (some ⟨p.frame, r.perm ||| VALID⟩) with
        mem := c.mem.fill p.bytes 0 (Client.start (pageOf dstva)) BY2PG }

namespace FileClient

/-- The reply to the next request. -/
def reply (s : FileClient) : FileReply := s.replies s.sent.length

def received (s : FileClient) (req : FileReq) (dstva : Word) : FileClient :=
  { s with client := s.client.receive dstva s.reply, sent := s.sent ++ [req] }

/-- A field of the descriptor at `fd`. -/
def field (s : FileClient) (fd : Word) (off : Nat) : U32 := s.client.mem.ld32 (fd + BitVec.ofNat 64 off).toNat

/-- `f->f_file.f_size`. -/
def fSize (s : FileClient) (n : FdNum) : U32 := s.field (fdVa (BitVec.ofNat 32 n.val)) 160

end FileClient

namespace FileIo

/-- `devfile.dev_id`. -/
def DEV_FILE : U32 := 102

/-- A part of a function that makes no request. -/
def onClient {α : Type} (x : ClientM α) : FileM α := fun s =>
  match x s.client with
  | .ret a c => .ret a { s with client := c }
  | .fail e c => .fail e { s with client := c }
  | .stop m => .stop m

def loadU32 (fd : Word) (off : Nat) : FileM U32 := do
  onClient (touchPage (fd + BitVec.ofNat 64 off))
  let s ← Prog.get
  pure (s.field fd off)

/-! ## user/fsipc.c -/

/-- `fsipc`: the number and the permissions of the reply. -/
def fsipc (req : FileReq) (dstva : Word) : FileM FileReply := do
  -- The process does not wait for a page at an address of the kernel; the server
  -- then waits for it, and hears no more requests.
  if KERNBASE ≤ dstva then Prog.stop "ipc_send"
  else
    let s ← Prog.get
    Prog.modify fun s => s.received req dstva
    pure s.reply

/-- `strlen(path) >= MAXPATHLEN`. -/
def tooLong (path : List Byte) : Bool := decide ((MAXPATHLEN : Int) ≤ (BitVec.ofNat 32 path.length : U32).toInt)

def fsipcOpen (path : List Byte) (omode : U32) (fd : Word) : FileM PUnit := do
  if tooLong path then Prog.throw (-E_BAD_PATH)
  else
    let r ← fsipc (.open path omode) fd
    if r.value.msb then Prog.throw r.value else pure ⟨⟩

def fsipcMap (fileid offset : U32) (dstva : Word) : FileM PUnit := do
  let r ← fsipc (.map fileid offset) dstva
  if r.value.msb then Prog.throw r.value
  else if r.expected then pure ⟨⟩
  else Prog.stop "fsipc_map: unexpected permissions"

def fsipcSetSize (fileid size : U32) : FileM PUnit := do
  let r ← fsipc (.set_size fileid size) 0
  if r.value.msb then Prog.throw r.value else pure ⟨⟩

/-! ## user/file.c -/

/-- `for (; more(i); i += BY2PG)`, for at most so many turns. -/
def forBlocks (more : U32 → Bool) (body : U32 → FileM PUnit) : Nat → U32 → FileM PUnit
  | 0, _ => Prog.stop "no more turns"
  | turns + 1, i => if more i then do
      body i
      forBlocks more body turns (i + 4096)
    else pure ⟨⟩

/-- The loop that maps the blocks of a file. -/
def mapBlocks (fileid : U32) (va : U32 → Word) (more : U32 → Bool) (turns : Nat) (i : U32) : FileM PUnit :=
  forBlocks more (fun i => fsipcMap fileid i (va i)) turns i

/-- `open(path, mode)`; the pointer holds `old` before it is set. -/
def openFile (turns : Nat) (path : List Byte) (mode : U32) (old : Word) : FileM U32 := do
  let (r, fd) ← onClient (fdAlloc old)
  if r.msb then Prog.throw r
  else
    fsipcOpen path mode fd
    let fileid ← loadU32 fd 24
    let size ← loadU32 fd 160
    mapBlocks fileid (fun i => fd2data fd + i.setWidth 64) (fun i => decide (i < size)) turns 0
    pure (fd2num fd)

/-- `ROUND(size, BY2PG)`. -/
def roundPage (size : U32) : Word := roundWord (size.setWidth 64) 4096

def unmapBlocks (va : Word) (more : U32 → Bool) (turns : Nat) (i : U32) : FileM PUnit :=
  forBlocks more (fun i => do
    let r ← onClient (memUnmap (va + intWord i))
    if r.msb then Prog.stop "ftruncate: syscall_mem_unmap" else pure ⟨⟩) turns i

/-- `ftruncate(fdnum, size)`. -/
def ftruncate (turns : Nat) (fdnum size : U32) : FileM PUnit := do
  if MAXFILESIZE < size.toNat then Prog.throw (-E_NO_DISK)
  else
    let s ← Prog.get
    match s.client.fdLookup fdnum with
    | .error r => Prog.throw r
    | .ok fd =>
        if s.field fd 0 ≠ DEV_FILE then Prog.throw (-E_INVAL)
        else
          let fileid := s.field fd 24
          let oldsize := s.field fd 160
          onClient (storeU32 (fd + 160) size)
          fsipcSetSize fileid size
          let va := fd2data fd
          let r ← Prog.attempt
            (mapBlocks fileid (fun i => va + intWord i) (fun i => intLt i (roundPage size)) turns
              ((roundPage oldsize).setWidth 32))
          match r with
          | .error r => do
              let _ ← Prog.attempt (fsipcSetSize fileid oldsize)
              Prog.throw r
          | .ok _ =>
              unmapBlocks va (fun i => intLt i (roundPage oldsize)) turns ((roundPage size).setWidth 32)

/-! ## What is asked of them -/

/-- A page is mapped behind an `open` that fails only if it was mapped before. -/
def OpenClean (s : FileClient) (path : List Byte) (mode : U32) (old : Word) : Prop :=
  ∀ turns e s', openFile turns path mode old s = .fail e s' →
    ∀ v, s.client.pages v = none → s'.client.pages v = none

/-- Behind an `ftruncate` that fails `f_size` is as before, and the pages mapped in
    the window of the descriptor are those that were. -/
def FtruncateClean (s : FileClient) (n : FdNum) (size : U32) : Prop :=
  ∀ turns e s', ftruncate turns (BitVec.ofNat 32 n.val) size s = .fail e s' →
    s'.fSize n = s.fSize n ∧
    ∀ k, k < NDATA → (s'.client.pages (dataPage n k)).isSome = (s.client.pages (dataPage n k)).isSome

/-- The offset in turn `k` of a loop that starts at `i`. -/
def blockAt (i : U32) (k : Nat) : U32 := i + BitVec.ofNat 32 (k * 4096)

/-- The loop comes to turn `k`, the replies from the b-th on are to its requests, and
    it is this one that is refused. -/
structure RefusedAt (replies : Nat → FileReply) (b : Nat) (more : U32 → Bool) (i : U32) (k : Nat) : Prop where
  asked : ∀ j, j ≤ k → more (blockAt i j) = true
  granted : ∀ j, j < k → (replies (b + j)).value.msb = false ∧ (replies (b + j)).expected = true
  refused : (replies (b + k)).value.msb = true

/-- No request for a block is refused. -/
def NoneRefused (replies : Nat → FileReply) (b : Nat) (more : U32 → Bool) (i : U32) : Prop :=
  ∀ k, ¬ RefusedAt replies b more i k

/-- `open` makes no request, or it is refused and gets no page, or it gets the
    descriptor and all the blocks. -/
def OpenFits (s : FileClient) (path : List Byte) : Prop :=
  s.client.firstFree = none ∨ tooLong path = true ∨
  (s.reply.value.msb = true ∧ s.reply.page = none) ∨
  (s.reply.value.msb = false ∧ ∀ p, s.reply.page = some p →
    NoneRefused s.replies (s.sent.length + 1) (fun i => decide (i < p.bytes.ld32 160)) 0)

/-- `ftruncate` makes no request, or its first is refused for a size that the file
    has, or granted and so are all the blocks. -/
def TruncFits (s : FileClient) (n : FdNum) (size : U32) : Prop :=
  MAXFILESIZE < size.toNat ∨ s.client.pages (fdPage n) = none ∨
  s.field (fdVa (BitVec.ofNat 32 n.val)) 0 ≠ DEV_FILE ∨
  (s.reply.value.msb = true ∧ size = s.fSize n) ∨
  (s.reply.value.msb = false ∧ NoneRefused s.replies (s.sent.length + 1)
    (fun i => intLt i (roundPage size)) ((roundPage (s.fSize n)).setWidth 32))

/-! ## Turns -/

variable {s s' : FileClient} {e : U32} {more : U32 → Bool} {fileid i : U32} {va : U32 → Word} {k turns b : Nat}

theorem blockAt_zero (i : U32) : blockAt i 0 = i := by
  rw [blockAt, Nat.zero_mul]
  exact BitVec.add_zero i

theorem blockAt_succ (i : U32) (k : Nat) : blockAt (i + 4096) k = blockAt i (k + 1) := by
  rw [blockAt, blockAt, Nat.succ_mul, BitVec.ofNat_add, BitVec.add_assoc, BitVec.add_comm 4096]
  rfl

section RefusedAt

variable {replies : Nat → FileReply}

theorem RefusedAt.first (h : RefusedAt replies b more i k) : more i = true := by
  have h0 := h.asked 0 (Nat.zero_le k)
  rwa [blockAt_zero] at h0

/-- What is refused in a later turn is refused from the next turn on. -/
theorem refusedAt_succ : RefusedAt replies b more i (k + 1) ↔
    more i = true ∧ (replies b).value.msb = false ∧ (replies b).expected = true ∧
    RefusedAt replies (b + 1) more (i + 4096) k := by
  constructor
  · intro h
    have h0 := h.granted 0 (Nat.succ_pos k)
    refine ⟨h.first, h0.1, h0.2, fun j hj => ?_, fun j hj => ?_, ?_⟩
    · rw [blockAt_succ]
      exact h.asked (j + 1) (Nat.succ_le_succ hj)
    · rw [Nat.add_assoc, Nat.add_comm 1]
      exact h.granted (j + 1) (Nat.succ_lt_succ hj)
    · rw [Nat.add_assoc, Nat.add_comm 1]
      exact h.refused
  · rintro ⟨hmore, hvalue, hperm, h⟩
    refine ⟨fun j hj => ?_, fun j hj => ?_, ?_⟩
    · cases j with
      | zero =>
          rw [blockAt_zero]
          exact hmore
      | succ j =>
          rw [← blockAt_succ]
          exact h.asked j (Nat.le_of_succ_le_succ hj)
    · cases j with
      | zero => exact ⟨hvalue, hperm⟩
      | succ j =>
          have hnext := h.granted j (Nat.lt_of_succ_lt_succ hj)
          rwa [Nat.add_assoc, Nat.add_comm 1] at hnext
    · have hlast := h.refused
      rwa [Nat.add_assoc, Nat.add_comm 1] at hlast

theorem refusedAt_zero : RefusedAt replies b more i 0 ↔ more i = true ∧ (replies b).value.msb = true := by
  constructor
  · intro h
    exact ⟨h.first, h.refused⟩
  · rintro ⟨hmore, hvalue⟩
    refine ⟨fun j hj => ?_, fun j hj => absurd hj (Nat.not_lt_zero j), hvalue⟩
    rw [Nat.le_zero.mp hj, blockAt_zero]
    exact hmore

end RefusedAt

/-! ## Requests -/

theorem fsipc_apply {req : FileReq} {dstva : Word} (h : ¬ KERNBASE ≤ dstva) :
    fsipc req dstva s = .ret s.reply (s.received req dstva) := by
  unfold fsipc
  rw [if_neg h]
  rfl

theorem fsipc_stop {req : FileReq} {dstva : Word} (h : KERNBASE ≤ dstva) :
    fsipc req dstva s = .stop "ipc_send" := by
  unfold fsipc
  rw [if_pos h]
  rfl

/-- A request for a block, by the reply to it. -/
theorem fsipcMap_apply {offset : U32} {dstva : Word} (h : ¬ KERNBASE ≤ dstva) :
    fsipcMap fileid offset dstva s =
      if s.reply.value.msb then .fail s.reply.value (s.received (.map fileid offset) dstva)
      else if s.reply.expected then .ret ⟨⟩ (s.received (.map fileid offset) dstva)
      else .stop "fsipc_map: unexpected permissions" := by
  unfold fsipcMap
  rw [Prog.bind_ret (fsipc_apply h)]
  split
  · rfl
  split
  · rfl
  · rfl

theorem fsipcMap_stop {offset : U32} {dstva : Word} (h : KERNBASE ≤ dstva) :
    fsipcMap fileid offset dstva s = .stop "ipc_send" := by
  unfold fsipcMap
  exact Prog.bind_stop (fsipc_stop h)

theorem not_kern_zero : ¬ KERNBASE ≤ (0 : Word) := by decide

theorem fsipcSetSize_apply {size : U32} : fsipcSetSize fileid size s =
    if s.reply.value.msb then .fail s.reply.value (s.received (.set_size fileid size) 0)
    else .ret ⟨⟩ (s.received (.set_size fileid size) 0) := by
  unfold fsipcSetSize
  rw [Prog.bind_ret (fsipc_apply not_kern_zero)]
  split
  · rfl
  · rfl

@[simp] theorem received_replies (s : FileClient) (req : FileReq) (dstva : Word) :
    (s.received req dstva).replies = s.replies := rfl

@[simp] theorem received_sent_length (s : FileClient) (req : FileReq) (dstva : Word) :
    (s.received req dstva).sent.length = s.sent.length + 1 := List.length_append

/-! ## The loop over the blocks -/

theorem forBlocks_more {body : U32 → FileM PUnit} (h : more i = true) :
    forBlocks more body (turns + 1) i = body i >>= fun _ => forBlocks more body turns (i + 4096) := if_pos h

theorem forBlocks_done {body : U32 → FileM PUnit} (h : more i = false) :
    forBlocks more body (turns + 1) i = pure ⟨⟩ := by
  rw [forBlocks, h]
  rfl

/-- A loop of so many turns, by what holds before each; induction on the turns left. -/
theorem forBlocks_run {body : U32 → FileM PUnit} {I : Nat → FileClient → Prop} {count : Nat}
    (hmore : ∀ k, k < count → more (blockAt i k) = true) (hend : more (blockAt i count) = false)
    (hbody : ∀ k, k < count → ∀ s, I k s → ∃ s', body (blockAt i k) s = .ret ⟨⟩ s' ∧ I (k + 1) s') (h0 : I 0 s)
    (hturns : count < turns) : ∃ s', forBlocks more body turns i s = .ret ⟨⟩ s' ∧ I count s' := by
  obtain ⟨turns, rfl⟩ : ∃ t, turns = t + 1 := ⟨turns - 1, by omega⟩
  induction count generalizing i s turns I with
  | zero =>
      rw [blockAt_zero] at hend
      rw [forBlocks_done hend]
      exact ⟨s, rfl, h0⟩
  | succ count ih =>
      obtain ⟨turns, rfl⟩ : ∃ t, turns = t + 1 := ⟨turns - 1, by omega⟩
      have hfirst := hmore 0 (Nat.succ_pos count)
      obtain ⟨s₁, hstep, h1⟩ := hbody 0 (Nat.succ_pos count) s h0
      rw [blockAt_zero] at hfirst hstep
      rw [forBlocks_more hfirst, Prog.bind_ret hstep]
      apply ih (I := fun k => I (k + 1))
      · intro k hk
        rw [blockAt_succ]
        exact hmore (k + 1) (Nat.succ_lt_succ hk)
      · rw [blockAt_succ]
        exact hend
      · intro k hk s hs
        rw [blockAt_succ]
        exact hbody (k + 1) (Nat.succ_lt_succ hk) s hs
      · exact h1
      · omega

/-- The first request that is refused ends the loop; induction on the turns before it. -/
theorem mapBlocks_refused (hlow : ∀ i, more i = true → ¬ KERNBASE ≤ va i)
    (h : RefusedAt s.replies s.sent.length more i k) (hk : k < turns) :
    ∃ e s', mapBlocks fileid va more turns i s = .fail e s' := by
  induction k generalizing i s turns with
  | zero =>
      obtain ⟨turns, rfl⟩ : ∃ t, turns = t + 1 := ⟨turns - 1, by omega⟩
      obtain ⟨hmore, hvalue⟩ := refusedAt_zero.mp h
      have hreply : s.reply.value.msb = true := hvalue
      refine ⟨s.reply.value, s.received (.map fileid i) (va i), ?_⟩
      rw [mapBlocks, forBlocks_more hmore]
      apply Prog.bind_fail
      rw [fsipcMap_apply (hlow i hmore), if_pos hreply]
  | succ k ih =>
      obtain ⟨turns, rfl⟩ : ∃ t, turns = t + 1 := ⟨turns - 1, by omega⟩
      obtain ⟨hmore, hvalue, hperm, hrest⟩ := refusedAt_succ.mp h
      have hreply : s.reply.value.msb = false := hvalue
      have hexpected : s.reply.expected = true := hperm
      have hfirst : fsipcMap fileid i (va i) s = .ret ⟨⟩ (s.received (.map fileid i) (va i)) := by
        rw [fsipcMap_apply (hlow i hmore), hreply, if_neg Bool.false_ne_true, if_pos hexpected]
      rw [mapBlocks, forBlocks_more hmore, Prog.bind_ret hfirst]
      apply ih
      · rw [received_replies, received_sent_length]
        exact hrest
      · omega

/-- A loop that fails has had a request refused; induction on the turns. -/
theorem refused_of_fail (h : mapBlocks fileid va more turns i s = .fail e s') :
    ∃ k, RefusedAt s.replies s.sent.length more i k := by
  induction turns generalizing i s with
  | zero => cases h
  | succ turns ih =>
      cases hmore : more i with
      | false =>
          rw [mapBlocks, forBlocks_done hmore] at h
          cases h
      | true =>
          rw [mapBlocks, forBlocks_more hmore] at h
          by_cases hlow : KERNBASE ≤ va i
          · rw [Prog.bind_stop (fsipcMap_stop hlow)] at h
            cases h
          have hfirst : fsipcMap fileid i (va i) s = _ := fsipcMap_apply hlow
          split at hfirst
          · rename_i hvalue
            exact ⟨0, refusedAt_zero.mpr ⟨hmore, hvalue⟩⟩
          rename_i hvalue
          split at hfirst
          · rename_i hperm
            rw [Prog.bind_ret hfirst] at h
            obtain ⟨k, hk⟩ := ih h
            rw [received_replies, received_sent_length] at hk
            exact ⟨k + 1, refusedAt_succ.mpr ⟨hmore, Bool.eq_false_of_not_eq_true hvalue, hperm, hk⟩⟩
          · rw [Prog.bind_stop hfirst] at h
            cases h

/-! ## What a request leaves alone -/

section Receive

variable {c : Client} {dstva : Word} {r : FileReply} {v : Vpn} {n : FdNum}

theorem receive_of_none (h : r.page = none) : c.receive dstva r = c := by
  rw [Client.receive, h]

theorem receive_pages_of_ne (h : v ≠ pageOf dstva) : (c.receive dstva r).pages v = c.pages v := by
  unfold Client.receive
  split
  · rfl
  · exact Client.setPage_of_ne h

theorem receive_isSome (h : (c.pages v).isSome = true) : ((c.receive dstva r).pages v).isSome = true := by
  by_cases hv : v = pageOf dstva
  · unfold Client.receive
    split
    · exact h
    · rw [hv]
      show ((c.setPage (pageOf dstva) _).pages (pageOf dstva)).isSome = true
      rw [Client.setPage_self]
      rfl
  · rw [receive_pages_of_ne hv]
    exact h

theorem receive_page {p : SentPage} (h : r.page = some p) :
    (c.receive dstva r).pages (pageOf dstva) = some ⟨p.frame, r.perm ||| VALID⟩ := by
  unfold Client.receive
  rw [h]
  exact Client.setPage_self

/-- A word of a descriptor's page, when the reply's page goes elsewhere. -/
theorem receive_ld32 (h : fdPage n ≠ pageOf dstva) {off : Nat} (hoff : off + 4 ≤ BY2PG) :
    (c.receive dstva r).mem.ld32 (fdVa (BitVec.ofNat 32 n.val) + BitVec.ofNat 64 off).toNat =
      c.mem.ld32 (fdVa (BitVec.ofNat 32 n.val) + BitVec.ofNat 64 off).toNat := by
  unfold Client.receive
  split
  · rfl
  · apply ByteMem.Same.ld32
    intro x hlo hhi
    have hne : (fdPage n).val ≠ (pageOf dstva).val := fun heq => h (Fin.ext heq)
    rw [fdPage_val] at hne
    rw [fdVa_add_toNat n (by omega)] at hlo hhi
    show ByteMem.fill _ _ _ _ _ x = _
    rw [ByteMem.fill, Client.start, BY2PG, if_neg (by rw [BY2PG] at hoff; omega)]

/-- A word of a page that comes with a reply. -/
theorem receive_ld32_sent {p : SentPage} (h : r.page = some p) {off : Nat} (hoff : off + 4 ≤ BY2PG) :
    (c.receive (fdVa (BitVec.ofNat 32 n.val)) r).mem.ld32 (fdVa (BitVec.ofNat 32 n.val) + BitVec.ofNat 64 off).toNat =
      p.bytes.ld32 off := by
  unfold Client.receive
  rw [h]
  have haddr := fdVa_add_toNat n (show off < BY2PG by omega)
  have hpage : Client.start (pageOf (fdVa (BitVec.ofNat 32 n.val))) = 0x70000000 + n.val * 4096 := by
    rw [pageOf_fdVa, Client.start, fdPage_val, BY2PG]
    omega
  have hbyte : ∀ k, k < 4 → (c.mem.fill p.bytes 0 (0x70000000 + n.val * 4096) BY2PG)
      (0x70000000 + n.val * 4096 + off + k) = p.bytes (off + k) := by
    intro k hk
    have hsub : 0x70000000 + n.val * 4096 + off + k - (0x70000000 + n.val * 4096) + 0 = off + k := by omega
    rw [ByteMem.fill, if_pos (by omega), hsub]
  show ByteMem.ld32 (ByteMem.fill _ _ _ _ _) _ = _
  rw [hpage, haddr, ByteMem.ld32, ByteMem.ld32, hbyte 1 (by omega), hbyte 2 (by omega), hbyte 3 (by omega)]
  have h0 := hbyte 0 (by omega)
  rw [Nat.add_zero, Nat.add_zero] at h0
  rw [h0]

end Receive

/-- Pages are mapped, and none is unmapped. -/
def Grows (s s' : FileClient) : Prop :=
  ∀ v, (s.client.pages v).isSome = true → (s'.client.pages v).isSome = true

theorem grows_refl (s : FileClient) : Grows s s := fun _ h => h

theorem Grows.trans {s'' : FileClient} (h : Grows s s') (h' : Grows s' s'') : Grows s s'' := fun v hv => h' v (h v hv)

section Moves

variable {T : FileClient → FileClient → Prop}

section Requests

variable (hrefl : ∀ s, T s s) (htrans : ∀ s s' s'', T s s' → T s' s'' → T s s'')

include hrefl htrans

theorem moves_fsipc {req : FileReq} {dstva : Word} (h : ∀ s, T s (s.received req dstva)) :
    Prog.Moves T (fsipc req dstva) := by
  apply Prog.Moves.ite
  · exact Prog.moves_stop _
  · exact (Prog.moves_get hrefl).bind htrans fun s₀ =>
      (Prog.moves_modify h).bind htrans fun _ => Prog.moves_pure hrefl _

/-- What a request for a block does, it does by the page of the reply. -/
theorem moves_fsipcMap {offset : U32} {dstva : Word} (h : ∀ s req, T s (s.received req dstva)) :
    Prog.Moves T (fsipcMap fileid offset dstva) := by
  apply (moves_fsipc hrefl htrans fun s => h s _).bind htrans
  intro r
  apply Prog.Moves.ite
  · exact Prog.moves_throw hrefl _
  · exact (Prog.moves_pure hrefl _).ite (Prog.moves_stop _)

/-- Induction on the turns. -/
theorem moves_forBlocks {body : U32 → FileM PUnit} (h : ∀ i, more i = true → Prog.Moves T (body i))
    (turns : Nat) (i : U32) : Prog.Moves T (forBlocks more body turns i) := by
  induction turns generalizing i with
  | zero => exact Prog.moves_stop _
  | succ turns ih =>
      cases hmore : more i with
      | false =>
          rw [forBlocks_done hmore]
          exact Prog.moves_pure hrefl _
      | true =>
          rw [forBlocks_more hmore]
          exact (h i hmore).bind htrans fun _ => ih (i + 4096)

end Requests

end Moves

theorem grows_mapBlocks (turns : Nat) (i : U32) : Prog.Moves Grows (mapBlocks fileid va more turns i) := by
  have htrans : ∀ s s' s'' : FileClient, Grows s s' → Grows s' s'' → Grows s s'' := fun _ _ _ h h' => h.trans h'
  apply moves_forBlocks grows_refl htrans
  intro i _
  exact moves_fsipcMap grows_refl htrans fun s req v hv => receive_isSome hv

/-! ## `open` -/

section OnClient

variable {α : Type} {x : ClientM α} {a : α} {c : Client} {m : String}

theorem onClient_ret (h : x s.client = .ret a c) : onClient x s = .ret a { s with client := c } := by
  rw [onClient, h]

theorem onClient_stop (h : x s.client = .stop m) : onClient x s = .stop m := by
  rw [onClient, h]

end OnClient

section Open

variable {n : FdNum} {path : List Byte} {mode : U32} {old : Word}

theorem loadU32_ok {off : Nat} (hoff : off < BY2PG) (h : (s.client.pages (fdPage n)).isSome = true) :
    loadU32 (fdVa (BitVec.ofNat 32 n.val)) off s = .ret (s.field (fdVa (BitVec.ofNat 32 n.val)) off) s := by
  have hmapped : s.client.mapped (fdVa (BitVec.ofNat 32 n.val) + BitVec.ofNat 64 off) = true := by
    rw [Client.mapped, pageOf_fdVa_add n hoff]
    exact h
  unfold loadU32
  rw [Prog.bind_ret (onClient_ret (touchPage_ok hmapped))]
  rfl

/-- A load from a descriptor that has no page brings one of zeros, or stops. -/
theorem loadU32_unmapped {off : Nat} (hoff : off < BY2PG) (h : s.client.pages (fdPage n) = none) :
    (∃ m, loadU32 (fdVa (BitVec.ofNat 32 n.val)) off s = .stop m) ∨
    ∃ w s', loadU32 (fdVa (BitVec.ofNat 32 n.val)) off s = .ret w s' ∧
      (s'.client.pages (fdPage n)).isSome = true ∧
      ∀ o, o + 4 ≤ BY2PG → s'.field (fdVa (BitVec.ofNat 32 n.val)) o = 0 := by
  have haddr := fdVa_add_toNat n hoff
  have hunmapped : ¬ s.client.mapped (fdVa (BitVec.ofNat 32 n.val) + BitVec.ofNat 64 off) = true := by
    rw [Client.mapped, pageOf_fdVa_add n hoff, h]
    exact Bool.false_ne_true
  have hhigh : ¬ fdVa (BitVec.ofNat 32 n.val) + BitVec.ofNat 64 off < 4096 := by
    rw [BitVec.lt_def, haddr]
    show ¬ _ < 4096
    omega
  unfold loadU32
  cases hanswer : s.client.answer with
  | none =>
      refine Or.inl ⟨"page_out error: no free page", Prog.bind_stop (onClient_stop ?_)⟩
      unfold touchPage
      rw [Prog.bind_ret (Prog.get_apply s.client), if_neg hunmapped, if_neg hhigh,
        Prog.bind_ret (Prog.modify_apply _ s.client), hanswer]
      rfl
  | some frame =>
      have htouch : touchPage (fdVa (BitVec.ofNat 32 n.val) + BitVec.ofNat 64 off) s.client =
          .ret ⟨⟩ (s.client.asked.allocPage (fdPage n) ⟨frame, TABLE ||| VALID ||| PTE_USER⟩) := by
        unfold touchPage
        rw [Prog.bind_ret (Prog.get_apply s.client), if_neg hunmapped, if_neg hhigh,
          Prog.bind_ret (Prog.modify_apply _ s.client), hanswer, pageOf_fdVa_add n hoff]
        rfl
      refine Or.inr ⟨_, _, (Prog.bind_ret (onClient_ret htouch)).trans rfl, ?_, fun o ho => ?_⟩
      · show ((Client.allocPage _ _ _).pages _).isSome = true
        rw [Client.allocPage_pages, Client.setPage_self]
        rfl
      · have hzero : ByteMem.Same (fun _ => 0) (s.client.mem.zero (Client.start (fdPage n)) BY2PG)
            (fdVa (BitVec.ofNat 32 n.val) + BitVec.ofNat 64 o).toNat 4 := by
          intro x hlo hhi
          rw [fdVa_add_toNat n (by omega)] at hlo hhi
          rw [ByteMem.zero, Client.start, fdPage_val, BY2PG, if_pos (by rw [BY2PG] at ho; omega)]
        exact hzero.ld32.trans ByteMem.ld32_zero

/-- The blocks that `open` asks for have addresses of the process. -/
theorem blockVa_low (n : FdNum) (i : U32) :
    ¬ KERNBASE ≤ fd2data (fdVa (BitVec.ofNat 32 n.val)) + i.setWidth 64 := by
  have hn := n.isLt
  have hi := i.isLt
  rw [BitVec.le_def, fd2data_fdVa, BitVec.toNat_add, dataVa_toNat, BitVec.toNat_setWidth]
  show ¬ 0xffffff8000000000 ≤ (FILEBASE + n.val * PDMAP + i.toNat % 2 ^ 64) % 2 ^ 64
  unfold FILEBASE PDMAP
  omega

/-- The blocks that `open` maps behind the descriptor. -/
def openBlocks (turns : Nat) (fileid size : U32) (fd : Word) : FileM PUnit :=
  mapBlocks fileid (fun i => fd2data fd + i.setWidth 64) (fun i => decide (i < size)) turns 0

variable {turns : Nat}

theorem openFile_none (h : s.client.firstFree = none) : openFile turns path mode old s = .fail (-E_MAX_OPEN) s := by
  unfold openFile
  rw [Prog.bind_ret (onClient_ret (fdAlloc_none h))]
  dsimp only
  rw [if_pos (by decide)]
  rfl

theorem openFile_tooLong (hfree : s.client.firstFree = some n.val) (h : tooLong path = true) :
    openFile turns path mode old s = .fail (-E_BAD_PATH) s := by
  unfold openFile
  rw [Prog.bind_ret (onClient_ret (fdAlloc_ok hfree))]
  dsimp only
  rw [if_neg (by decide)]
  apply Prog.bind_fail
  unfold fsipcOpen
  rw [if_pos h]
  rfl

/-- The state behind the request. -/
def opened (s : FileClient) (n : FdNum) (path : List Byte) (mode : U32) : FileClient :=
  s.received (.open path mode) (fdVa (BitVec.ofNat 32 n.val))

theorem openFile_refused (hfree : s.client.firstFree = some n.val) (hlong : tooLong path = false)
    (h : s.reply.value.msb = true) :
    openFile turns path mode old s = .fail s.reply.value (opened s n path mode) := by
  unfold openFile
  rw [Prog.bind_ret (onClient_ret (fdAlloc_ok hfree))]
  dsimp only
  rw [if_neg (by decide)]
  apply Prog.bind_fail
  unfold fsipcOpen
  rw [hlong, if_neg Bool.false_ne_true, Prog.bind_ret (fsipc_apply (fdVa_user n)), if_pos h]
  rfl

/-- What follows a request that is granted. -/
theorem openFile_granted (hfree : s.client.firstFree = some n.val) (hlong : tooLong path = false)
    (h : s.reply.value.msb = false) :
    openFile turns path mode old s = (do
      let fileid ← loadU32 (fdVa (BitVec.ofNat 32 n.val)) 24
      let size ← loadU32 (fdVa (BitVec.ofNat 32 n.val)) 160
      openBlocks turns fileid size (fdVa (BitVec.ofNat 32 n.val))
      pure (fd2num (fdVa (BitVec.ofNat 32 n.val))) : FileM U32) (opened s n path mode) := by
  have hgranted : fsipcOpen path mode (fdVa (BitVec.ofNat 32 n.val)) s = .ret ⟨⟩ (opened s n path mode) := by
    unfold fsipcOpen
    rw [hlong, if_neg Bool.false_ne_true, Prog.bind_ret (fsipc_apply (fdVa_user n)), h,
      if_neg Bool.false_ne_true]
    rfl
  unfold openFile
  rw [Prog.bind_ret (onClient_ret (fdAlloc_ok hfree))]
  dsimp only
  rw [if_neg (by decide), Prog.bind_ret hgranted]
  rfl

theorem opened_page {p : SentPage} (h : s.reply.page = some p) :
    ((opened s n path mode).client.pages (fdPage n)).isSome = true := by
  have hpage : (s.client.receive (fdVa (BitVec.ofNat 32 n.val)) s.reply).pages _ = _ := receive_page h
  rw [pageOf_fdVa] at hpage
  show ((s.client.receive _ s.reply).pages _).isSome = true
  rw [hpage]
  rfl

/-- With a page for the descriptor, `open` goes on by what the page says. -/
theorem openFile_paged {p : SentPage} (hfree : s.client.firstFree = some n.val) (hlong : tooLong path = false)
    (h : s.reply.value.msb = false) (hpage : s.reply.page = some p) :
    openFile turns path mode old s =
      (openBlocks turns (p.bytes.ld32 24) (p.bytes.ld32 160) (fdVa (BitVec.ofNat 32 n.val)) >>= fun _ =>
        pure (fd2num (fdVa (BitVec.ofNat 32 n.val))) : FileM U32) (opened s n path mode) := by
  have hmapped : ((opened s n path mode).client.pages (fdPage n)).isSome = true := opened_page hpage
  have hid : (opened s n path mode).field (fdVa (BitVec.ofNat 32 n.val)) 24 = p.bytes.ld32 24 :=
    receive_ld32_sent hpage (by decide)
  have hsize : (opened s n path mode).field (fdVa (BitVec.ofNat 32 n.val)) 160 = p.bytes.ld32 160 :=
    receive_ld32_sent hpage (by decide)
  rw [openFile_granted hfree hlong h, Prog.bind_ret (loadU32_ok (by decide) hmapped),
    Prog.bind_ret (loadU32_ok (by decide) hmapped), hid, hsize]

/-- Without a page the file is empty, or the load stops the process. -/
theorem openFile_pageless (hfree : s.client.firstFree = some n.val) (hlong : tooLong path = false)
    (h : s.reply.value.msb = false) (hpage : s.reply.page = none) {e : U32} {s' : FileClient} :
    openFile turns path mode old s ≠ .fail e s' := by
  have hunmapped : (opened s n path mode).client.pages (fdPage n) = none := by
    have hfree' := (firstFree_spec hfree).2
    rw [mapped_fdVa] at hfree'
    show (s.client.receive _ s.reply).pages _ = none
    rw [receive_of_none hpage]
    exact Option.not_isSome_iff_eq_none.mp (by rw [hfree']; exact Bool.false_ne_true)
  rw [openFile_granted hfree hlong h]
  have hfirst := loadU32_unmapped (show 24 < BY2PG by decide) hunmapped
  rcases hfirst with ⟨m, hload⟩ | ⟨w, s₁, hload, hmapped, hzero⟩
  · rw [Prog.bind_stop hload]
    exact nofun
  · rw [Prog.bind_ret hload, Prog.bind_ret (loadU32_ok (by decide) hmapped), hzero 160 (by decide)]
    cases turns with
    | zero =>
        rw [Prog.bind_stop (show openBlocks 0 w 0 _ s₁ = .stop "no more turns" from rfl)]
        exact nofun
    | succ turns =>
        rw [Prog.bind_ret (show openBlocks (turns + 1) w 0 _ s₁ = .ret ⟨⟩ s₁ from rfl)]
        exact nofun

/-- A page that was not mapped, and is. -/
theorem not_clean (hfree : s.client.firstFree = some n.val) {e : U32} {s' : FileClient}
    (hrun : openFile turns path mode old s = .fail e s')
    (hpage : (s'.client.pages (fdPage n)).isSome = true) : ¬ OpenClean s path mode old := by
  intro hclean
  have hfree' := (firstFree_spec hfree).2
  rw [mapped_fdVa] at hfree'
  have hnone := hclean turns e s' hrun (fdPage n)
    (Option.not_isSome_iff_eq_none.mp (by rw [hfree']; exact Bool.false_ne_true))
  rw [hnone] at hpage
  cases hpage

/-- The request is refused. -/
theorem openClean_refused (hfree : s.client.firstFree = some n.val) (hlong : tooLong path = false)
    (hvalue : s.reply.value.msb = true) : OpenClean s path mode old ↔ s.reply.page = none := by
  constructor
  · intro hclean
    cases hpage : s.reply.page with
    | none => rfl
    | some p =>
        have hrun : openFile 0 path mode old s = _ := openFile_refused hfree hlong hvalue
        exact absurd hclean (not_clean hfree hrun (opened_page hpage))
  · intro hpage turns e s' hrun v hv
    rw [openFile_refused hfree hlong hvalue] at hrun
    cases hrun
    show (s.client.receive _ s.reply).pages v = none
    rw [receive_of_none hpage]
    exact hv

/-- The request is granted, and it is the blocks that decide. -/
theorem openClean_granted (hfree : s.client.firstFree = some n.val) (hlong : tooLong path = false)
    (hvalue : s.reply.value.msb = false) : OpenClean s path mode old ↔ ∀ p, s.reply.page = some p →
      NoneRefused s.replies (s.sent.length + 1) (fun i => decide (i < p.bytes.ld32 160)) 0 := by
  constructor
  · intro hclean p hpage k hk
    have hlow : ∀ i, decide (i < p.bytes.ld32 160) = true →
        ¬ KERNBASE ≤ fd2data (fdVa (BitVec.ofNat 32 n.val)) + i.setWidth 64 := fun i _ => blockVa_low n i
    have hk' : RefusedAt (opened s n path mode).replies (opened s n path mode).sent.length
        (fun i => decide (i < p.bytes.ld32 160)) 0 k := by
      rw [opened, received_replies, received_sent_length]
      exact hk
    obtain ⟨e, s', hblocks⟩ : ∃ e s', openBlocks (k + 1) (p.bytes.ld32 24) (p.bytes.ld32 160)
        (fdVa (BitVec.ofNat 32 n.val)) (opened s n path mode) = .fail e s' :=
      mapBlocks_refused hlow hk' (Nat.lt_succ_self k)
    have hrun : openFile (k + 1) path mode old s = _ := openFile_paged hfree hlong hvalue hpage
    rw [Prog.bind_fail hblocks] at hrun
    -- The page of the descriptor is there before the blocks are asked for.
    have hgrows := (grows_mapBlocks (k + 1) 0).fail hblocks
    exact not_clean hfree hrun (hgrows _ (opened_page hpage)) hclean
  · intro hfits turns e s' hrun
    cases hpage : s.reply.page with
    | none => exact absurd hrun (openFile_pageless hfree hlong hvalue hpage)
    | some p =>
        rw [openFile_paged hfree hlong hvalue hpage] at hrun
        rcases Prog.bind_eq_fail.mp hrun with hblocks | ⟨_, _, _, hret⟩
        · obtain ⟨k, hk⟩ := refused_of_fail hblocks
          rw [opened, received_replies, received_sent_length] at hk
          exact absurd hk (hfits p hpage k)
        · cases hret

theorem openClean_iff (s : FileClient) (path : List Byte) (mode : U32) (old : Word) :
    OpenClean s path mode old ↔ OpenFits s path := by
  cases hfirst : s.client.firstFree with
  | none =>
      refine ⟨fun _ => Or.inl hfirst, fun _ turns e s' hrun v hv => ?_⟩
      rw [openFile_none hfirst] at hrun
      cases hrun
      exact hv
  | some i =>
      have hlt := (firstFree_spec hfirst).1
      rw [MAXFD] at hlt
      obtain ⟨n, rfl⟩ : ∃ n : FdNum, n.val = i := ⟨⟨i, by omega⟩, rfl⟩
      cases hlong : tooLong path with
      | true =>
          refine ⟨fun _ => Or.inr (Or.inl hlong), fun _ turns e s' hrun v hv => ?_⟩
          rw [openFile_tooLong hfirst hlong] at hrun
          cases hrun
          exact hv
      | false =>
          have hno : ¬ s.client.firstFree = none := by rw [hfirst]; exact Option.some_ne_none n.val
          have hshort : ¬ tooLong path = true := by rw [hlong]; exact Bool.false_ne_true
          rw [OpenFits, or_iff_right hno, or_iff_right hshort]
          cases hvalue : s.reply.value.msb with
          | true =>
              rw [openClean_refused hfirst hlong hvalue]
              simp
          | false =>
              rw [openClean_granted hfirst hlong hvalue]
              simp

end Open

/-! ## `ftruncate` -/

section Truncate

variable {n : FdNum} {size : U32} {turns : Nat}

theorem toNat_roundPage (size : U32) : (roundPage size).toNat = (size.toNat + 4095) / 4096 * 4096 := by
  have hlt := size.isLt
  rw [roundPage, toNat_roundWord (k := 12) (by decide), BitVec.toNat_add, BitVec.toNat_setWidth]
  show (size.toNat % 2 ^ 64 + 4095) % 2 ^ 64 / 2 ^ 12 * 2 ^ 12 = _
  omega

/-- The address of a block that is in the size of a file. -/
theorem blockVa_toNat (n : FdNum) (hsize : size.toNat ≤ MAXFILESIZE) (h : intLt i (roundPage size) = true) :
    i.toNat < MAXFILESIZE ∧ (fd2data (fdVa (BitVec.ofNat 32 n.val)) + intWord i).toNat = INDEX2DATA n + i.toNat := by
  have hn := n.isLt
  have hround := toNat_roundPage size
  have hword := toNat_intWord i
  have hi : (intWord i).toNat < (roundPage size).toNat := by
    rw [intLt, BitVec.ult] at h
    exact of_decide_eq_true h
  rw [MAXFILESIZE] at hsize
  have hlt : i.toNat < 2 ^ 31 := by
    by_contra hbig
    rw [if_neg hbig] at hword
    omega
  rw [if_pos hlt] at hword
  refine ⟨by rw [MAXFILESIZE]; omega, ?_⟩
  rw [fd2data_fdVa, BitVec.toNat_add, dataVa_toNat, hword]
  unfold INDEX2DATA FILEBASE PDMAP
  omega

theorem blockVa_user (n : FdNum) (hsize : size.toNat ≤ MAXFILESIZE) (h : intLt i (roundPage size) = true) :
    ¬ KERNBASE ≤ fd2data (fdVa (BitVec.ofNat 32 n.val)) + intWord i := by
  obtain ⟨hi, hva⟩ := blockVa_toNat n hsize h
  have hn := n.isLt
  rw [BitVec.le_def, hva]
  show ¬ 0xffffff8000000000 ≤ FILEBASE + n.val * PDMAP + i.toNat
  rw [MAXFILESIZE] at hi
  unfold FILEBASE PDMAP
  omega

/-- The blocks of one file are no descriptors. -/
theorem fdPage_ne_block (m n : FdNum) (hsize : size.toNat ≤ MAXFILESIZE) (h : intLt i (roundPage size) = true) :
    fdPage m ≠ pageOf (fd2data (fdVa (BitVec.ofNat 32 n.val)) + intWord i) := by
  obtain ⟨hi, hva⟩ := blockVa_toNat n hsize h
  have hm := m.isLt
  have hn := n.isLt
  intro heq
  have hval := congrArg Fin.val heq
  rw [fdPage_val] at hval
  have hpage : (pageOf (fd2data (fdVa (BitVec.ofNat 32 n.val)) + intWord i)).val =
      (INDEX2DATA n + i.toNat) / BY2PG % 2 ^ 27 := by
    show _ / BY2PG % 2 ^ 27 = _
    rw [hva]
  rw [hpage] at hval
  rw [MAXFILESIZE] at hi
  unfold INDEX2DATA FILEBASE PDMAP BY2PG at hval
  omega

theorem fdPage_ne_zero (n : FdNum) : fdPage n ≠ pageOf 0 := by
  intro heq
  have hval := congrArg Fin.val heq
  rw [fdPage_val] at hval
  have h0 : (pageOf 0).val = 0 := rfl
  omega

theorem dataPage_ne_zero (n : FdNum) {k : Nat} (hk : k < NDATA) : dataPage n k ≠ pageOf 0 := by
  intro heq
  have hval := congrArg Fin.val heq
  rw [dataPage_val n hk] at hval
  have h0 : (pageOf 0).val = 0 := rfl
  omega

/-- `f_size` of the descriptor is as before. -/
def SizeKept (n : FdNum) (s s' : FileClient) : Prop := s'.fSize n = s.fSize n

theorem sizeKept_received {req : FileReq} {dstva : Word} (h : fdPage n ≠ pageOf dstva) (s : FileClient) :
    SizeKept n s (s.received req dstva) := receive_ld32 h (by decide)

theorem sizeKept_mapBlocks (m : FdNum) (hsize : size.toNat ≤ MAXFILESIZE) (turns : Nat) (i : U32) :
    Prog.Moves (SizeKept n) (mapBlocks fileid (fun i => fd2data (fdVa (BitVec.ofNat 32 m.val)) + intWord i)
      (fun i => intLt i (roundPage size)) turns i) := by
  have hrefl : ∀ s, SizeKept n s s := fun _ => rfl
  have htrans : ∀ s s' s'', SizeKept n s s' → SizeKept n s' s'' → SizeKept n s s'' := fun _ _ _ h h' => h'.trans h
  apply moves_forBlocks hrefl htrans
  intro i hi
  exact moves_fsipcMap hrefl htrans fun s req => sizeKept_received (fdPage_ne_block n m hsize hi) s

/-- Behind the store of the size. -/
def resized (s : FileClient) (n : FdNum) (size : U32) : FileClient :=
  { s with client :=
      { s.client with mem := s.client.mem.st32 (fdVa (BitVec.ofNat 32 n.val) + 160).toNat size } }

theorem resized_fSize (s : FileClient) (n : FdNum) (size : U32) : (resized s n size).fSize n = size :=
  ByteMem.ld32_st32 size

/-- To store the size that there is changes nothing. -/
theorem resized_self (s : FileClient) (n : FdNum) : resized s n (s.fSize n) = s := by
  have hmem : s.client.mem.st32 (fdVa (BitVec.ofNat 32 n.val) + 160).toNat (s.fSize n) = s.client.mem :=
    ByteMem.st32_ld32
  rw [resized, hmem]

theorem storeSize_ok (h : (s.client.pages (fdPage n)).isSome = true) :
    onClient (storeU32 (fdVa (BitVec.ofNat 32 n.val) + 160) size) s = .ret ⟨⟩ (resized s n size) := by
  have hat : ∀ k, k < BY2PG → s.client.mapped (fdVa (BitVec.ofNat 32 n.val) + BitVec.ofNat 64 k) = true := by
    intro k hk
    rw [Client.mapped, pageOf_fdVa_add n hk]
    exact h
  have hlast := hat 163 (by decide)
  have hsum : fdVa (BitVec.ofNat 32 n.val) + 160 + 3 = fdVa (BitVec.ofNat 32 n.val) + BitVec.ofNat 64 163 := by
    rw [BitVec.add_assoc]
    rfl
  rw [← hsum] at hlast
  exact onClient_ret (storeU32_ok (hat 160 (by decide)) hlast)

/-- What follows when the size has been stored. -/
def setSize (turns : Nat) (n : FdNum) (fileid oldsize size : U32) : FileM PUnit := do
  fsipcSetSize fileid size
  let va := fd2data (fdVa (BitVec.ofNat 32 n.val))
  let r ← Prog.attempt
    (mapBlocks fileid (fun i => va + intWord i) (fun i => intLt i (roundPage size)) turns
      ((roundPage oldsize).setWidth 32))
  match r with
  | .error r => do
      let _ ← Prog.attempt (fsipcSetSize fileid oldsize)
      Prog.throw r
  | .ok _ => unmapBlocks va (fun i => intLt i (roundPage oldsize)) turns ((roundPage size).setWidth 32)

/-- A request is made. -/
structure Asks (s : FileClient) (n : FdNum) (size : U32) : Prop where
  size_le : size.toNat ≤ MAXFILESIZE
  mapped : (s.client.pages (fdPage n)).isSome = true
  dev : s.field (fdVa (BitVec.ofNat 32 n.val)) 0 = DEV_FILE

theorem ftruncate_asks (h : Asks s n size) : ftruncate turns (BitVec.ofNat 32 n.val) size s =
    setSize turns n (s.field (fdVa (BitVec.ofNat 32 n.val)) 24) (s.fSize n) size (resized s n size) := by
  unfold ftruncate
  rw [if_neg (Nat.not_lt.mpr h.size_le), Prog.bind_ret (Prog.get_apply s), fdLookup_ok n h.mapped]
  dsimp only
  rw [if_neg (by rw [h.dev]; exact fun hne => hne rfl), Prog.bind_ret (storeSize_ok h.mapped)]
  rfl

/-- Else `ftruncate` fails before it has done anything. -/
theorem ftruncate_early (h : ¬ Asks s n size) : ∃ e, ftruncate turns (BitVec.ofNat 32 n.val) size s = .fail e s := by
  unfold ftruncate
  by_cases hsize : MAXFILESIZE < size.toNat
  · rw [if_pos hsize]
    exact ⟨_, rfl⟩
  rw [if_neg hsize, Prog.bind_ret (Prog.get_apply s)]
  cases hfd : s.client.pages (fdPage n) with
  | none =>
      rw [fdLookup_none n hfd]
      exact ⟨_, rfl⟩
  | some pte =>
      have hmapped : (s.client.pages (fdPage n)).isSome = true := by rw [hfd]; rfl
      rw [fdLookup_ok n hmapped]
      dsimp only
      by_cases hdev : s.field (fdVa (BitVec.ofNat 32 n.val)) 0 = DEV_FILE
      · exact absurd ⟨Nat.not_lt.mp hsize, hmapped, hdev⟩ h
      · rw [if_pos hdev]
        exact ⟨_, rfl⟩

/-- The loop that maps the blocks beyond the old size. -/
def growBlocks (turns : Nat) (n : FdNum) (fileid oldsize size : U32) : FileM PUnit :=
  mapBlocks fileid (fun i => fd2data (fdVa (BitVec.ofNat 32 n.val)) + intWord i)
    (fun i => intLt i (roundPage size)) turns ((roundPage oldsize).setWidth 32)

variable {oldsize : U32} {s₁ : FileClient}

theorem setSize_refused (h : s.reply.value.msb = true) :
    setSize turns n fileid oldsize size s = .fail s.reply.value (s.received (.set_size fileid size) 0) := by
  unfold setSize
  apply Prog.bind_fail
  rw [fsipcSetSize_apply, if_pos h]

theorem setSize_granted (h : s.reply.value.msb = false) :
    fsipcSetSize fileid size s = .ret ⟨⟩ (s.received (.set_size fileid size) 0) := by
  rw [fsipcSetSize_apply, h, if_neg Bool.false_ne_true]

/-- The result of the request that takes the size back is ignored. -/
theorem takeBack_apply (s : FileClient) : ∃ r, Prog.attempt (fsipcSetSize fileid oldsize) s =
    .ret r (s.received (.set_size fileid oldsize) 0) := by
  have happly : fsipcSetSize fileid oldsize s = _ := fsipcSetSize_apply
  split at happly
  · exact ⟨_, Prog.attempt_fail happly⟩
  · exact ⟨_, Prog.attempt_ret happly⟩

theorem setSize_fails (h : s.reply.value.msb = false)
    (hblocks : growBlocks turns n fileid oldsize size (s.received (.set_size fileid size) 0) = .fail e s₁) :
    setSize turns n fileid oldsize size s = .fail e (s₁.received (.set_size fileid oldsize) 0) := by
  obtain ⟨r, hback⟩ : ∃ r, Prog.attempt (fsipcSetSize fileid oldsize) s₁ =
      .ret r (s₁.received (.set_size fileid oldsize) 0) := takeBack_apply s₁
  unfold setSize
  rw [Prog.bind_ret (setSize_granted h)]
  refine (Prog.bind_ret (Prog.attempt_fail hblocks)).trans ?_
  dsimp only
  rw [Prog.bind_ret hback]
  rfl

/-- Nothing fails in the loop that unmaps: it stops. -/
theorem unmapBlocks_yields (va : Word) (turns : Nat) (i : U32) :
    Prog.Yields (fun _ => True) (fun _ => False) (unmapBlocks va more turns i) := by
  unfold unmapBlocks
  induction turns generalizing i with
  | zero => exact Prog.yields_stop _
  | succ turns ih =>
      cases hmore : more i with
      | false =>
          rw [forBlocks_done hmore]
          exact Prog.yields_pure trivial
      | true =>
          rw [forBlocks_more hmore]
          refine Prog.Yields.bind (P := fun _ => True) ?_ fun _ _ => ih (i + 4096)
          refine Prog.Yields.bind (P := fun _ => True) (Prog.yields_of_never fun s e s' => ?_) fun r _ =>
            (Prog.yields_stop _).ite (Prog.yields_pure trivial)
          obtain ⟨r, c, hunmap⟩ := memUnmap_ret (va + intWord i) s.client
          rw [onClient_ret hunmap]
          exact nofun

theorem setSize_succeeds (h : s.reply.value.msb = false)
    (hblocks : ∀ e s₁, growBlocks turns n fileid oldsize size (s.received (.set_size fileid size) 0) ≠ .fail e s₁) :
    setSize turns n fileid oldsize size s ≠ .fail e s' := by
  unfold setSize
  rw [Prog.bind_ret (setSize_granted h)]
  cases hrun : growBlocks turns n fileid oldsize size (s.received (.set_size fileid size) 0) with
  | fail e s₁ => exact absurd hrun (hblocks e s₁)
  | stop m =>
      have hstop : Prog.attempt (growBlocks turns n fileid oldsize size) (s.received (.set_size fileid size) 0) =
          .stop m := by
        rw [Prog.attempt, hrun]
      intro hfail
      cases (Prog.bind_stop hstop).symm.trans hfail
  | ret a s₁ =>
      intro hfail
      have hunmap := (Prog.bind_ret (Prog.attempt_ret hrun)).symm.trans hfail
      exact ((unmapBlocks_yields _ turns _) s₁).2 _ _ hunmap

/-- The blocks that are asked for are those of the loop. -/
theorem growBlocks_fails_iff (hsize : size.toNat ≤ MAXFILESIZE) :
    (∃ turns e s₁, growBlocks turns n fileid oldsize size s = .fail e s₁) ↔
      ¬ NoneRefused s.replies s.sent.length (fun i => intLt i (roundPage size))
          ((roundPage oldsize).setWidth 32) := by
  rw [NoneRefused, not_forall_not]
  constructor
  · rintro ⟨turns, e, s₁, hrun⟩
    exact refused_of_fail hrun
  · rintro ⟨k, hk⟩
    obtain ⟨e, s₁, hrun⟩ : ∃ e s₁, growBlocks (k + 1) n fileid oldsize size s = .fail e s₁ :=
      mapBlocks_refused (fun i hi => blockVa_user n hsize hi) hk (Nat.lt_succ_self k)
    exact ⟨k + 1, e, s₁, hrun⟩

/-- A loop that asks for a block is for a larger size. -/
theorem ne_of_refused (hsize : size.toNat ≤ MAXFILESIZE) (h : ¬ NoneRefused s.replies b
    (fun i => intLt i (roundPage size)) ((roundPage oldsize).setWidth 32)) : size ≠ oldsize := by
  rw [NoneRefused, not_forall_not] at h
  obtain ⟨k, hk⟩ := h
  rintro rfl
  have hfirst := intLt_iff.mp hk.first
  have hround := toNat_roundPage size
  have hword := toNat_intWord ((roundPage size).setWidth 32)
  rw [BitVec.toNat_setWidth] at hword
  rw [MAXFILESIZE] at hsize
  split at hword <;> omega

/-- The size that has been stored stays, whatever is refused. -/
theorem ftruncate_keeps_new (hasks : Asks s n size)
    (hfail : ftruncate turns (BitVec.ofNat 32 n.val) size s = .fail e s') :
    s'.fSize n = size := by
  rw [ftruncate_asks hasks] at hfail
  cases hvalue : (resized s n size).reply.value.msb with
  | true =>
      rw [setSize_refused hvalue] at hfail
      cases hfail
      exact (sizeKept_received (fdPage_ne_zero n) _).trans (resized_fSize s n size)
  | false =>
      by_cases hblocks : ∀ e s₁, growBlocks turns n (s.field (fdVa (BitVec.ofNat 32 n.val)) 24) (s.fSize n) size
          ((resized s n size).received (.set_size (s.field (fdVa (BitVec.ofNat 32 n.val)) 24) size) 0) ≠ .fail e s₁
      · exact absurd hfail (setSize_succeeds hvalue hblocks)
      · push Not at hblocks
        obtain ⟨e₁, s₁, hrun⟩ := hblocks
        rw [setSize_fails hvalue hrun] at hfail
        cases hfail
        have hloop : SizeKept n _ s₁ := (sizeKept_mapBlocks n hasks.size_le turns _).fail hrun
        exact (sizeKept_received (fdPage_ne_zero n) s₁).trans
          (hloop.trans ((sizeKept_received (fdPage_ne_zero n) _).trans (resized_fSize s n size)))

/-- When `ftruncate` fails after it has made a request. -/
theorem ftruncate_fails_iff (hasks : Asks s n size) :
    (∃ turns e s', ftruncate turns (BitVec.ofNat 32 n.val) size s = .fail e s') ↔
      (s.reply.value.msb = false → ¬ NoneRefused s.replies (s.sent.length + 1)
        (fun i => intLt i (roundPage size)) ((roundPage (s.fSize n)).setWidth 32)) := by
  have hgrow : (∃ turns e s₁, growBlocks turns n (s.field (fdVa (BitVec.ofNat 32 n.val)) 24) (s.fSize n) size
      ((resized s n size).received (.set_size (s.field (fdVa (BitVec.ofNat 32 n.val)) 24) size) 0) =
          .fail e s₁) ↔ _ :=
    growBlocks_fails_iff hasks.size_le
  rw [received_sent_length] at hgrow
  constructor
  · rintro ⟨turns, e, s', hfail⟩ hvalue
    rw [ftruncate_asks hasks] at hfail
    refine hgrow.mp ?_
    by_contra hno
    push Not at hno
    have hvalue' : (resized s n size).reply.value.msb = false := hvalue
    exact setSize_succeeds hvalue' (fun e s₁ => hno turns e s₁) hfail
  · intro h
    cases hvalue : (resized s n size).reply.value.msb with
    | true =>
        exact ⟨0, _, _, (ftruncate_asks hasks).trans (setSize_refused hvalue)⟩
    | false =>
        obtain ⟨turns, e, s₁, hrun⟩ := hgrow.mpr (h hvalue)
        exact ⟨turns, _, _, (ftruncate_asks hasks).trans (setSize_fails hvalue hrun)⟩

/-- `ftruncate` is clean if and only if it fits. -/
theorem ftruncateClean_iff (s : FileClient) (n : FdNum) (size : U32) :
    FtruncateClean s n size ↔ TruncFits s n size := by
  by_cases hasks : Asks s n size
  · have hlarge : ¬ MAXFILESIZE < size.toNat := Nat.not_lt.mpr hasks.size_le
    have hmapped : ¬ s.client.pages (fdPage n) = none := by
      intro hnone
      have hpage := hasks.mapped
      rw [hnone] at hpage
      cases hpage
    have hdev : ¬ s.field (fdVa (BitVec.ofNat 32 n.val)) 0 ≠ DEV_FILE := fun h => h hasks.dev
    rw [TruncFits, or_iff_right hlarge, or_iff_right hmapped, or_iff_right hdev]
    constructor
    · intro hclean
      -- A failure leaves the new size, so it is for the size that the file has.
      have hsame : ∀ turns e s', ftruncate turns (BitVec.ofNat 32 n.val) size s = .fail e s' → size = s.fSize n :=
        fun turns e s' hfail => (ftruncate_keeps_new hasks hfail).symm.trans (hclean turns e s' hfail).1
      cases hvalue : s.reply.value.msb with
      | true =>
          obtain ⟨turns, e, s', hfail⟩ := (ftruncate_fails_iff hasks).mpr fun h => by rw [hvalue] at h; cases h
          exact Or.inl ⟨rfl, hsame turns e s' hfail⟩
      | false =>
          refine Or.inr ⟨rfl, ?_⟩
          by_contra hrefused
          obtain ⟨turns, e, s', hfail⟩ := (ftruncate_fails_iff hasks).mpr fun _ => hrefused
          exact ne_of_refused hasks.size_le hrefused (hsame turns e s' hfail)
    · rintro (⟨hvalue, rfl⟩ | ⟨hvalue, hnone⟩) turns e s' hfail
      · rw [ftruncate_asks hasks, resized_self, setSize_refused hvalue] at hfail
        cases hfail
        refine ⟨sizeKept_received (fdPage_ne_zero n) s, fun k hk => ?_⟩
        exact congrArg Option.isSome (receive_pages_of_ne (dataPage_ne_zero n hk))
      · exact absurd hnone ((ftruncate_fails_iff hasks).mp ⟨turns, e, s', hfail⟩ hvalue)
  · refine ⟨fun _ => ?_, fun _ turns e s' hfail => ?_⟩
    · by_contra hfits
      rw [TruncFits] at hfits
      push Not at hfits
      refine hasks ⟨hfits.1, ?_, hfits.2.2.1⟩
      exact Option.isSome_iff_ne_none.mpr hfits.2.1
    · obtain ⟨e₁, hearly⟩ : ∃ e₁, ftruncate turns (BitVec.ofNat 32 n.val) size s = .fail e₁ s := ftruncate_early hasks
      rw [hearly] at hfail
      cases hfail
      exact ⟨rfl, fun _ _ => rfl⟩

/-- When `open` and `ftruncate` leave the process as it was, if they fail: only when
    no request behind the first is refused, and the first for no other size. -/
theorem failures_clean_iff (s : FileClient) :
    (∀ path mode old, OpenClean s path mode old ↔ OpenFits s path) ∧
    ∀ n size, FtruncateClean s n size ↔ TruncFits s n size :=
  ⟨openClean_iff s, ftruncateClean_iff s⟩

end Truncate

/-- A process without pages; a file of one byte is opened, and its block refused. -/
def oneByteFile : FileClient where
  client := ⟨fun _ => none, fun _ => 0, fun _ => none, 0⟩
  replies
    | 0 => ⟨0, VALID ||| PTE_RW ||| PTE_LIBRARY ||| PTE_USER, some ⟨7, fun a => if a = 160 then 1 else 0⟩⟩
    | _ + 1 => ⟨-E_INVAL, 0, none⟩
  sent := []
  copies := []

/-- A process with an empty file open, from a server that refuses everything. -/
def emptyFile : FileClient where
  client := ⟨fun v => if v = fdPage 0 then some ⟨7, VALID⟩ else none, fun a => if a = 0x70000000 then 102 else 0,
    fun _ => none, 0⟩
  replies := fun _ => ⟨-E_INVAL, 0, none⟩
  sent := []
  copies := []

/-- The descriptor stays mapped when `open` fails, and the new size in it when
    `ftruncate` does. -/
theorem failures_leave_traces : ¬ OpenClean oneByteFile [47, 97] 0 0 ∧ ¬ FtruncateClean emptyFile 0 1 := by
  constructor
  · rw [openClean_iff]
    have hblock : RefusedAt oneByteFile.replies 1 (fun i => decide (i < 1)) 0 0 :=
      refusedAt_zero.mpr ⟨by decide, by decide⟩
    have hsize : ByteMem.ld32 (fun a => if a = 160 then 1 else 0) 160 = 1 := by decide
    rintro (hfree | hlong | ⟨hvalue, -⟩ | ⟨-, hnone⟩)
    · exact nomatch (show oneByteFile.client.firstFree = some 0 from rfl).symm.trans hfree
    · exact absurd hlong (by decide)
    · exact absurd hvalue (by decide)
    · have hrefused := hnone ⟨7, fun a => if a = 160 then 1 else 0⟩ rfl 0
      rw [hsize] at hrefused
      exact hrefused hblock
  · rw [ftruncateClean_iff]
    have haddr : ∀ k, k < BY2PG →
        (fdVa (BitVec.ofNat 32 (0 : FdNum).val) + BitVec.ofNat 64 k).toNat = 0x70000000 + k :=
      fun k hk => fdVa_add_toNat 0 hk
    rintro (hlarge | hnone | hdev | ⟨-, hsize⟩ | ⟨hvalue, -⟩)
    · exact absurd hlarge (by decide)
    · have hpage : emptyFile.client.pages (fdPage 0) = some ⟨7, VALID⟩ := by
        show (if fdPage 0 = fdPage 0 then some ⟨7, VALID⟩ else none) = some (UserPte.mk 7 VALID)
        rw [if_pos rfl]
      exact nomatch hpage.symm.trans hnone
    · apply hdev
      rw [FileClient.field, haddr 0 (by decide)]
      decide
    · rw [FileClient.fSize, FileClient.field, haddr 160 (by decide)] at hsize
      exact absurd hsize (by decide)
    · exact absurd hvalue (by decide)

end FileIo

end RpiMos
