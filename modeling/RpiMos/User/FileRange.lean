/-
  RpiMos.User.FileRange

  `read`, `write` and `seek` of user/fd.c on a file, with `file_read` and
  `file_write` of user/file.c: which bytes of the file they copy.  The offset has 64
  bits in the descriptor and 32 in the two functions.
-/

import RpiMos.User.FileFd
import RpiMos.User.PipeCounts
import RpiMos.Kernel.TrapFrame

namespace RpiMos

open Lib

/-- `user_bcopy(src, dst, len)`: words only between aligned addresses. -/
def userBcopy (m : ByteMem) (src dst n : Nat) : ByteMem :=
  if src % 4 = 0 ∧ dst % 4 = 0 then bcopy m src dst n else bcopyBytes m src dst n

namespace FileClient

/-- `fd->fd_offset`. -/
def fdOffset (s : FileClient) (n : FdNum) : Word := s.client.mem.ld64 (fdVa (BitVec.ofNat 32 n.val) + 8).toNat

def setMem (s : FileClient) (m : ByteMem) : FileClient := { s with client := { s.client with mem := m } }

/-- A copy is made, and noted. -/
def copied (s : FileClient) (c : Copy) : FileClient :=
  { s.setMem (userBcopy s.client.mem c.src.toNat c.dst.toNat c.len.toNat) with copies := s.copies ++ [c] }

/-- `if (r > 0) fd->fd_offset += r;`. -/
def advance (s : FileClient) (fd : Word) (r : U32) : FileClient :=
  s.setMem (s.client.mem.st64 (fd + 8).toNat (newOffset (s.client.mem.ld64 (fd + 8).toNat) r))

end FileClient

namespace FileIo

/-! ## user/file.c -/

/-- `file_read(fd, buf, n, offset)`. -/
def fileRead (fd buf : Word) (n offset : U32) : FileM U32 := do
  let s ← Prog.get
  let size := s.field fd 160
  if size < offset then pure 0
  else
    let n := if size < offset + n then size - offset else n
    Prog.modify fun s => s.copied ⟨fd2data fd + offset.setWidth 64, buf, n.setWidth 64⟩
    pure n

/-- `file_write(fd, buf, n, offset)`. -/
def fileWrite (turns : Nat) (fd buf : Word) (n offset : U32) : FileM U32 := do
  let tot := offset + n
  if MAXFILESIZE < tot.toNat then Prog.throw (-E_NO_DISK)
  else
    let s ← Prog.get
    if s.field fd 160 < tot then ftruncate turns (fd2num fd) tot
    Prog.modify fun s => s.copied ⟨buf, fd2data fd + offset.setWidth 64, n.setWidth 64⟩
    pure n

/-! ## user/fd.c -/

/-- The descriptor of a call, when it is that of a file; `other` is what the call does
    for another device. -/
def withFile (other : FileM U32) (fdnum : U32) (body : Word → FileM U32) : FileM U32 := do
  let s ← Prog.get
  match s.client.fdLookup fdnum with
  | .error r => Prog.throw r
  | .ok fd => if s.field fd 0 = DEV_FILE then body fd else other

/-- `read(fdnum, buf, n)`. -/
def read (other : FileM U32) (fdnum : U32) (buf n : Word) : FileM U32 :=
  withFile other fdnum fun fd => do
    let s ← Prog.get
    if s.field fd 16 &&& O_ACCMODE = O_WRONLY then Prog.throw (-E_INVAL)
    else
      let r ← fileRead fd buf (n.setWidth 32) ((s.client.mem.ld64 (fd + 8).toNat).setWidth 32)
      Prog.modify fun s => s.advance fd r
      Prog.modify fun s => s.setMem (s.client.mem.st8 (buf + intWord r).toNat 0)
      pure r

/-- `write(fdnum, buf, n)`. -/
def write (other : FileM U32) (turns : Nat) (fdnum : U32) (buf n : Word) : FileM U32 :=
  withFile other fdnum fun fd => do
    let s ← Prog.get
    if s.field fd 16 &&& O_ACCMODE = O_RDONLY then Prog.throw (-E_INVAL)
    else
      let r ← fileWrite turns fd buf (n.setWidth 32) ((s.client.mem.ld64 (fd + 8).toNat).setWidth 32)
      Prog.modify fun s => s.advance fd r
      pure r

/-- `seek(fdnum, offset)`. -/
def seek (fdnum : U32) (offset : Word) : FileM U32 := do
  let s ← Prog.get
  match s.client.fdLookup fdnum with
  | .error r => Prog.throw r
  | .ok fd =>
      Prog.modify fun s => s.setMem (s.client.mem.st64 (fd + 8).toNat offset)
      pure 0

/-! ## What is asked of them -/

/-- A descriptor of a file. -/
structure FileOpen (s : FileClient) (n : FdNum) : Prop where
  mapped : (s.client.pages (fdPage n)).isSome = true
  dev : s.field (fdVa (BitVec.ofNat 32 n.val)) 0 = DEV_FILE
  size_le : (s.fSize n).toNat ≤ MAXFILESIZE

/-- The two bits that say what the file is open for. -/
def accMode (s : FileClient) (n : FdNum) : U32 := s.field (fdVa (BitVec.ofNat 32 n.val)) 16 &&& O_ACCMODE

/-- Byte `offset` of the file. -/
def fileVa (n : FdNum) (offset : Word) : Word := dataVa (BitVec.ofNat 32 n.val) + offset

/-- `count` bytes are copied from `src` to `dst`, and nothing else. -/
def Copies (s s' : FileClient) (src dst : Word) (count : Nat) : Prop :=
  ∃ cs, s'.copies = s.copies ++ cs ∧
    (cs = [⟨src, dst, BitVec.ofNat 64 count⟩] ∨ (count = 0 ∧ ∀ c ∈ cs, c.len = 0))

/-- `max(0, min(n, f_size - fd_offset))`. -/
def readCount (s : FileClient) (n : FdNum) (len : Word) : Nat :=
  min len.toNat ((s.fSize n).toNat - (s.fdOffset n).toNat)

/-- `read` copies the bytes that there are from the offset on, at most `len`, and
    returns their number. -/
def ReadRight (other : FileM U32) (s : FileClient) (n : FdNum) (buf len : Word) : Prop :=
  ∃ r s', read other (BitVec.ofNat 32 n.val) buf len s = .ret r s' ∧ r.toNat = readCount s n len ∧
    Copies s s' (fileVa n (s.fdOffset n)) buf (readCount s n len)

/-- `write` fails and copies nothing, or it copies `len` bytes to the offset, within
    the largest size, and they are in the size of the file.  A file has no more than
    1024 blocks. -/
def WriteRight (other : FileM U32) (s : FileClient) (n : FdNum) (buf len : Word) : Prop :=
  ∀ turns, 1024 < turns →
    (∃ e s', write other turns (BitVec.ofNat 32 n.val) buf len s = .fail e s' ∧ s'.copies = s.copies) ∨
    (∃ s', write other turns (BitVec.ofNat 32 n.val) buf len s = .ret (len.setWidth 32) s' ∧
      (s.fdOffset n).toNat + len.toNat ≤ MAXFILESIZE ∧
      Copies s s' buf (fileVa n (s.fdOffset n)) len.toNat ∧
      (s.fdOffset n).toNat + len.toNat ≤ (s'.fSize n).toNat)

/-- The server grants whatever it is asked. -/
def Granted (s : FileClient) : Prop :=
  ∀ k, (s.replies k).value.msb = false ∧ (s.replies k).expected = true

/-- So it does when `write` asks for a larger size. -/
def GrantsSize (s : FileClient) (n : FdNum) (len : Word) : Prop :=
  (s.fSize n).toNat < ((s.fdOffset n).toNat + len.toNat) % 2 ^ 32 → Granted s

/-- The offset has 32 bits, or what is left of it is behind the file, or nothing is read. -/
def ReadFits (s : FileClient) (n : FdNum) (len : Word) : Prop :=
  (s.fdOffset n).toNat < 2 ^ 32 ∨ (s.fSize n).toNat ≤ (s.fdOffset n).toNat % 2 ^ 32 ∨ len = 0

/-- The file is not open for writing, or the sum has 32 bits, or what is left of it
    is more than a file may have. -/
def WriteFits (s : FileClient) (n : FdNum) (len : Word) : Prop :=
  accMode s n = O_RDONLY ∨ (s.fdOffset n).toNat + len.toNat < 2 ^ 32 ∨
  MAXFILESIZE < ((s.fdOffset n).toNat + len.toNat) % 2 ^ 32

variable {s s' : FileClient} {n : FdNum} {other : FileM U32} {buf len offset : Word} {size : U32} {turns : Nat}

/-! ## `read` -/

theorem withFile_ok (h : FileOpen s n) (body : Word → FileM U32) :
    withFile other (BitVec.ofNat 32 n.val) body s = body (fdVa (BitVec.ofNat 32 n.val)) s := by
  unfold withFile
  rw [Prog.bind_ret (Prog.get_apply s), fdLookup_ok n h.mapped]
  dsimp only
  rw [if_pos h.dev]

/-- What `file_read` returns. -/
def readResult (size n offset : U32) : U32 :=
  if size < offset then 0 else if size < offset + n then size - offset else n

theorem toNat_readResult {size n offset : U32} (hsize : size.toNat ≤ MAXFILESIZE) (hn : n.toNat < 2 ^ 31) :
    (readResult size n offset).toNat = min n.toNat (size.toNat - offset.toNat) := by
  rw [MAXFILESIZE] at hsize
  unfold readResult
  split
  · rename_i hlt
    rw [BitVec.lt_def] at hlt
    show 0 = _
    omega
  rename_i hle
  rw [BitVec.lt_def, Nat.not_lt] at hle
  have hsum : (offset + n).toNat = offset.toNat + n.toNat := by
    rw [BitVec.toNat_add]
    omega
  split
  · rename_i hlt
    rw [BitVec.lt_def, hsum] at hlt
    rw [BitVec.toNat_sub_of_le (by rw [BitVec.le_def]; exact hle)]
    omega
  · rename_i hlt
    rw [BitVec.lt_def, hsum] at hlt
    omega

/-- The calls of `user_bcopy` in `file_read`. -/
def readCopies (size n offset : U32) (fd buf : Word) : List Copy :=
  if size < offset then []
  else [⟨fd2data fd + offset.setWidth 64, buf, (readResult size n offset).setWidth 64⟩]

theorem fileRead_apply (fd : Word) (n offset : U32) : ∃ s', fileRead fd buf n offset s =
    .ret (readResult (s.field fd 160) n offset) s' ∧
    s'.copies = s.copies ++ readCopies (s.field fd 160) n offset fd buf := by
  unfold fileRead readResult readCopies
  rw [Prog.bind_ret (Prog.get_apply s)]
  dsimp only
  by_cases hlt : s.field fd 160 < offset
  · simp only [if_pos hlt]
    exact ⟨s, rfl, (List.append_nil _).symm⟩
  · simp only [if_neg hlt]
    exact ⟨_, rfl, by rw [readResult, if_neg hlt]; rfl⟩

/-- What `read` comes to on a file that may be read. -/
theorem read_apply (h : FileOpen s n) (hmode : accMode s n ≠ O_WRONLY) :
    ∃ s', read other (BitVec.ofNat 32 n.val) buf len s =
      .ret (readResult (s.fSize n) (len.setWidth 32) ((s.fdOffset n).setWidth 32)) s' ∧
    s'.copies = s.copies ++ readCopies (s.fSize n) (len.setWidth 32) ((s.fdOffset n).setWidth 32)
      (fdVa (BitVec.ofNat 32 n.val)) buf := by
  obtain ⟨s₁, hread, hcopies⟩ : ∃ s₁, fileRead _ buf _ _ s = _ ∧ _ :=
    fileRead_apply (fdVa (BitVec.ofNat 32 n.val)) (len.setWidth 32) ((s.fdOffset n).setWidth 32)
  unfold read
  have hmode' : ¬ s.field (fdVa (BitVec.ofNat 32 n.val)) 16 &&& O_ACCMODE = O_WRONLY := hmode
  rw [withFile_ok h, Prog.bind_ret (Prog.get_apply s), if_neg hmode']
  exact ⟨_, (Prog.bind_ret hread).trans rfl, hcopies⟩

theorem toNat_len (hlen : len.toNat < 2 ^ 31) : (len.setWidth 32).toNat = len.toNat := by
  rw [BitVec.toNat_setWidth]
  omega

/-- Where the offset has 32 bits, what is copied is where it says. -/
theorem readCopies_eq (hsize : size.toNat ≤ MAXFILESIZE) (hlt : offset.toNat < size.toNat) (len : U32) :
    readCopies size len (offset.setWidth 32) (fdVa (BitVec.ofNat 32 n.val)) buf =
      [⟨fileVa n offset, buf, (readResult size len (offset.setWidth 32)).setWidth 64⟩] := by
  rw [MAXFILESIZE] at hsize
  have hwidth : (offset.setWidth 32).setWidth 64 = offset := by
    apply BitVec.eq_of_toNat_eq
    rw [BitVec.toNat_setWidth, BitVec.toNat_setWidth]
    omega
  have hle : ¬ size < offset.setWidth 32 := by
    rw [BitVec.lt_def, BitVec.toNat_setWidth]
    omega
  rw [readCopies, if_neg hle, hwidth, fd2data_fdVa]
  rfl

/-- With the right count, the bytes are the right ones too. -/
theorem readRight_iff_count (h : FileOpen s n) (hmode : accMode s n ≠ O_WRONLY) (hlen : len.toNat < 2 ^ 31) :
    ReadRight other s n buf len ↔
      min len.toNat ((s.fSize n).toNat - (s.fdOffset n).toNat % 2 ^ 32) = readCount s n len := by
  obtain ⟨s', hread, hcopies⟩ : ∃ s', read other (BitVec.ofNat 32 n.val) buf len s = _ ∧ _ := read_apply h hmode
  have hlen32 := toNat_len hlen
  have hresult : (readResult (s.fSize n) (len.setWidth 32) ((s.fdOffset n).setWidth 32)).toNat = _ :=
    toNat_readResult h.size_le (by rw [hlen32]; exact hlen)
  rw [hlen32, BitVec.toNat_setWidth] at hresult
  constructor
  · rintro ⟨r, s₁, hrun, hcount, -⟩
    rw [hread] at hrun
    cases hrun
    exact hresult.symm.trans hcount
  · intro hcount
    refine ⟨_, s', hread, hresult.trans hcount, _, hcopies, ?_⟩
    have hword : (readResult (s.fSize n) (len.setWidth 32) ((s.fdOffset n).setWidth 32)).setWidth 64 =
        BitVec.ofNat 64 (readCount s n len) := by
      apply BitVec.eq_of_toNat_eq
      have hlt := (readResult (s.fSize n) (len.setWidth 32) ((s.fdOffset n).setWidth 32)).isLt
      rw [BitVec.toNat_setWidth, BitVec.toNat_ofNat, hresult, hcount]
    rcases Nat.eq_zero_or_pos (readCount s n len) with h0 | hpos
    · refine Or.inr ⟨h0, fun c hc => ?_⟩
      unfold readCopies at hc
      split at hc
      · cases hc
      · rw [List.mem_singleton.mp hc, hword, h0]
        rfl
    · refine Or.inl ?_
      have hpos' := hpos
      rw [readCount] at hpos'
      rw [readCopies_eq h.size_le (by omega), hword]

theorem readRight_iff (h : FileOpen s n) (hmode : accMode s n ≠ O_WRONLY) (hlen : len.toNat < 2 ^ 31) :
    ReadRight other s n buf len ↔ ReadFits s n len := by
  have hsize := h.size_le
  have hzero : len = 0 ↔ len.toNat = 0 := by
    rw [← BitVec.toNat_inj]
    rfl
  rw [MAXFILESIZE] at hsize
  rw [readRight_iff_count h hmode hlen, readCount, ReadFits, hzero]
  omega

/-! ## A server that grants what it is asked -/

theorem Granted.received (h : Granted s) (req : FileReq) (dstva : Word) : Granted (s.received req dstva) := h

/-- Nothing but replies, and none of them a descriptor's. -/
structure Answered (n : FdNum) (s s' : FileClient) : Prop where
  replies : s'.replies = s.replies
  copies : s'.copies = s.copies
  size : s'.fSize n = s.fSize n

theorem answered_received {req : FileReq} {dstva : Word} (h : fdPage n ≠ pageOf dstva) (s : FileClient) :
    Answered n s (s.received req dstva) := ⟨rfl, rfl, sizeKept_received h s⟩

theorem Answered.trans {s'' : FileClient} (h : Answered n s s') (h' : Answered n s' s'') : Answered n s s'' :=
  ⟨h'.replies.trans h.replies, h'.copies.trans h.copies, h'.size.trans h.size⟩

/-- The loop over the blocks ends where `more` does; induction on the turns. -/
theorem mapBlocks_granted {fileid i : U32} {va : U32 → Word} {more : U32 → Bool} {k : Nat} (hgranted : Granted s)
    (hlow : ∀ i, more i = true → ¬ KERNBASE ≤ va i) (hpage : ∀ i, more i = true → fdPage n ≠ pageOf (va i))
    (hend : more (blockAt i k) = false) (hk : k < turns) :
    ∃ s', mapBlocks fileid va more turns i s = .ret ⟨⟩ s' ∧ Answered n s s' := by
  induction turns generalizing i k s with
  | zero => cases hk
  | succ turns ih =>
      cases hmore : more i with
      | false =>
          rw [mapBlocks, forBlocks_done hmore]
          exact ⟨s, rfl, rfl, rfl, rfl⟩
      | true =>
          obtain ⟨j, rfl⟩ : ∃ j, k = j + 1 := by
            cases k with
            | zero =>
                rw [blockAt_zero, hmore] at hend
                cases hend
            | succ j => exact ⟨j, rfl⟩
          obtain ⟨hvalue, hperm⟩ := hgranted s.sent.length
          have hvalue' : s.reply.value.msb = false := hvalue
          have hperm' : s.reply.expected = true := hperm
          have hfirst : fsipcMap fileid i (va i) s = .ret ⟨⟩ (s.received (.map fileid i) (va i)) := by
            rw [fsipcMap_apply (hlow i hmore), hvalue', if_neg Bool.false_ne_true, if_pos hperm']
          obtain ⟨s₁, hrest, hkept⟩ := ih (hgranted.received (.map fileid i) (va i))
            (by rw [blockAt_succ]; exact hend) (Nat.lt_of_succ_lt_succ hk)
          rw [mapBlocks, forBlocks_more hmore, Prog.bind_ret hfirst]
          exact ⟨s₁, hrest, (answered_received (hpage i hmore) s).trans hkept⟩

/-- The largest file has 1024 blocks. -/
theorem growBlocks_end (hsize : size.toNat ≤ MAXFILESIZE) {oldsize : U32} (hold : oldsize.toNat ≤ MAXFILESIZE) :
    intLt (blockAt ((roundPage oldsize).setWidth 32) 1024) (roundPage size) = false := by
  have hround := toNat_roundPage size
  have hround' := toNat_roundPage oldsize
  rw [MAXFILESIZE] at hsize hold
  have hat : (blockAt ((roundPage oldsize).setWidth 32) 1024).toNat = (roundPage oldsize).toNat + 4194304 := by
    rw [blockAt, BitVec.toNat_add, BitVec.toNat_setWidth, BitVec.toNat_ofNat]
    omega
  have hword := toNat_intWord (blockAt ((roundPage oldsize).setWidth 32) 1024)
  rw [hat, if_pos (by omega)] at hword
  apply Bool.eq_false_of_not_eq_true
  rw [intLt_iff, hword]
  omega

theorem growBlocks_granted {fileid oldsize : U32} (hgranted : Granted s) (hsize : size.toNat ≤ MAXFILESIZE)
    (hold : oldsize.toNat ≤ MAXFILESIZE) (hturns : 1024 < turns) :
    ∃ s', growBlocks turns n fileid oldsize size s = .ret ⟨⟩ s' ∧ Answered n s s' :=
  mapBlocks_granted hgranted (fun _ hi => blockVa_user n hsize hi) (fun _ hi => fdPage_ne_block n n hsize hi)
    (growBlocks_end hsize hold) hturns

/-- Nothing is unmapped from a file that grows. -/
theorem unmapBlocks_none {oldsize : U32} (hle : oldsize.toNat ≤ size.toNat) (hsize : size.toNat ≤ MAXFILESIZE)
    (va : Word) (hturns : 0 < turns) :
    unmapBlocks va (fun i => intLt i (roundPage oldsize)) turns ((roundPage size).setWidth 32) s = .ret ⟨⟩ s := by
  obtain ⟨turns, rfl⟩ : ∃ t, turns = t + 1 := ⟨turns - 1, by omega⟩
  have hround := toNat_roundPage size
  have hround' := toNat_roundPage oldsize
  have hword := toNat_intWord ((roundPage size).setWidth 32)
  rw [MAXFILESIZE] at hsize
  rw [BitVec.toNat_setWidth, if_pos (by omega)] at hword
  have hdone : intLt ((roundPage size).setWidth 32) (roundPage oldsize) = false := by
    apply Bool.eq_false_of_not_eq_true
    rw [intLt_iff, hword]
    omega
  rw [unmapBlocks, forBlocks_done hdone]
  rfl

/-- A file is made larger: it has the new size, and no bytes have been copied. -/
theorem ftruncate_granted (h : FileOpen s n) (hgranted : Granted s) (hsize : size.toNat ≤ MAXFILESIZE)
    (hle : (s.fSize n).toNat ≤ size.toNat) (hturns : 1024 < turns) :
    ∃ s', ftruncate turns (BitVec.ofNat 32 n.val) size s = .ret ⟨⟩ s' ∧ s'.fSize n = size ∧ s'.copies = s.copies := by
  have hvalue : (resized s n size).reply.value.msb = false := (hgranted s.sent.length).1
  obtain ⟨s₁, hgrow, hkept⟩ : ∃ s₁, growBlocks turns n (s.field (fdVa (BitVec.ofNat 32 n.val)) 24) (s.fSize n) size
      ((resized s n size).received (.set_size (s.field (fdVa (BitVec.ofNat 32 n.val)) 24) size) 0) =
          _ ∧ Answered n _ s₁ :=
    growBlocks_granted hgranted hsize h.size_le hturns
  have hanswered := (answered_received (fdPage_ne_zero n) (resized s n size)).trans hkept
  refine ⟨s₁, ?_, hanswered.size.trans (resized_fSize s n size), hanswered.copies⟩
  rw [ftruncate_asks ⟨hsize, h.mapped, h.dev⟩, setSize, Prog.bind_ret (setSize_granted hvalue)]
  refine (Prog.bind_ret (Prog.attempt_ret hgrow)).trans ?_
  exact unmapBlocks_none hle hsize _ (by omega)

/-! ## `write` -/

section Frame

variable {m : ByteMem} {src dst k x : Nat}

theorem bcopyBytes_out (h : x < dst ∨ dst + k ≤ x) : bcopyBytes m src dst k x = m x := by
  induction k generalizing m src dst with
  | zero => rfl
  | succ k ih =>
      rw [bcopyBytes, ih (by omega)]
      exact if_neg (by omega)

theorem bcopy_out (h : x < dst ∨ dst + k ≤ x) : bcopy m src dst k x = m x := by
  fun_induction bcopy m src dst k with
  | case1 m src dst k ih => rw [ih (by omega), ByteMem.st32_of_out _ (by omega)]
  | case2 m src dst k => exact bcopyBytes_out h

theorem userBcopy_out (h : x < dst ∨ dst + k ≤ x) : userBcopy m src dst k x = m x := by
  unfold userBcopy
  split
  · exact bcopy_out h
  · exact bcopyBytes_out h

end Frame

/-- A copy into the file leaves the descriptor as it is. -/
theorem copied_fSize {len32 : U32} (hend : offset.toNat + len32.toNat ≤ MAXFILESIZE) :
    (s.copied ⟨buf, fileVa n offset, len32.setWidth 64⟩).fSize n = s.fSize n := by
  have hn := n.isLt
  rw [MAXFILESIZE] at hend
  have hdst : (fileVa n offset).toNat = 0x80000000 + n.val * 0x40000000 + offset.toNat := by
    rw [fileVa, BitVec.toNat_add, dataVa_toNat, INDEX2DATA, FILEBASE, PDMAP]
    omega
  apply ByteMem.Same.ld32
  intro x hlo hhi
  rw [fdVa_add_toNat n (by decide)] at hlo hhi
  apply userBcopy_out
  show x < (fileVa n offset).toNat ∨ _
  rw [hdst]
  omega

theorem store8_fSize (s : FileClient) (n : FdNum) (v : Word) :
    (s.setMem (s.client.mem.st64 (fdVa (BitVec.ofNat 32 n.val) + 8).toNat v)).fSize n = s.fSize n := by
  have h8 : (fdVa (BitVec.ofNat 32 n.val) + 8).toNat = 0x70000000 + n.val * 4096 + 8 :=
    fdVa_add_toNat n (show 8 < BY2PG by decide)
  apply ByteMem.Same.ld32
  apply ByteMem.same_st64
  rw [fdVa_add_toNat n (by decide), h8]
  omega

theorem advance_fSize (s : FileClient) (n : FdNum) (r : U32) :
    (s.advance (fdVa (BitVec.ofNat 32 n.val)) r).fSize n = s.fSize n := store8_fSize s n _

theorem fileWrite_tooLarge {fd : Word} {len32 off32 : U32} (h : MAXFILESIZE < (off32 + len32).toNat) :
    fileWrite turns fd buf len32 off32 s = .fail (-E_NO_DISK) s := by
  unfold fileWrite
  dsimp only
  rw [if_pos h]
  rfl

/-- The file is made large enough, and the bytes are copied. -/
theorem fileWrite_granted {len32 off32 : U32} (hopen : FileOpen s n)
    (hgranted : (s.fSize n).toNat < (off32 + len32).toNat → Granted s)
    (h : (off32 + len32).toNat ≤ MAXFILESIZE) (hturns : 1024 < turns) :
    ∃ s₁ : FileClient, s₁.copies = s.copies ∧ (off32 + len32).toNat ≤ (s₁.fSize n).toNat ∧
      fileWrite turns (fdVa (BitVec.ofNat 32 n.val)) buf len32 off32 s =
        .ret len32 (s₁.copied ⟨buf, fileVa n (off32.setWidth 64), len32.setWidth 64⟩) := by
  unfold fileWrite
  dsimp only
  rw [if_neg (Nat.not_lt.mpr h), Prog.bind_ret (Prog.get_apply s)]
  by_cases hlt : s.field (fdVa (BitVec.ofNat 32 n.val)) 160 < off32 + len32
  · have hle : (s.fSize n).toNat ≤ (off32 + len32).toNat := Nat.le_of_lt hlt
    obtain ⟨s₁, htrunc, hsize, hcopies⟩ := ftruncate_granted hopen (hgranted hlt) h hle hturns
    refine ⟨s₁, hcopies, le_of_eq (congrArg BitVec.toNat hsize.symm), ?_⟩
    rw [if_pos hlt, fd2num_fdVa, Prog.bind_ret htrunc, fd2data_fdVa]
    rfl
  · refine ⟨s, rfl, ?_, ?_⟩
    · exact Nat.not_lt.mp hlt
    · rw [if_neg hlt, fd2data_fdVa]
      rfl

/-- `write` on a file that may be written, by what `file_write` does. -/
theorem write_eq (h : FileOpen s n) (hmode : accMode s n ≠ O_RDONLY) :
    write other turns (BitVec.ofNat 32 n.val) buf len s = (do
      let r ← fileWrite turns (fdVa (BitVec.ofNat 32 n.val)) buf (len.setWidth 32) ((s.fdOffset n).setWidth 32)
      Prog.modify fun s => s.advance (fdVa (BitVec.ofNat 32 n.val)) r
      pure r : FileM U32) s := by
  have hmode' : ¬ s.field (fdVa (BitVec.ofNat 32 n.val)) 16 &&& O_ACCMODE = O_RDONLY := hmode
  unfold write
  rw [withFile_ok h, Prog.bind_ret (Prog.get_apply s), if_neg hmode']
  rfl

theorem write_badMode (h : FileOpen s n) (hmode : accMode s n = O_RDONLY) :
    write other turns (BitVec.ofNat 32 n.val) buf len s = .fail (-E_INVAL) s := by
  have hmode' : s.field (fdVa (BitVec.ofNat 32 n.val)) 16 &&& O_ACCMODE = O_RDONLY := hmode
  unfold write
  rw [withFile_ok h, Prog.bind_ret (Prog.get_apply s), if_pos hmode']
  rfl

/-- The sum that `file_write` forms. -/
theorem toNat_tot (s : FileClient) (n : FdNum) (len : Word) :
    ((s.fdOffset n).setWidth 32 + len.setWidth 32 : U32).toNat = ((s.fdOffset n).toNat + len.toNat) % 2 ^ 32 := by
  rw [BitVec.toNat_add, BitVec.toNat_setWidth, BitVec.toNat_setWidth]
  omega

theorem writeRight_iff (h : FileOpen s n) (hgranted : GrantsSize s n len) (hlen : len.toNat < 2 ^ 31) :
    WriteRight other s n buf len ↔ WriteFits s n len := by
  have htot := toNat_tot s n len
  by_cases hmode : accMode s n = O_RDONLY
  · refine ⟨fun _ => Or.inl hmode, fun _ turns _ => Or.inl ⟨_, s, write_badMode h hmode, rfl⟩⟩
  rw [WriteFits, or_iff_right hmode]
  by_cases hlarge : MAXFILESIZE < ((s.fdOffset n).toNat + len.toNat) % 2 ^ 32
  · refine ⟨fun _ => Or.inr hlarge, fun _ turns _ => Or.inl ⟨-E_NO_DISK, s, ?_, rfl⟩⟩
    rw [write_eq h hmode]
    exact Prog.bind_fail (fileWrite_tooLarge (by rw [htot]; exact hlarge))
  rw [or_iff_left hlarge]
  -- The bytes are copied to wherever the sum leads.
  have hrun : ∀ turns, 1024 < turns → ∃ s₁ : FileClient, s₁.copies = s.copies ∧
      ((s.fdOffset n).toNat + len.toNat) % 2 ^ 32 ≤ (s₁.fSize n).toNat ∧
      write other turns (BitVec.ofNat 32 n.val) buf len s = .ret (len.setWidth 32)
        ((s₁.copied ⟨buf, fileVa n (((s.fdOffset n).setWidth 32).setWidth 64), (len.setWidth 32).setWidth 64⟩).advance
          (fdVa (BitVec.ofNat 32 n.val)) (len.setWidth 32)) := by
    intro turns hturns
    obtain ⟨s₁, hcopies, hsize, hwrite⟩ : ∃ s₁ : FileClient, s₁.copies = s.copies ∧ _ ∧
        fileWrite turns _ buf _ _ s = _ :=
      fileWrite_granted h (by rw [htot]; exact hgranted) (by rw [htot]; exact Nat.not_lt.mp hlarge) hturns
    rw [htot] at hsize
    refine ⟨s₁, hcopies, hsize, ?_⟩
    rw [write_eq h hmode]
    exact (Prog.bind_ret hwrite).trans rfl
  constructor
  · intro hright
    obtain ⟨s₁, -, -, hwrite⟩ := hrun 1025 (by decide)
    rcases hright 1025 (by decide) with ⟨e, s', hfail, -⟩ | ⟨s', -, hmax, -⟩
    · rw [hwrite] at hfail
      cases hfail
    · rw [MAXFILESIZE] at hmax
      omega
  · intro hfits turns hturns
    obtain ⟨s₁, hcopies, hsize, hwrite⟩ := hrun turns hturns
    rw [Nat.mod_eq_of_lt hfits] at hlarge hsize
    have hoffset : ((s.fdOffset n).setWidth 32).setWidth 64 = s.fdOffset n := by
      apply BitVec.eq_of_toNat_eq
      rw [BitVec.toNat_setWidth, BitVec.toNat_setWidth]
      omega
    have hword : (len.setWidth 32).setWidth 64 = BitVec.ofNat 64 len.toNat := by
      apply BitVec.eq_of_toNat_eq
      rw [BitVec.toNat_setWidth, BitVec.toNat_setWidth, BitVec.toNat_ofNat]
      omega
    refine Or.inr ⟨_, hwrite, Nat.not_lt.mp hlarge, ?_, ?_⟩
    · refine ⟨_, congrArg (· ++ [_]) hcopies, Or.inl ?_⟩
      rw [hoffset, hword]
    · rw [advance_fSize, hoffset, copied_fSize (by rw [toNat_len hlen]; exact Nat.not_lt.mp hlarge)]
      exact hsize

/-- `seek` sets the offset, to any 64 bits. -/
theorem seek_sets (h : FileOpen s n) (offset : Word) :
    ∃ s', seek (BitVec.ofNat 32 n.val) offset s = .ret 0 s' ∧ s'.fdOffset n = offset ∧ s'.fSize n = s.fSize n := by
  refine ⟨s.setMem (s.client.mem.st64 (fdVa (BitVec.ofNat 32 n.val) + 8).toNat offset), ?_, ?_, ?_⟩
  · unfold seek
    rw [Prog.bind_ret (Prog.get_apply s), fdLookup_ok n h.mapped]
    rfl
  · exact ByteMem.ld64_st64 offset
  · exact store8_fSize s n offset

/-- No bytes have been copied. -/
def CopiesKept (s s' : FileClient) : Prop := s'.copies = s.copies

theorem copiesKept_onClient {α : Type} (x : ClientM α) : Prog.Moves CopiesKept (onClient x) := by
  intro s
  unfold onClient
  split
  · exact ⟨by rintro _ _ ⟨⟩; rfl, by rintro _ _ ⟨⟩⟩
  · exact ⟨by rintro _ _ ⟨⟩, by rintro _ _ ⟨⟩; rfl⟩
  · exact ⟨by rintro _ _ ⟨⟩, by rintro _ _ ⟨⟩⟩

theorem copiesKept_ftruncate (turns : Nat) (fdnum size : U32) :
    Prog.Moves CopiesKept (ftruncate turns fdnum size) := by
  have hrefl : ∀ s, CopiesKept s s := fun _ => rfl
  have htrans : ∀ s s' s'', CopiesKept s s' → CopiesKept s' s'' → CopiesKept s s'' := fun _ _ _ h h' => h'.trans h
  have hset : ∀ fileid size, Prog.Moves CopiesKept (fsipcSetSize fileid size) := fun fileid size =>
    (moves_fsipc hrefl htrans fun _ => rfl).bind htrans fun r =>
      (Prog.moves_throw hrefl _).ite (Prog.moves_pure hrefl _)
  apply (Prog.moves_throw hrefl _).ite
  apply (Prog.moves_get hrefl).bind htrans
  intro s
  split
  · exact Prog.moves_throw hrefl _
  apply (Prog.moves_throw hrefl _).ite
  apply (copiesKept_onClient _).bind htrans
  intro _
  apply (hset _ _).bind htrans
  intro _
  have hgrow : ∀ (fileid : U32) (va : U32 → Word) (more : U32 → Bool) (i : U32),
      Prog.Moves CopiesKept (mapBlocks fileid va more turns i) := fun _ _ _ i =>
    moves_forBlocks hrefl htrans (fun _ _ => moves_fsipcMap hrefl htrans fun _ _ => rfl) turns i
  have hunmap : ∀ (va : Word) (more : U32 → Bool) (i : U32), Prog.Moves CopiesKept (unmapBlocks va more turns i) :=
    fun _ _ i => moves_forBlocks hrefl htrans (fun _ _ => (copiesKept_onClient _).bind htrans fun _ =>
      (Prog.moves_stop _).ite (Prog.moves_pure hrefl _)) turns i
  apply (hgrow _ _ _ _).attempt.bind htrans
  intro r
  cases r with
  | error r => exact (hset _ _).attempt.bind htrans fun _ => Prog.moves_throw hrefl _
  | ok _ => exact hunmap _ _ _

/-- Whatever fails, nothing has been copied before. -/
theorem write_fail_copies (h : FileOpen s n) {e : U32}
    (hfail : write other turns (BitVec.ofNat 32 n.val) buf len s = .fail e s') : s'.copies = s.copies := by
  by_cases hmode : accMode s n = O_RDONLY
  · rw [write_badMode h hmode] at hfail
    cases hfail
    rfl
  rw [write_eq h hmode] at hfail
  rcases Prog.bind_eq_fail.mp hfail with hwrite | ⟨r, s₁, -, hrest⟩
  · by_cases hlarge : MAXFILESIZE < ((s.fdOffset n).setWidth 32 + len.setWidth 32 : U32).toNat
    · rw [fileWrite_tooLarge hlarge] at hwrite
      cases hwrite
      rfl
    unfold fileWrite at hwrite
    dsimp only at hwrite
    rw [if_neg hlarge, Prog.bind_ret (Prog.get_apply s)] at hwrite
    split at hwrite
    · rcases Prog.bind_eq_fail.mp hwrite with htrunc | ⟨_, s₁, -, hrest⟩
      · exact (copiesKept_ftruncate turns _ _).fail htrunc
      · cases hrest
    · cases hwrite
  · cases hrest

/-- On a file, `read` and `write` copy the bytes that they should if and only if the
    offset and the sum that they form have 32 bits, or it makes no difference; and a
    `write` that fails has copied nothing, whatever the server grants. -/
theorem file_range_iff (other : FileM U32) (s : FileClient) (n : FdNum) (h : FileOpen s n) (buf len : Word)
    (hlen : len.toNat < 2 ^ 31) :
    (accMode s n ≠ O_WRONLY → (ReadRight other s n buf len ↔ ReadFits s n len)) ∧
    (GrantsSize s n len → (WriteRight other s n buf len ↔ WriteFits s n len)) ∧
    ∀ turns e s', write other turns (BitVec.ofNat 32 n.val) buf len s = .fail e s' → s'.copies = s.copies :=
  ⟨fun hmode => readRight_iff h hmode hlen, fun hgranted => writeRight_iff h hgranted hlen,
    fun _ _ _ hfail => write_fail_copies h hfail⟩

/-- A file of one byte, open for both, from a server that grants everything; `hi` is
    the fifth byte of the offset. -/
def byteFile (hi : Byte) : FileClient where
  client := ⟨fun v => if v = fdPage 0 then some ⟨7, VALID⟩ else none,
    fun a => if a = 0x70000000 then 102 else if a = 0x7000000c then hi else if a = 0x70000010 then 2
      else if a = 0x700000a0 then 1 else 0, fun _ => none, 0⟩
  replies := fun _ => ⟨0, VALID, none⟩
  sent := []
  copies := []

theorem byteFile_addr {k : Nat} (hk : k < BY2PG) :
    (fdVa (BitVec.ofNat 32 (0 : FdNum).val) + BitVec.ofNat 64 k).toNat = 0x70000000 + k := fdVa_add_toNat 0 hk

theorem byteFile_size (hi : Byte) : (byteFile hi).fSize 0 = 1 := by
  rw [FileClient.fSize, FileClient.field, byteFile_addr (by decide)]
  simp [byteFile, ByteMem.ld32]

theorem byteFile_offset (hi : Byte) : ((byteFile hi).fdOffset 0).toNat = hi.toNat * 2 ^ 32 := by
  have h8 : (fdVa (BitVec.ofNat 32 (0 : FdNum).val) + 8).toNat = 0x70000000 + 8 := byteFile_addr (by decide)
  rw [FileClient.fdOffset, h8, ByteMem.ld64_toNat]
  simp only [byteFile, ByteMem.ld32, BitVec.toNat_append]
  simp

theorem byteFile_mode (hi : Byte) : accMode (byteFile hi) 0 = 2 := by
  rw [accMode, FileClient.field, byteFile_addr (by decide)]
  simp [byteFile, ByteMem.ld32, O_ACCMODE]

theorem byteFile_open (hi : Byte) : FileOpen (byteFile hi) 0 := by
  refine ⟨?_, ?_, ?_⟩
  · show (if fdPage 0 = fdPage 0 then some (UserPte.mk 7 VALID) else none).isSome = true
    rw [if_pos rfl]
    rfl
  · rw [FileClient.field, byteFile_addr (by decide)]
    simp [byteFile, ByteMem.ld32, DEV_FILE]
  · rw [byteFile_size]
    decide

theorem byteFile_granted (hi : Byte) : Granted (byteFile hi) := by
  intro k
  show (0 : U32).msb = false ∧ (FileReply.mk 0 VALID none).expected = true
  decide

/-- At the start of the file. -/
theorem first_byte_right : ReadRight (Prog.stop "") (byteFile 0) 0 0x400000 1 ∧
    WriteRight (Prog.stop "") (byteFile 0) 0 0x400000 1 := by
  have h := file_range_iff (Prog.stop "") (byteFile 0) 0 (byteFile_open 0) 0x400000 1 (by decide)
  have hmode : accMode (byteFile 0) 0 ≠ O_WRONLY := by
    rw [byteFile_mode]
    decide
  refine ⟨(h.1 hmode).mpr (Or.inl ?_), (h.2.1 fun _ => byteFile_granted 0).mpr (Or.inr (Or.inl ?_))⟩
  · rw [byteFile_offset]
    decide
  · rw [byteFile_offset]
    decide

/-- At `2 ^ 32` the first byte is read, and it is written. -/
theorem offset_wraps : ¬ ReadRight (Prog.stop "") (byteFile 1) 0 0x400000 1 ∧
    ¬ WriteRight (Prog.stop "") (byteFile 1) 0 0x400000 1 := by
  have hmode : accMode (byteFile 1) 0 ≠ O_WRONLY := by
    rw [byteFile_mode]
    decide
  constructor
  · rw [readRight_iff (byteFile_open 1) hmode (by decide)]
    rintro (hlow | hbehind | hzero)
    · rw [byteFile_offset] at hlow
      exact absurd hlow (by decide)
    · rw [byteFile_offset, byteFile_size] at hbehind
      exact absurd hbehind (by decide)
    · exact absurd hzero (by decide)
  · rw [writeRight_iff (byteFile_open 1) (fun _ => byteFile_granted 1) (by decide)]
    rintro (hmode | hlow | hlarge)
    · rw [byteFile_mode] at hmode
      exact absurd hmode (by decide)
    · rw [byteFile_offset] at hlow
      exact absurd hlow (by decide)
    · rw [byteFile_offset] at hlarge
      exact absurd hlarge (by decide)

end FileIo

end RpiMos
