/-
  RpiMos.User.ReadBuf

  `read` and `readn` of user/fd.c over any device: which bytes they store into,
  and what they return.  Behind the bytes that the device has delivered `read`
  stores a null, wherever that may be.
-/

import RpiMos.User.Client
import RpiMos.User.PipeCounts
import Mathlib.Data.BitVec

namespace RpiMos

open Lib

/-- `struct Fd`. -/
structure OpenFd where
  fd_dev_id : U32
  fd_offset : Word
  fd_omode : U32

/-- What a device answers when it is asked for `n` bytes: a number of bytes, which it
    stores, or something negative, and then it stores nothing. -/
structure DevRead (n : U32) where
  r : U32
  byte : Nat → Byte
  le : r.msb = false → r.toNat ≤ n.toNat

/-- `dev_read` of a device, the k-th time it is called. -/
abbrev DevReadFn := Nat → (n offset : U32) → DevRead n

namespace DevRead

variable {n : U32}

def count (a : DevRead n) : Nat := if a.r.msb then 0 else a.r.toNat

def piece (a : DevRead n) : List Byte := (List.range a.count).map a.byte

theorem count_of_msb {a : DevRead n} (h : a.r.msb = true) : a.count = 0 := if_pos h

theorem count_of_not_msb {a : DevRead n} (h : a.r.msb = false) : a.count = a.r.toNat := by
  rw [count, h, if_neg Bool.false_ne_true]

theorem piece_length (a : DevRead n) : a.piece.length = a.count := by
  rw [piece, List.length_map, List.length_range]

theorem count_le (a : DevRead n) : a.count ≤ n.toNat := by
  cases h : a.r.msb with
  | true =>
      rw [count_of_msb h]
      exact Nat.zero_le _
  | false =>
      rw [count_of_not_msb h]
      exact a.le h

end DevRead

/-- The descriptor and the memory, and what has gone on: the stores, each an address
    and a number of bytes, the bytes delivered, and the last result of `read`. -/
structure ReadSt where
  fd : Option OpenFd
  mem : Word → Byte
  calls : Nat
  writes : List (Word × Nat)
  delivered : List Byte
  last : U32

/-- Before a call. -/
def ReadSt.start (fd : Option OpenFd) (mem : Word → Byte) (calls : Nat) : ReadSt := ⟨fd, mem, calls, [], [], 0⟩

namespace ReadSt

variable {n : U32}

/-- The device stores its bytes. -/
def deliver (s : ReadSt) (dst : Word) (a : DevRead n) : ReadSt :=
  { s with
    mem := fun x => if (x - dst).toNat < a.count then a.byte (x - dst).toNat else s.mem x
    calls := s.calls + 1
    writes := s.writes ++ [(dst, a.count)]
    delivered := s.delivered ++ a.piece }

def st8 (s : ReadSt) (x : Word) (b : Byte) : ReadSt :=
  { s with mem := Function.update s.mem x b, writes := s.writes ++ [(x, 1)] }

/-- `if (r > 0) fd->fd_offset += r`. -/
def advance (s : ReadSt) (fd : OpenFd) (r : U32) : ReadSt :=
  { s with fd := some { fd with fd_offset := newOffset fd.fd_offset r } }

/-- Behind the call of a device that has answered `a`. -/
def afterRead (s : ReadSt) (fd : OpenFd) (buf : Word) (a : DevRead n) : ReadSt :=
  { ((s.deliver buf a).advance fd a.r).st8 (buf + intWord a.r) 0 with last := a.r }

variable (s : ReadSt) (fd : OpenFd) (buf : Word) (a : DevRead n)

@[simp] theorem afterRead_writes :
    (s.afterRead fd buf a).writes = s.writes ++ [(buf, a.count)] ++ [(buf + intWord a.r, 1)] := rfl

@[simp] theorem afterRead_delivered : (s.afterRead fd buf a).delivered = s.delivered ++ a.piece := rfl
@[simp] theorem afterRead_last : (s.afterRead fd buf a).last = a.r := rfl
@[simp] theorem afterRead_calls : (s.afterRead fd buf a).calls = s.calls + 1 := rfl

@[simp] theorem afterRead_fd :
    (s.afterRead fd buf a).fd = some { fd with fd_offset := newOffset fd.fd_offset a.r } := rfl

end ReadSt

namespace FdIo

/-- `read(fdnum, buf, n)`; `dev_lookup` finds the devices. -/
def read (dev_lookup : U32 → Option DevReadFn) (buf n : Word) (s : ReadSt) : U32 × ReadSt :=
  match s.fd with
  | none => (-E_INVAL, { s with last := -E_INVAL })
  | some fd =>
      match dev_lookup fd.fd_dev_id with
      | none => (-E_INVAL, { s with last := -E_INVAL })
      | some dev_read =>
          if fd.fd_omode &&& O_ACCMODE = O_WRONLY then (-E_INVAL, { s with last := -E_INVAL })
          else
            -- `n` and the offset are `u32` for the device.
            let a := dev_read s.calls (n.setWidth 32) (fd.fd_offset.setWidth 32)
            (a.r, s.afterRead fd buf a)

/-! ## One call -/

variable {dev_lookup : U32 → Option DevReadFn} {dev : DevReadFn} {buf n : Word} {s : ReadSt} {fd : OpenFd}

/-- The device that `read` comes to ask, with the descriptor. -/
def device (dev_lookup : U32 → Option DevReadFn) (fd : Option OpenFd) : Option (OpenFd × DevReadFn) :=
  fd.bind fun fd => (dev_lookup fd.fd_dev_id).bind fun dev =>
    if fd.fd_omode &&& O_ACCMODE = O_WRONLY then none else some (fd, dev)

/-- What the device is asked. -/
def answer (dev : DevReadFn) (calls : Nat) (offset n : Word) : DevRead (n.setWidth 32) :=
  dev calls (n.setWidth 32) (offset.setWidth 32)

theorem read_of_device (h : device dev_lookup s.fd = some (fd, dev)) :
    read dev_lookup buf n s = ((answer dev s.calls fd.fd_offset n).r,
      s.afterRead fd buf (answer dev s.calls fd.fd_offset n)) := by
  unfold device at h
  unfold read
  cases hfd : s.fd with
  | none =>
      rw [hfd] at h
      cases h
  | some fd' =>
      rw [hfd, Option.bind_some] at h
      cases hdev : dev_lookup fd'.fd_dev_id with
      | none =>
          rw [hdev] at h
          cases h
      | some dev' =>
          rw [hdev, Option.bind_some] at h
          split at h
          · cases h
          · rename_i hmode
            cases h
            simp only [hdev]
            rw [if_neg hmode]
            rfl

theorem read_of_none (h : device dev_lookup s.fd = none) :
    read dev_lookup buf n s = (-E_INVAL, { s with last := -E_INVAL }) := by
  unfold device at h
  unfold read
  cases hfd : s.fd with
  | none => rfl
  | some fd' =>
      rw [hfd, Option.bind_some] at h
      cases hdev : dev_lookup fd'.fd_dev_id with
      | none =>
          simp only [hdev]
      | some dev' =>
          rw [hdev, Option.bind_some] at h
          split at h
          · rename_i hmode
            simp only [hdev]
            rw [if_pos hmode]
          · cases h

theorem E_INVAL_msb : (-E_INVAL : U32).msb = true := by decide

/-- No more is read than is asked for. -/
theorem read_le (h : (read dev_lookup buf n s).1.msb = false) : (read dev_lookup buf n s).1.toNat ≤ n.toNat := by
  cases hdev : device dev_lookup s.fd with
  | none =>
      rw [read_of_none hdev, E_INVAL_msb] at h
      cases h
  | some x =>
      obtain ⟨fd, dev⟩ := x
      rw [read_of_device hdev] at h ⊢
      have hle := (answer dev s.calls fd.fd_offset n).le h
      rw [BitVec.toNat_setWidth] at hle
      exact Nat.le_trans hle (Nat.mod_le _ _)

/-! ## The loop -/

/-- As a `u64` the index goes up, and not beyond `n`. -/
theorem index_next {tot m : U32} (hlt : (intWord tot).toNat < n.toNat) (hm : m.msb = false)
    (hle : m.toNat ≤ (n - intWord tot).toNat) :
    (intWord tot + intWord m).toNat = (intWord tot).toNat + m.toNat ∧
    (intWord tot).toNat + m.toNat ≤ n.toNat ∧
    (intWord tot).toNat + m.toNat ≤ (intWord (tot + m)).toNat := by
  have hn := n.isLt
  have htot := toNat_intWord tot
  have hm31 : m.toNat < 2 ^ 31 := by
    rw [BitVec.msb_eq_decide] at hm
    have := of_decide_eq_false hm
    omega
  have hmword : (intWord m).toNat = m.toNat := by
    rw [toNat_intWord, if_pos hm31]
  rw [BitVec.toNat_sub_of_le (by rw [BitVec.le_def]; omega)] at hle
  have hlt32 := tot.isLt
  have hsum := toNat_intWord (tot + m)
  rw [BitVec.toNat_add] at hsum
  refine ⟨?_, by omega, ?_⟩
  · rw [BitVec.toNat_add, hmword]
    omega
  · split at htot
    · split at hsum <;> omega
    · split at hsum <;> omega

/-- The loop of `readn`, from `tot` on. -/
def readnLoop (dev_lookup : U32 → Option DevReadFn) (buf n : Word) (tot : U32) (s : ReadSt) : U32 × ReadSt :=
  if _hlt : intLt tot n = true then
    if _hm : (read dev_lookup (buf + intWord tot) (n - intWord tot) s).1.msb = true then
      read dev_lookup (buf + intWord tot) (n - intWord tot) s
    else if _h0 : (read dev_lookup (buf + intWord tot) (n - intWord tot) s).1 = 0 then
      (tot, (read dev_lookup (buf + intWord tot) (n - intWord tot) s).2)
    else
      readnLoop dev_lookup buf n (tot + (read dev_lookup (buf + intWord tot) (n - intWord tot) s).1)
        (read dev_lookup (buf + intWord tot) (n - intWord tot) s).2
  else (tot, s)
termination_by 2 ^ 64 - (intWord tot).toNat
decreasing_by
  have hm := Bool.eq_false_of_not_eq_true _hm
  obtain ⟨-, -, hnext⟩ := index_next (intLt_iff.mp _hlt) hm (read_le hm)
  have hpos : 0 < (read dev_lookup (buf + intWord tot) (n - intWord tot) s).1.toNat := by
    rcases Nat.eq_zero_or_pos (read dev_lookup (buf + intWord tot) (n - intWord tot) s).1.toNat with hz | hz
    · exact absurd (BitVec.eq_of_toNat_eq hz) _h0
    · exact hz
  have := (intWord (tot + (read dev_lookup (buf + intWord tot) (n - intWord tot) s).1)).isLt
  omega

/-- `readn(fdnum, buf, n)`. -/
def readn (dev_lookup : U32 → Option DevReadFn) (buf n : Word) (s : ReadSt) : U32 × ReadSt :=
  readnLoop dev_lookup buf n 0 s

/-! ## What is asked of them -/

/-- All stores are to `buf[0..n)`. -/
def Inside (buf n : Word) (writes : List (Word × Nat)) : Prop :=
  ∀ w ∈ writes, ∀ k, k < w.2 → (w.1 + BitVec.ofNat 64 k - buf).toNat < n.toNat

/-- `readn` stores into the buffer only; it returns the error that `read` has returned,
    or the number of bytes delivered, all that were asked for or those before a read of
    none; and these bytes are in the buffer. -/
structure ReadnRight (buf n : Word) (out : U32 × ReadSt) : Prop where
  inside : Inside buf n out.2.writes
  result : (out.1.msb = true ∧ out.1 = out.2.last) ∨
    (out.1.toInt = out.2.delivered.length ∧ (n.toNat ≤ out.2.delivered.length ∨ out.2.last = 0))
  bytes : out.1.msb = false →
    ∀ k b, out.2.delivered[k]? = some b → out.2.mem (buf + BitVec.ofNat 64 k) = b

/-- The answers of the device, from one call of it on, when `tot` bytes have been read:
    no answer fills what is left of the buffer, one that is negative does not reach
    back before it, and the number of bytes is an `int`. -/
inductive Fits (dev : DevReadFn) (n : Word) : Nat → Word → U32 → Prop
  | none {k : Nat} {offset : Word} {tot : U32} (hend : intLt tot n = false) (hint : tot.msb = false) :
      Fits dev n k offset tot
  | eof {k : Nat} {offset : Word} {tot : U32} (hlt : intLt tot n = true)
      (h0 : (answer dev k offset (n - intWord tot)).r = 0) (hint : tot.msb = false) : Fits dev n k offset tot
  | error {k : Nat} {offset : Word} {tot : U32} (hlt : intLt tot n = true)
      (hm : (answer dev k offset (n - intWord tot)).r.msb = true)
      (hroom : (intWord tot + intWord (answer dev k offset (n - intWord tot)).r).toNat < n.toNat) :
      Fits dev n k offset tot
  | more {k : Nat} {offset : Word} {tot : U32} (hlt : intLt tot n = true)
      (hm : (answer dev k offset (n - intWord tot)).r.msb = false)
      (h0 : (answer dev k offset (n - intWord tot)).r ≠ 0)
      (hroom : (intWord tot + intWord (answer dev k offset (n - intWord tot)).r).toNat < n.toNat)
      (rest : Fits dev n (k + 1) (newOffset offset (answer dev k offset (n - intWord tot)).r)
        (tot + (answer dev k offset (n - intWord tot)).r)) : Fits dev n k offset tot

theorem inside_append {l l' : List (Word × Nat)} : Inside buf n (l ++ l') ↔ Inside buf n l ∧ Inside buf n l' := by
  unfold Inside
  simp only [List.mem_append, or_imp, forall_and]

/-! ## Stores -/

/-- What the device stores is inside; the null behind it need not be. -/
theorem read_inside {tot : U32} (hdev : device dev_lookup s.fd = some (fd, dev))
    (hle : (intWord tot).toNat ≤ n.toNat) (hin : Inside buf n s.writes) :
    Inside buf n (read dev_lookup (buf + intWord tot) (n - intWord tot) s).2.writes ↔
      (intWord tot + intWord (answer dev s.calls fd.fd_offset (n - intWord tot)).r).toNat < n.toNat := by
  have hn := n.isLt
  have hcount := (answer dev s.calls fd.fd_offset (n - intWord tot)).count_le
  have hleft : (n - intWord tot).toNat = n.toNat - (intWord tot).toNat :=
    BitVec.toNat_sub_of_le (by rw [BitVec.le_def]; exact hle)
  rw [BitVec.toNat_setWidth, hleft] at hcount
  have hmod := Nat.mod_le (n.toNat - (intWord tot).toNat) (2 ^ 32)
  have hdelivered :
      Inside buf n [(buf + intWord tot, (answer dev s.calls fd.fd_offset (n - intWord tot)).count)] := by
    intro w hw k hk
    rw [List.mem_singleton.mp hw] at hk ⊢
    have haddr : buf + intWord tot + BitVec.ofNat 64 k - buf = intWord tot + BitVec.ofNat 64 k := by
      rw [BitVec.add_assoc, BitVec.add_comm, BitVec.add_sub_cancel]
    have hk' : k < (answer dev s.calls fd.fd_offset (n - intWord tot)).count := hk
    rw [haddr, BitVec.toNat_add, BitVec.toNat_ofNat]
    omega
  have haddr : ∀ r : U32, buf + intWord tot + intWord r + BitVec.ofNat 64 0 - buf = intWord tot + intWord r := by
    intro r
    rw [BitVec.add_zero, BitVec.add_assoc, BitVec.add_comm, BitVec.add_sub_cancel]
  rw [read_of_device hdev]
  rw [ReadSt.afterRead_writes, inside_append, inside_append]
  constructor
  · rintro ⟨-, hnull⟩
    have h := hnull _ (List.mem_singleton_self _) 0 Nat.one_pos
    rwa [haddr] at h
  · intro h
    refine ⟨⟨hin, hdelivered⟩, fun w hw k hk => ?_⟩
    rw [List.mem_singleton.mp hw] at hk ⊢
    have hk0 : k = 0 := Nat.lt_one_iff.mp hk
    rw [hk0, haddr]
    exact h

theorem read_writes (dev_lookup : U32 → Option DevReadFn) (buf n : Word) (s : ReadSt) :
    s.writes <+: (read dev_lookup buf n s).2.writes := by
  cases hdev : device dev_lookup s.fd with
  | none =>
      rw [read_of_none hdev]
  | some x =>
      rw [read_of_device hdev]
      exact ⟨_, (List.append_assoc _ _ _).symm⟩

theorem readnLoop_writes (dev_lookup : U32 → Option DevReadFn) (buf n : Word) (tot : U32) (s : ReadSt) :
    s.writes <+: (readnLoop dev_lookup buf n tot s).2.writes := by
  induction tot, s using readnLoop.induct dev_lookup buf n with
  | case1 tot s hlt hm =>
      rw [readnLoop, dif_pos hlt, dif_pos hm]
      exact read_writes _ _ _ s
  | case2 tot s hlt hm h0 =>
      rw [readnLoop, dif_pos hlt, dif_neg hm, dif_pos h0]
      exact read_writes _ _ _ s
  | case3 tot s hlt hm h0 ih =>
      rw [readnLoop, dif_pos hlt, dif_neg hm, dif_neg h0]
      exact (read_writes _ _ _ s).trans ih
  | case4 tot s hlt =>
      rw [readnLoop, dif_neg hlt]

/-! ## One turn -/

/-- Before a turn, and behind the last one: the stores so far are inside, the last
    result was no error, and as long as the count is an `int` it is that of the bytes
    delivered, which are in the buffer. -/
structure LoopInv (buf n : Word) (tot : U32) (s : ReadSt) : Prop where
  inside : Inside buf n s.writes
  last : s.last.msb = false
  count : tot.msb = false → tot.toNat = s.delivered.length
  bytes : tot.msb = false → ∀ k b, s.delivered[k]? = some b → s.mem (buf + BitVec.ofNat 64 k) = b

theorem device_advance (h : device dev_lookup s.fd = some (fd, dev)) (r : U32) :
    device dev_lookup (some { fd with fd_offset := newOffset fd.fd_offset r }) =
      some ({ fd with fd_offset := newOffset fd.fd_offset r }, dev) := by
  unfold device at h ⊢
  cases hfd : s.fd with
  | none =>
      rw [hfd] at h
      cases h
  | some fd' =>
      rw [hfd, Option.bind_some] at h
      cases hdev : dev_lookup fd'.fd_dev_id with
      | none =>
          rw [hdev] at h
          cases h
      | some dev' =>
          rw [hdev, Option.bind_some] at h
          split at h
          · cases h
          · rename_i hmode
            cases h
            rw [Option.bind_some]
            simp only [hdev, Option.bind_some, if_neg hmode]

/-- A count that is an `int` was one before. -/
theorem msb_of_next {tot m : U32} (hlt : (intWord tot).toNat < n.toNat) (hm : m.msb = false)
    (hle : m.toNat ≤ (n - intWord tot).toNat) (hnext : (tot + m).msb = false) :
    tot.msb = false ∧ (tot + m).toNat = tot.toNat + m.toNat := by
  obtain ⟨-, -, hup⟩ := index_next hlt hm hle
  have hlt32 := tot.isLt
  have htot := toNat_intWord tot
  have hsum := toNat_intWord (tot + m)
  rw [BitVec.msb_eq_decide] at hm hnext
  have hm31 := of_decide_eq_false hm
  have hnext31 := of_decide_eq_false hnext
  rw [if_pos (by omega)] at hsum
  have hsmall : tot.toNat < 2 ^ 31 := by
    by_contra hbig
    rw [if_neg hbig] at htot
    omega
  rw [BitVec.msb_eq_decide, BitVec.toNat_add]
  exact ⟨decide_eq_false (by omega), by omega⟩

/-- The memory behind a turn, seen from the buffer. -/
theorem turn_mem {a : DevRead ((n - intWord tot).setWidth 32)} {mem : Word → Byte} {tot : U32} {k : Nat}
    (htot : tot.toNat < 2 ^ 31) (hk : k < tot.toNat + a.count) (hm : a.r.msb = false) :
    Function.update (fun x => if (x - (buf + intWord tot)).toNat < a.count
      then a.byte (x - (buf + intWord tot)).toNat else mem x) (buf + intWord tot + intWord a.r) 0
      (buf + BitVec.ofNat 64 k) =
    if k < tot.toNat then mem (buf + BitVec.ofNat 64 k) else a.byte (k - tot.toNat) := by
  have hword : (intWord tot).toNat = tot.toNat := by rw [toNat_intWord, if_pos htot]
  have hr31 : a.r.toNat < 2 ^ 31 := by
    rw [BitVec.msb_eq_decide] at hm
    have := of_decide_eq_false hm
    omega
  have hrword : (intWord a.r).toNat = a.r.toNat := by rw [toNat_intWord, if_pos hr31]
  have hcount := a.count_of_not_msb hm
  -- The null is behind the bytes.
  have hnull : buf + BitVec.ofNat 64 k ≠ buf + intWord tot + intWord a.r := by
    intro heq
    rw [BitVec.add_assoc, BitVec.add_right_inj] at heq
    have hval := congrArg BitVec.toNat heq
    rw [BitVec.toNat_ofNat, BitVec.toNat_add, hword, hrword] at hval
    omega
  have hdiff : (buf + BitVec.ofNat 64 k - (buf + intWord tot)).toNat =
      if k < tot.toNat then 2 ^ 64 + k - tot.toNat else k - tot.toNat := by
    rw [add_sub_add_left_eq_sub, BitVec.toNat_sub, BitVec.toNat_ofNat, hword]
    split <;> omega
  rw [Function.update_of_ne hnull, hdiff]
  by_cases hk' : k < tot.toNat
  · rw [if_pos hk', if_pos hk', if_neg (by omega)]
  · rw [if_neg hk', if_neg hk', if_pos (by omega)]

theorem LoopInv.next {tot : U32} (h : LoopInv buf n tot s) (hdev : device dev_lookup s.fd = some (fd, dev))
    (hlt : intLt tot n = true) (hm : (answer dev s.calls fd.fd_offset (n - intWord tot)).r.msb = false)
    (hroom : (intWord tot + intWord (answer dev s.calls fd.fd_offset (n - intWord tot)).r).toNat < n.toNat) :
    LoopInv buf n (tot + (answer dev s.calls fd.fd_offset (n - intWord tot)).r)
      (read dev_lookup (buf + intWord tot) (n - intWord tot) s).2 := by
  have hlt' := intLt_iff.mp hlt
  have hinside := (read_inside hdev (Nat.le_of_lt hlt') h.inside).mpr hroom
  have hle : (read dev_lookup (buf + intWord tot) (n - intWord tot) s).1.msb = false → _ := read_le
  rw [read_of_device hdev] at hinside hle ⊢
  have hle' := hle hm
  have hcount := DevRead.count_of_not_msb hm
  refine ⟨hinside, hm, fun hnext => ?_, fun hnext k b hk => ?_⟩
  · obtain ⟨htot, hsum⟩ := msb_of_next hlt' hm hle' hnext
    rw [ReadSt.afterRead_delivered, hsum, h.count htot, List.length_append, DevRead.piece_length, hcount]
  · obtain ⟨htot, -⟩ := msb_of_next hlt' hm hle' hnext
    have hlen := h.count htot
    have htot31 : tot.toNat < 2 ^ 31 := by
      rw [BitVec.msb_eq_decide] at htot
      have := of_decide_eq_false htot
      omega
    rw [ReadSt.afterRead_delivered] at hk
    obtain ⟨hk', -⟩ := List.getElem?_eq_some_iff.mp hk
    rw [List.length_append, DevRead.piece_length, ← hlen] at hk'
    refine (turn_mem htot31 hk' hm).trans ?_
    by_cases hold : k < tot.toNat
    · rw [List.getElem?_append_left (by rw [← hlen]; exact hold)] at hk
      rw [if_pos hold]
      exact h.bytes htot k b hk
    · rw [List.getElem?_append_right (by rw [← hlen]; exact Nat.le_of_not_lt hold), DevRead.piece,
        List.getElem?_map, List.getElem?_range (by omega), ← hlen] at hk
      rw [if_neg hold]
      exact Option.some.inj hk

/-! ## The loop -/

theorem toInt_of_not_msb {i : U32} (h : i.msb = false) : i.toInt = i.toNat := BitVec.toInt_eq_toNat_of_msb h

theorem toInt_ne_of_msb {i : U32} (h : i.msb = true) (k : Nat) : i.toInt ≠ k := by
  have hneg := BitVec.toInt_neg_of_msb_true h
  omega

/-- A result that is the count is right if and only if it is an `int`. -/
theorem right_of_count {tot : U32} (h : LoopInv buf n tot s) (hstop : tot.msb = false →
    n.toNat ≤ s.delivered.length ∨ s.last = 0) : ReadnRight buf n (tot, s) ↔ tot.msb = false := by
  constructor
  · intro hright
    by_contra hbig
    have hneg := Bool.eq_true_of_not_eq_false hbig
    rcases hright.result with ⟨-, heq⟩ | ⟨heq, -⟩
    · have heq' : tot = s.last := heq
      rw [heq', h.last] at hneg
      cases hneg
    · exact toInt_ne_of_msb hneg _ heq
  · intro hint
    refine ⟨h.inside, Or.inr ⟨?_, hstop hint⟩, fun _ => h.bytes hint⟩
    show tot.toInt = _
    rw [toInt_of_not_msb hint, h.count hint]

theorem readnLoop_right_iff (dev_lookup : U32 → Option DevReadFn) (buf n : Word) (tot : U32) (s : ReadSt)
    (fd : OpenFd) (dev : DevReadFn) (hdev : device dev_lookup s.fd = some (fd, dev)) (h : LoopInv buf n tot s) :
    ReadnRight buf n (readnLoop dev_lookup buf n tot s) ↔ Fits dev n s.calls fd.fd_offset tot := by
  induction tot, s using readnLoop.induct dev_lookup buf n
    generalizing fd with
  | case1 tot s hlt hm =>
      rw [readnLoop, dif_pos hlt, dif_pos hm]
      have hiff := read_inside hdev (Nat.le_of_lt (intLt_iff.mp hlt)) h.inside
      have hread : read dev_lookup (buf + intWord tot) (n - intWord tot) s = _ := read_of_device hdev
      rw [hread] at hm hiff ⊢
      constructor
      · exact fun hright => .error hlt hm (hiff.mp hright.inside)
      · intro hfits
        have hroom : (intWord tot + intWord (answer dev s.calls fd.fd_offset (n - intWord tot)).r).toNat <
            n.toNat := by
          cases hfits with
          | none hend =>
              rw [hlt] at hend
              cases hend
          | eof _ h0 =>
              have hneg : (answer dev s.calls fd.fd_offset (n - intWord tot)).r.msb = true := hm
              rw [h0] at hneg
              exact absurd hneg (by decide)
          | error _ _ hroom => exact hroom
          | more _ _ _ hroom => exact hroom
        exact ⟨hiff.mpr hroom, Or.inl ⟨hm, rfl⟩, fun hpos => absurd (hm.symm.trans hpos) (by decide)⟩
  | case2 tot s hlt hm h0 =>
      rw [readnLoop, dif_pos hlt, dif_neg hm, dif_pos h0]
      have hlt' := intLt_iff.mp hlt
      have hread : read dev_lookup (buf + intWord tot) (n - intWord tot) s = _ := read_of_device hdev
      rw [hread] at h0
      have hr : (answer dev s.calls fd.fd_offset (n - intWord tot)).r = 0 := h0
      have hzero : intWord 0 = 0 := by decide
      have hnext := h.next hdev hlt (by rw [hr]; rfl) (by
        rw [hr, hzero, add_zero]
        exact hlt')
      rw [hr, add_zero] at hnext
      rw [right_of_count hnext fun _ => Or.inr (by rw [hread]; exact hr)]
      constructor
      · exact fun hint => .eof hlt hr hint
      · intro hfits
        cases hfits with
        | none hend =>
            rw [hlt] at hend
            cases hend
        | eof _ _ hint => exact hint
        | error _ hneg =>
            rw [hr] at hneg
            exact absurd hneg (by decide)
        | more _ _ hne => exact absurd hr hne
  | case3 tot s hlt hm h0 ih =>
      rw [readnLoop, dif_pos hlt, dif_neg hm, dif_neg h0]
      have hread : read dev_lookup (buf + intWord tot) (n - intWord tot) s = _ := read_of_device hdev
      have hiff := read_inside hdev (Nat.le_of_lt (intLt_iff.mp hlt)) h.inside
      have hnext := h.next hdev hlt
      rw [hread] at hm h0 ih hiff hnext ⊢
      have hpos := Bool.eq_false_of_not_eq_true hm
      have hdev' : device dev_lookup (s.afterRead fd (buf + intWord tot)
          (answer dev s.calls fd.fd_offset (n - intWord tot))).fd = _ := device_advance hdev _
      constructor
      · intro hright
        have hwrites := readnLoop_writes dev_lookup buf n
            (tot + (answer dev s.calls fd.fd_offset (n - intWord tot)).r)
          (s.afterRead fd (buf + intWord tot) (answer dev s.calls fd.fd_offset (n - intWord tot)))
        have hroom := hiff.mp fun w hw => hright.inside w (hwrites.subset hw)
        exact .more hlt hpos h0 hroom ((ih _ hdev' (hnext hpos hroom)).mp hright)
      · intro hfits
        cases hfits with
        | none hend =>
            rw [hlt] at hend
            cases hend
        | eof _ hz => exact absurd hz h0
        | error _ hneg => exact absurd hneg hm
        | more _ _ _ hroom hrest => exact (ih _ hdev' (hnext hpos hroom)).mpr hrest
  | case4 tot s hlt =>
      rw [readnLoop, dif_neg hlt]
      have hend := Bool.eq_false_of_not_eq_true hlt
      have hge : tot.msb = false → n.toNat ≤ s.delivered.length := by
        intro hint
        have hword := toNat_intWord tot
        rw [intLt_iff, not_lt] at hlt
        rw [← h.count hint]
        rw [BitVec.msb_eq_decide] at hint
        have := of_decide_eq_false hint
        rw [if_pos (by omega)] at hword
        omega
      rw [right_of_count h fun hint => Or.inl (hge hint)]
      constructor
      · exact fun hint => .none hend hint
      · intro hfits
        cases hfits with
        | none _ hint => exact hint
        | eof hlt' => exact absurd hlt' hlt
        | error hlt' => exact absurd hlt' hlt
        | more hlt' => exact absurd hlt' hlt

theorem readnLoop_error (hdev : device dev_lookup s.fd = none) (hlt : intLt 0 n = true) :
    readnLoop dev_lookup buf n 0 s = (-E_INVAL, { s with last := -E_INVAL }) := by
  have hread : read dev_lookup (buf + intWord 0) (n - intWord 0) s = (-E_INVAL, { s with last := -E_INVAL }) :=
    read_of_none hdev
  rw [readnLoop, dif_pos hlt, dif_pos (by rw [hread]; exact E_INVAL_msb), hread]

/-- A descriptor that cannot be read is an error, without a store. -/
theorem readn_right_of_none {mem : Word → Byte} {calls : Nat} {fd : Option OpenFd}
    (hdev : device dev_lookup fd = none) : ReadnRight buf n (readn dev_lookup buf n (.start fd mem calls)) := by
  have hinside : Inside buf n [] := fun w hw => absurd hw List.not_mem_nil
  cases hlt : intLt 0 n with
  | true =>
      rw [readn, readnLoop_error hdev hlt]
      exact ⟨hinside, Or.inl ⟨E_INVAL_msb, rfl⟩, fun hpos => absurd (E_INVAL_msb.symm.trans hpos) (by decide)⟩
  | false =>
      rw [readn, readnLoop, dif_neg (by rw [hlt]; exact Bool.false_ne_true)]
      exact ⟨hinside, Or.inr ⟨rfl, Or.inr rfl⟩, fun _ k b hk => nomatch hk⟩

/-- `read` stores into the buffer only if and only if the device, when it is asked, does
    not answer with as many bytes as there are, nor with an error; and `readn` does all
    that is asked of it if and only if the answers it gets fit. -/
theorem reads_respect_iff (dev_lookup : U32 → Option DevReadFn) (fd : Option OpenFd) (mem : Word → Byte)
    (calls : Nat) (buf n : Word) :
    (Inside buf n (read dev_lookup buf n (.start fd mem calls)).2.writes ↔
      ∀ d dev, device dev_lookup fd = some (d, dev) → intLt (answer dev calls d.fd_offset n).r n = true) ∧
    (ReadnRight buf n (readn dev_lookup buf n (.start fd mem calls)) ↔
      ∀ d dev, device dev_lookup fd = some (d, dev) → Fits dev n calls d.fd_offset 0) := by
  have hinside : Inside buf n [] := fun w hw => absurd hw List.not_mem_nil
  have hzero : intWord 0 = 0 := by decide
  cases hdev : device dev_lookup fd with
  | none =>
      have hdev' : device dev_lookup (ReadSt.start fd mem calls).fd = none := hdev
      constructor
      · rw [read_of_none hdev']
        exact iff_of_true hinside nofun
      · exact iff_of_true (readn_right_of_none hdev) nofun
  | some x =>
      obtain ⟨d, dev⟩ := x
      have hdev' : device dev_lookup (ReadSt.start fd mem calls).fd = some (d, dev) := hdev
      constructor
      · have hiff : Inside buf n (read dev_lookup (buf + intWord 0) (n - intWord 0) _).2.writes ↔ _ :=
          read_inside hdev' (by rw [hzero]; exact Nat.zero_le _) hinside
        rw [hzero, add_zero, sub_zero, zero_add] at hiff
        rw [hiff, ← intLt_iff]
        constructor
        · intro hlt d' dev' heq
          cases heq
          exact hlt
        · exact fun hall => hall d dev rfl
      · have hinv : LoopInv buf n 0 (ReadSt.start fd mem calls) :=
          ⟨hinside, show (0 : U32).msb = false from rfl, fun _ => rfl, fun _ k b hk => nomatch hk⟩
        rw [readn, readnLoop_right_iff dev_lookup buf n 0 _ d dev hdev' hinv]
        constructor
        · intro hfits d' dev' heq
          cases heq
          exact hfits
        · exact fun hall => hall d dev rfl

/-! ## A file of one byte -/

/-- Whoever is asked delivers one byte, if one is wanted. -/
def oneByte : DevReadFn := fun _ n _ =>
  if h : 1 ≤ n.toNat then ⟨1, fun _ => 7, fun _ => h⟩ else ⟨0, fun _ => 7, fun _ => Nat.zero_le _⟩

def oneByteFd : OpenFd := ⟨102, 0, O_RDONLY⟩

/-- A buffer of one byte, before the call. -/
def oneByteSt : ReadSt := .start (some oneByteFd) (fun _ => 7) 0

/-- Reading one byte into it stores a null behind it, with either call. -/
theorem null_behind_buffer :
    ¬ Inside 999 1 (read (fun _ => some oneByte) 999 1 oneByteSt).2.writes ∧
    ¬ ReadnRight 999 1 (readn (fun _ => some oneByte) 999 1 oneByteSt) := by
  have hwrites : (read (fun _ => some oneByte) 999 1 oneByteSt).2.writes = [(999, 1), (1000, 1)] := rfl
  have hone : (read (fun _ => some oneByte) 999 1 oneByteSt).1 = 1 := rfl
  have hout : ∀ l, (1000, 1) ∈ l → ¬ Inside 999 1 l := by
    intro l hl h
    exact absurd (h _ hl 0 (by decide)) (by decide)
  have hnull : ((1000, 1) : Word × Nat) ∈ (read (fun _ => some oneByte) 999 1 oneByteSt).2.writes := by
    rw [hwrites]
    exact List.mem_cons_of_mem _ (List.mem_singleton_self _)
  refine ⟨hout _ hnull, fun h => ?_⟩
  have hfirst : read (fun _ => some oneByte) (999 + intWord 0) (1 - intWord 0) oneByteSt =
      read (fun _ => some oneByte) 999 1 oneByteSt := rfl
  -- What the first turn has stored stays stored.
  have hinside := h.inside
  rw [readn, readnLoop, dif_pos (by decide), hfirst, hone, dif_neg (by decide), dif_neg (by decide)] at hinside
  exact hout _ ((readnLoop_writes _ _ _ _ _).subset hnull) hinside

end FdIo

end RpiMos
