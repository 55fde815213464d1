/-
  RpiMos.User.Readline

  `readline` of user/sh.c: the keys of the console, one at a time, into a buffer.  What is
  printed on the way is left out.
-/

import RpiMos.User.FdClose
import RpiMos.User.ReadBuf
import RpiMos.Print.PrintNum

namespace RpiMos

open Lib

namespace Sh

theorem noByte_le (n : U32) : (0 : U32).msb = false → (0 : U32).toNat ≤ n.toNat := fun _ => Nat.zero_le n.toNat

theorem oneByte_le (n : U32) (h : n ≠ 0) : (1 : U32).msb = false → (1 : U32).toNat ≤ n.toNat := fun _ =>
  Nat.one_le_iff_ne_zero.mpr fun h0 => h (BitVec.eq_of_toNat_eq h0)

/-- `cons_read`, when `syscall_getc` has come to a key. -/
def consRead (key : Byte) : DevReadFn := fun _ n _ =>
  if h : n = 0 then ⟨0, fun _ => 0, noByte_le n⟩
  -- Control-D: the end of the file.
  else if key = 4 then ⟨0, fun _ => 0, noByte_le n⟩
  else ⟨1, fun _ => key, oneByte_le n h⟩

/-- Of the devices only the console is asked. -/
def consLookup (key : Byte) (dev_id : U32) : Option DevReadFn :=
  if dev_id = FileIo.DEV_CONS then some (consRead key) else none

/-- `'\b'` and 127. -/
def isDelete (c : Byte) : Bool := c = 8 ∨ c = 127

def isEnd (c : Byte) : Bool := c = chr '\r' ∨ c = chr '\n'

/-- `readline` has returned, with the keys that it has left; the process has exited; it
    waits for a key; or `i++` has left the range of an `int`, and nothing is known. -/
inductive LineEnd where
  | returned (s : ReadSt) (keys : List Byte)
  | exited (s : ReadSt)
  | waiting (s : ReadSt)
  | undefined (s : ReadSt)

def LineEnd.st : LineEnd → ReadSt
  | .returned s _ | .exited s | .waiting s | .undefined s => s

/-- `while((r = read(0, buf, 1)) == 1 && buf[0] != '\n');` and what follows it. -/
def drain (buf : Word) : List Byte → ReadSt → LineEnd
  | [], s => .waiting s
  | key :: keys, s =>
      -- `cons_read` yields until there is a key.
      if key = 0 then drain buf keys s
      else
        let (r, s) := FdIo.read (consLookup key) buf 1 s
        if r = 1 ∧ s.mem buf ≠ chr '\n' then drain buf keys s else .returned (s.st8 buf 0) keys

/-- The loop of `readline`, from `i` on. -/
def readlineLoop (buf n : Word) : List Byte → Int → ReadSt → LineEnd
  | [], i, s => if (BitVec.ofInt 64 i).toNat < n.toNat then .waiting s else drain buf [] s
  | key :: keys, i, s =>
      if (BitVec.ofInt 64 i).toNat < n.toNat then
        if key = 0 then readlineLoop buf n keys i s
        else
          let (r, s) := FdIo.read (consLookup key) (buf + BitVec.ofInt 64 i) 1 s
          if r ≠ 1 then .exited s
          else
            let c := s.mem (buf + BitVec.ofInt 64 i)
            if isDelete c then readlineLoop buf n keys (max (i - 2) (-1) + 1) s
            else if isEnd c then .returned (s.st8 (buf + BitVec.ofInt 64 i) 0) keys
            else if i = 2 ^ 31 - 1 then .undefined s
            else readlineLoop buf n keys (i + 1) s
      else drain buf (key :: keys) s

/-- `readline(buf, n)`. -/
def readline (buf n : Word) (keys : List Byte) (s : ReadSt) : LineEnd := readlineLoop buf n keys 0 s

/-! ## What is asked of it -/

/-- A key that is no end of the input: 0 is no key. -/
def typed (keys : List Byte) : List Byte := keys.filter fun c => c ≠ 0

/-- The keys before the end of the line, and the others. -/
def line (keys : List Byte) : List Byte := (typed keys).takeWhile fun c => !isEnd c
def behind (keys : List Byte) : List Byte := (typed keys).dropWhile fun c => !isEnd c

/-- A key is appended to the text, or deletes its last character. -/
def edit (t : List Byte) (key : Byte) : List Byte := if isDelete key then t.dropLast else t ++ [key]

/-- While the line is typed, `t` being there, the edit position stays below `n`. -/
def StaysBelow (n : Nat) (t line : List Byte) : Prop := ∀ p, p <+: line → (p.foldl edit t).length < n

/-- The text is at `buf`, with a null. -/
def TextAt (mem : Word → Byte) (buf : Word) (t : List Byte) : Prop :=
  (∀ (k : Nat) (hk : k < t.length), mem (buf + BitVec.ofNat 64 k) = t.get ⟨k, hk⟩) ∧
    mem (buf + BitVec.ofNat 64 t.length) = 0

/-- How it ends, when `t` is there already.  Control-D ends the input. -/
def EndsRight (buf n : Word) (t keys : List Byte) : LineEnd → Prop
  | .returned s rest => (4 : Byte) ∉ line keys ∧ (∃ e, behind keys = e :: typed rest) ∧
      (StaysBelow n.toNat t (line keys) → TextAt s.mem buf ((line keys).foldl edit t)) ∧
      (¬ StaysBelow n.toNat t (line keys) → TextAt s.mem buf [])
  | .exited _ => (4 : Byte) ∈ line keys
  | .waiting _ => (4 : Byte) ∉ line keys ∧ behind keys = []
  | .undefined _ => False

/-- Only `buf[0..n)` is stored to; and a line that is short enough is there in the end, and
    the keys behind it are left. -/
structure LineRight (buf n : Word) (t keys : List Byte) (out : LineEnd) : Prop where
  inside : FdIo.Inside buf n out.st.writes
  ends : EndsRight buf n t keys out

/-- Before the end of the line or of the input no key comes with the edit position at
    `n - 1`, and no character with it at the greatest `int`. -/
def LineFits (n : Nat) : List Byte → Nat → Prop
  | [], _ => True
  | key :: keys, p =>
      if key = 0 then LineFits n keys p
      else if key = 4 then True
      else p + 1 < n ∧
        if isDelete key then LineFits n keys (p - 1)
        else if isEnd key then True
        else p + 1 < 2 ^ 31 ∧ LineFits n keys (p + 1)

instance LineFits.decidable (n : Nat) : (keys : List Byte) → (p : Nat) → Decidable (LineFits n keys p)
  | [], _ => inferInstanceAs (Decidable True)
  | key :: keys, p =>
      have := LineFits.decidable n keys p
      have := LineFits.decidable n keys (p - 1)
      have := LineFits.decidable n keys (p + 1)
      inferInstanceAs (Decidable (if key = 0 then LineFits n keys p
        else if key = 4 then True
        else p + 1 < n ∧
          if isDelete key then LineFits n keys (p - 1)
          else if isEnd key then True
          else p + 1 < 2 ^ 31 ∧ LineFits n keys (p + 1)))

variable {buf n a : Word} {keys t : List Byte} {key c : Byte} {s s' : ReadSt} {out : LineEnd}

/-! ## `read(0, a, 1)` -/

/-- The console can be read. -/
def ConsoleFd (s : ReadSt) : Prop :=
  ∃ fd, s.fd = some fd ∧ fd.fd_dev_id = FileIo.DEV_CONS ∧ fd.fd_omode &&& O_ACCMODE ≠ O_WRONLY

theorem device_of_console {fd : OpenFd} (hfd : s.fd = some fd) (hdev : fd.fd_dev_id = FileIo.DEV_CONS)
    (hmode : fd.fd_omode &&& O_ACCMODE ≠ O_WRONLY) :
    FdIo.device (consLookup key) s.fd = some (fd, consRead key) := by
  rw [FdIo.device, hfd, Option.bind_some, consLookup, if_pos hdev, Option.bind_some, if_neg hmode]

/-- What a key does: it is stored, with a null behind it. -/
structure KeyRead (s : ReadSt) (a : Word) (key : Byte) (s' : ReadSt) : Prop where
  console : ConsoleFd s'
  writes : s'.writes = s.writes ++ [(a, 1)] ++ [(a + 1, 1)]
  key : s'.mem a = key
  others : ∀ x, x ≠ a → x ≠ a + 1 → s'.mem x = s.mem x

theorem read_key (h : ConsoleFd s) (h4 : key ≠ 4) :
    ∃ s', FdIo.read (consLookup key) a 1 s = (1, s') ∧ KeyRead s a key s' := by
  obtain ⟨fd, hfd, hdev, hmode⟩ := h
  have hanswer : FdIo.answer (consRead key) s.calls fd.fd_offset 1 = ⟨1, fun _ => key, fun _ => Nat.le_refl 1⟩ := by
    unfold FdIo.answer consRead
    rw [dif_neg (by decide), if_neg h4]
  have hcount : DevRead.count (⟨1, fun _ => key, fun _ => Nat.le_refl 1⟩ : DevRead 1) = 1 :=
    DevRead.count_of_not_msb (show BitVec.msb (1 : U32) = false by decide)
  have hone : intWord 1 = 1 := by decide
  rw [FdIo.read_of_device (device_of_console hfd hdev hmode), hanswer]
  have hmem : ∀ x, (s.afterRead fd a (⟨1, fun _ => key, fun _ => Nat.le_refl 1⟩ : DevRead 1)).mem x =
      if x = a + 1 then 0 else if x = a then key else s.mem x := by
    intro x
    show Function.update (s.deliver a _).mem (a + intWord 1) 0 x = _
    rw [hone, Function.update_apply]
    refine if_congr Iff.rfl rfl ?_
    show (if (x - a).toNat < DevRead.count _ then key else s.mem x) = _
    rw [hcount]
    refine if_congr ?_ rfl rfl
    rw [Nat.lt_one_iff]
    bv_omega
  have hne : a ≠ a + 1 := by bv_omega
  refine ⟨_, rfl, ⟨_, rfl, hdev, hmode⟩, ?_, ?_, fun x hx hx' => ?_⟩
  · rw [ReadSt.afterRead_writes, hcount, hone]
  · rw [hmem, if_neg hne, if_pos rfl]
  · rw [hmem, if_neg hx', if_neg hx]

/-- Control-D is read as no character; a null is stored all the same. -/
theorem read_eot (h : ConsoleFd s) : ∃ s', FdIo.read (consLookup 4) a 1 s = (0, s') ∧
    s'.writes = s.writes ++ [(a, 0)] ++ [(a, 1)] := by
  obtain ⟨fd, hfd, hdev, hmode⟩ := h
  have hanswer : FdIo.answer (consRead 4) s.calls fd.fd_offset 1 = ⟨0, fun _ => 0, noByte_le 1⟩ := by
    unfold FdIo.answer consRead
    rw [dif_neg (by decide), if_pos rfl]
  rw [FdIo.read_of_device (device_of_console hfd hdev hmode), hanswer]
  refine ⟨_, rfl, ?_⟩
  have hcount : DevRead.count (⟨0, fun _ => 0, noByte_le 1⟩ : DevRead 1) = 0 := DevRead.count_of_not_msb rfl
  have hzero : a + intWord 0 = a := BitVec.add_zero a
  rw [ReadSt.afterRead_writes, hcount, hzero]

/-! ## Stores -/

theorem inside_one {p : Nat} (hp : p < 2 ^ 64) : FdIo.Inside buf n [(buf + BitVec.ofNat 64 p, 1)] ↔ p < n.toNat := by
  have haddr : (buf + BitVec.ofNat 64 p + BitVec.ofNat 64 0 - buf).toNat = p := by
    rw [BitVec.add_zero, BitVec.add_comm, BitVec.add_sub_cancel, BitVec.toNat_ofNat, Nat.mod_eq_of_lt hp]
  constructor
  · intro h
    have h0 := h _ (List.mem_singleton_self _) 0 Nat.one_pos
    rwa [haddr] at h0
  · intro h w hw k hk
    rw [List.mem_singleton.mp hw] at hk ⊢
    rw [Nat.lt_one_iff.mp hk, haddr]
    exact h

/-- The null behind a key is not inside where the key is the last byte. -/
theorem inside_key {p : Nat} (hp : p < n.toNat) (hin : FdIo.Inside buf n s.writes)
    (hkey : KeyRead s (buf + BitVec.ofNat 64 p) key s') :
    FdIo.Inside buf n s'.writes ↔ p + 1 < n.toNat := by
  have hn := n.isLt
  have hnull : buf + BitVec.ofNat 64 p + 1 = buf + BitVec.ofNat 64 (p + 1) := by
    rw [BitVec.ofNat_add, BitVec.add_assoc]
    rfl
  rw [hkey.writes, hnull, FdIo.inside_append, FdIo.inside_append, inside_one (by omega), inside_one (by omega)]
  exact ⟨fun h => h.2, fun h => ⟨⟨hin, hp⟩, h⟩⟩

theorem inside_mono {l l' : List (Word × Nat)} (h : l <+: l') (hin : FdIo.Inside buf n l') : FdIo.Inside buf n l :=
  fun w hw => hin w (h.subset hw)

/-- What has been stored to is not forgotten. -/
theorem drain_writes (buf : Word) (keys : List Byte) (s : ReadSt) : s.writes <+: (drain buf keys s).st.writes := by
  induction keys generalizing s with
  | nil => exact List.prefix_rfl
  | cons key keys ih =>
      have hread := FdIo.read_writes (consLookup key) buf 1 s
      rw [drain]
      split
      · exact ih s
      · dsimp only
        split
        · exact hread.trans (ih _)
        · exact hread.trans (List.prefix_append _ _)

theorem loop_writes (buf n : Word) (keys : List Byte) (i : Int) (s : ReadSt) :
    s.writes <+: (readlineLoop buf n keys i s).st.writes := by
  induction keys generalizing i s with
  | nil =>
      rw [readlineLoop]
      split
      · exact List.prefix_rfl
      · exact drain_writes buf [] s
  | cons key keys ih =>
      have hread := FdIo.read_writes (consLookup key) (buf + BitVec.ofInt 64 i) 1 s
      rw [readlineLoop]
      split
      · split
        · exact ih i s
        · dsimp only
          split
          · exact hread
          · split
            · exact hread.trans (ih _ _)
            · split
              · exact hread.trans (List.prefix_append _ _)
              · split
                · exact hread
                · exact hread.trans (ih _ _)
      · exact drain_writes buf (key :: keys) s

/-! ## Keys -/

theorem typed_cons (h0 : key ≠ 0) (keys : List Byte) : typed (key :: keys) = key :: typed keys :=
  List.filter_cons_of_pos (decide_eq_true h0)

theorem typed_zero (keys : List Byte) : typed (0 :: keys) = typed keys := List.filter_cons_of_neg (by decide)

theorem line_cons (h0 : key ≠ 0) (hend : isEnd key = false) (keys : List Byte) :
    line (key :: keys) = key :: line keys := by
  rw [line, typed_cons h0, List.takeWhile_cons_of_pos (by rw [hend]; rfl)]
  rfl

theorem behind_cons (h0 : key ≠ 0) (hend : isEnd key = false) (keys : List Byte) :
    behind (key :: keys) = behind keys := by
  rw [behind, typed_cons h0, List.dropWhile_cons_of_pos (by rw [hend]; rfl)]
  rfl

theorem line_end (h0 : key ≠ 0) (hend : isEnd key = true) (keys : List Byte) : line (key :: keys) = [] := by
  rw [line, typed_cons h0, List.takeWhile_cons_of_neg (by rw [hend]; exact Bool.false_ne_true)]

theorem behind_end (h0 : key ≠ 0) (hend : isEnd key = true) (keys : List Byte) :
    behind (key :: keys) = key :: typed keys := by
  rw [behind, typed_cons h0, List.dropWhile_cons_of_neg (by rw [hend]; exact Bool.false_ne_true)]

theorem staysBelow_cons {m : Nat} (ht : t.length < m) (l : List Byte) :
    StaysBelow m t (key :: l) ↔ StaysBelow m (edit t key) l := by
  constructor
  · intro h p hp
    exact h (key :: p) ((List.prefix_cons_inj key).mpr hp)
  · intro h p hp
    rcases List.prefix_cons_iff.mp hp with rfl | ⟨p', rfl, hp'⟩
    · exact ht
    · exact h p' hp'

/-- A key that ends neither the line nor the input. -/
theorem lineRight_step (h0 : key ≠ 0) (h4 : key ≠ 4) (hend : isEnd key = false) (ht : t.length < n.toNat) :
    LineRight buf n t (key :: keys) out ↔ LineRight buf n (edit t key) keys out := by
  have hends : EndsRight buf n t (key :: keys) out ↔ EndsRight buf n (edit t key) keys out := by
    have hmem : (4 : Byte) ∈ key :: line keys ↔ 4 ∈ line keys := by
      rw [List.mem_cons, or_iff_right (Ne.symm h4)]
    cases out with
    | returned s rest =>
        unfold EndsRight
        rw [line_cons h0 hend, behind_cons h0 hend, hmem, staysBelow_cons ht]
        rfl
    | exited s =>
        unfold EndsRight
        rw [line_cons h0 hend]
        exact hmem
    | waiting s =>
        unfold EndsRight
        rw [line_cons h0 hend, behind_cons h0 hend, hmem]
    | undefined s => exact Iff.rfl
  exact ⟨fun h => ⟨h.inside, hends.mp h.ends⟩, fun h => ⟨h.inside, hends.mpr h.ends⟩⟩

theorem lineRight_zero : LineRight buf n t (0 :: keys) out ↔ LineRight buf n t keys out := by
  have hends : EndsRight buf n t (0 :: keys) out ↔ EndsRight buf n t keys out := by
    unfold EndsRight line behind
    rw [typed_zero]
  exact ⟨fun h => ⟨h.inside, hends.mp h.ends⟩, fun h => ⟨h.inside, hends.mpr h.ends⟩⟩

/-! ## The loop -/

/-- The text so far, without its null. -/
structure Typed (buf : Word) (t : List Byte) (s : ReadSt) : Prop where
  console : ConsoleFd s
  text : ∀ (k : Nat) (hk : k < t.length), s.mem (buf + BitVec.ofNat 64 k) = t.get ⟨k, hk⟩

/-- A key at the edit position leaves the text as it is. -/
theorem Typed.read (h : Typed buf t s) (ht : t.length + 1 < 2 ^ 64)
    (hkey : KeyRead s (buf + BitVec.ofNat 64 t.length) key s') :
    Typed buf t s' := by
  refine ⟨hkey.console, fun k hk => ?_⟩
  have hhere : buf + BitVec.ofNat 64 k ≠ buf + BitVec.ofNat 64 t.length := by bv_omega
  have hnull : buf + BitVec.ofNat 64 k ≠ buf + BitVec.ofNat 64 t.length + 1 := by bv_omega
  rw [hkey.others _ hhere hnull]
  exact h.text k hk

theorem Typed.dropLast (h : Typed buf t s) : Typed buf t.dropLast s := by
  refine ⟨h.console, fun k hk => ?_⟩
  rw [List.length_dropLast] at hk
  rw [h.text k (by omega), List.get_eq_getElem, List.get_eq_getElem, List.getElem_dropLast]

theorem Typed.append (h : Typed buf t s) (hkey : s.mem (buf + BitVec.ofNat 64 t.length) = key) :
    Typed buf (t ++ [key]) s := by
  refine ⟨h.console, fun k hk => ?_⟩
  rw [List.get_eq_getElem]
  by_cases hlast : k < t.length
  · rw [List.getElem_append_left hlast]
    exact h.text k hlast
  · have hk' : k = t.length := by
      have hle := hk
      rw [List.length_append, List.length_singleton] at hle
      omega
    subst hk'
    exact hkey.trans (List.getElem_concat_length rfl _).symm

/-- From the edit position on; induction on the keys. -/
theorem loop_iff (h : Typed buf t s) (hin : FdIo.Inside buf n s.writes) (ht : t.length < n.toNat)
    (hint : t.length < 2 ^ 31) :
    LineRight buf n t keys (readlineLoop buf n keys t.length s) ↔ LineFits n.toNat keys t.length := by
  have hn := n.isLt
  induction keys generalizing t s with
  | nil =>
      have hlt : (BitVec.ofInt 64 (t.length : Int)).toNat < n.toNat := by
        rw [BitVec.ofInt_natCast, BitVec.toNat_ofNat, Nat.mod_eq_of_lt (by omega)]
        exact ht
      rw [readlineLoop, if_pos hlt]
      exact iff_of_true ⟨hin, List.not_mem_nil, rfl⟩ trivial
  | cons key keys ih =>
      have hlt : (BitVec.ofInt 64 (t.length : Int)).toNat < n.toNat := by
        rw [BitVec.ofInt_natCast, BitVec.toNat_ofNat, Nat.mod_eq_of_lt (by omega)]
        exact ht
      rw [readlineLoop, if_pos hlt, LineFits]
      by_cases h0 : key = 0
      · rw [if_pos h0, if_pos h0, h0, lineRight_zero]
        exact ih h hin ht hint
      · rw [if_neg h0, if_neg h0, BitVec.ofInt_natCast]
        by_cases h4 : key = 4
        · obtain ⟨s', hread, hwrites⟩ :
            ∃ s', FdIo.read (consLookup 4) (buf + BitVec.ofNat 64 t.length) 1 s = (0, s') ∧ _ :=
            read_eot h.console
          rw [if_pos h4, h4, hread]
          dsimp only
          rw [if_pos (by decide)]
          refine iff_of_true ⟨?_, ?_⟩ trivial
          · show FdIo.Inside buf n s'.writes
            rw [hwrites, FdIo.inside_append, FdIo.inside_append, inside_one (by omega)]
            refine ⟨⟨hin, fun w hw k hk => ?_⟩, ht⟩
            rw [List.mem_singleton.mp hw] at hk
            cases hk
          · show (4 : Byte) ∈ line (4 :: keys)
            rw [line_cons (by decide) (by decide)]
            exact List.mem_cons_self
        · obtain ⟨s', hread, hkey⟩ :
            ∃ s', FdIo.read (consLookup key) (buf + BitVec.ofNat 64 t.length) 1 s = (1, s') ∧ _ :=
            read_key h.console h4
          have hstored := inside_key ht hin hkey
          have htext := h.read (by omega) hkey
          rw [if_neg h4, hread]
          dsimp only
          rw [if_neg (not_not.mpr rfl), hkey.key, ← hstored]
          -- Without room for the null behind it the key is stored all the same.
          by_cases hroom : FdIo.Inside buf n s'.writes
          · rw [and_iff_right hroom]
            have hnext := hstored.mp hroom
            cases hdelete : isDelete key with
            | true =>
                have hend : isEnd key = false := by
                  have hboth : ∀ c : Byte, isDelete c = true → isEnd c = false := by decide
                  exact hboth key hdelete
                have hindex : max ((t.length : Int) - 2) (-1) + 1 = (t.dropLast.length : Nat) := by
                  rw [List.length_dropLast]
                  omega
                have hedit : edit t key = t.dropLast := if_pos hdelete
                have hlen : t.dropLast.length = t.length - 1 := List.length_dropLast
                rw [if_pos rfl, if_pos rfl, hindex, lineRight_step h0 h4 hend ht, hedit, ← hlen]
                exact ih htext.dropLast hroom (by omega) (by omega)
            | false =>
                rw [if_neg Bool.false_ne_true, if_neg Bool.false_ne_true]
                cases hend : isEnd key with
                | true =>
                    rw [if_pos rfl, if_pos rfl]
                    refine iff_of_true ⟨?_, ?_⟩ trivial
                    · show FdIo.Inside buf n (s'.writes ++ [(buf + BitVec.ofNat 64 t.length, 1)])
                      rw [FdIo.inside_append, inside_one (by omega)]
                      exact ⟨hroom, ht⟩
                    · unfold EndsRight
                      dsimp only
                      rw [line_end h0 hend, behind_end h0 hend]
                      refine ⟨List.not_mem_nil, ⟨key, rfl⟩, fun _ => ⟨fun k hk => ?_, ?_⟩, fun hfar => absurd ?_ hfar⟩
                      · show Function.update s'.mem (buf + BitVec.ofNat 64 t.length) 0 (buf + BitVec.ofNat 64 k) = _
                        have hk' : k < t.length := hk
                        rw [Function.update_of_ne (by bv_omega)]
                        exact htext.text k hk
                      · exact Function.update_self _ _ _
                      · intro p hp
                        rw [List.prefix_nil.mp hp]
                        exact ht
                | false =>
                    rw [if_neg Bool.false_ne_true, if_neg Bool.false_ne_true]
                    by_cases hlast : (t.length : Int) = 2 ^ 31 - 1
                    · rw [if_pos hlast]
                      exact iff_of_false (fun hright => hright.ends) (fun hfits => by omega)
                    · have hedit : edit t key = t ++ [key] := if_neg (by rw [hdelete]; exact Bool.false_ne_true)
                      have hlen : (t ++ [key]).length = t.length + 1 := List.length_append
                      rw [if_neg hlast, lineRight_step h0 h4 hend ht, hedit, and_iff_right (by omega)]
                      have hrest := ih (htext.append hkey.key) hroom (by omega) (by omega)
                      rw [hlen] at hrest
                      exact hrest
          · refine iff_of_false (fun hright => hroom (inside_mono ?_ hright.inside)) (fun hfits => hroom hfits.1)
            split
            · exact loop_writes _ _ _ _ _
            · split
              · exact List.prefix_append _ _
              · split
                · exact List.prefix_rfl
                · exact loop_writes _ _ _ _ _

/-- For which keys `readline` stores into its buffer only and ends as it should. -/
theorem readline_right_iff (buf n : Word) (keys : List Byte) (mem : Word → Byte) (calls : Nat) (fd : OpenFd)
    (hn : 2 ≤ n.toNat) (hdev : fd.fd_dev_id = FileIo.DEV_CONS) (hmode : fd.fd_omode &&& O_ACCMODE ≠ O_WRONLY) :
    LineRight buf n [] keys (readline buf n keys (.start (some fd) mem calls)) ↔ LineFits n.toNat keys 0 := by
  have hstart : Typed buf [] (.start (some fd) mem calls) := ⟨⟨fd, rfl, hdev, hmode⟩, nofun⟩
  exact loop_iff hstart nofun (Nat.lt_of_lt_of_le Nat.two_pos hn) (by decide)

/-- The descriptor that `opencons` makes. -/
def console : OpenFd := ⟨FileIo.DEV_CONS, 0, 2⟩

/-- `a`, `x`, backspace, `b` and the end of the line, in a buffer of four. -/
theorem ab_right : LineFits (4 : Word).toNat [chr 'a', chr 'x', 8, chr 'b', chr '\r'] 0 ∧
    LineRight 1000 4 [] [chr 'a', chr 'x', 8, chr 'b', chr '\r']
      (readline 1000 4 [chr 'a', chr 'x', 8, chr 'b', chr '\r'] (.start (some console) (fun _ => 7) 0)) := by
  have hfits : LineFits (4 : Word).toNat [chr 'a', chr 'x', 8, chr 'b', chr '\r'] 0 := by decide
  exact ⟨hfits, (readline_right_iff 1000 4 _ (fun _ => 7) 0 console (by decide) rfl (by decide)).mpr hfits⟩

/-- In a buffer of two the end of a line of one character is stored with a null behind the
    buffer; and a line of two is taken to go on behind its end. -/
theorem line_at_limit :
    ¬ FdIo.Inside 1000 2 (readline 1000 2 [chr 'a', chr '\r'] (.start (some console) (fun _ => 7) 0)).st.writes ∧
    ¬ EndsRight 1000 2 [] [chr 'a', chr 'b', chr '\r', chr 'c']
      (readline 1000 2 [chr 'a', chr 'b', chr '\r', chr 'c'] (.start (some console) (fun _ => 7) 0)) := by
  constructor
  · intro h
    have hwrites : ((1002, 1) : Word × Nat) ∈
        (readline 1000 2 [chr 'a', chr '\r'] (.start (some console) (fun _ => 7) 0)).st.writes := by decide
    exact absurd (h _ hwrites 0 Nat.one_pos) (by decide)
  · obtain ⟨s, hs⟩ :
      ∃ s, readline 1000 2 [chr 'a', chr 'b', chr '\r', chr 'c'] (.start (some console) (fun _ => 7) 0) =
      .waiting s := ⟨_, rfl⟩
    rw [hs]
    intro h
    exact absurd h.2 (by decide)

end Sh

end RpiMos
