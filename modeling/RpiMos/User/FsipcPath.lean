/-
  RpiMos.User.FsipcPath

  The requests of user/fsipc.c that carry a path, from the client's string to the
  path that a handler of fs/serv.c works on.  The client counts and copies the
  string byte by byte; the server copies `MAXPATHLEN` bytes out of the request
  page and ends them with a null.
-/

import RpiMos.User.Fsipc
import RpiMos.Lib.ByteMem

namespace RpiMos

open Lib

namespace Client

variable {m m' : ByteMem} {p dst src n : Nat} {c : BitVec 8} {path : List (BitVec 8)}

/-! ## user/string.c -/

/-- The loop of `strlen`, with `n` counted, for at most so many turns. -/
def strlenLoop (m : ByteMem) : Nat → Nat → U32 → Option U32
  | 0, _, _ => none
  | turns + 1, s, n => if m.ld8 s = 0 then some n else strlenLoop m turns (s + 1) (n + 1)

def strlen (turns : Nat) (m : ByteMem) (s : Nat) : Option U32 := strlenLoop m turns s 0

/-- `while ((*dst++ = *src++) != 0);`. -/
def strcpy : Nat → ByteMem → Nat → Nat → Option ByteMem
  | 0, _, _, _ => none
  | turns + 1, m, dst, src =>
      let c := m.ld8 src
      if c = 0 then some (m.st8 dst c) else strcpy turns (m.st8 dst c) (dst + 1) (src + 1)

/-- The null-terminated string `path` stands at `p`. -/
def CString (m : ByteMem) (p : Nat) : List (BitVec 8) → Prop
  | [] => m.ld8 p = 0
  | c :: path => m.ld8 p = c ∧ c ≠ 0 ∧ CString m (p + 1) path

/-- The string reads its own bytes only. -/
theorem CString.congr (h : CString m p path) (hm : ∀ a, p ≤ a → a ≤ p + path.length → m' a = m a) :
    CString m' p path := by
  induction path generalizing p with
  | nil => exact (hm p (le_refl p) (by simp)).trans h
  | cons c path ih =>
      refine ⟨(hm p (le_refl p) (by omega)).trans h.1, h.2.1, ih h.2.2 fun a hlo hhi => ?_⟩
      apply hm a (by omega)
      rw [List.length_cons]
      omega

/-- Byte `i` of the string, for an `i` before its null. -/
theorem CString.get (h : CString m p path) {i : Nat} (hi : i < path.length) :
    m (p + i) = path.get ⟨i, hi⟩ := by
  induction path generalizing p i with
  | nil => cases hi
  | cons c path ih =>
      cases i with
      | zero => exact h.1
      | succ i =>
          have hi' : i < path.length := Nat.lt_of_succ_lt_succ hi
          have := ih h.2.2 hi'
          rwa [Nat.add_right_comm] at this

theorem CString.end_eq (h : CString m p path) : m (p + path.length) = 0 := by
  induction path generalizing p with
  | nil => exact h
  | cons c path ih =>
      have := ih h.2.2
      rwa [Nat.add_right_comm] at this

theorem CString.ne_zero (h : CString m p path) : (0 : BitVec 8) ∉ path := by
  induction path generalizing p with
  | nil => exact List.not_mem_nil
  | cons c path ih =>
      intro hmem
      rcases List.mem_cons.mp hmem with h0 | hmem
      · exact h.2.1 h0.symm
      · exact ih h.2.2 hmem

theorem strlenLoop_eq (h : CString m p path) (hn : path.length < n) (k : U32) :
    strlenLoop m n p k = some (k + BitVec.ofNat 32 path.length) := by
  induction path generalizing p n k with
  | nil =>
      obtain ⟨n, rfl⟩ : ∃ j, n = j + 1 := ⟨n - 1, by omega⟩
      have h0 : m.ld8 p = 0 := h
      rw [strlenLoop, if_pos h0]
      simp
  | cons c path ih =>
      obtain ⟨n, rfl⟩ : ∃ j, n = j + 1 := ⟨n - 1, by omega⟩
      have hc : ¬ m.ld8 p = 0 := h.1 ▸ h.2.1
      have hn' : path.length < n := by
        rw [List.length_cons] at hn
        omega
      rw [strlenLoop, if_neg hc, ih h.2.2 hn', List.length_cons, BitVec.ofNat_add, BitVec.add_assoc,
        BitVec.add_comm 1]
      rfl

/-- `strlen` counts in an `int`. -/
theorem strlen_eq (h : CString m p path) (hn : path.length < n) :
    strlen n m p = some (BitVec.ofNat 32 path.length) := by
  rw [strlen, strlenLoop_eq h hn]
  exact congrArg some (BitVec.zero_add _)

/-- A copy downwards, or to a place past the string: induction on the string,
    whose rest no store has reached. -/
theorem strcpy_eq (dst : Nat) (h : CString m src path) (hplace : dst ≤ src ∨ src + path.length < dst) :
    ∃ m', (∀ n, path.length < n → strcpy n m dst src = some m') ∧ CString m' dst path ∧
      ∀ a, a < dst ∨ dst + path.length < a → m' a = m a := by
  induction path generalizing m dst src with
  | nil =>
      refine ⟨m.st8 dst (m.ld8 src), fun n hn => ?_, ?_, fun a ha => ?_⟩
      · obtain ⟨n, rfl⟩ : ∃ j, n = j + 1 := ⟨n - 1, by omega⟩
        rw [strcpy]
        exact if_pos h
      · show (m.st8 dst (m.ld8 src)).ld8 dst = 0
        rw [ByteMem.ld8_st8]
        exact h
      · rw [List.length_nil] at ha
        rw [ByteMem.st8, if_neg (by omega)]
  | cons c path ih =>
      rw [List.length_cons] at hplace
      have hc : ¬ m.ld8 src = 0 := h.1 ▸ h.2.1
      have hrest : CString (m.st8 dst (m.ld8 src)) (src + 1) path := by
        refine h.2.2.congr fun a hlo hhi => ?_
        rw [ByteMem.st8, if_neg (by omega)]
      obtain ⟨m', hcpy, hstr, hframe⟩ := ih (dst + 1) hrest (by omega)
      refine ⟨m', fun n hn => ?_, ⟨?_, h.2.1, hstr⟩, fun a ha => ?_⟩
      · obtain ⟨n, rfl⟩ : ∃ j, n = j + 1 := ⟨n - 1, by omega⟩
        rw [strcpy]
        exact (if_neg hc).trans (hcpy n (Nat.lt_of_succ_lt_succ hn))
      · rw [ByteMem.ld8, hframe dst (by omega)]
        exact ByteMem.ld8_st8 _ |>.trans h.1
      · rw [List.length_cons] at ha
        rw [hframe a (by omega), ByteMem.st8, if_neg (by omega)]

/-- A copy to a place inside the string never comes to a null: the bytes between
    `src` and `dst` are copied over and over. -/
theorem strcpy_overlap (hlt : src < dst) (hne : ∀ a, src ≤ a → a < dst → m.ld8 a ≠ 0) :
    strcpy n m dst src = none := by
  induction n generalizing m dst src with
  | zero => rfl
  | succ n ih =>
      have hc : ¬ m.ld8 src = 0 := hne src (le_refl _) hlt
      rw [strcpy]
      refine (if_neg hc).trans (ih (by omega) fun a hlo hhi => ?_)
      by_cases ha : a = dst
      · rw [ha, ByteMem.ld8_st8]
        exact hc
      · rw [ByteMem.ld8, ByteMem.st8, if_neg ha]
        exact hne a (by omega) (by omega)

end Client

/-! ## The three requests -/

/-- The bytes of the page at `a`. -/
def PageWords.ofMem (m : ByteMem) (a : Nat) : PageWords := fun i => m.ld64 (a + 8 * i.val)

def MAXFILESIZE : Nat := 4194304

section Requests

variable (turns : Nat) (m : ByteMem) (fsipcbuf path : Nat)

/-- A request that carries a path: refused when `strlen(path) >= bound`, else the
    path at byte `off` of the page and then the word `field` at byte `fieldOff`.  The
    call of `fsipc` that is made, with the memory it is made in, or the error. -/
def fsipcPath (bound off fieldOff : Nat) (field : Option U32) (type : Word) (dstva : Word) (perm : Bool) :
    Option (Except U32 (ByteMem × Call)) :=
  (Client.strlen turns m path).bind fun len =>
    if (bound : Int) ≤ len.toInt then some (.error (-E_BAD_PATH))
    else (Client.strcpy turns m (fsipcbuf + off) path).bind fun m₁ =>
      let m₂ := field.elim m₁ (m₁.st32 (fsipcbuf + fieldOff))
      some (.ok (m₂, ⟨type.setWidth 32, PageWords.ofMem m₂ fsipcbuf, dstva, perm⟩))

def fsipcOpen (omode : U32) (fd : Word) : Option (Except U32 (ByteMem × Call)) :=
  fsipcPath turns m fsipcbuf path MAXPATHLEN 0 1024 (some omode) FSREQ_OPEN fd true

/-- The path stands after the file type, and is measured against `MAXFILESIZE`. -/
def fsipcCreate (filetype : U32) : Option (Except U32 (ByteMem × Call)) :=
  fsipcPath turns m fsipcbuf path MAXFILESIZE 4 0 (some filetype) FSREQ_CREATE 0 false

def fsipcRemove : Option (Except U32 (ByteMem × Call)) :=
  fsipcPath turns m fsipcbuf path MAXPATHLEN 0 0 none FSREQ_REMOVE 0 false

end Requests

/-! ## What the handlers make of them -/

/-- File system functions that note the path they are given. -/
def notePath : FsOps (Option Path) where
  open_alloc s := (0, 0, s)
  file_open path _ := (0, 0, some path)
  fill_open _ _ _ s := s
  o_ff _ _ := 0
  o_file _ _ := 0
  open_lookup _ _ _ := (0, 0)
  file_get_block _ _ s := (0, 0, s)
  file_set_size _ _ s := (0, s)
  file_close _ s := s
  file_dirty _ _ s := (0, s)
  file_remove path _ := (0, some path)
  file_create path _ _ := (0, some path)
  fs_sync s := s

/-- The path that the handler of the request hands on. -/
def servedPath (q : Request) : Option Path :=
  (serve notePath 0 q.2 none q.1).bind fun x => x.2

def notNull (c : BitVec 8) : Bool := c ≠ 0

/-- The string that a path buffer holds. -/
def Path.str (path : Path) : List (BitVec 8) := (List.ofFn path).takeWhile notNull

/-- The request is refused, or only the page at `fsipcbuf` is written and the
    server works on the string `path`. -/
def PathKept (m : ByteMem) (fsipcbuf : Nat) (path : List (BitVec 8)) :
    Except U32 (ByteMem × Call) → Prop
  | .error e => e = -E_BAD_PATH
  | .ok (m', call) => (∀ a, a < fsipcbuf ∨ fsipcbuf + BY2PG ≤ a → m' a = m a) ∧
      (servedPath call.request).map Path.str = some path

/-- Given turns enough for the string, the function `f` ends and keeps the path. -/
def MarshalsPath (f : Nat → Option (Except U32 (ByteMem × Call))) (m : ByteMem) (fsipcbuf : Nat)
    (path : List (BitVec 8)) : Prop :=
  ∃ r, (∀ turns, path.length < turns → f turns = some r) ∧ PathKept m fsipcbuf path r

/-- The length is refused, or the path fits a `req_path` at byte `off` to which
    it can be copied: the place is not inside the string. -/
def PathFits (fsipcbuf p : Nat) (path : List (BitVec 8)) (bound off : Nat) : Prop :=
  (bound : Int) ≤ (BitVec.ofNat 32 path.length : U32).toInt ∨
  (path.length < MAXPATHLEN ∧ ¬ (p < fsipcbuf + off ∧ fsipcbuf + off ≤ p + path.length))

/-! ## Bytes of the page -/

theorem u8At_ofMem (m : ByteMem) (a : Nat) (off : Fin 4096) :
    (PageWords.ofMem m a).u8At off = m (a + off.val) := by
  show (m.ld64 (a + 8 * (off.val / 8)) >>> (8 * (off.val % 8))).setWidth 8 = m (a + off.val)
  rw [ByteMem.byte_ld64 (Nat.mod_lt _ (by decide)), Nat.add_assoc, Nat.div_add_mod]

/-- The string of a buffer that holds one. -/
theorem takeWhile_ofFn {n : Nat} (f : Fin n → BitVec 8) {path : List (BitVec 8)}
    (hlen : path.length < n) (hne : 0 ∉ path)
    (hget : ∀ i, (hi : i < path.length) → f ⟨i, hi.trans hlen⟩ = path.get ⟨i, hi⟩)
    (hend : f ⟨path.length, hlen⟩ = 0) : (List.ofFn f).takeWhile notNull = path := by
  induction path generalizing n with
  | nil =>
      obtain ⟨n, rfl⟩ : ∃ j, n = j + 1 := ⟨n - 1, by omega⟩
      have h0 : f 0 = 0 := hend
      rw [List.ofFn_succ, h0]
      rfl
  | cons c path ih =>
      obtain ⟨n, rfl⟩ : ∃ j, n = j + 1 := ⟨n - 1, by omega⟩
      have h0 : f 0 = c := hget 0 (Nat.succ_pos _)
      have hc : notNull c = true := by
        refine decide_eq_true ?_
        rintro rfl
        exact hne List.mem_cons_self
      rw [List.ofFn_succ, h0, List.takeWhile_cons_of_pos hc]
      refine congrArg (c :: ·) (ih (fun i => f i.succ) (Nat.lt_of_succ_lt_succ hlen)
        (fun h => hne (List.mem_cons_of_mem _ h)) (fun i hi => ?_) hend)
      exact hget (i + 1) (Nat.succ_lt_succ hi)

theorem takeWhile_ofFn_le {n : Nat} (f : Fin n → BitVec 8) {i : Fin n} (hi : f i = 0) :
    ((List.ofFn f).takeWhile notNull).length ≤ i.val := by
  induction n with
  | zero => exact i.elim0
  | succ n ih =>
      rw [List.ofFn_succ]
      by_cases h0 : f 0 = 0
      · rw [h0]
        exact Nat.zero_le _
      · have hc : notNull (f 0) = true := decide_eq_true h0
        rw [List.takeWhile_cons_of_pos hc, List.length_cons]
        cases i using Fin.cases with
        | zero => exact absurd hi h0
        | succ j => exact Nat.succ_le_succ (ih (fun i => f i.succ) hi)

/-- The copy that a handler makes, of a page that holds a string there. -/
theorem copyPath_str {m : ByteMem} {a : Nat} {off : Fin 8} {path : List (BitVec 8)}
    (h : Client.CString m (a + off.val) path) (hlen : path.length < MAXPATHLEN) :
    (copyPath (PageWords.ofMem m a) off).str = path := by
  have hget : ∀ i : Fin 1024, i.val ≤ path.length →
      copyPath (PageWords.ofMem m a) off i = m (a + off.val + i.val) := by
    intro i hi
    unfold copyPath
    by_cases hlast : i.val = MAXPATHLEN - 1
    · -- The null that is put there is the string's own.
      have hi' : i.val = path.length := by omega
      rw [if_pos hlast, hi', h.end_eq]
    · rw [if_neg hlast, u8At_ofMem, Nat.add_assoc]
  have hlt : path.length < 1024 := hlen
  refine takeWhile_ofFn _ hlt h.ne_zero (fun i hi => ?_) ?_
  · exact (hget ⟨i, hi.trans hlt⟩ (Nat.le_of_lt hi)).trans (h.get hi)
  · exact (hget ⟨path.length, hlt⟩ (le_refl path.length)).trans h.end_eq

/-- Whatever the page holds, the handler's string is shorter than `MAXPATHLEN`. -/
theorem copyPath_str_lt (rq : PageWords) (off : Fin 8) :
    (copyPath rq off).str.length < MAXPATHLEN := by
  have hlast : MAXPATHLEN - 1 < MAXPATHLEN := by decide
  refine Nat.lt_of_le_of_lt (takeWhile_ofFn_le (i := ⟨MAXPATHLEN - 1, hlast⟩) _ ?_) hlast
  unfold copyPath
  exact if_pos rfl

/-! ## Requests that keep the path -/

section Marshal

variable {m : ByteMem} {fsipcbuf p bound off fieldOff : Nat} {field : Option U32} {type dstva : Word}
  {perm : Bool} {path : List (BitVec 8)}

/-- The code of the request picks a handler that copies the path from byte `off`. -/
def PathAt (type : Word) (off : Fin 8) : Prop :=
  ∀ page, servedPath ((type.setWidth 32 : U32).setWidth 64, page) = some (copyPath page off)

theorem pathAt_open : PathAt FSREQ_OPEN 0 := fun _ => rfl

theorem pathAt_create : PathAt FSREQ_CREATE 4 := fun _ => rfl

theorem pathAt_remove : PathAt FSREQ_REMOVE 0 := fun _ => rfl

/-- The bytes that the field of a request leaves alone. -/
theorem field_frame {a : Nat} (ha : field ≠ none → a < fsipcbuf + fieldOff ∨ fsipcbuf + fieldOff + 4 ≤ a) :
    field.elim m (m.st32 (fsipcbuf + fieldOff)) a = m a := by
  cases field with
  | none => rfl
  | some v =>
      have ha' := ha (by simp)
      show m.st32 (fsipcbuf + fieldOff) v a = m a
      rw [ByteMem.st32, if_neg (by omega)]

/-- A path that fits is refused or arrives as it is. -/
theorem marshals_of_fits {off : Fin 8} (h : Client.CString m p path) (htype : PathAt type off)
    (hfield : field ≠ none → fieldOff + 4 ≤ off.val ∨ off.val + MAXPATHLEN ≤ fieldOff)
    (hpage : fieldOff + 4 ≤ BY2PG) (hfits : PathFits fsipcbuf p path bound off.val) :
    MarshalsPath (fun turns => fsipcPath turns m fsipcbuf p bound off.val fieldOff field type dstva
      perm) m fsipcbuf path := by
  have hmax : MAXPATHLEN = 1024 := rfl
  have hpg : BY2PG = 4096 := rfl
  by_cases hguard : (bound : Int) ≤ (BitVec.ofNat 32 path.length : U32).toInt
  · refine ⟨.error (-E_BAD_PATH), fun turns hturns => ?_, rfl⟩
    show fsipcPath turns m fsipcbuf p bound off.val fieldOff field type dstva perm = _
    rw [fsipcPath, Client.strlen_eq h hturns]
    exact if_pos hguard
  · obtain ⟨hlen, hplace⟩ : path.length < MAXPATHLEN ∧
        ¬ (p < fsipcbuf + off.val ∧ fsipcbuf + off.val ≤ p + path.length) :=
      hfits.resolve_left hguard
    obtain ⟨m₁, hcpy, hstr, hframe⟩ := Client.strcpy_eq (fsipcbuf + off.val) h (by omega)
    have hoff := off.isLt
    refine ⟨.ok (field.elim m₁ (m₁.st32 (fsipcbuf + fieldOff)), ⟨type.setWidth 32,
      PageWords.ofMem (field.elim m₁ (m₁.st32 (fsipcbuf + fieldOff))) fsipcbuf, dstva, perm⟩),
      fun turns hturns => ?_, fun a ha => ?_, ?_⟩
    · show fsipcPath turns m fsipcbuf p bound off.val fieldOff field type dstva perm = _
      rw [fsipcPath, Client.strlen_eq h hturns]
      refine (if_neg hguard).trans ?_
      rw [hcpy turns hturns]
      rfl
    · rw [field_frame (by omega), hframe a (by omega)]
    · -- The field does not reach into the string.
      have hstr' : Client.CString (field.elim m₁ (m₁.st32 (fsipcbuf + fieldOff)))
          (fsipcbuf + off.val) path := by
        refine hstr.congr fun a hlo hhi => field_frame fun hne => ?_
        have := hfield hne
        omega
      show (servedPath ((type.setWidth 32 : U32).setWidth 64, _)).map Path.str = some path
      rw [htype, Option.map_some, copyPath_str hstr' hlen]

/-- A path that does not fit does not arrive. -/
theorem fits_of_marshals (off : Fin 8) (h : Client.CString m p path) (htype : PathAt type off)
    (hm : MarshalsPath (fun turns => fsipcPath turns m fsipcbuf p bound off.val fieldOff field type
      dstva perm) m fsipcbuf path) : PathFits fsipcbuf p path bound off.val := by
  obtain ⟨r, hr, hkept⟩ := hm
  by_cases hguard : (bound : Int) ≤ (BitVec.ofNat 32 path.length : U32).toInt
  · exact Or.inl hguard
  · have hrun : fsipcPath (path.length + 1) m fsipcbuf p bound off.val fieldOff field type dstva
        perm = some r := hr _ (Nat.lt_succ_self _)
    rw [fsipcPath, Client.strlen_eq h (Nat.lt_succ_self _)] at hrun
    have hcopy := (if_neg hguard).symm.trans hrun
    obtain ⟨m₁, hcpy, hret⟩ := Option.bind_eq_some_iff.mp hcopy
    cases hret
    refine Or.inr ⟨?_, fun hplace => ?_⟩
    · -- The handler's string is always shorter.
      obtain ⟨-, hserved⟩ := hkept
      have hserved' : (servedPath ((type.setWidth 32 : U32).setWidth 64, _)).map Path.str =
          some path := hserved
      rw [htype, Option.map_some, Option.some.injEq] at hserved'
      rw [← hserved']
      exact copyPath_str_lt _ _
    · have hnone := Client.strcpy_overlap (m := m) (n := path.length + 1) hplace.1
        fun a hlo hhi => ?_
      · rw [hnone] at hcpy
        cases hcpy
      · obtain ⟨i, rfl⟩ := Nat.exists_eq_add_of_le hlo
        have hi : i < path.length := by omega
        rw [ByteMem.ld8, h.get hi]
        intro h0
        exact h.ne_zero (h0 ▸ List.get_mem path ⟨i, hi⟩)

theorem marshals_iff (off : Fin 8) (h : Client.CString m p path) (htype : PathAt type off)
    (hfield : field ≠ none → fieldOff + 4 ≤ off.val ∨ off.val + MAXPATHLEN ≤ fieldOff)
    (hpage : fieldOff + 4 ≤ BY2PG) :
    MarshalsPath (fun turns => fsipcPath turns m fsipcbuf p bound off.val fieldOff field type dstva
      perm) m fsipcbuf path ↔ PathFits fsipcbuf p path bound off.val :=
  ⟨fits_of_marshals off h htype, marshals_of_fits h htype hfield hpage⟩

/-- Exactly which paths each of the three requests carries to its handler. -/
theorem path_marshalling_iff (h : Client.CString m p path) :
    (∀ omode fd, MarshalsPath (fun turns => fsipcOpen turns m fsipcbuf p omode fd) m fsipcbuf path ↔
      PathFits fsipcbuf p path MAXPATHLEN 0) ∧
    (∀ filetype, MarshalsPath (fun turns => fsipcCreate turns m fsipcbuf p filetype) m fsipcbuf path ↔
      PathFits fsipcbuf p path MAXFILESIZE 4) ∧
    (MarshalsPath (fun turns => fsipcRemove turns m fsipcbuf p) m fsipcbuf path ↔
      PathFits fsipcbuf p path MAXPATHLEN 0) := by
  refine ⟨fun omode fd => ?_, fun filetype => ?_, ?_⟩
  · apply marshals_iff 0 h pathAt_open
    · intro _
      exact Or.inr (by decide)
    · decide
  · apply marshals_iff 4 h pathAt_create
    · intro _
      exact Or.inl (by decide)
    · decide
  · apply marshals_iff 0 h pathAt_remove
    · intro hne
      exact absurd rfl hne
    · decide

/-! ### A short path and a long one -/

/-- The string `/a` at address 0. -/
theorem shortPath_marshalled :
    MarshalsPath (fun turns => fsipcCreate turns (fun a => if a = 0 then 47 else if a = 1 then 97 else 0)
      4096 0 0) (fun a => if a = 0 then 47 else if a = 1 then 97 else 0) 4096 [47, 97] := by
  have hstr : Client.CString (fun a => if a = 0 then 47 else if a = 1 then 97 else 0) 0 [47, 97] :=
    ⟨rfl, by decide, rfl, by decide, rfl⟩
  refine ((path_marshalling_iff hstr).2.1 0).mpr (Or.inr ⟨by decide, ?_⟩)
  rintro ⟨-, hle⟩
  exact absurd hle (by decide)

/-- `n` letters `a` before address 1024. -/
theorem letters_cstring (n : Nat) (hn : n ≤ 1024) :
    Client.CString (fun a => if a < 1024 then 97 else 0) (1024 - n) (List.replicate n 97) := by
  induction n with
  | zero => rfl
  | succ n ih =>
      have hlt : 1024 - (n + 1) < 1024 := by omega
      have hnext : 1024 - (n + 1) + 1 = 1024 - n := by omega
      refine ⟨if_pos hlt, by decide, ?_⟩
      rw [hnext]
      exact ih (by omega)

/-- The server works on another path than the one of 1024 letters that a client
    asks it to create. -/
theorem longPath_cut : Client.CString (fun a => if a < 1024 then 97 else 0) 0 (List.replicate 1024 97) ∧
    ∀ filetype, ¬ MarshalsPath
      (fun turns => fsipcCreate turns (fun a => if a < 1024 then 97 else 0) 4096 0 filetype)
      (fun a => if a < 1024 then 97 else 0) 4096 (List.replicate 1024 97) := by
  have hstr := letters_cstring 1024 (le_refl _)
  refine ⟨hstr, fun filetype hm => ?_⟩
  have hfits : PathFits 4096 0 (List.replicate 1024 97) MAXFILESIZE 4 :=
    fits_of_marshals 4 hstr pathAt_create hm
  have hguard : ¬ (MAXFILESIZE : Int) ≤ (BitVec.ofNat 32 1024 : U32).toInt := by decide
  rcases hfits with hle | ⟨hlt, -⟩
  · rw [List.length_replicate] at hle
    exact hguard hle
  · rw [List.length_replicate] at hlt
    exact absurd hlt (by decide)

end Marshal

end RpiMos
