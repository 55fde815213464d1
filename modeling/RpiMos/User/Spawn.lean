/-
  RpiMos.User.Spawn

  `spawn` of user/spawn.c with all it calls in the program: `open`, `seek` and
  `readn` of a file, `init_stack` and `usr_load_elf`.  What the kernel and the
  file server answer is a function of what has happened so far.
-/

import RpiMos.Kernel.Env
import RpiMos.Lib.ByteMem
import RpiMos.Lib.Prog
import RpiMos.Fs.Block

namespace RpiMos

open Lib

/-! ## Constants and macros -/

def TMPPAGE : Word := 4096
def TMPPAGE_TOP : Word := TMPPAGE + 4096
def BUFPAGE : Word := 4096
def PT_LOAD : U32 := 1
def O_RDONLY : U32 := 0
/-- `sizeof(Ehdr)`. -/
def EHDR_SIZE : Nat := 64

/-- An `int` in an expression with a `u64`. -/
def intWord (i : U32) : Word := i.signExtend 64

/-- `MIN`, with two `u64`s. -/
def minWord (a b : Word) : Word := if a ≤ b then a else b

/-- `ROUND` of type.h, for a power of two. -/
def roundWord (a n : Word) : Word := (a + n - 1) &&& ~~~ (n - 1)

/-! ## What the program asks for -/

/-- The system calls, those of them that `spawn` does not make included where they
    undo another, the calls of the file server and the reads of the page-table
    windows. -/
inductive Query where
  | fd_alloc
  | fsipc_open (path : List (BitVec 8)) (mode : U32)
  | fsipc_map (offset : Nat)
  /-- `fd_lookup`, `dev_lookup` and the check of the mode. -/
  | fd_lookup
  | env_alloc
  | env_destroy (envid : U32)
  | mem_alloc (envid : U32) (va perm : Word)
  | mem_map (srcid : U32) (srcva : Word) (dstid : U32) (dstva perm : Word)
  | mem_unmap (envid : U32) (va : Word)
  | set_env_status (envid : U32) (status : EnvStatus)
  | vpd (i : Nat)
  | vpm (i : Nat)
  | vpt (i : Nat)

/-- The buffers that `read` fills. -/
inductive Buf where
  | elfbuf
  | buf
deriving DecidableEq

/-- `sizeof` of a buffer. -/
def Buf.size : Buf → Nat
  | .elfbuf => 512
  | .buf => 4096

inductive Event where
  | query (q : Query) (r : Word)
  /-- `read` has stored bytes `start` to `start + n` of a buffer. -/
  | stored (b : Buf) (start n : Nat)
  /-- `len` bytes at `off` of a header are used, when `got` bytes of it were read. -/
  | used (got off len : Nat)
  /-- `readn` asked for `n` bytes and got `got`. -/
  | readn (b : Buf) (n got : Nat)
  /-- `init_stack` has returned `r`. -/
  | stack (r : U32)
  /-- Bytes are stored into the page at `BUFPAGE`. -/
  | bufpage (off n : Nat) (bytes : ByteMem)
  /-- `envs[..].tf` gets an entry point and a stack pointer. -/
  | setTf (e : EnvPtr) (elr_el1 sp_el0 : Word)

/-- The answers, from the events so far. -/
abbrev Os := List Event → Query → Word

/-- A file as the file server hands it out: no longer than its block pointers
    reach. -/
structure ProgFile where
  size : Nat
  byte : Nat → BitVec 8
  size_le : size ≤ 1024 * 4096

/-- What `spawn` keeps: the seek position, its buffers, the memory in which
    `init_stack` builds the stack, its variable `esp`, and what has happened. -/
structure SpawnSt where
  fd_offset : Word
  bufs : Buf → ByteMem
  mem : ByteMem
  esp : Word
  log : List Event

/-- A failure is a value that is passed up and returned by `spawn`. -/
abbrev SpawnM := Prog SpawnSt U32

def emit (e : Event) : SpawnM PUnit := Prog.modify fun s => { s with log := s.log ++ [e] }

def ask (os : Os) (q : Query) : SpawnM Word := do
  let s ← Prog.get
  let r := os s.log q
  emit (.query q r)
  pure r

/-- A call whose result is an `int`. -/
def askInt (os : Os) (q : Query) : SpawnM U32 := do
  let r ← ask os q
  pure (r.setWidth 32)

/-- The state after a call. -/
def SpawnSt.asked (s : SpawnSt) (os : Os) (q : Query) : SpawnSt :=
  { s with log := s.log ++ [.query q (os s.log q)] }

theorem askInt_apply (os : Os) (q : Query) (s : SpawnSt) :
    askInt os q s = .ret ((os s.log q).setWidth 32) (s.asked os q) := rfl

/-- `if ((r = ..) < 0) return r;`. -/
def must (os : Os) (q : Query) : SpawnM PUnit := do
  let r ← askInt os q
  if r.msb then Prog.throw r else pure ⟨⟩

/-! ## Files -/

/-- `file_read` returns the number of bytes there are from `offset` on, at most `n`. -/
def fileRead (file : ProgFile) (n offset : U32) : U32 :=
  let size := BitVec.ofNat 32 file.size
  if size < offset then 0
  else if size < offset + n then size - offset
  else n

/-- `m` bytes of the file from `offset` on, in a buffer at `start`, and a null. -/
def fillBuf (file : ProgFile) (old : ByteMem) (start m offset : Nat) : ByteMem :=
  (old.fill file.byte offset start m).st8 (start + m) 0

/-- `read(fdnum, b + start, n)`. -/
def read (os : Os) (file : ProgFile) (b : Buf) (start n : Nat) : SpawnM Nat := do
  must os .fd_lookup
  let s ← Prog.get
  let offset := s.fd_offset.setWidth 32
  let m := (fileRead file (BitVec.ofNat 32 n) offset).toNat
  Prog.modify fun s => { s with
    fd_offset := s.fd_offset + BitVec.ofNat 64 m
    bufs := fun b' => if b' = b then fillBuf file (s.bufs b) start m offset.toNat else s.bufs b' }
  emit (.stored b start (m + 1))
  pure m

/-- The loop of `readn`, from `tot` bytes on. -/
def readnFrom (os : Os) (file : ProgFile) (b : Buf) (n tot : Nat) : SpawnM Nat :=
  if tot < n then do
    let m ← read os file b tot (n - tot)
    if m = 0 then pure tot else readnFrom os file b n (tot + m)
  else pure tot
termination_by n - tot

def readn (os : Os) (file : ProgFile) (b : Buf) (n : Nat) : SpawnM Nat := do
  let tot ← readnFrom os file b n 0
  emit (.readn b n tot)
  pure tot

/-- `seek(fd, offset)`. -/
def seek (os : Os) (offset : Word) : SpawnM PUnit := do
  must os .fd_lookup
  Prog.modify fun s => { s with fd_offset := offset }

/-- `open`: the descriptor, then the blocks of the file. -/
def openFile (os : Os) (file : ProgFile) (path : List (BitVec 8)) : SpawnM PUnit := do
  must os .fd_alloc
  must os (.fsipc_open path O_RDONLY)
  Prog.modify fun s => { s with fd_offset := 0 }
  Prog.forRange 0 ((file.size + 4095) / 4096) fun i => must os (.fsipc_map (i * 4096))

/-! ## `init_stack` -/

def stackPerm : Word := VALID ||| PTE_RW ||| PTE_USER

/-- `tot` and `argc` of `init_stack`, as `int`s. -/
def stringsTotal (argv : List (List (BitVec 8))) : U32 :=
  argv.foldl (fun tot str => tot + (BitVec.ofNat 32 str.length + 1)) 0

def argCount (argv : List (List (BitVec 8))) : U32 := BitVec.ofNat 32 argv.length

/-- What the check compares with `BY2PG`. -/
def stackNeed (argv : List (List (BitVec 8))) : Word :=
  roundWord (intWord (stringsTotal argv)) 8 + intWord (8 * (argCount argv + 3))

/-- One string and its null at `a`. -/
def putString (m : ByteMem) (a : Word) : List (BitVec 8) → ByteMem
  | [] => m.st8 a.toNat 0
  | c :: str => putString (m.st8 a.toNat c) (a + 1) str

/-- The first loop over the strings: `ctemp` goes up. -/
def putStrings (m : ByteMem) (ctemp : Word) : List (List (BitVec 8)) → ByteMem
  | [] => m
  | str :: argv => putStrings (putString m ctemp str) (ctemp + BitVec.ofNat 64 (str.length + 1)) argv

/-- The second loop: `args[i]` gets the address that string `i` has in the child. -/
def putArgs (m : ByteMem) (args ctemp : Word) : List (List (BitVec 8)) → ByteMem
  | [] => m
  | str :: argv =>
      putArgs (m.st64 args.toNat ctemp) (args + 8) (ctemp + intWord (BitVec.ofNat 32 str.length + 1))
        argv

/-- What a pointer into the page at `TMPPAGE` is in the child. -/
def childAddr (a : Word) : Word := USTACKTOP - TMPPAGE_TOP + a

/-- The page that `init_stack` builds, and `*init_esp`. -/
def buildStack (m : ByteMem) (argv : List (List (BitVec 8))) : ByteMem × Word :=
  let tot := intWord (stringsTotal argv)
  let argc := argCount argv
  let strs := argv.take argc.toInt.toNat
  let strings := TMPPAGE_TOP - tot
  let args := TMPPAGE_TOP - roundWord tot 4 - intWord (8 * (argc + 1))
  let m := putStrings m strings strs
  let m := putArgs m args (childAddr strings) strs
  let m := m.st64 (args + 8 * intWord argc).toNat 0
  let m := m.st64 (args - 8).toNat (childAddr args)
  let m := m.st64 (args - 16).toNat (intWord argc)
  (m, childAddr (args - 16))

/-- What `init_stack` stores: the page, which is null at first, and `*init_esp`. -/
def SpawnSt.withStack (s : SpawnSt) (argv : List (List (BitVec 8))) : SpawnSt :=
  let page := buildStack (s.mem.zero TMPPAGE.toNat 4096) argv
  { s with mem := page.1, esp := page.2 }

def initStack (os : Os) (child : U32) (argv : List (List (BitVec 8))) : SpawnM U32 := do
  if 4096 < stackNeed argv then pure (-E_NO_MEM)
  else
    let r ← askInt os (.mem_alloc 0 TMPPAGE stackPerm)
    -- `r` is the result of the comparison.
    if r.msb then pure 1
    else
      Prog.modify fun s => s.withStack argv
      let r ← askInt os (.mem_map 0 TMPPAGE child (USTACKTOP - 4096) stackPerm)
      if r.msb then
        let _ ← ask os (.mem_unmap 0 TMPPAGE)
        pure r
      else
        let r ← askInt os (.mem_unmap 0 TMPPAGE)
        if r.msb then
          let _ ← ask os (.mem_unmap 0 TMPPAGE)
          pure r
        else pure 0

/-- `init_stack_valist` takes the strings from a `va_list`, of which it makes a
    copy for each loop. -/
def initStackValist (os : Os) (child : U32) (ap : List (List (BitVec 8))) : SpawnM U32 :=
  initStack os child ap

/-! ## `usr_load_elf` -/

/-- The fields of a program header that are used. -/
structure Phdr where
  type : U32
  offset : Word
  vaddr : Word
  filesz : Word
  memsz : Word

/-- An `int` as a `u64`: a negative one is large. -/
theorem toNat_intWord (i : U32) :
    (intWord i).toNat = if i.toNat < 2 ^ 31 then i.toNat else i.toNat + (2 ^ 64 - 2 ^ 32) := by
  have hlt := i.isLt
  rw [intWord, BitVec.toNat_signExtend, BitVec.toNat_setWidth, BitVec.msb_eq_decide]
  by_cases h : i.toNat < 2 ^ 31
  · have hmsb : decide (2 ^ (32 - 1) ≤ i.toNat) = false := decide_eq_false (by omega)
    rw [if_pos h, hmsb]
    simp only [Bool.false_eq_true, if_false]
    omega
  · have hmsb : decide (2 ^ (32 - 1) ≤ i.toNat) = true := decide_eq_true (by omega)
    rw [if_neg h, hmsb]
    simp only [if_true]
    omega

/-- An `int` that is not negative. -/
theorem toNat_intWord_ofNat {n : Nat} (hn : n < 2 ^ 31) : (intWord (BitVec.ofNat 32 n)).toNat = n := by
  rw [toNat_intWord, BitVec.toNat_ofNat, Nat.mod_eq_of_lt (by omega), if_pos hn]

theorem toNat_roundWord {n : Word} {k : Nat}
    (hmask : ∀ i : Fin 64, (~~~ (n - 1)).getLsbD i.val = decide (k ≤ i.val)) (w : Word) :
    (roundWord w n).toNat = (w + (n - 1)).toNat / 2 ^ k * 2 ^ k := by
  have hlt := (w + (n - 1)).isLt
  have hle : (w + (n - 1)).toNat / 2 ^ k * 2 ^ k ≤ (w + (n - 1)).toNat := Nat.div_mul_le_self _ _
  have hsub : w + n - 1 = w + (n - 1) := by
    rw [BitVec.sub_eq_add_neg, BitVec.sub_eq_add_neg, BitVec.add_assoc]
  rw [roundWord, hsub, and_not_mask hmask, BitVec.toNat_shiftLeft, BitVec.toNat_ushiftRight,
    Nat.shiftRight_eq_div_pow, Nat.shiftLeft_eq, Nat.mod_eq_of_lt (by omega)]

theorem toNat_minWord (a b : Word) : (minWord a b).toNat = min a.toNat b.toNat := by
  unfold minWord
  split
  · rename_i h
    rw [BitVec.le_def] at h
    omega
  · rename_i h
    rw [BitVec.le_def] at h
    omega

/-- The size of a turn and the sum of a loop variable and it, without a wrap. -/
theorem chunk_sum {w limit : Word} (h : w < limit) :
    (minWord 4096 (limit - w)).toNat = min 4096 (limit.toNat - w.toNat) ∧
    (w + minWord 4096 (limit - w)).toNat = w.toNat + min 4096 (limit.toNat - w.toNat) := by
  rw [BitVec.lt_def] at h
  have hlt := limit.isLt
  have hsize : (minWord 4096 (limit - w)).toNat = min 4096 (limit.toNat - w.toNat) := by
    rw [toNat_minWord, BitVec.toNat_sub_of_le (by rw [BitVec.le_def]; omega)]
    rfl
  refine ⟨hsize, ?_⟩
  rw [BitVec.toNat_add, hsize]
  omega

/-- The next turn of a loop is for a larger `i`, as a `u64`. -/
theorem intWord_next {i : U32} {limit : Word} (h : intWord i < limit) :
    2 ^ 64 - (intWord ((intWord i + minWord 4096 (limit - intWord i)).setWidth 32)).toNat <
      2 ^ 64 - (intWord i).toNat := by
  obtain ⟨-, hsum⟩ := chunk_sum h
  rw [BitVec.lt_def] at h
  have hlimit := limit.isLt
  have hi := i.isLt
  have hw := toNat_intWord i
  rw [toNat_intWord (BitVec.setWidth 32 _), BitVec.toNat_setWidth, hsum]
  generalize (intWord i).toNat = w at *
  split at hw
  · split <;> omega
  · split <;> omega

/-- `while (i < limit) { size = MIN(BY2PG, limit - i); ..; i += size; }`. -/
def chunkLoop (limit : Word) (body : U32 → Word → SpawnM PUnit) (i : U32) : SpawnM U32 :=
  if _h : intWord i < limit then do
    let size := minWord 4096 (limit - intWord i)
    body i size
    chunkLoop limit body ((intWord i + size).setWidth 32)
  else pure i
termination_by 2 ^ 64 - (intWord i).toNat
decreasing_by exact intWord_next _h

section Load

variable (os : Os) (file : ProgFile) (ph : Phdr) (child : U32)

/-- One page of the file: `size` bytes at `va + i`, which is `offset` bytes into
    the page. -/
def loadPage (offset : Word) (i : U32) (size : Word) : SpawnM PUnit := do
  must os (.mem_alloc child (ph.vaddr + intWord i) stackPerm)
  seek os (ph.offset + intWord i)
  let _ ← readn os file .buf size.toNat
  must os (.mem_map child (ph.vaddr + intWord i) 0 BUFPAGE stackPerm)
  let s ← Prog.get
  emit (.bufpage offset.toNat size.toNat (s.bufs .buf))
  must os (.mem_unmap 0 BUFPAGE)

/-- The zeros after the file's bytes in their last page. -/
def zeroTail (i : U32) : SpawnM U32 := do
  let offset := pageOffset (ph.vaddr + intWord i)
  if offset = 0 then pure i
  else
    let size := minWord (ph.memsz - intWord i) (4096 - offset)
    must os (.mem_map child (ph.vaddr + intWord i) 0 BUFPAGE stackPerm)
    emit (.bufpage offset.toNat size.toNat fun _ => 0)
    must os (.mem_unmap 0 BUFPAGE)
    pure ((intWord i + size).setWidth 32)

/-- The first page, when the segment starts inside it. -/
def loadFirst : SpawnM U32 := do
  let offset := pageOffset ph.vaddr
  if offset = 0 then pure 0
  else
    let size := minWord ph.filesz (4096 - offset)
    loadPage os file ph child offset 0 size
    pure (size.setWidth 32)

def usrLoadElf : SpawnM PUnit := do
  let i ← loadFirst os file ph child
  let i ← chunkLoop ph.filesz (loadPage os file ph child 0) i
  let i ← zeroTail os ph child i
  let _ ← chunkLoop ph.memsz
    (fun i _ => must os (.mem_alloc child (ph.vaddr + intWord i) stackPerm)) i

end Load

/-! ## `spawn` -/

def ldU16 (m : ByteMem) (a : Nat) : BitVec 16 := m (a + 1) ++ m a

/-- The program header in `elfbuf`. -/
def phdrAt (m : ByteMem) : Phdr where
  type := m.ld32 0
  offset := m.ld64 8
  vaddr := m.ld64 16
  filesz := m.ld64 32
  memsz := m.ld64 40

/-- One turn over the program headers. -/
def loadEntry (os : Os) (file : ProgFile) (child : U32) (entry_size : Nat) (text_start : Word) :
    SpawnM PUnit := do
  seek os text_start
  let got ← readn os file .elfbuf entry_size
  let s ← Prog.get
  let ph := phdrAt (s.bufs .elfbuf)
  emit (.used got 0 4)
  if ph.type = PT_LOAD then do
    emit (.used got 8 16)
    emit (.used got 32 16)
    usrLoadElf os file ph child
  else pure ⟨⟩

def loadEntries (os : Os) (file : ProgFile) (child : U32) (entry_size : Nat) :
    Nat → Word → SpawnM PUnit
  | 0, _ => pure ⟨⟩
  | n + 1, text_start => do
      loadEntry os file child entry_size text_start
      loadEntries os file child entry_size n (text_start + BitVec.ofNat 64 entry_size)

/-- The innermost turn over the pages that `spawn` shares with its child. -/
def sharePage (os : Os) (child : U32) (i j k : Nat) : SpawnM PUnit := do
  let pte ← ask os (.vpt ((i <<< 18) + (j <<< 9) + k))
  if pte &&& VALID = 0 ∨ pte &&& PTE_LIBRARY = 0 then pure ⟨⟩
  else
    let va := BitVec.ofNat 64 (((i <<< 18) + (j <<< 9) + k) <<< 12)
    must os (.mem_map 0 va child va (VALID ||| PTE_RW ||| PTE_USER ||| PTE_LIBRARY))

def shareTable (os : Os) (child : U32) (i j : Nat) : SpawnM PUnit := do
  let pme ← ask os (.vpm ((i <<< 9) + j))
  if pme &&& VALID = 0 then pure ⟨⟩ else Prog.forRange 0 512 (sharePage os child i j)

def shareDir (os : Os) (child : U32) (i : Nat) : SpawnM PUnit := do
  let pde ← ask os (.vpd i)
  if pde &&& VALID = 0 then pure ⟨⟩ else Prog.forRange 0 512 (shareTable os child i)

/-- The suffix `.b` is added where it is missing. -/
def progName (prog : List (BitVec 8)) : List (BitVec 8) :=
  if 2 ≤ prog.length ∧ prog.drop (prog.length - 2) = [0x2e, 0x62] then prog
  else prog ++ [0x2e, 0x62]

/-- `spawn`.  `usr_is_elf_format` accepts every file, and `child_envid` is a `u32`,
    which is never below 0. -/
def spawn (os : Os) (file : ProgFile) (prog : List (BitVec 8)) (argv : List (List (BitVec 8))) :
    SpawnM U32 := do
  openFile os file (progName prog)
  let got ← readn os file .elfbuf EHDR_SIZE
  let s ← Prog.get
  let ehdr := s.bufs .elfbuf
  emit (.used got 54 2)
  emit (.used got 32 8)
  emit (.used got 56 2)
  let entry_size := (ldU16 ehdr 54).toNat
  let count := (ldU16 ehdr 56).toNat
  let child ← askInt os .env_alloc
  let r ← initStack os child argv
  emit (.stack r)
  loadEntries os file child entry_size count (ehdr.ld64 32)
  let s ← Prog.get
  emit (.setTf (ENVX child) 0x00a00000 s.esp)
  Prog.forRange 0 512 (shareDir os child)
  must os (.set_env_status child .ENV_RUNNABLE)
  pure child

end RpiMos
