/-
  RpiMos.Fs.Block

  The block layer of fs/fs.c: the block cache at `DISKMAP` in the server's
  memory, the bitmap in its cached blocks, and reading and writing blocks.  A
  page of the server that is touched before it is mapped is mapped by `page_out`,
  filled with zeros.
-/

import RpiMos.Lib.ByteMem
import RpiMos.Lib.Prog
import RpiMos.Mm.Mmu

namespace RpiMos

open Lib

def DISKMAP : Nat := 0x200000000
def DISKMAX : Nat := 0x40000000
def BY2BLK : Nat := 4096
def SECT2BLK : Nat := 8
def BIT2BLK : Nat := 32768
def FS_MAGIC : U32 := 0x19260817

def E_INVAL : U32 := 3
def E_NO_MEM : U32 := 4
def E_NO_DISK : U32 := 7
def E_MAX_OPEN : U32 := 8
def E_NOT_FOUND : U32 := 9
def E_BAD_PATH : U32 := 10
def E_FILE_EXISTS : U32 := 11

/-- `ROUND(a, n)`, for a power of two `n`. -/
def ROUND (a n : Nat) : Nat := (a + n - 1) / n * n

/-- The file server's memory, by address, and the disk, by byte. -/
structure Fs where
  mem : ByteMem
  /-- Whether the page with this number is mapped. -/
  mapped : Nat → Bool
  disk : ByteMem
  super : Nat
  bitmap : Nat
  nbitmap : Nat
  /-- Whether there is a free page for the next page the server needs, for the
      one after it, and so on. -/
  memOk : Nat → Bool
  allocs : Nat

/-- A function of the file server: an error is the negative `int` it returns. -/
abbrev FsM := Prog Fs U32

namespace Fs

/-- A fresh page of zeros at page number `v`. -/
def mapZero (s : Fs) (v : Nat) : Fs :=
  { s with
    mem := s.mem.zero (v * BY2PG) BY2PG
    mapped := fun v' => v' = v || s.mapped v'
    allocs := s.allocs + 1 }

end Fs

/-! ## Memory accesses -/

/-- An access to page `v`: `page_out` maps it when it is not mapped. -/
def touch (v : Nat) : FsM Unit := fun s =>
  if s.mapped v then .ret () s
  else if v = 0 then .stop "^^^^^^^^^TOO LOW^^^^^^^^"
  else if s.memOk s.allocs then .ret () (s.mapZero v)
  else .stop "page_out error: no free page"

/-- An access to the `n` bytes at `a`, at most a page. -/
def access (a n : Nat) : FsM Unit := do
  touch (a / BY2PG)
  touch ((a + n - 1) / BY2PG)

def load8 (a : Nat) : FsM (BitVec 8) := do
  access a 1
  let s ← Prog.get
  pure (s.mem.ld8 a)

def load32 (a : Nat) : FsM U32 := do
  access a 4
  let s ← Prog.get
  pure (s.mem.ld32 a)

def load64 (a : Nat) : FsM Word := do
  access a 8
  let s ← Prog.get
  pure (s.mem.ld64 a)

def store8 (a : Nat) (v : BitVec 8) : FsM Unit := do
  access a 1
  Prog.modify fun s => { s with mem := s.mem.st8 a v }

def store32 (a : Nat) (v : U32) : FsM Unit := do
  access a 4
  Prog.modify fun s => { s with mem := s.mem.st32 a v }

def store64 (a : Nat) (v : Word) : FsM Unit := do
  access a 8
  Prog.modify fun s => { s with mem := s.mem.st64 a v }

/-- `syscall_mem_alloc(0, va, perm)` on a page boundary. -/
def syscallMemAlloc (va : Nat) : FsM U32 := fun s =>
  if s.memOk s.allocs then .ret 0 (s.mapZero (va / BY2PG))
  else .ret (-1) { s with allocs := s.allocs + 1 }

/-- `sd_read(secno, dst, SECT2BLK)`. -/
def sdRead (secno : U32) (dst : Nat) : FsM Unit := do
  access dst BY2PG
  Prog.modify fun s => { s with mem := s.mem.fill s.disk (secno.toNat * 512) dst BY2BLK }

/-- `sd_write(secno, src, SECT2BLK)`. -/
def sdWrite (secno : U32) (src : Nat) : FsM Unit := do
  access src BY2PG
  Prog.modify fun s => { s with disk := s.disk.fill s.mem src (secno.toNat * 512) BY2BLK }

/-! ## Blocks -/

/-- `super->s_nblocks`. -/
def sNblocks : FsM U32 := do
  let s ← Prog.get
  load32 (s.super + 4)

/-- `super && blockno >= super->s_nblocks`. -/
def pastEnd (blockno : U32) : FsM Bool := do
  let s ← Prog.get
  if s.super = 0 then pure false
  else
    let n ← sNblocks
    pure (decide (n ≤ blockno))

def diskaddr (blockno : U32) : FsM Nat := do
  if ← pastEnd blockno then Prog.stop "diskaddr() : blockno is too large!"
  else pure (DISKMAP + blockno.toNat * BY2BLK)

def vaIsMapped (va : Nat) : FsM Bool := do
  let s ← Prog.get
  pure (s.mapped (va / BY2PG))

def blockIsMapped (blockno : U32) : FsM Bool := do
  let va ← diskaddr blockno
  vaIsMapped va

/-- `va_is_dirty` is always true. -/
def blockIsDirty (blockno : U32) : FsM Bool := do
  let va ← diskaddr blockno
  vaIsMapped va

def mapBlock (blockno : U32) : FsM U32 := do
  if ← blockIsMapped blockno then pure 0
  else
    let va ← diskaddr blockno
    syscallMemAlloc va

/-- The word of the bitmap with the bit of a block. -/
def bitmapWord (bitmap : Nat) (blockno : U32) : Nat := bitmap + 8 * (blockno.toNat / 64)

/-- `1ul << (blockno % 64)`. -/
def blockBit (blockno : U32) : Word := 1 <<< (blockno.toNat % 64)

def blockIsFree (blockno : U32) : FsM Bool := do
  let s ← Prog.get
  if s.super = 0 then pure false
  else
    let n ← sNblocks
    if n ≤ blockno then pure false
    else
      let w ← load64 (bitmapWord s.bitmap blockno)
      pure (decide (w &&& blockBit blockno ≠ 0))

/-- `bitmap && block_is_free(blockno)`. -/
def knownFree (blockno : U32) : FsM Bool := do
  let s ← Prog.get
  if s.bitmap = 0 then pure false else blockIsFree blockno

/-- `read_block`: the address of the block, and `isnew`.  The result of
    `syscall_mem_alloc` is not looked at. -/
def readBlock (blockno : U32) : FsM (Nat × Bool) := do
  if ← pastEnd blockno then Prog.stop "reading non-existent block %08x\n"
  else if ← knownFree blockno then Prog.stop "reading free block %08x\n"
  else
    let va ← diskaddr blockno
    if ← blockIsMapped blockno then pure (va, false)
    else
      let _ ← syscallMemAlloc va
      sdRead (blockno * BitVec.ofNat 32 SECT2BLK) va
      pure (va, true)

/-- `write_block`; mapping the page again with `PTE_LIBRARY` changes nothing here. -/
def writeBlock (blockno : U32) : FsM Unit := do
  if ← blockIsMapped blockno then
    let va ← diskaddr blockno
    sdWrite (blockno * BitVec.ofNat 32 SECT2BLK) va
  else Prog.stop "write unmapped block %08x"

def freeBlock (blockno : U32) : FsM Unit := do
  let bad ← if blockno = 0 then pure true else pastEnd blockno
  if bad then Prog.stop "free block with wrong blockno!\n"
  else
    let s ← Prog.get
    let w ← load64 (bitmapWord s.bitmap blockno)
    store64 (bitmapWord s.bitmap blockno) (w ||| blockBit blockno)

/-- The loop of `alloc_block_num` from `blockno` on, for at most `n` turns. -/
def allocScan : Nat → U32 → FsM U32
  | 0, _ => Prog.throw (-E_NO_DISK)
  | n + 1, blockno => do
      let nblocks ← sNblocks
      if nblocks ≤ blockno then Prog.throw (-E_NO_DISK)
      else
        let s ← Prog.get
        let w ← load64 (bitmapWord s.bitmap blockno)
        if w &&& blockBit blockno ≠ 0 then
          let w ← load64 (bitmapWord s.bitmap blockno)
          store64 (bitmapWord s.bitmap blockno) (w &&& ~~~ blockBit blockno)
          pure blockno
        else allocScan n (blockno + 1)

/-- `alloc_block_num`: a block number fits in 32 bits, which bounds the loop. -/
def allocBlockNum : FsM U32 := allocScan (2 ^ 32) 3

def allocBlock : FsM U32 := do
  let bno ← allocBlockNum
  let r ← mapBlock bno
  if r = 0 then pure bno
  else
    freeBlock bno
    Prog.throw r

/-! ## Mounting -/

/-- `user_assert`. -/
def userAssert (c : Bool) : FsM Unit :=
  if c then pure () else Prog.stop "assertion failed"

def readSuper : FsM Unit := do
  let (blk, _) ← readBlock 1
  Prog.modify fun s => { s with super := blk }
  let magic ← load32 blk
  if magic ≠ FS_MAGIC then Prog.stop "bad file system magic number %x %x"
  else
    let n ← sNblocks
    if DISKMAX / BY2BLK < n.toNat then Prog.stop "file system is too large" else pure ()

/-- The loop of `read_bitmap` that loads the bitmap blocks `2 + i`, … -/
def readBitmapBlocks : Nat → Nat → FsM Unit
  | 0, _ => pure ()
  | n + 1, i => do
      let _ ← readBlock (BitVec.ofNat 32 (i + 2))
      readBitmapBlocks n (i + 1)

/-- The loop of `read_bitmap` that checks the bits of the bitmap blocks. -/
def checkBitmapBlocks : Nat → Nat → FsM Unit
  | 0, _ => pure ()
  | n + 1, i => do
      let free ← blockIsFree (BitVec.ofNat 32 (i + 2))
      userAssert (!free)
      checkBitmapBlocks n (i + 1)

def readBitmap : FsM Unit := do
  let n ← sNblocks
  let nbitmap := ROUND n.toNat BIT2BLK / BIT2BLK
  Prog.modify fun s => { s with nbitmap := nbitmap }
  readBitmapBlocks nbitmap 0
  let bitmap ← diskaddr 2
  Prog.modify fun s => { s with bitmap := bitmap }
  let free ← blockIsFree 0
  userAssert (!free)
  let free ← blockIsFree 1
  userAssert (!free)
  checkBitmapBlocks nbitmap 0

/-- `user_bcopy(src, dst, BY2PG)` between two pages. -/
def copyPage (src dst : Nat) : FsM Unit := do
  access src BY2PG
  access dst BY2PG
  Prog.modify fun s => { s with mem := s.mem.fill s.mem src dst BY2PG }

/-- `strcpy(p, str)`. -/
def strcpy (p : Nat) : List (BitVec 8) → FsM Unit
  | [] => store8 p 0
  | c :: str => do
      store8 p c
      strcpy (p + 1) str

/-- `strcmp(p, str) == 0`, for a `str` without null bytes. -/
def strcmpEq (p : Nat) : List (BitVec 8) → FsM Bool
  | [] => do
      let x ← load8 p
      pure (decide (x = 0))
  | c :: str => do
      let x ← load8 p
      if x = c then strcmpEq (p + 1) str else pure false

/-- `"OOPS!\n"`. -/
def oops : List (BitVec 8) := [79, 79, 80, 83, 33, 10]

/-- `syscall_mem_unmap(0, va)`. -/
def syscallMemUnmap (va : Nat) : FsM Unit :=
  Prog.modify fun s => { s with mapped := fun v => v ≠ va / BY2PG && s.mapped v }

def checkWriteBlock : FsM Unit := do
  Prog.modify fun s => { s with super := 0 }
  let _ ← readBlock 0
  let va₁ ← diskaddr 1
  let va₀ ← diskaddr 0
  copyPage va₁ va₀
  strcpy va₁ oops
  writeBlock 1
  let m ← blockIsMapped 1
  userAssert m
  syscallMemUnmap va₁
  let m ← blockIsMapped 1
  userAssert (!m)
  let _ ← readBlock 1
  let same ← strcmpEq va₁ oops
  userAssert same
  copyPage va₀ va₁
  writeBlock 1
  Prog.modify fun s => { s with super := va₁ }

def fsInit : FsM Unit := do
  readSuper
  checkWriteBlock
  readBitmap

end RpiMos
