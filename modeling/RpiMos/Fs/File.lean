/-
  RpiMos.Fs.File

  The file layer of fs/fs.c: the block pointers of a `struct File`, directories
  and paths, and the operations on files.  A `struct File *` is its address; the
  pointers to block numbers are `u64 *` over fields and table entries of 32 bits,
  as in the source.
-/

import RpiMos.Fs.Block

namespace RpiMos

open Lib

def NDIRECT : Nat := 10
def NINDIRECT : Nat := 1024
def MAXNAMELEN : Nat := 128
def BY2FILE : Nat := 256
def FILE2BLK : Nat := 16
def FTYPE_REG : U32 := 0
def FTYPE_DIR : U32 := 1

/-! ## `struct File` -/

def fSize (f : Nat) : Nat := f + 128
def fType (f : Nat) : Nat := f + 132
def fDirect (f i : Nat) : Nat := f + 136 + 4 * i
def fIndirect (f : Nat) : Nat := f + 176
def fDir (f : Nat) : Nat := f + 184

/-- `&super->s_root`. -/
def sRoot (super : Nat) : Nat := super + 8

/-! ## Block pointers -/

/-- Step 2 of `file_block_walk`. -/
def walkIndirect (f : Nat) (alloc : Bool) : FsM Unit := do
  let ind ← load32 (fIndirect f)
  if ind = 0 then
    if alloc then
      let r ← allocBlock
      store32 (fIndirect f) r
    else Prog.throw (-E_NOT_FOUND)
  else pure ()

/-- `file_block_walk`: the address that `*ppdiskbno` is set to. -/
def fileBlockWalk (f : Nat) (filebno : U32) (alloc : Bool) : FsM Nat :=
  if filebno.toNat < NDIRECT then pure (fDirect f filebno.toNat)
  else if filebno.toNat < NINDIRECT then do
    walkIndirect f alloc
    let ind ← load32 (fIndirect f)
    let (blk, _) ← readBlock ind
    pure (blk + 4 * filebno.toNat)
  else Prog.throw (-E_INVAL)

/-- Step 2 of `file_map_block`. -/
def mapPointer (ptr : Nat) (alloc : Bool) : FsM Unit := do
  let v ← load64 ptr
  if v = 0 then
    if alloc then
      let r ← allocBlock
      store64 ptr (r.setWidth 64)
    else Prog.throw (-E_NOT_FOUND)
  else pure ()

def fileMapBlock (f : Nat) (filebno : U32) (alloc : Bool) : FsM U32 := do
  let ptr ← fileBlockWalk f filebno alloc
  mapPointer ptr alloc
  let v ← load64 ptr
  pure (v.setWidth 32)

def fileClearBlock (f : Nat) (filebno : U32) : FsM Unit := do
  let ptr ← fileBlockWalk f filebno false
  let v ← load64 ptr
  if v = 0 then pure ()
  else
    freeBlock (v.setWidth 32)
    store64 ptr 0

def fileGetBlock (f : Nat) (filebno : U32) : FsM Nat := do
  let diskbno ← fileMapBlock f filebno true
  let (blk, _) ← readBlock diskbno
  pure blk

def fileDirty (f : Nat) (offset : U32) : FsM Unit := do
  let blk ← fileGetBlock f (offset / BitVec.ofNat 32 BY2BLK)
  let x ← load8 blk
  store8 blk x

/-! ## Directories -/

/-- `ROUND(f->f_size, BY2BLK) / BY2BLK`. -/
def fileBlocks (f : Nat) : FsM Nat := do
  let size ← load32 (fSize f)
  pure (ROUND size.toNat BY2BLK / BY2BLK)

/-- The inner loop of `dir_lookup`, from file `j` of a block on. -/
def dirLookupFiles (dir blk : Nat) (name : List (BitVec 8)) : Nat → Nat → FsM (Option Nat)
  | 0, _ => pure none
  | n + 1, j => do
      let same ← strcmpEq (blk + BY2FILE * j) name
      if same then
        store64 (fDir (blk + BY2FILE * j)) (BitVec.ofNat 64 dir)
        pure (some (blk + BY2FILE * j))
      else dirLookupFiles dir blk name n (j + 1)

/-- The outer loop of `dir_lookup`, from block `i` on. -/
def dirLookupBlocks (dir : Nat) (name : List (BitVec 8)) : Nat → Nat → FsM Nat
  | 0, _ => Prog.throw (-E_NOT_FOUND)
  | n + 1, i => do
      let blk ← fileGetBlock dir (BitVec.ofNat 32 i)
      let found ← dirLookupFiles dir blk name FILE2BLK 0
      match found with
      | some f => pure f
      | none => dirLookupBlocks dir name n (i + 1)

def dirLookup (dir : Nat) (name : List (BitVec 8)) : FsM Nat := do
  let nblock ← fileBlocks dir
  dirLookupBlocks dir name nblock 0

/-- The inner loop of `dir_alloc_file`, from file `j` of a block on. -/
def dirAllocFiles (blk : Nat) : Nat → Nat → FsM (Option Nat)
  | 0, _ => pure none
  | n + 1, j => do
      let c ← load8 (blk + BY2FILE * j)
      if c = 0 then pure (some (blk + BY2FILE * j)) else dirAllocFiles blk n (j + 1)

/-- The loop of `dir_alloc_file`, from block `i` on, and the block it adds. -/
def dirAllocBlocks (dir : Nat) : Nat → Nat → FsM Nat
  | 0, i => do
      let size ← load32 (fSize dir)
      store32 (fSize dir) (size + BitVec.ofNat 32 BY2BLK)
      fileGetBlock dir (BitVec.ofNat 32 i)
  | n + 1, i => do
      let blk ← fileGetBlock dir (BitVec.ofNat 32 i)
      let found ← dirAllocFiles blk FILE2BLK 0
      match found with
      | some f => pure f
      | none => dirAllocBlocks dir n (i + 1)

def dirAllocFile (dir : Nat) : FsM Nat := do
  let nblock ← fileBlocks dir
  dirAllocBlocks dir nblock 0

/-! ## Paths -/

/-- `'/'`. -/
def slash : BitVec 8 := 47

def skipSlash (path : List (BitVec 8)) : List (BitVec 8) := path.dropWhile fun c => c == slash

/-- What `walk_path` returns and leaves in `*pdir`, `*pfile` and `lastelem`. -/
structure WalkResult where
  r : U32
  pdir : Nat
  pfile : Nat
  lastelem : List (BitVec 8)

/-- The loop of `walk_path`.  The path gets shorter in every turn, so its length
    is enough turns. -/
def walkLoop : Nat → List (BitVec 8) → Nat → Nat → FsM WalkResult
  | _, [], dir, file => pure ⟨0, dir, file, []⟩
  | 0, _ :: _, _, _ => Prog.stop "unreachable"
  | n + 1, c :: cs, _, dir => do
      let name := (c :: cs).takeWhile fun c => c != slash
      let path := skipSlash ((c :: cs).dropWhile fun c => c != slash)
      if MAXNAMELEN ≤ name.length then pure ⟨-E_BAD_PATH, 0, 0, []⟩
      else
        let type ← load32 (fType dir)
        if type ≠ FTYPE_DIR then pure ⟨-E_NOT_FOUND, 0, 0, []⟩
        else
          let found ← Prog.attempt (dirLookup dir name)
          match found with
          | .ok file => walkLoop n path dir file
          | .error r =>
              if r = -E_NOT_FOUND ∧ path = [] then pure ⟨r, dir, 0, name⟩
              else pure ⟨r, 0, 0, []⟩

def walkPath (path : List (BitVec 8)) : FsM WalkResult := do
  let s ← Prog.get
  walkLoop path.length (skipSlash path) 0 (sRoot s.super)

/-! ## Operations -/

def fileOpen (path : List (BitVec 8)) : FsM Nat := do
  let w ← walkPath path
  if w.r.slt 0 then Prog.throw w.r else pure w.pfile

def fileCreate (path : List (BitVec 8)) (filetype : U32) : FsM Nat := do
  let w ← walkPath path
  if w.r = 0 then Prog.throw (-E_FILE_EXISTS)
  else if w.r ≠ -E_NOT_FOUND ∨ w.pdir = 0 then Prog.throw w.r
  else
    let found ← Prog.attempt (dirAllocFile w.pdir)
    match found with
    | .error _ => Prog.throw w.r
    | .ok f => do
        strcpy f w.lastelem
        store32 (fType f) filetype
        pure f

/-- The loops of `file_truncate`, over blocks `bno`, …; what `file_clear_block`
    returns is not looked at. -/
def clearBlocks (f : Nat) : Nat → Nat → FsM Unit
  | 0, _ => pure ()
  | n + 1, bno => do
      let _ ← Prog.attempt (fileClearBlock f (BitVec.ofNat 32 bno))
      clearBlocks f n (bno + 1)

/-- Freeing the indirect block in `file_truncate`. -/
def clearIndirect (f : Nat) : FsM Unit := do
  let ind ← load32 (fIndirect f)
  if ind = 0 then pure ()
  else
    let ind ← load32 (fIndirect f)
    freeBlock ind
    store32 (fIndirect f) 0

/-- `file_truncate`: rounding 0 gives 0, so that the test for it changes nothing. -/
def fileTruncate (f : Nat) (newsize : Word) : FsM Unit := do
  let oldNblocks ← fileBlocks f
  let newNblocks := ROUND newsize.toNat BY2BLK / BY2BLK
  clearBlocks f (oldNblocks - newNblocks) newNblocks
  if newNblocks < NDIRECT then clearIndirect f else pure ()
  store32 (fSize f) (newsize.setWidth 32)

/-- The loop of `file_flush`, over blocks `bno`, …. -/
def flushBlocks (f : Nat) : Nat → Nat → FsM Unit
  | 0, _ => pure ()
  | n + 1, bno => do
      let r ← Prog.attempt (fileMapBlock f (BitVec.ofNat 32 bno) false)
      match r with
      | .error _ => flushBlocks f n (bno + 1)
      | .ok diskno => do
          let dirty ← blockIsDirty diskno
          if dirty then
            writeBlock diskno
            flushBlocks f n (bno + 1)
          else flushBlocks f n (bno + 1)

def fileFlush (f : Nat) : FsM Unit := do
  let nblocks ← fileBlocks f
  flushBlocks f nblocks 0

/-- `if (f->f_dir) file_flush(f->f_dir)`. -/
def flushDir (f : Nat) : FsM Unit := do
  let dir ← load64 (fDir f)
  if dir = 0 then pure () else fileFlush dir.toNat

def fileSetSize (f : Nat) (newsize : Word) : FsM Unit := do
  let size ← load32 (fSize f)
  if newsize.toNat < size.toNat then fileTruncate f newsize else pure ()
  store32 (fSize f) (newsize.setWidth 32)
  flushDir f

/-- The loop of `fs_sync`, over blocks `i`, …. -/
def syncBlocks : Nat → Nat → FsM Unit
  | 0, _ => pure ()
  | n + 1, i => do
      let dirty ← blockIsDirty (BitVec.ofNat 32 i)
      if dirty then
        writeBlock (BitVec.ofNat 32 i)
        syncBlocks n (i + 1)
      else syncBlocks n (i + 1)

def fsSync : FsM Unit := do
  let n ← sNblocks
  syncBlocks n.toNat 0

def fileClose (f : Nat) : FsM Unit := do
  fileFlush f
  flushDir f

def fileRemove (path : List (BitVec 8)) : FsM Unit := do
  let w ← walkPath path
  if w.r.slt 0 then Prog.throw w.r
  else
    fileTruncate w.pfile 0
    store8 w.pfile 0
    fileFlush w.pfile
    flushDir w.pfile

end RpiMos
