/-
  RpiMos.Fs.Steady

  What no operation on files does: once mounted, the file server does not move
  `super` or `bitmap` and never unmaps a page.  With that, the files that are
  found are never null.
-/

import RpiMos.Fs.File

namespace RpiMos

open Lib Prog

variable {α β : Type} {x : FsM α} {f : α → FsM β}

/-- From `s` to `s'` the variables of the mounted file system stay. -/
structure Steady (s s' : Fs) : Prop where
  super : s'.super = s.super
  bitmap : s'.bitmap = s.bitmap
  nbitmap : s'.nbitmap = s.nbitmap
  memOk : s'.memOk = s.memOk
  mapped : ∀ v, s.mapped v = true → s'.mapped v = true

theorem Steady.refl (s : Fs) : Steady s s := ⟨rfl, rfl, rfl, rfl, fun _ h => h⟩

theorem Steady.trans (s s' s'' : Fs) (h : Steady s s') (h' : Steady s' s'') : Steady s s'' where
  super := h'.super.trans h.super
  bitmap := h'.bitmap.trans h.bitmap
  nbitmap := h'.nbitmap.trans h.nbitmap
  memOk := h'.memOk.trans h.memOk
  mapped v hv := h'.mapped v (h.mapped v hv)

abbrev Quiet (x : FsM α) : Prop := Moves Steady x

theorem quiet_pure (a : α) : Quiet (pure a) := moves_pure Steady.refl a

theorem quiet_throw (e : U32) : Quiet (Prog.throw e : FsM α) := moves_throw Steady.refl e

theorem quiet_stop (m : String) : Quiet (Prog.stop m : FsM α) := moves_stop m

theorem quiet_get : Quiet (Prog.get : FsM Fs) := moves_get Steady.refl

theorem Quiet.bind (hx : Quiet x) (hf : ∀ a, Quiet (f a)) : Quiet (x >>= f) :=
  Moves.bind Steady.trans hx hf

theorem Quiet.attempt (hx : Quiet x) : Quiet (Prog.attempt x) := Moves.attempt hx

theorem quiet_mem (g : Fs → ByteMem) : Quiet (Prog.modify fun s => { s with mem := g s }) :=
  moves_modify fun _ => ⟨rfl, rfl, rfl, rfl, fun _ h => h⟩

theorem quiet_disk (g : Fs → ByteMem) : Quiet (Prog.modify fun s => { s with disk := g s }) :=
  moves_modify fun _ => ⟨rfl, rfl, rfl, rfl, fun _ h => h⟩

theorem steady_mapZero (s : Fs) (v : Nat) : Steady s (s.mapZero v) := by
  refine ⟨rfl, rfl, rfl, rfl, fun v' h => ?_⟩
  show (v' = v || s.mapped v') = true
  rw [h, Bool.or_true]

/-! ## Memory accesses -/

theorem quiet_touch (v : Nat) : Quiet (touch v) := by
  intro s
  unfold touch
  split
  · exact quiet_pure () s
  · split
    · exact quiet_stop _ s
    · split
      · refine ⟨?_, ?_⟩
        · rintro a s' ⟨⟩
          exact steady_mapZero s v
        · rintro e s' ⟨⟩
      · exact quiet_stop _ s

theorem quiet_access (a n : Nat) : Quiet (access a n) :=
  (quiet_touch _).bind fun _ => quiet_touch _

theorem quiet_load8 (a : Nat) : Quiet (load8 a) :=
  (quiet_access a 1).bind fun _ => quiet_get.bind fun _ => quiet_pure _

theorem quiet_load32 (a : Nat) : Quiet (load32 a) :=
  (quiet_access a 4).bind fun _ => quiet_get.bind fun _ => quiet_pure _

theorem quiet_load64 (a : Nat) : Quiet (load64 a) :=
  (quiet_access a 8).bind fun _ => quiet_get.bind fun _ => quiet_pure _

theorem quiet_store8 (a : Nat) (v : BitVec 8) : Quiet (store8 a v) :=
  (quiet_access a 1).bind fun _ => quiet_mem _

theorem quiet_store32 (a : Nat) (v : U32) : Quiet (store32 a v) :=
  (quiet_access a 4).bind fun _ => quiet_mem _

theorem quiet_store64 (a : Nat) (v : Word) : Quiet (store64 a v) :=
  (quiet_access a 8).bind fun _ => quiet_mem _

theorem quiet_syscallMemAlloc (va : Nat) : Quiet (syscallMemAlloc va) := by
  intro s
  unfold syscallMemAlloc
  split
  · refine ⟨?_, ?_⟩
    · rintro a s' ⟨⟩
      exact steady_mapZero s _
    · rintro e s' ⟨⟩
  · refine ⟨?_, ?_⟩
    · rintro a s' ⟨⟩
      exact ⟨rfl, rfl, rfl, rfl, fun _ h => h⟩
    · rintro e s' ⟨⟩

/-! ## Blocks -/

theorem quiet_sNblocks : Quiet sNblocks := quiet_get.bind fun _ => quiet_load32 _

theorem quiet_pastEnd (b : U32) : Quiet (pastEnd b) :=
  quiet_get.bind fun _ =>
    (quiet_pure _).ite (quiet_sNblocks.bind fun _ => quiet_pure _)

theorem quiet_diskaddr (b : U32) : Quiet (diskaddr b) :=
  (quiet_pastEnd b).bind fun _ => (quiet_stop _).ite (quiet_pure _)

theorem quiet_vaIsMapped (va : Nat) : Quiet (vaIsMapped va) :=
  quiet_get.bind fun _ => quiet_pure _

theorem quiet_blockIsMapped (b : U32) : Quiet (blockIsMapped b) :=
  (quiet_diskaddr b).bind fun _ => quiet_vaIsMapped _

theorem quiet_blockIsDirty (b : U32) : Quiet (blockIsDirty b) :=
  (quiet_diskaddr b).bind fun _ => quiet_vaIsMapped _

theorem quiet_mapBlock (b : U32) : Quiet (mapBlock b) :=
  (quiet_blockIsMapped b).bind fun _ =>
    (quiet_pure _).ite ((quiet_diskaddr b).bind fun _ => quiet_syscallMemAlloc _)

theorem quiet_blockIsFree (b : U32) : Quiet (blockIsFree b) :=
  quiet_get.bind fun _ => (quiet_pure _).ite
    (quiet_sNblocks.bind fun _ => (quiet_pure _).ite ((quiet_load64 _).bind fun _ => quiet_pure _))

theorem quiet_knownFree (b : U32) : Quiet (knownFree b) :=
  quiet_get.bind fun _ => (quiet_pure _).ite (quiet_blockIsFree b)

theorem quiet_sdRead (secno : U32) (dst : Nat) : Quiet (sdRead secno dst) :=
  (quiet_access _ _).bind fun _ => quiet_mem _

theorem quiet_sdWrite (secno : U32) (src : Nat) : Quiet (sdWrite secno src) :=
  (quiet_access _ _).bind fun _ => quiet_disk _

theorem quiet_readBlock (b : U32) : Quiet (readBlock b) :=
  (quiet_pastEnd b).bind fun _ => (quiet_stop _).ite <|
    (quiet_knownFree b).bind fun _ => (quiet_stop _).ite <|
      (quiet_diskaddr b).bind fun _ => (quiet_blockIsMapped b).bind fun _ => (quiet_pure _).ite <|
        (quiet_syscallMemAlloc _).bind fun _ => (quiet_sdRead _ _).bind fun _ => quiet_pure _

theorem quiet_writeBlock (b : U32) : Quiet (writeBlock b) :=
  (quiet_blockIsMapped b).bind fun _ =>
    ((quiet_diskaddr b).bind fun _ => quiet_sdWrite _ _).ite (quiet_stop _)

theorem quiet_freeBlock (b : U32) : Quiet (freeBlock b) := by
  have hrest : Quiet (Prog.get >>= fun s : Fs => load64 (bitmapWord s.bitmap b) >>= fun w =>
      store64 (bitmapWord s.bitmap b) (w ||| blockBit b)) :=
    quiet_get.bind fun _ => (quiet_load64 _).bind fun _ => quiet_store64 _ _
  unfold freeBlock
  split
  · exact (quiet_pure _).bind fun _ => (quiet_stop _).ite hrest
  · exact (quiet_pastEnd b).bind fun _ => (quiet_stop _).ite hrest

theorem quiet_allocScan (n : Nat) (b : U32) : Quiet (allocScan n b) := by
  induction n generalizing b with
  | zero => exact quiet_throw _
  | succ n ih =>
      refine quiet_sNblocks.bind fun _ => (quiet_throw _).ite ?_
      refine quiet_get.bind fun _ => (quiet_load64 _).bind fun _ => Moves.ite ?_ (ih _)
      exact (quiet_load64 _).bind fun _ => (quiet_store64 _ _).bind fun _ => quiet_pure _

theorem quiet_allocBlock : Quiet allocBlock :=
  (quiet_allocScan _ _).bind fun _ => (quiet_mapBlock _).bind fun _ =>
    (quiet_pure _).ite ((quiet_freeBlock _).bind fun _ => quiet_throw _)

/-! ## Files -/

theorem quiet_walkIndirect (f : Nat) (alloc : Bool) : Quiet (walkIndirect f alloc) := by
  refine (quiet_load32 _).bind fun _ => Moves.ite (Moves.ite ?_ (quiet_throw _)) (quiet_pure _)
  exact quiet_allocBlock.bind fun _ => quiet_store32 _ _

theorem quiet_fileBlockWalk (f : Nat) (filebno : U32) (alloc : Bool) :
    Quiet (fileBlockWalk f filebno alloc) := by
  refine (quiet_pure _).ite (Moves.ite ?_ (quiet_throw _))
  refine (quiet_walkIndirect f alloc).bind fun _ => (quiet_load32 _).bind fun _ => ?_
  exact (quiet_readBlock _).bind fun _ => quiet_pure _

theorem quiet_mapPointer (ptr : Nat) (alloc : Bool) : Quiet (mapPointer ptr alloc) := by
  refine (quiet_load64 _).bind fun _ => Moves.ite (Moves.ite ?_ (quiet_throw _)) (quiet_pure _)
  exact quiet_allocBlock.bind fun _ => quiet_store64 _ _

theorem quiet_fileMapBlock (f : Nat) (filebno : U32) (alloc : Bool) :
    Quiet (fileMapBlock f filebno alloc) :=
  (quiet_fileBlockWalk f filebno alloc).bind fun _ => (quiet_mapPointer _ alloc).bind fun _ =>
    (quiet_load64 _).bind fun _ => quiet_pure _

theorem quiet_fileClearBlock (f : Nat) (filebno : U32) : Quiet (fileClearBlock f filebno) :=
  (quiet_fileBlockWalk f filebno false).bind fun _ => (quiet_load64 _).bind fun _ =>
    (quiet_pure _).ite ((quiet_freeBlock _).bind fun _ => quiet_store64 _ _)

theorem quiet_fileGetBlock (f : Nat) (filebno : U32) : Quiet (fileGetBlock f filebno) :=
  (quiet_fileMapBlock f filebno true).bind fun _ => (quiet_readBlock _).bind fun _ => quiet_pure _

theorem quiet_fileDirty (f : Nat) (offset : U32) : Quiet (fileDirty f offset) :=
  (quiet_fileGetBlock f _).bind fun _ => (quiet_load8 _).bind fun _ => quiet_store8 _ _

theorem quiet_strcmpEq (p : Nat) (str : List (BitVec 8)) : Quiet (strcmpEq p str) := by
  induction str generalizing p with
  | nil => exact (quiet_load8 p).bind fun _ => quiet_pure _
  | cons c str ih => exact (quiet_load8 p).bind fun _ => (ih _).ite (quiet_pure _)

theorem quiet_strcpy (p : Nat) (str : List (BitVec 8)) : Quiet (strcpy p str) := by
  induction str generalizing p with
  | nil => exact quiet_store8 p 0
  | cons c str ih => exact (quiet_store8 p c).bind fun _ => ih _

theorem quiet_fileBlocks (f : Nat) : Quiet (fileBlocks f) :=
  (quiet_load32 _).bind fun _ => quiet_pure _

theorem quiet_dirLookupFiles (dir blk : Nat) (name : List (BitVec 8)) (n j : Nat) :
    Quiet (dirLookupFiles dir blk name n j) := by
  induction n generalizing j with
  | zero => exact quiet_pure _
  | succ n ih =>
      refine (quiet_strcmpEq _ _).bind fun _ => Moves.ite ?_ (ih _)
      exact (quiet_store64 _ _).bind fun _ => quiet_pure _

theorem quiet_dirLookup (dir : Nat) (name : List (BitVec 8)) : Quiet (dirLookup dir name) := by
  refine (quiet_fileBlocks dir).bind fun n => ?_
  generalize 0 = i
  induction n generalizing i with
  | zero => exact quiet_throw _
  | succ n ih =>
      refine (quiet_fileGetBlock dir _).bind fun blk => ?_
      refine (quiet_dirLookupFiles dir blk name _ _).bind fun found => ?_
      cases found with
      | none => exact ih _
      | some f => exact quiet_pure f

theorem quiet_dirAllocFiles (blk n j : Nat) : Quiet (dirAllocFiles blk n j) := by
  induction n generalizing j with
  | zero => exact quiet_pure _
  | succ n ih => exact (quiet_load8 _).bind fun _ => (quiet_pure _).ite (ih _)

theorem quiet_dirAllocFile (dir : Nat) : Quiet (dirAllocFile dir) := by
  refine (quiet_fileBlocks dir).bind fun n => ?_
  generalize 0 = i
  induction n generalizing i with
  | zero =>
      exact (quiet_load32 _).bind fun _ => (quiet_store32 _ _).bind fun _ => quiet_fileGetBlock dir _
  | succ n ih =>
      refine (quiet_fileGetBlock dir _).bind fun blk => (quiet_dirAllocFiles blk _ _).bind fun found => ?_
      cases found with
      | none => exact ih _
      | some f => exact quiet_pure f

theorem quiet_walkLoop (n : Nat) (path : List (BitVec 8)) (dir file : Nat) :
    Quiet (walkLoop n path dir file) := by
  induction n generalizing path dir file with
  | zero =>
      cases path with
      | nil => exact quiet_pure _
      | cons c cs => exact quiet_stop _
  | succ n ih =>
      cases path with
      | nil => exact quiet_pure _
      | cons c cs =>
          refine (quiet_pure _).ite ((quiet_load32 _).bind fun _ => (quiet_pure _).ite ?_)
          refine (quiet_dirLookup file _).attempt.bind fun found => ?_
          cases found with
          | ok g => exact ih _ _ _
          | error r => exact (quiet_pure _).ite (quiet_pure _)

theorem quiet_walkPath (path : List (BitVec 8)) : Quiet (walkPath path) :=
  quiet_get.bind fun _ => quiet_walkLoop _ _ _ _

theorem quiet_fileOpen (path : List (BitVec 8)) : Quiet (fileOpen path) :=
  (quiet_walkPath path).bind fun _ => (quiet_throw _).ite (quiet_pure _)

theorem quiet_fileCreate (path : List (BitVec 8)) (filetype : U32) :
    Quiet (fileCreate path filetype) := by
  refine (quiet_walkPath path).bind fun w => (quiet_throw _).ite ((quiet_throw _).ite ?_)
  refine (quiet_dirAllocFile _).attempt.bind fun found => ?_
  cases found with
  | error r => exact quiet_throw _
  | ok f => exact (quiet_strcpy f _).bind fun _ => (quiet_store32 _ _).bind fun _ => quiet_pure f

theorem quiet_clearBlocks (f n bno : Nat) : Quiet (clearBlocks f n bno) := by
  induction n generalizing bno with
  | zero => exact quiet_pure _
  | succ n ih => exact (quiet_fileClearBlock f _).attempt.bind fun _ => ih _

theorem quiet_clearIndirect (f : Nat) : Quiet (clearIndirect f) :=
  (quiet_load32 _).bind fun _ => (quiet_pure _).ite <|
    (quiet_load32 _).bind fun _ => (quiet_freeBlock _).bind fun _ => quiet_store32 _ _

theorem quiet_fileTruncate (f : Nat) (newsize : Word) : Quiet (fileTruncate f newsize) := by
  refine (quiet_fileBlocks f).bind fun n => (quiet_clearBlocks f _ _).bind fun _ => ?_
  split
  · exact (quiet_clearIndirect f).bind fun _ => quiet_store32 _ _
  · exact (quiet_pure _).bind fun _ => quiet_store32 _ _

theorem quiet_flushBlocks (f n bno : Nat) : Quiet (flushBlocks f n bno) := by
  induction n generalizing bno with
  | zero => exact quiet_pure _
  | succ n ih =>
      refine (quiet_fileMapBlock f _ false).attempt.bind fun r => ?_
      cases r with
      | error e => exact ih _
      | ok diskno =>
          exact (quiet_blockIsDirty diskno).bind fun _ =>
            Moves.ite ((quiet_writeBlock diskno).bind fun _ => ih _) (ih _)

theorem quiet_fileFlush (f : Nat) : Quiet (fileFlush f) :=
  (quiet_fileBlocks f).bind fun _ => quiet_flushBlocks f _ _

theorem quiet_flushDir (f : Nat) : Quiet (flushDir f) :=
  (quiet_load64 _).bind fun _ => (quiet_pure _).ite (quiet_fileFlush _)

theorem quiet_fileSetSize (f : Nat) (newsize : Word) : Quiet (fileSetSize f newsize) := by
  refine (quiet_load32 _).bind fun _ => ?_
  split
  · exact (quiet_fileTruncate f newsize).bind fun _ => (quiet_store32 _ _).bind fun _ => quiet_flushDir f
  · exact (quiet_pure _).bind fun _ => (quiet_store32 _ _).bind fun _ => quiet_flushDir f

theorem quiet_syncBlocks (n i : Nat) : Quiet (syncBlocks n i) := by
  induction n generalizing i with
  | zero => exact quiet_pure _
  | succ n ih =>
      exact (quiet_blockIsDirty _).bind fun _ =>
        Moves.ite ((quiet_writeBlock _).bind fun _ => ih _) (ih _)

theorem quiet_fsSync : Quiet fsSync := quiet_sNblocks.bind fun _ => quiet_syncBlocks _ _

theorem quiet_fileClose (f : Nat) : Quiet (fileClose f) :=
  (quiet_fileFlush f).bind fun _ => quiet_flushDir f

theorem quiet_fileRemove (path : List (BitVec 8)) : Quiet (fileRemove path) := by
  refine (quiet_walkPath path).bind fun w => (quiet_throw _).ite ?_
  exact (quiet_fileTruncate _ _).bind fun _ => (quiet_store8 _ _).bind fun _ =>
    (quiet_fileFlush _).bind fun _ => quiet_flushDir _

/-! ## Where blocks and files lie -/

/-- Every error code is a negative `int`. -/
def Negative (r : U32) : Prop := r.slt 0 = true

instance (r : U32) : Decidable (Negative r) := inferInstanceAs (Decidable (r.slt 0 = true))

abbrev Gives (P : α → Prop) (x : FsM α) : Prop := Yields P Negative x

theorem gives_throw {P : α → Prop} {e : U32} (h : Negative e) : Gives P (Prog.throw e : FsM α) :=
  yields_throw h

section Never

/- Whatever holds of an error code holds of those that there are none of. -/
variable {F : U32 → Prop}

/-- An access to memory has no error code. -/
theorem gives_access (a n : Nat) : Yields (fun _ => True) F (access a n) := by
  have htouch : ∀ v, Yields (fun _ => True) F (touch v) := by
    refine fun v => yields_of_never fun s e s' h => ?_
    unfold touch at h
    split at h
    · cases h
    · split at h
      · cases h
      · split at h <;> cases h
  exact (htouch _).bind fun _ _ => htouch _

theorem gives_get : Yields (fun _ => True) F (Prog.get : FsM Fs) :=
  yields_of_never (by rintro s e s' ⟨⟩)

theorem gives_modify (g : Fs → Fs) : Yields (fun _ => True) F (Prog.modify g : FsM Unit) :=
  yields_of_never (by rintro s e s' ⟨⟩)

theorem gives_load8 (a : Nat) : Yields (fun _ => True) F (load8 a) :=
  (gives_access a 1).bind fun _ _ => gives_get.bind fun _ _ => yields_pure trivial

theorem gives_load32 (a : Nat) : Yields (fun _ => True) F (load32 a) :=
  (gives_access a 4).bind fun _ _ => gives_get.bind fun _ _ => yields_pure trivial

theorem gives_load64 (a : Nat) : Yields (fun _ => True) F (load64 a) :=
  (gives_access a 8).bind fun _ _ => gives_get.bind fun _ _ => yields_pure trivial

theorem gives_store32 (a : Nat) (v : U32) : Yields (fun _ => True) F (store32 a v) :=
  (gives_access a 4).bind fun _ _ => gives_modify _

theorem gives_store64 (a : Nat) (v : Word) : Yields (fun _ => True) F (store64 a v) :=
  (gives_access a 8).bind fun _ _ => gives_modify _

theorem gives_syscallMemAlloc (va : Nat) :
    Yields (fun r => r = 0 ∨ Negative r) F (syscallMemAlloc va) := by
  intro s
  unfold syscallMemAlloc
  split
  · refine ⟨?_, ?_⟩
    · rintro a s' ⟨⟩
      exact Or.inl rfl
    · rintro e s' ⟨⟩
  · refine ⟨?_, ?_⟩
    · rintro a s' ⟨⟩
      exact Or.inr (by decide)
    · rintro e s' ⟨⟩

theorem gives_sNblocks : Yields (fun _ => True) F sNblocks := gives_get.bind fun _ _ => gives_load32 _

theorem gives_pastEnd (b : U32) : Yields (fun _ => True) F (pastEnd b) :=
  gives_get.bind fun _ _ =>
    (yields_pure trivial).ite (gives_sNblocks.bind fun _ _ => yields_pure trivial)

theorem gives_diskaddr (b : U32) :
    Yields (fun va => va = DISKMAP + b.toNat * BY2BLK) F (diskaddr b) :=
  (gives_pastEnd b).bind fun _ _ => (yields_stop _).ite (yields_pure rfl)

theorem gives_blockIsMapped (b : U32) : Yields (fun _ => True) F (blockIsMapped b) :=
  (gives_diskaddr b).bind fun _ _ => gives_get.bind fun _ _ => yields_pure trivial

theorem gives_knownFree (b : U32) : Yields (fun _ => True) F (knownFree b) :=
  gives_get.bind fun _ _ => (yields_pure trivial).ite <| gives_get.bind fun _ _ =>
    (yields_pure trivial).ite <| gives_sNblocks.bind fun _ _ => (yields_pure trivial).ite <|
      (gives_load64 _).bind fun _ _ => yields_pure trivial

theorem gives_readBlock (b : U32) :
    Yields (fun r => r.1 = DISKMAP + b.toNat * BY2BLK) F (readBlock b) := by
  refine (gives_pastEnd b).bind fun _ _ => (yields_stop _).ite ?_
  refine (gives_knownFree b).bind fun _ _ => (yields_stop _).ite ?_
  refine (gives_diskaddr b).bind fun va hva => ?_
  refine (gives_blockIsMapped b).bind fun _ _ => Yields.ite (yields_pure hva) ?_
  exact (gives_syscallMemAlloc va).bind fun _ _ =>
    ((gives_access _ _).bind fun _ _ => gives_modify _).bind fun _ _ => yields_pure hva

end Never

theorem gives_freeBlock (b : U32) : Gives (fun _ => True) (freeBlock b) := by
  have hrest : Gives (fun _ => True) (Prog.get >>= fun s : Fs =>
      load64 (bitmapWord s.bitmap b) >>= fun w =>
        store64 (bitmapWord s.bitmap b) (w ||| blockBit b)) :=
    gives_get.bind fun _ _ => (gives_load64 _).bind fun _ _ => gives_store64 _ _
  unfold freeBlock
  split
  · exact (yields_pure (P := fun _ => True) trivial).bind fun _ _ => (yields_stop _).ite hrest
  · exact (gives_pastEnd b).bind fun _ _ => (yields_stop _).ite hrest

theorem gives_allocScan (n : Nat) (b : U32) : Gives (fun _ => True) (allocScan n b) := by
  induction n generalizing b with
  | zero => exact gives_throw (by decide)
  | succ n ih =>
      refine gives_sNblocks.bind fun _ _ => (gives_throw (by decide)).ite ?_
      refine gives_get.bind fun _ _ => (gives_load64 _).bind fun _ _ => Yields.ite ?_ (ih _)
      exact (gives_load64 _).bind fun _ _ => (gives_store64 _ _).bind fun _ _ => yields_pure trivial

theorem gives_mapBlock (b : U32) : Gives (fun r => r = 0 ∨ Negative r) (mapBlock b) :=
  (gives_blockIsMapped b).bind fun _ _ => Yields.ite (yields_pure (Or.inl rfl))
    ((gives_diskaddr b).bind fun va _ => gives_syscallMemAlloc va)

theorem gives_allocBlock : Gives (fun _ => True) allocBlock := by
  refine (gives_allocScan _ _).bind fun bno _ => (gives_mapBlock bno).bind fun r hr => ?_
  split
  · exact yields_pure trivial
  · rename_i hne
    exact (gives_freeBlock bno).bind fun _ _ => gives_throw (hr.resolve_left hne)

theorem gives_fileMapBlock (f : Nat) (filebno : U32) (alloc : Bool) :
    Gives (fun _ => True) (fileMapBlock f filebno alloc) := by
  have hind : Gives (fun _ => True) (walkIndirect f alloc) := by
    refine (gives_load32 _).bind fun _ _ => Yields.ite (Yields.ite ?_ (gives_throw (by decide)))
      (yields_pure trivial)
    exact gives_allocBlock.bind fun _ _ => gives_store32 _ _
  have hwalk : Gives (fun _ => True) (fileBlockWalk f filebno alloc) := by
    refine (yields_pure trivial).ite (Yields.ite ?_ (gives_throw (by decide)))
    exact hind.bind fun _ _ => (gives_load32 _).bind fun _ _ =>
      (gives_readBlock _).bind fun _ _ => yields_pure trivial
  have hmap : ∀ ptr, Gives (fun _ => True) (mapPointer ptr alloc) := by
    refine fun ptr => (gives_load64 _).bind fun _ _ =>
      Yields.ite (Yields.ite ?_ (gives_throw (by decide))) (yields_pure trivial)
    exact gives_allocBlock.bind fun _ _ => gives_store64 _ _
  exact hwalk.bind fun ptr _ => (hmap ptr).bind fun _ _ => (gives_load64 _).bind fun _ _ =>
    yields_pure trivial

/-- The address of a block in the cache. -/
def BlockAddr (blk : Nat) : Prop := ∃ b : U32, blk = DISKMAP + b.toNat * BY2BLK

/-- The address of a file in a block of the cache. -/
def EntryAddr (file : Nat) : Prop :=
  ∃ blk j, BlockAddr blk ∧ j < FILE2BLK ∧ file = blk + BY2FILE * j

theorem gives_fileGetBlock (f : Nat) (filebno : U32) : Gives BlockAddr (fileGetBlock f filebno) :=
  (gives_fileMapBlock f filebno true).bind fun b _ =>
    (gives_readBlock b).bind fun _ hr => yields_pure ⟨b, hr⟩

theorem gives_strcmpEq (p : Nat) (str : List (BitVec 8)) :
    Gives (fun _ => True) (strcmpEq p str) := by
  induction str generalizing p with
  | nil => exact (gives_load8 p).bind fun _ _ => yields_pure trivial
  | cons c str ih => exact (gives_load8 p).bind fun _ _ => (ih _).ite (yields_pure trivial)

theorem gives_dirLookupFiles (dir blk : Nat) (name : List (BitVec 8)) (n j : Nat) :
    Gives (fun r => ∀ f, r = some f → ∃ i, i < j + n ∧ f = blk + BY2FILE * i)
      (dirLookupFiles dir blk name n j) := by
  induction n generalizing j with
  | zero => exact yields_pure (by rintro f ⟨⟩)
  | succ n ih =>
      refine (gives_strcmpEq _ _).bind fun _ _ => Yields.ite ?_ ?_
      · refine (gives_store64 _ _).bind fun _ _ => yields_pure ?_
        rintro f ⟨⟩
        exact ⟨j, by omega, rfl⟩
      · refine (ih (j + 1)).mono fun r hr f hf => ?_
        obtain ⟨i, hi, heq⟩ := hr f hf
        exact ⟨i, by omega, heq⟩

theorem gives_dirLookup (dir : Nat) (name : List (BitVec 8)) :
    Gives EntryAddr (dirLookup dir name) := by
  have hsize : Gives (fun _ => True) (fileBlocks dir) :=
    (gives_load32 _).bind fun _ _ => yields_pure trivial
  refine hsize.bind fun n _ => ?_
  generalize 0 = i
  induction n generalizing i with
  | zero => exact gives_throw (by decide)
  | succ n ih =>
      refine (gives_fileGetBlock dir _).bind fun blk hblk => ?_
      refine (gives_dirLookupFiles dir blk name _ _).bind fun found hfound => ?_
      cases found with
      | none => exact ih _
      | some f =>
          obtain ⟨j, hj, hf⟩ := hfound f rfl
          exact yields_pure ⟨blk, j, hblk, by rwa [Nat.zero_add] at hj, hf⟩

/-- What `walk_path` finds is the root or lies in a block. -/
def WalkOk (super : Nat) (w : WalkResult) : Prop :=
  Negative w.r ∨ w.r = 0 ∧ (w.pfile = sRoot super ∨ EntryAddr w.pfile)

theorem gives_walkLoop (super n : Nat) (path : List (BitVec 8)) (dir file : Nat)
    (hfile : file = sRoot super ∨ EntryAddr file) :
    Gives (WalkOk super) (walkLoop n path dir file) := by
  induction n generalizing path dir file with
  | zero =>
      cases path with
      | nil => exact yields_pure (Or.inr ⟨rfl, hfile⟩)
      | cons c cs => exact yields_stop _
  | succ n ih =>
      cases path with
      | nil => exact yields_pure (Or.inr ⟨rfl, hfile⟩)
      | cons c cs =>
          refine Yields.ite (yields_pure (Or.inl (by decide : Negative (-E_BAD_PATH)))) ?_
          refine (gives_load32 _).bind fun _ _ => ?_
          refine Yields.ite (yields_pure (Or.inl (by decide : Negative (-E_NOT_FOUND)))) ?_
          refine (gives_dirLookup file _).attempt.bind fun found hfound => ?_
          cases found with
          | ok g => exact ih _ _ _ (Or.inr (hfound.1 g rfl))
          | error r =>
              have hr : Negative r := hfound.2 r rfl
              exact Yields.ite (yields_pure (Or.inl hr)) (yields_pure (Or.inl hr))

/-- A file that `file_open` finds is the root or lies in a block of the cache. -/
theorem fileOpen_addr {path : List (BitVec 8)} {s s' : Fs} {file : Nat}
    (h : fileOpen path s = .ret file s') : file = sRoot s.super ∨ EntryAddr file := by
  obtain ⟨w, s₁, hwalk, hrest⟩ := bind_eq_ret.mp h
  have hw : WalkOk s.super w := (gives_walkLoop _ _ _ 0 _ (Or.inl rfl) s).1 w s₁ hwalk
  split at hrest
  · cases hrest
  · rename_i hneg
    cases hrest
    rcases hw with hw | ⟨-, hw⟩
    · exact absurd hw hneg
    · exact hw

theorem EntryAddr.bounds {file : Nat} (h : EntryAddr file) : DISKMAP ≤ file ∧ file < 2 ^ 45 := by
  obtain ⟨blk, j, ⟨b, rfl⟩, hj, rfl⟩ := h
  have hb := b.isLt
  unfold DISKMAP BY2BLK BY2FILE FILE2BLK at *
  omega

/-- No file that `file_open` finds is null. -/
theorem fileOpen_ne_null {path : List (BitVec 8)} {s s' : Fs} {file : Nat}
    (h : fileOpen path s = .ret file s') (hsuper : s.super < 2 ^ 45) :
    BitVec.ofNat 64 file ≠ 0 := by
  have hfile : 0 < file ∧ file < 2 ^ 64 := by
    rcases fileOpen_addr h with rfl | hentry
    · unfold sRoot
      omega
    · have := hentry.bounds
      unfold DISKMAP at this
      omega
  intro hz
  have hnat := congrArg BitVec.toNat hz
  rw [BitVec.toNat_ofNat, Nat.mod_eq_of_lt hfile.2] at hnat
  exact absurd hnat (by show file ≠ 0; omega)

/-! ## Mounting -/

/-- `check_write_block` leaves `super` at the address of block 1. -/
theorem checkWriteBlock_super {s s' : Fs} (h : checkWriteBlock s = .ret () s') :
    s'.super = DISKMAP + BY2BLK := by
  obtain ⟨_, _, -, h⟩ := bind_eq_ret.mp h
  obtain ⟨_, _, -, h⟩ := bind_eq_ret.mp h
  obtain ⟨va, s₁, hva, h⟩ := bind_eq_ret.mp h
  have haddr : va = DISKMAP + (1 : U32).toNat * BY2BLK := (gives_diskaddr (F := Negative) 1 _).1 va s₁ hva
  -- Everything else comes before the last assignment.
  iterate 14 obtain ⟨_, _, -, h⟩ := bind_eq_ret.mp h
  cases h
  exact haddr

theorem readBitmap_super {s s' : Fs} (h : readBitmap s = .ret () s') : s'.super = s.super := by
  obtain ⟨n, s₁, hn, h⟩ := bind_eq_ret.mp h
  obtain ⟨_, s₂, hset, h⟩ := bind_eq_ret.mp h
  obtain ⟨_, s₃, hblocks, h⟩ := bind_eq_ret.mp h
  obtain ⟨_, s₄, haddr, h⟩ := bind_eq_ret.mp h
  obtain ⟨_, s₅, hset', h⟩ := bind_eq_ret.mp h
  have hload : ∀ n i, Quiet (readBitmapBlocks n i) := by
    intro n
    induction n with
    | zero => exact fun _ => quiet_pure _
    | succ n ih => exact fun i => (quiet_readBlock _).bind fun _ => ih _
  have hassert : ∀ c, Quiet (userAssert c) := fun c => (quiet_pure _).ite (quiet_stop _)
  have hbits : ∀ n i, Quiet (checkBitmapBlocks n i) := by
    intro n
    induction n with
    | zero => exact fun _ => quiet_pure _
    | succ n ih =>
        exact fun i => (quiet_blockIsFree _).bind fun _ => (hassert _).bind fun _ => ih _
  have hrest := ((quiet_blockIsFree 0).bind fun _ => (hassert _).bind fun _ =>
    (quiet_blockIsFree 1).bind fun _ => (hassert _).bind fun _ => hbits _ 0).ret h
  have h₁ := quiet_sNblocks.ret hn
  have h₃ := (hload _ 0).ret hblocks
  have h₄ := (quiet_diskaddr 2).ret haddr
  cases hset
  cases hset'
  exact hrest.super.trans (h₄.super.trans (h₃.super.trans h₁.super))

/-- So does mounting. -/
theorem fsInit_super {s s' : Fs} (h : fsInit s = .ret () s') : s'.super = DISKMAP + BY2BLK := by
  obtain ⟨_, s₁, -, h⟩ := bind_eq_ret.mp h
  obtain ⟨_, s₂, hcheck, hread⟩ := bind_eq_ret.mp h
  rw [readBitmap_super hread, checkWriteBlock_super hcheck]

end RpiMos
