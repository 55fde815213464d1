/-
  RpiMos.Fs.OpenTab

  The open-file table of fs/serv.c and the pages that stand behind it.  Each slot
  has a page for a `struct Filefd` at a fixed address of the server; how many
  page tables map it, `pageref`, tells whether a client still has the file open.
  The operations of fs/fs.c and the table together are what `serve` calls.
-/

import RpiMos.Fs.Serv
import RpiMos.Fs.Steady
import RpiMos.Kernel.Env
import RpiMos.Lib.SlotCount
import Mathlib.Data.Fintype.Prod

namespace RpiMos

open Lib

def MAXOPEN : Nat := 1024
def FILEVA : Nat := 0x60000000

/-! ## Mapped pages -/

/-- The number of a page below 2^39. -/
abbrev Vpn := Fin (2 ^ 27)

def vpn (va : Nat) : Vpn := ⟨va / BY2PG % 2 ^ 27, Nat.mod_lt _ (by decide)⟩

/-- The frame at each user page of every environment. -/
abbrev Mappings := EnvPtr × Vpn → Option Nat

/-- In how many places a frame is mapped. -/
def Mappings.ref (m : Mappings) (frame : Nat) : Nat := slotCount (allSlots _) m frame

/-- The file server is the first environment. -/
def server : EnvPtr := 0

/-- `pageref`, called by environment `e`. -/
def pageref (m : Mappings) (e : EnvPtr) (va : Nat) : Nat :=
  match m (e, vpn va) with
  | none => 0
  | some frame => m.ref frame

/-- A frame that nobody maps is at no page. -/
theorem maps_ne_of_ref {m : Mappings} {p : Nat} (h : m.ref p = 0) (x : EnvPtr × Vpn) :
    m x ≠ some p :=
  not_named_of_slotCount_eq_zero h x (mem_allSlots x)

theorem ref_pos {m : Mappings} {p : Nat} {x : EnvPtr × Vpn} (h : m x = some p) : 0 < m.ref p :=
  slotCount_pos (mem_allSlots x) h

/-- A frame that one page maps and not once only is mapped at a second one. -/
theorem exists_other {m : Mappings} {p : Nat} {x : EnvPtr × Vpn} (hx : m x = some p)
    (h : m.ref p ≠ 1) : ∃ y, y ≠ x ∧ m y = some p := by
  by_contra hnone
  refine h ?_
  have hsum := slotCount_erase_add (mem_allSlots x) m p
  have hone : slotShare m x p = 1 := by rw [slotShare, if_pos hx]
  have hzero : slotCount ((allSlots _).erase x) m p = 0 := by
    refine Finset.card_eq_zero.mpr (Finset.filter_eq_empty_iff.mpr fun y hy hp => hnone ?_)
    exact ⟨y, (Finset.mem_erase.mp hy).1, hp⟩
  rw [hone, hzero] at hsum
  exact hsum.symm

/-- A frame that is mapped once only is mapped nowhere else. -/
theorem eq_of_ref_one {m : Mappings} {p : Nat} {x y : EnvPtr × Vpn} (hx : m x = some p)
    (hy : m y = some p) (h : m.ref p = 1) : y = x := by
  by_contra hne
  have hsum := slotCount_erase_add (mem_allSlots x) m p
  have hone : slotShare m x p = 1 := by rw [slotShare, if_pos hx]
  have hpos : 0 < slotCount ((allSlots _).erase x) m p :=
    slotCount_pos (Finset.mem_erase.mpr ⟨hne, mem_allSlots y⟩) hy
  have href : slotCount (allSlots _) m p = 1 := h
  omega

/-! ## State -/

structure Open where
  o_file : Word
  o_fileid : U32
  o_mode : U32
  o_ff : Nat

/-- What `serve_open` leaves in the page of an open file. -/
structure Filefd where
  f_file : Fin 256 → BitVec 8
  f_fileid : U32
  fd_omode : U32
  fd_dev_id : U32

def zeroFilefd : Filefd := ⟨fun _ => 0, 0, 0, 0⟩

structure Serv where
  fs : Fs
  opentab : Fin 1024 → Open
  filefd : Fin 1024 → Filefd
  maps : Mappings

/-- The page at which the server has the `Filefd` of a slot. -/
def ffPage (i : Fin 1024) : EnvPtr × Vpn := (server, vpn (FILEVA + i.val * BY2PG))

namespace Serv

def setOpen (s : Serv) (i : Fin 1024) (o : Open) : Serv :=
  { s with opentab := Function.update s.opentab i o }

def setMap (s : Serv) (x : EnvPtr × Vpn) (frame : Option Nat) : Serv :=
  { s with maps := Function.update s.maps x frame }

/-- `pageref(opentab[i].o_ff)`. -/
def openref (s : Serv) (i : Fin 1024) : Nat := pageref s.maps server (s.opentab i).o_ff

end Serv

/-! ## serv.c -/

/-- `serve_init`. -/
def serveInit (s : Serv) : Serv :=
  { s with opentab := fun i => { s.opentab i with
      o_fileid := BitVec.ofNat 32 i.val
      o_ff := FILEVA + i.val * BY2PG } }

/-- The end of `open_alloc` at slot `i`. -/
def openGive (i : Fin 1024) (s : Serv) : U32 × Option (Fin 1024) × Serv :=
  let o := s.opentab i
  let fileid := o.o_fileid + BitVec.ofNat 32 MAXOPEN
  let s₁ := s.setOpen i { o with o_fileid := fileid }
  (fileid, some i, { s₁ with filefd := Function.update s₁.filefd i zeroFilefd })

/-- The loop of `open_alloc`: with its result, the slot that was given away.
    `frame` is what the kernel's page allocator has for it. -/
def openAllocLoop (frame : Option Nat) : List (Fin 1024) → Serv → U32 × Option (Fin 1024) × Serv
  | [], s => (-E_MAX_OPEN, none, s)
  | i :: slots, s =>
      match s.openref i with
      | 0 =>
          match frame with
          | none => (-1, none, s)
          | some p => openGive i (s.setMap (server, vpn (s.opentab i).o_ff) (some p))
      | 1 => openGive i s
      | _ => openAllocLoop frame slots s

def openAlloc (frame : Option Nat) (s : Serv) : U32 × Option (Fin 1024) × Serv :=
  openAllocLoop frame (List.finRange 1024) s

theorem slot_lt (fileid : U32) : fileid.toNat % 1024 < 1024 := Nat.mod_lt _ (by decide)

/-- `&opentab[fileid % MAXOPEN]`. -/
def slotOf (fileid : U32) : Fin 1024 := ⟨fileid.toNat % 1024, slot_lt fileid⟩

/-- `open_lookup`; `envid` is not used. -/
def openLookup (_envid fileid : U32) (s : Serv) : U32 × Nat :=
  let i := slotOf fileid
  if s.openref i = 1 ∨ (s.opentab i).o_fileid ≠ fileid then (-E_INVAL, 0) else (0, i.val)

/-- The stores of `serve_open` into the open file and its page. -/
def fillOpen (i : Fin 1024) (f : Word) (omode : U32) (s : Serv) : Except String Serv :=
  match access f.toNat BY2FILE s.fs with
  | .ret _ fs =>
      let o := { s.opentab i with o_file := f, o_mode := omode }
      .ok { s.setOpen i o with
        fs := fs
        filefd := Function.update s.filefd i
          ⟨fun k => fs.mem.ld8 (f.toNat + k.val), o.o_fileid, omode, 102⟩ }
  | .fail _ _ => .error ""
  | .stop m => .error m

/-- The bytes of a path before its terminating null. -/
def cstring (path : Path) : List (BitVec 8) := (List.ofFn path).takeWhile fun c => c != 0

/-- A call of fs.c from a handler: its result, what it hands back, and the state.
    A server that has stopped stays so. -/
@[irreducible] def callFs {α : Type} (x : FsM α) (ptr : α → Word) (s : Except String Serv) :
    U32 × Word × Except String Serv :=
  match s with
  | .error m => (0, 0, .error m)
  | .ok s =>
      match x s.fs with
      | .ret a fs => (0, ptr a, .ok { s with fs := fs })
      | .fail r fs => (r, 0, .ok { s with fs := fs })
      | .stop m => (0, 0, .error m)

/-- The same for a call that hands nothing back. -/
def callFs' (x : FsM Unit) (s : Except String Serv) : U32 × Except String Serv :=
  let (r, _, s) := callFs x (fun _ => 0) s
  (r, s)

/-- A look at the table; nothing is looked at in a stopped server. -/
def readServ {α : Type} (d : α) (g : Serv → α) (s : Except String Serv) : α :=
  match s with
  | .error _ => d
  | .ok s => g s

/-- fs.c and the open table, as `serve` calls them. -/
def servOps (frame : Option Nat) : FsOps (Except String Serv) where
  open_alloc s :=
    match s with
    | .error m => (0, 0, .error m)
    | .ok s =>
        let (r, o, s) := openAlloc frame s
        (r, (o.map Fin.val).getD 0, .ok s)
  file_open path := callFs (fileOpen (cstring path)) fun f => BitVec.ofNat 64 f
  fill_open o f omode s := s.bind (fillOpen ⟨o % 1024, Nat.mod_lt _ (by decide)⟩ f omode)
  o_ff o s := readServ 0 (fun s => BitVec.ofNat 64 (s.opentab ⟨o % 1024, Nat.mod_lt _ (by decide)⟩).o_ff) s
  o_file o s := readServ 0 (fun s => (s.opentab ⟨o % 1024, Nat.mod_lt _ (by decide)⟩).o_file) s
  open_lookup envid fileid s := readServ (0, 0) (openLookup envid fileid) s
  file_get_block f filebno := callFs (fileGetBlock f.toNat filebno) fun blk => BitVec.ofNat 64 blk
  file_set_size f size := callFs' (fileSetSize f.toNat (size.setWidth 64))
  file_close f s := (callFs' (fileClose f.toNat) s).2
  file_dirty f offset := callFs' (fileDirty f.toNat offset)
  file_remove path := callFs' (fileRemove (cstring path))
  file_create path filetype s :=
    let (r, _, s) := callFs (fileCreate (cstring path) filetype) (fun _ => 0) s
    (r, s)
  fs_sync s := (callFs' fsSync s).2

/-- What `serve` answers, from a server that has not stopped. -/
def Serv.serve (frame : Option Nat) (envid : U32) (rq : PageWords) (req : Word) (s : Serv) :
    Option (Reply × Except String Serv) := RpiMos.serve (servOps frame) envid rq (.ok s) req

end RpiMos
