/-
  RpiMos.Mm.Pmap

  mm/pmap.c and the page bookkeeping of boot/init.c: the allocation bitmap, the
  `pages` array, and the three-level page tables as they stand in physical
  memory.  A kernel virtual address `KADDR(pa)` is modelled by the frame number
  `pa >> 12` and the index of the 64-bit word inside the frame; a `struct Page *`
  by its index into `Kern_pages`.
-/

import RpiMos.Mm.Mmu
import RpiMos.Lib.Scan

namespace RpiMos

open Lib

/-! ## State -/

/-- `struct Page`. -/
structure Page where
  pa : Word
  ref : U32

/-- Physical memory and the allocator's tables. -/
structure Pmap where
  /-- 64-bit word `i` of physical frame `t`. -/
  mem : Nat → Nat → Word
  /-- `Kern_pages`; indices from `NPAGE` on stand for the memory past the array. -/
  pages : Nat → Page
  /-- `Kern_vis`; indices from `2 ^ 12` on stand for the memory past the array. -/
  vis : Nat → Word

namespace Pmap

/-- `*addr = w` at word `i` of frame `t`. -/
def setPte (s : Pmap) (t i : Nat) (w : Word) : Pmap :=
  { s with mem := fun t' i' => if t' = t ∧ i' = i then w else s.mem t' i' }

/-- `bzero(page2kva(pp), BY2PG)`. -/
def bzeroPage (s : Pmap) (pp : Nat) : Pmap :=
  { s with mem := fun t i => if t = pp then 0 else s.mem t i }

def setRef (s : Pmap) (pp : Nat) (r : U32) : Pmap :=
  { s with pages := fun q => if q = pp then { s.pages q with ref := r } else s.pages q }

/-- `pp->ref++`. -/
def incRef (s : Pmap) (pp : Nat) : Pmap := s.setRef pp ((s.pages pp).ref + 1)

/-- `pp->ref--`. -/
def decRef (s : Pmap) (pp : Nat) : Pmap := s.setRef pp ((s.pages pp).ref - 1)

def setVis (s : Pmap) (i : Nat) (w : Word) : Pmap :=
  { s with vis := fun j => if j = i then w else s.vis j }

@[simp] theorem setPte_pages (s : Pmap) (t i : Nat) (w : Word) :
    (s.setPte t i w).pages = s.pages := rfl
@[simp] theorem setPte_vis (s : Pmap) (t i : Nat) (w : Word) : (s.setPte t i w).vis = s.vis := rfl
@[simp] theorem bzeroPage_pages (s : Pmap) (pp : Nat) : (s.bzeroPage pp).pages = s.pages := rfl
@[simp] theorem bzeroPage_vis (s : Pmap) (pp : Nat) : (s.bzeroPage pp).vis = s.vis := rfl
@[simp] theorem setRef_mem (s : Pmap) (pp : Nat) (r : U32) : (s.setRef pp r).mem = s.mem := rfl
@[simp] theorem setRef_vis (s : Pmap) (pp : Nat) (r : U32) : (s.setRef pp r).vis = s.vis := rfl
@[simp] theorem incRef_mem (s : Pmap) (pp : Nat) : (s.incRef pp).mem = s.mem := rfl
@[simp] theorem incRef_vis (s : Pmap) (pp : Nat) : (s.incRef pp).vis = s.vis := rfl
@[simp] theorem decRef_mem (s : Pmap) (pp : Nat) : (s.decRef pp).mem = s.mem := rfl
@[simp] theorem decRef_vis (s : Pmap) (pp : Nat) : (s.decRef pp).vis = s.vis := rfl
@[simp] theorem setVis_mem (s : Pmap) (i : Nat) (w : Word) : (s.setVis i w).mem = s.mem := rfl
@[simp] theorem setVis_pages (s : Pmap) (i : Nat) (w : Word) :
    (s.setVis i w).pages = s.pages := rfl

theorem setPte_mem (s : Pmap) (t i : Nat) (w : Word) (t' i' : Nat) :
    (s.setPte t i w).mem t' i' = if t' = t ∧ i' = i then w else s.mem t' i' := rfl

@[simp] theorem setPte_mem_self (s : Pmap) (t i : Nat) (w : Word) :
    (s.setPte t i w).mem t i = w := by simp [setPte_mem]

theorem setPte_mem_of_ne {s : Pmap} {t i t' i' : Nat} {w : Word} (h : ¬ (t' = t ∧ i' = i)) :
    (s.setPte t i w).mem t' i' = s.mem t' i' := by rw [setPte_mem, if_neg h]

@[simp] theorem setRef_pa (s : Pmap) (pp : Nat) (r : U32) (q : Nat) :
    ((s.setRef pp r).pages q).pa = (s.pages q).pa := by
  simp only [setRef]; split <;> rfl

theorem setRef_ref (s : Pmap) (pp : Nat) (r : U32) (q : Nat) :
    ((s.setRef pp r).pages q).ref = if q = pp then r else (s.pages q).ref := by
  simp only [setRef]; split <;> rfl

end Pmap

/-! ## The allocator -/

/-- `1 << j`: an `int` shift (the count taken modulo 32, as the processor does),
    sign-extended to 64 bits. -/
def shiftedInt (j : Nat) : Word := (1#32 <<< (j % 32)).signExtend 64

/-- `Kern_vis[i] != -1ll`, and then the inner loop over the bits of the word. -/
def pageAllocIn (w : Word) (i : Nat) : Option (Nat × Nat) :=
  if w ≠ BitVec.allOnes 64 then
    scan (fun j => if w &&& shiftedInt j = 0 then some (i, j) else none) 0 64
  else none

/-- `page_alloc`: the page found and the new state, or `none` for -1. -/
def pageAlloc (s : Pmap) : Option (Nat × Pmap) :=
  match scan (fun i => pageAllocIn (s.vis i) i) 0 (2 ^ 12) with
  | some (i, j) =>
      let tmp := i <<< 6 ||| j
      some (tmp, (s.bzeroPage tmp).setVis i (s.vis i ||| shiftedInt j))
  | none => none

/-- `page_free`: only a page without references gives its bit back. -/
def pageFree (s : Pmap) (pp : Nat) : Pmap :=
  if (s.pages pp).ref > 0 then s
  else s.setVis (pp >>> 6) (s.vis (pp >>> 6) &&& ~~~(1#64 <<< (pp &&& 63)))

/-- `page_decref`. -/
def pageDecref (s : Pmap) (pp : Nat) : Pmap := pageFree (s.decRef pp) pp

/-! ## Walking and editing the tables -/

/-- What `pgdir_walk` leaves: -1 (no page for a table), `*ppte = 0`, or the
    frame and index of the leaf slot. -/
inductive Walk (α : Type) where
  | fail
  | null
  | at (a : α)
deriving DecidableEq

/-- One turn of the loop of `pgdir_walk`, at word `i` of table `t`: the next
    table, made on demand when `create` is set. -/
def pgdirWalkStep (s : Pmap) (t i : Nat) (va : Word) (create : Bool) : Walk Nat × Pmap :=
  if isValid (s.mem t i) then (.at (pteFrame (s.mem t i)), s)
  else if create then
    match pageAlloc s with
    | none => (.fail, s)
    | some (pp, s₁) =>
        let w := (s₁.pages pp).pa ||| (if va < KERNBASE then PTE_USER else 0)
        (.at (pteFrame w), (s₁.setPte t i w).incRef pp)
  else (.null, s)

/-- `pgdir_walk`. -/
def pgdirWalk (s : Pmap) (pgdir : Nat) (va : Word) (create : Bool) :
    Walk (Nat × Nat) × Pmap :=
  match pgdirWalkStep s pgdir (GET_L1_INDEX va) va create with
  | (.fail, s₁) => (.fail, s₁)
  | (.null, s₁) => (.null, s₁)
  | (.at t₂, s₁) =>
      match pgdirWalkStep s₁ t₂ (GET_L2_INDEX va) va create with
      | (.fail, s₂) => (.fail, s₂)
      | (.null, s₂) => (.null, s₂)
      | (.at t₃, s₂) => (.at (t₃, GET_L3_INDEX va), s₂)

/-- `page_lookup`: the page and the slot of its entry, or `none` for NULL. -/
def pageLookup (s : Pmap) (pgdir : Nat) (va : Word) : Option (Nat × Nat × Nat) :=
  match (pgdirWalk s pgdir va false).1 with
  | .at (t, i) => if isValid (s.mem t i) then some (pa2page (s.mem t i), t, i) else none
  | _ => none

/-- `page_remove`. -/
def pageRemove (s : Pmap) (pgdir : Nat) (va : Word) : Pmap :=
  match pageLookup s pgdir va with
  | none => s
  | some (ppage, t, i) => (pageFree (s.decRef ppage) ppage).setPte t i 0

/-- The second half of `page_insert`: build the tables and write the entry. -/
def pageInsertNew (s : Pmap) (pgdir pp : Nat) (va perm : Word) : Bool × Pmap :=
  match pgdirWalk s pgdir va true with
  | (.at (t, i), s₁) =>
      (true, (s₁.setPte t i ((s₁.pages pp).pa ||| (perm ||| VALID))).incRef pp)
  | (_, s₁) => (false, s₁)

/-- `page_insert`: `true` for 0 and `false` for -1. -/
def pageInsert (s : Pmap) (pgdir pp : Nat) (va perm : Word) : Bool × Pmap :=
  match (pgdirWalk s pgdir va false).1 with
  | .at (t, i) =>
      if isValid (s.mem t i) then
        if pa2page (s.mem t i) ≠ pp then
          pageInsertNew (pageRemove s pgdir va) pgdir pp va perm
        else (true, s.setPte t i ((s.pages pp).pa ||| (perm ||| VALID)))
      else pageInsertNew s pgdir pp va perm
  | _ => pageInsertNew s pgdir pp va perm

/-- One level of `page_out`: `none` is the panic for want of a free page. -/
def pageOutStep (s : Pmap) (t i : Nat) (va : Word) (level : Nat) : Option (Nat × Pmap) :=
  if !isValid (s.mem t i) ||
      (level == 3 && va < KERNBASE && s.mem t i &&& PTE_USER == 0) then
    match pageAlloc s with
    | none => none
    | some (pp, s₁) =>
        let w := (s₁.pages pp).pa ||| TABLE ||| VALID ||| (if va < KERNBASE then PTE_USER else 0)
        some (pteFrame w, (s₁.incRef pp).setPte t i w)
  else some (pteFrame (s.mem t i), s)

/-- `page_out`, the demand-paging handler: `none` is a panic.  `upgdir` and
    `kpgdir` are the frames of `User_pgdir` and `Kern_pgdir`. -/
def pageOut (s : Pmap) (upgdir kpgdir : Nat) (va : Word) : Option Pmap :=
  if VADDR va < BitVec.ofNat 64 BY2PG then none
  else
    let t₁ := if va &&& (1#64 <<< 39) ≠ 0 then kpgdir else upgdir
    match pageOutStep s t₁ (GET_L1_INDEX va) va 1 with
    | none => none
    | some (t₂, s₁) =>
        match pageOutStep s₁ t₂ (GET_L2_INDEX va) va 2 with
        | none => none
        | some (t₃, s₂) =>
            match pageOutStep s₂ t₃ (GET_L3_INDEX va) va 3 with
            | none => none
            | some (_, s₃) => some s₃

/-! ## The state `init_boot_pt` leaves -/

def PERIPHERAL_BASE : Nat := 0x3f000000

/-- `pages[i].pa` after the first loop of `init_boot_pt`. -/
def initPa (i : Nat) : Word :=
  BitVec.ofNat 64 (i <<< 12) ||| VALID ||| TABLE ||| ACCESSED |||
    (if i <<< 12 ≥ PERIPHERAL_BASE then OUTER_SHARABLE ||| DEVICE_MEMORY
     else INNER_SHARABLE ||| NORMAL_MEMORY)

/-- `vis[i >> 6] |= (1ul << (i & 63))`. -/
def markUsed (s : Pmap) (i : Nat) : Pmap :=
  s.setVis (i >>> 6) (s.vis (i >>> 6) ||| (1#64 <<< (i &&& 63)))

/-- Body of the loop over the boot code, `i < init_end / PTP_SIZE`. -/
def initBootCode (s : Pmap) (i : Nat) : Pmap :=
  let s₁ := markUsed s i
  if i > 0 then
    let s₂ := s₁.incRef i
    { s₂ with pages := fun q =>
        if q = i then { s₂.pages q with pa := (s₂.pages q).pa ||| UXN } else s₂.pages q }
  else s₁

/-- Body of the loop over all pages, marking the kernel image and the peripherals. -/
def initImage (initEnd imgEnd : Nat) (s : Pmap) (i : Nat) : Pmap :=
  if (initEnd >>> 12 ≤ i ∧ i < imgEnd >>> 12) ∨ i ≥ PERIPHERAL_BASE >>> 12 then
    (markUsed s i).incRef i
  else s

/-- The allocator state `init_boot_pt` builds, from the two linker symbols and
    the contents of memory. -/
def initBootPt (initEnd imgEnd : Nat) (mem : Nat → Nat → Word) : Pmap :=
  let s₀ : Pmap := { mem := mem, pages := fun i => ⟨initPa i, 0⟩, vis := fun _ => 0 }
  let s₁ := (List.range (initEnd / BY2PG)).foldl initBootCode s₀
  (List.range NPAGE).foldl (initImage initEnd imgEnd) s₁

end RpiMos
