/-
  RpiMos.Fs.FileIds

  Runs of the file server and its clients, as far as the open-file table is
  concerned: requests of every kind, and clients that share, get and unmap pages.
  The ghost trace tells which ids were given out for which slot.  `open_lookup`
  accepts an id only for a file that is still open, once the page of its slot has
  been allocated; and the ids that `open_alloc` issues are good until the
  generation number of a slot reaches the sign bit.
-/

import RpiMos.Fs.OpenTab
import RpiMos.Lib.Run
import Mathlib.Data.List.FinRange

namespace RpiMos

open Lib

variable {s s' s₁ : Serv} {frame : Option Nat} {i j : Fin 1024} {fileid envid : U32}
  {rq : PageWords} {req : Word} {reply : Reply}

/-! ## Steps -/

inductive ServEvent where
  /-- `open_alloc` gave slot `i` to an open that has been told `fileid`, and has
      completed with a file, or failed later. -/
  | opened (i : Fin 1024) (fileid : U32) (file : Option Word)
  | copied (dst src : EnvPtr × Vpn)
  | other

/-- What an open request does to the table. -/
def openEvent (frame : Option Nat) (rq : PageWords) (s : Serv) : ServEvent :=
  match openAlloc frame s with
  | (_, none, _) => .other
  | (fileid, some i, s₁) =>
      if isNeg fileid then .opened i fileid none
      else
        match fileOpen (cstring (copyPath rq 0)) s₁.fs with
        | .ret f _ => .opened i fileid (some (BitVec.ofNat 64 f))
        | _ => .opened i fileid none

def servEvent (frame : Option Nat) (rq : PageWords) (req : Word) (s : Serv) : ServEvent :=
  if req = FSREQ_OPEN then openEvent frame rq s else .other

/-- The page of a reply is mapped at the client's page `dst`. -/
def Serv.deliver (s : Serv) (dst : EnvPtr × Vpn) (reply : Reply) : Serv :=
  if reply.srcva = 0 then s else s.setMap dst (s.maps (server, vpn reply.srcva.toNat))

inductive ServStep : Serv → ServEvent → Serv → Prop
  /-- A request of client `e` that is answered.  The kernel's page allocator only
      hands out frames that nobody maps, and the pages of replies are user pages. -/
  | request {s s' : Serv} {e : EnvPtr} {envid : U32} {rq : PageWords} {req : Word}
      {frame : Option Nat} {reply : Reply} {v : Vpn} (he : e ≠ server)
      (hframe : ∀ p, frame = some p → s.maps.ref p = 0)
      (h : s.serve frame envid rq req = some (reply, .ok s')) (hva : reply.srcva.toNat < 2 ^ 39) :
      ServStep s (servEvent frame rq req s) (s'.deliver (e, v) reply)
  /-- A page is mapped a second time, by a client for itself or for another, or
      as the request page of the server. -/
  | copy {s : Serv} {dst src : EnvPtr × Vpn} (hdst : ∀ i, dst ≠ ffPage i)
      (hsrc : ∀ i, src ≠ ffPage i) : ServStep s (.copied dst src) (s.setMap dst (s.maps src))
  | new {s : Serv} {dst : EnvPtr × Vpn} {p : Nat} (hdst : ∀ i, dst ≠ ffPage i)
      (hp : s.maps.ref p = 0) : ServStep s .other (s.setMap dst (some p))
  | unmap {s : Serv} {dst : EnvPtr × Vpn} (hdst : ∀ i, dst ≠ ffPage i) :
      ServStep s .other (s.setMap dst none)

/-- When `serve` is entered. -/
structure Serv.Started (s : Serv) : Prop where
  table : ∃ s₀, s = serveInit s₀
  super : s.fs.super = DISKMAP + BY2BLK
  unmapped : ∀ i, s.maps (ffPage i) = none

/-! ## The pages of the table -/

theorem vpn_file (i : Fin 1024) : (vpn (FILEVA + i.val * BY2PG)).val = 0x60000 + i.val := by
  have hi := i.isLt
  show (FILEVA + i.val * BY2PG) / BY2PG % 2 ^ 27 = _
  unfold FILEVA BY2PG
  omega

theorem ffPage_injective (h : ffPage i = ffPage j) : i = j := by
  have hv := congrArg (fun x : EnvPtr × Vpn => x.2.val) h
  simp only [ffPage, vpn_file] at hv
  exact Fin.ext (by omega)

/-! ## `open_alloc` -/

/-- The first slot that no client has open. -/
def Serv.firstFree (s : Serv) : Option (Fin 1024) :=
  (List.finRange 1024).find? fun i => decide (s.openref i ≤ 1)

/-- `open_alloc` once it has come to slot `i`. -/
def openAllocAt (frame : Option Nat) (i : Fin 1024) (s : Serv) :
    U32 × Option (Fin 1024) × Serv :=
  if s.openref i = 0 then
    match frame with
    | none => (-1, none, s)
    | some p => openGive i (s.setMap (server, vpn (s.opentab i).o_ff) (some p))
  else openGive i s

theorem openAlloc_eq (frame : Option Nat) (s : Serv) :
    openAlloc frame s = match s.firstFree with
      | none => (-E_MAX_OPEN, none, s)
      | some i => openAllocAt frame i s := by
  unfold openAlloc Serv.firstFree
  induction List.finRange 1024 with
  | nil => rfl
  | cons i slots ih =>
      simp only [openAllocLoop, List.find?_cons]
      by_cases hle : s.openref i ≤ 1
      · have hcases : s.openref i = 0 ∨ s.openref i = 1 := by omega
        rcases hcases with href | href
        · cases frame with
          | none => simp [href, openAllocAt]
          | some p => simp [href, openAllocAt]
        · simp only [href, Nat.le_refl, decide_true, openAllocAt, Nat.one_ne_zero, if_false]
      · obtain ⟨n, href⟩ : ∃ n, s.openref i = n + 2 := ⟨s.openref i - 2, by omega⟩
        simp only [href, show ¬ n + 2 ≤ 1 by omega, decide_false]
        exact ih

/-- `open_alloc` has given slot `i` to `fileid` and left `s₁`. -/
structure Given (frame : Option Nat) (i : Fin 1024) (fileid : U32) (s s₁ : Serv) : Prop where
  free : s.openref i ≤ 1
  next : fileid = (s.opentab i).o_fileid + BitVec.ofNat 32 MAXOPEN
  table : s₁.opentab = Function.update s.opentab i { s.opentab i with o_fileid := fileid }
  maps : (s.openref i = 1 ∧ s₁.maps = s.maps) ∨ ∃ p, s.openref i = 0 ∧ frame = some p ∧
    s₁.maps = Function.update s.maps (server, vpn (s.opentab i).o_ff) (some p)
  fs : s₁.fs = s.fs

/-- At a free slot, `open_alloc` gives it away unless memory is wanting. -/
theorem openAllocAt_cases {r : U32} {o : Option (Fin 1024)} (hle : s.openref i ≤ 1)
    (h : openAllocAt frame i s = (r, o, s₁)) :
    (frame = none ∧ o = none ∧ s₁ = s ∧ isNeg r) ∨ o = some i ∧ Given frame i r s s₁ := by
  unfold openAllocAt at h
  split at h
  · rename_i h0
    cases frame with
    | none =>
        cases h
        exact Or.inl ⟨rfl, rfl, rfl, by decide⟩
    | some p =>
        simp only [openGive, Prod.mk.injEq] at h
        obtain ⟨rfl, rfl, rfl⟩ := h
        exact Or.inr ⟨rfl, hle, rfl, rfl, Or.inr ⟨p, h0, rfl, rfl⟩, rfl⟩
  · rename_i h0
    simp only [openGive, Prod.mk.injEq] at h
    obtain ⟨rfl, rfl, rfl⟩ := h
    exact Or.inr ⟨rfl, hle, rfl, rfl, Or.inl ⟨by omega, rfl⟩, rfl⟩

/-- `open_alloc` gives nothing away, or a slot that is free. -/
theorem openAlloc_cases {r : U32} {o : Option (Fin 1024)} (h : openAlloc frame s = (r, o, s₁)) :
    (o = none ∧ s₁ = s ∧ isNeg r) ∨ ∃ i, o = some i ∧ Given frame i r s s₁ := by
  rw [openAlloc_eq] at h
  cases hfree : s.firstFree with
  | none =>
      rw [hfree] at h
      cases h
      exact Or.inl ⟨rfl, rfl, by decide⟩
  | some i =>
      rw [hfree] at h
      have hle : s.openref i ≤ 1 := by
        have := List.find?_some hfree
        exact of_decide_eq_true this
      rcases openAllocAt_cases hle h with ⟨-, hnone⟩ | hgiven
      · exact Or.inl hnone
      · exact Or.inr ⟨i, hgiven⟩

/-! ## What a request does to the table -/

/-- Unless the server has stopped, the table, the mappings and `super` are as
    they are in `s`. -/
def TableKept (s : Serv) (t : Except String Serv) : Prop :=
  ∀ s', t = .ok s' → s'.opentab = s.opentab ∧ s'.maps = s.maps ∧ s'.fs.super = s.fs.super

/-- No page is sent, or a block of the disk. -/
def BlockPage (w : Word) : Prop := w = 0 ∨ DISKMAP ≤ w.toNat

theorem tableKept_refl (s : Serv) : TableKept s (.ok s) := by
  rintro s' ⟨⟩
  exact ⟨rfl, rfl, rfl⟩

variable {t : Except String Serv}

theorem callFs_error {α : Type} (x : FsM α) (ptr : α → Word) (m : String) :
    callFs x ptr (.error m) = (0, 0, .error m) := by
  unfold callFs
  rfl

theorem TableKept.callFs {α : Type} {x : FsM α} {ptr : α → Word} (h : TableKept s t)
    (hx : Quiet x) : TableKept s (callFs x ptr t).2.2 := by
  intro s' hs'
  cases t with
  | error m =>
      rw [callFs_error] at hs'
      cases hs'
  | ok s₁ =>
      obtain ⟨htab, hmaps, hsuper⟩ := h s₁ rfl
      unfold RpiMos.callFs at hs'
      cases hrun : x s₁.fs with
      | ret a fs =>
          simp only [hrun] at hs'
          cases hs'
          exact ⟨htab, hmaps, (hx.ret hrun).super.trans hsuper⟩
      | fail e fs =>
          simp only [hrun] at hs'
          cases hs'
          exact ⟨htab, hmaps, (hx.fail hrun).super.trans hsuper⟩
      | stop m =>
          simp only [hrun] at hs'
          cases hs'

theorem TableKept.callFs' {x : FsM Unit} (h : TableKept s t) (hx : Quiet x) :
    TableKept s (callFs' x t).2 := TableKept.callFs h hx

theorem blockPage_callFs (f filebno) :
    BlockPage (callFs (fileGetBlock f filebno) (fun blk => BitVec.ofNat 64 blk) t).2.1 := by
  cases t with
  | error m =>
      rw [callFs_error]
      exact Or.inl rfl
  | ok s =>
      unfold callFs
      cases hrun : fileGetBlock f filebno s.fs with
      | ret blk fs =>
          simp only [hrun]
          obtain ⟨b, rfl⟩ := (gives_fileGetBlock f filebno s.fs).1 blk fs hrun
          right
          have hb := b.isLt
          rw [BitVec.toNat_ofNat]
          unfold DISKMAP BY2BLK
          omega
      | fail e fs =>
          simp only [hrun]
          exact Or.inl rfl
      | stop m =>
          simp only [hrun]
          exact Or.inl rfl

theorem serveField_kept (frame : Option Nat) (envid : U32) (rq : PageWords)
    (op : Word → U32 → Except String Serv → U32 × Except String Serv)
    (hop : ∀ f n, TableKept s (op f n (.ok s)).2) :
    TableKept s (serveField (servOps frame) envid rq (.ok s) op).2 ∧
    (serveField (servOps frame) envid rq (.ok s) op).1.srcva = 0 := by
  unfold serveField
  simp only
  split
  · exact ⟨tableKept_refl s, rfl⟩
  · split
    · exact ⟨hop _ _, rfl⟩
    · exact ⟨hop _ _, rfl⟩

theorem serveMap_kept : TableKept s (serveMap (servOps frame) envid rq (.ok s)).2 ∧
    BlockPage (serveMap (servOps frame) envid rq (.ok s)).1.srcva := by
  unfold serveMap
  simp only
  split
  · exact ⟨tableKept_refl s, Or.inl rfl⟩
  · split
    · exact ⟨(tableKept_refl s).callFs (quiet_fileGetBlock _ _), Or.inl rfl⟩
    · exact ⟨(tableKept_refl s).callFs (quiet_fileGetBlock _ _), blockPage_callFs _ _⟩

theorem fileRemove_kept (frame : Option Nat) (path : Path) :
    TableKept s ((servOps frame).file_remove path (.ok s)).2 :=
  (tableKept_refl s).callFs' (quiet_fileRemove (cstring path))

theorem fileCreate_kept (frame : Option Nat) (path : Path) (filetype : U32) :
    TableKept s ((servOps frame).file_create path filetype (.ok s)).2 :=
  (tableKept_refl s).callFs (quiet_fileCreate (cstring path) filetype)

/-- No request but an open touches the table. -/
theorem serve_kept (h : s.serve frame envid rq req = some (reply, .ok s'))
    (hreq : req ≠ FSREQ_OPEN) :
    s'.opentab = s.opentab ∧ s'.maps = s.maps ∧ s'.fs.super = s.fs.super ∧
      BlockPage reply.srcva := by
  have hkept : ∀ {x : Reply × Except String Serv}, TableKept s x.2 ∧ BlockPage x.1.srcva →
      some x = some (reply, .ok s') → s'.opentab = s.opentab ∧ s'.maps = s.maps ∧
        s'.fs.super = s.fs.super ∧ BlockPage reply.srcva := by
    rintro x ⟨hx, hp⟩ heq
    cases heq
    obtain ⟨h₁, h₂, h₃⟩ := hx s' rfl
    exact ⟨h₁, h₂, h₃, hp⟩
  have hfield : ∀ {op}, (∀ f n, TableKept s (op f n (.ok s)).2) →
      TableKept s (serveField (servOps frame) envid rq (.ok s) op).2 ∧
        BlockPage (serveField (servOps frame) envid rq (.ok s) op).1.srcva := by
    intro op hop
    obtain ⟨h₁, h₂⟩ := serveField_kept frame envid rq op hop
    exact ⟨h₁, Or.inl h₂⟩
  unfold Serv.serve serve at h
  rw [if_neg hreq] at h
  split at h
  · exact hkept serveMap_kept h
  · split at h
    · exact hkept (hfield fun f n => (tableKept_refl s).callFs' (quiet_fileSetSize _ _)) h
    · split at h
      · refine hkept ?_ h
        unfold serveClose
        simp only
        split
        · exact ⟨tableKept_refl s, Or.inl rfl⟩
        · exact ⟨(tableKept_refl s).callFs' (quiet_fileClose _), Or.inl rfl⟩
      · split at h
        · exact hkept (hfield fun f n => (tableKept_refl s).callFs' (quiet_fileDirty _ _)) h
        · split at h
          · refine hkept ?_ h
            unfold serveRemove
            simp only
            split
            · exact ⟨fileRemove_kept frame _, Or.inl rfl⟩
            · exact ⟨fileRemove_kept frame _, Or.inl rfl⟩
          · split at h
            · exact hkept ⟨(tableKept_refl s).callFs' quiet_fsSync, Or.inl rfl⟩ h
            · split at h
              · refine hkept ?_ h
                unfold serveCreate
                simp only
                split
                · exact ⟨fileCreate_kept frame _ _, Or.inl rfl⟩
                · exact ⟨fileCreate_kept frame _ _, Or.inl rfl⟩
              · cases h

/-- What an open request has done, with the event it is told by. -/
inductive Opened (frame : Option Nat) (s : Serv) : ServEvent → Reply → Serv → Prop
  | refused {reply : Reply} (hreply : reply.srcva = 0) : Opened frame s .other reply s
  | failed {i : Fin 1024} {fileid : U32} {reply : Reply} {s₁ s' : Serv}
      (hgiven : Given frame i fileid s s₁) (htab : s'.opentab = s₁.opentab)
      (hmaps : s'.maps = s₁.maps) (hsuper : s'.fs.super = s.fs.super) (hreply : reply.srcva = 0) :
      Opened frame s (.opened i fileid none) reply s'
  | done {i : Fin 1024} {fileid mode : U32} {f : Nat} {reply : Reply} {s₁ s' : Serv}
      (hgiven : Given frame i fileid s s₁)
      (htab : s'.opentab = Function.update s₁.opentab i
        { s₁.opentab i with o_file := BitVec.ofNat 64 f, o_mode := mode })
      (hmaps : s'.maps = s₁.maps) (hsuper : s'.fs.super = s.fs.super)
      (hfile : s.fs.super < 2 ^ 45 → BitVec.ofNat 64 f ≠ 0)
      (hreply : reply.srcva = BitVec.ofNat 64 (s.opentab i).o_ff) :
      Opened frame s (.opened i fileid (some (BitVec.ofNat 64 f))) reply s'

/-- Errors of `file_open` are negative. -/
theorem gives_fileOpen (path : List (BitVec 8)) : Gives (fun _ => True) (fileOpen path) := by
  refine Prog.Yields.bind (P := fun _ => True) ?_ fun w _ => ?_
  · intro fs
    exact ⟨fun _ _ _ => trivial, (gives_walkLoop fs.super _ _ 0 _ (Or.inl rfl) fs).2⟩
  · by_cases hneg : w.r.slt 0
    · rw [if_pos hneg]
      exact gives_throw hneg
    · rw [if_neg hneg]
      exact Prog.yields_pure trivial

theorem callFs_ret {α : Type} {x : FsM α} {ptr : α → Word} {a : α} {fs : Fs}
    (h : x s.fs = .ret a fs) : callFs x ptr (.ok s) = (0, ptr a, .ok { s with fs := fs }) := by
  unfold callFs
  simp only [h]

theorem callFs_fail {α : Type} {x : FsM α} {ptr : α → Word} {r : U32} {fs : Fs}
    (h : x s.fs = .fail r fs) : callFs x ptr (.ok s) = (r, 0, .ok { s with fs := fs }) := by
  unfold callFs
  simp only [h]

theorem callFs_stop {α : Type} {x : FsM α} {ptr : α → Word} {m : String}
    (h : x s.fs = .stop m) : callFs x ptr (.ok s) = (0, 0, .error m) := by
  unfold callFs
  simp only [h]

/-- What the stores of `serve_open` leave as it was. -/
theorem fillOpen_ok {f : Word} {mode : U32} (h : fillOpen i f mode s = .ok s') :
    s'.opentab = Function.update s.opentab i { s.opentab i with o_file := f, o_mode := mode } ∧
      s'.maps = s.maps ∧ s'.fs.super = s.fs.super := by
  unfold fillOpen at h
  split at h
  · rename_i fs hacc
    cases h
    exact ⟨rfl, rfl, ((quiet_access _ _).ret hacc).super⟩
  · cases h
  · cases h

theorem serve_opened (h : s.serve frame envid rq FSREQ_OPEN = some (reply, .ok s')) :
    Opened frame s (openEvent frame rq s) reply s' := by
  unfold Serv.serve serve at h
  rw [if_pos rfl] at h
  have h₀ : serveOpen (servOps frame) rq (.ok s) = (reply, .ok s') := Option.some.inj h
  unfold serveOpen at h₀
  unfold openEvent
  generalize copyPath rq 0 = path at h₀ ⊢
  have hopen : (servOps frame).file_open path =
    callFs (fileOpen (cstring path)) fun f => BitVec.ofNat 64 f := rfl
  cases halloc : openAlloc frame s with
  | mk fileid rest =>
      obtain ⟨o, s₁⟩ := rest
      have hop : (servOps frame).open_alloc (.ok s) =
          (fileid, (o.map Fin.val).getD 0, .ok s₁) := by
        simp only [servOps, halloc]
      simp only [hop, hopen] at h₀
      rcases openAlloc_cases halloc with ⟨rfl, rfl, hneg⟩ | ⟨i, rfl, hgiven⟩
      · rw [if_pos hneg] at h₀
        cases h₀
        exact .refused rfl
      · simp only
        split at h₀
        · rename_i hneg
          rw [if_pos hneg]
          cases h₀
          exact .failed hgiven rfl rfl (congrArg Fs.super hgiven.fs) rfl
        · rename_i hneg
          rw [if_neg hneg]
          cases hrun : fileOpen (cstring path) s₁.fs with
          | ret f fs =>
              have hsuper : fs.super = s.fs.super := by
                rw [((quiet_fileOpen _).ret hrun).super, hgiven.fs]
              rw [callFs_ret hrun] at h₀
              simp only [show isNeg 0 = false by decide, Bool.false_eq_true, if_false] at h₀
              obtain ⟨hreply, hfill⟩ := Prod.mk.inj h₀
              rw [hfill] at hreply
              have hi : (⟨i.val % 1024, Nat.mod_lt _ (by decide)⟩ : Fin 1024) = i :=
                Fin.ext (Nat.mod_eq_of_lt i.isLt)
              have hfill' : fillOpen ⟨i.val % 1024, Nat.mod_lt _ (by decide)⟩ (BitVec.ofNat 64 f)
                (rq.u32At 1024) { s₁ with fs := fs } = .ok s' := hfill
              rw [hi] at hfill'
              obtain ⟨htab, hmaps, hsuper'⟩ := fillOpen_ok hfill'
              have hff : reply.srcva =
                  BitVec.ofNat 64 (s'.opentab ⟨i.val % 1024, Nat.mod_lt _ (by decide)⟩).o_ff :=
                (congrArg Reply.srcva hreply).symm
              rw [hi, htab, Function.update_self, hgiven.table, Function.update_self] at hff
              refine .done hgiven htab hmaps (hsuper'.trans hsuper) (fun hlt => ?_) hff
              exact fileOpen_ne_null hrun (by rwa [hgiven.fs])
          | fail r fs =>
              have hsuper : fs.super = s.fs.super := by
                rw [((quiet_fileOpen _).fail hrun).super, hgiven.fs]
              have hr : isNeg r := ((gives_fileOpen _) s₁.fs).2 r fs hrun
              rw [callFs_fail hrun] at h₀
              simp only [hr, if_true] at h₀
              cases h₀
              exact .failed hgiven rfl rfl hsuper rfl
          | stop m =>
              rw [callFs_stop hrun] at h₀
              simp only [show isNeg 0 = false by decide, Bool.false_eq_true, if_false] at h₀
              cases h₀

/-! ## The ids of a slot -/

def ServEvent.slot : ServEvent → Option (Fin 1024)
  | .opened i _ _ => some i
  | _ => none

@[simp] theorem slot_opened (i : Fin 1024) (fileid : U32) (file : Option Word) :
    (ServEvent.opened i fileid file).slot = some i := rfl

/-- How often a slot has been given away. -/
def gives (i : Fin 1024) (tr : List ServEvent) : Nat := tr.countP fun ev => ev.slot = some i

/-- The id of a slot after `n` times. -/
def idOf (i : Fin 1024) (n : Nat) : U32 := BitVec.ofNat 32 (i.val + MAXOPEN * n)

def Issued (tr : List ServEvent) (fileid : U32) : Prop :=
  ∃ i file, ServEvent.opened i fileid file ∈ tr

@[simp] theorem deliver_opentab (s : Serv) (dst : EnvPtr × Vpn) (reply : Reply) :
    (s.deliver dst reply).opentab = s.opentab := by
  unfold Serv.deliver
  split <;> rfl

@[simp] theorem deliver_fs (s : Serv) (dst : EnvPtr × Vpn) (reply : Reply) :
    (s.deliver dst reply).fs = s.fs := by
  unfold Serv.deliver
  split <;> rfl

@[simp] theorem setMap_self (s : Serv) (x : EnvPtr × Vpn) (o : Option Nat) :
    (s.setMap x o).maps x = o := by
  simp only [Serv.setMap, Function.update_self]

theorem setMap_of_ne {x y : EnvPtr × Vpn} (h : y ≠ x) (s : Serv) (o : Option Nat) :
    (s.setMap x o).maps y = s.maps y := by
  simp only [Serv.setMap, Function.update_of_ne h]

theorem deliver_maps {dst x : EnvPtr × Vpn} (h : x ≠ dst) (s : Serv) (reply : Reply) :
    (s.deliver dst reply).maps x = s.maps x := by
  unfold Serv.deliver
  split
  · rfl
  · exact Function.update_of_ne h _ _

variable {ev : ServEvent} {tr : List ServEvent}

/-- What a step does to the table. -/
theorem step_table (h : ServStep s ev s') :
    (ev.slot = none ∧ s'.opentab = s.opentab) ∨
    ∃ i fileid file, ev = .opened i fileid file ∧
      fileid = (s.opentab i).o_fileid + BitVec.ofNat 32 MAXOPEN ∧
      (∀ j, j ≠ i → s'.opentab j = s.opentab j) ∧ (s'.opentab i).o_fileid = fileid ∧
      (s'.opentab i).o_ff = (s.opentab i).o_ff := by
  cases h with
  | @request s₁ e envid rq req frame reply v he hframe hserve hva =>
      unfold servEvent
      split
      · rename_i hopen
        rw [hopen] at hserve
        rw [deliver_opentab]
        generalize openEvent frame rq s = ev, serve_opened hserve = hopened
        cases hopened with
        | refused => exact Or.inl ⟨rfl, rfl⟩
        | failed hgiven htab =>
            rw [htab, hgiven.table]
            refine Or.inr ⟨_, _, _, rfl, hgiven.next, fun j hj => ?_, ?_, ?_⟩
            · exact Function.update_of_ne hj _ _
            · rw [Function.update_self]
            · rw [Function.update_self]
        | done hgiven htab =>
            rw [htab, hgiven.table]
            refine Or.inr ⟨_, _, _, rfl, hgiven.next, fun j hj => ?_, ?_, ?_⟩
            · rw [Function.update_of_ne hj, Function.update_of_ne hj]
            · rw [Function.update_self, Function.update_self]
            · rw [Function.update_self, Function.update_self]
      · rename_i hother
        refine Or.inl ⟨rfl, ?_⟩
        rw [deliver_opentab, (serve_kept hserve hother).1]
  | copy => exact Or.inl ⟨rfl, rfl⟩
  | new => exact Or.inl ⟨rfl, rfl⟩
  | unmap => exact Or.inl ⟨rfl, rfl⟩

theorem gives_snoc (i : Fin 1024) (tr : List ServEvent) (ev : ServEvent) :
    gives i (tr ++ [ev]) = gives i tr + if ev.slot = some i then 1 else 0 := by
  simp only [gives, List.countP_append, List.countP_singleton, decide_eq_true_eq]

theorem idOf_succ (i : Fin 1024) (n : Nat) :
    idOf i (n + 1) = idOf i n + BitVec.ofNat 32 MAXOPEN := by
  unfold idOf
  rw [← BitVec.ofNat_add, Nat.mul_succ, Nat.add_assoc]

/-- The ids that were given out, slot by slot. -/
structure IdsInv (tr : List ServEvent) (s : Serv) : Prop where
  o_ff : ∀ i, (s.opentab i).o_ff = FILEVA + i.val * BY2PG
  last : ∀ i, (s.opentab i).o_fileid = idOf i (gives i tr)
  issued : ∀ i fileid, (∃ file, ServEvent.opened i fileid file ∈ tr) ↔
    ∃ k, k < gives i tr ∧ fileid = idOf i (k + 1)

theorem idsInv_init (h : s.Started) : IdsInv [] s := by
  obtain ⟨s₀, rfl⟩ := h.table
  refine ⟨fun i => rfl, fun i => rfl, fun i fileid => ⟨?_, ?_⟩⟩
  · rintro ⟨file, hmem⟩
    cases hmem
  · rintro ⟨k, hk, -⟩
    exact absurd hk (Nat.not_lt_zero k)

theorem idsInv_step (hi : IdsInv tr s) (h : ServStep s ev s') : IdsInv (tr ++ [ev]) s' := by
  rcases step_table h with ⟨hslot, htab⟩ | ⟨i, fileid, file, rfl, hnext, hrest, hid, hff⟩
  · have hgives : ∀ i, gives i (tr ++ [ev]) = gives i tr := by
      intro i
      rw [gives_snoc, hslot]
      rfl
    refine ⟨fun i => by rw [htab, hi.o_ff], fun i => by rw [htab, hi.last, hgives],
      fun i fileid => ?_⟩
    rw [hgives, ← hi.issued]
    constructor
    · rintro ⟨file, hmem⟩
      rcases List.mem_append.mp hmem with hmem | hmem
      · exact ⟨file, hmem⟩
      · cases List.mem_singleton.mp hmem
        cases hslot
    · rintro ⟨file, hmem⟩
      exact ⟨file, List.mem_append_left _ hmem⟩
  · have hself : gives i (tr ++ [.opened i fileid file]) = gives i tr + 1 := by
      rw [gives_snoc, slot_opened, if_pos rfl]
    have hother : ∀ j, j ≠ i → gives j (tr ++ [.opened i fileid file]) = gives j tr := by
      intro j hj
      rw [gives_snoc, slot_opened, if_neg fun hslot => hj (Option.some.inj hslot).symm, Nat.add_zero]
    have hfileid : fileid = idOf i (gives i tr + 1) := by
      rw [hnext, hi.last, idOf_succ]
    refine ⟨fun j => ?_, fun j => ?_, fun j fid => ?_⟩
    · by_cases hj : j = i
      · subst hj
        rw [hff, hi.o_ff]
      · rw [hrest j hj, hi.o_ff]
    · by_cases hj : j = i
      · subst hj
        rw [hself, hid, hfileid]
      · rw [hrest j hj, hother j hj, hi.last]
    · by_cases hj : j = i
      · subst hj
        rw [hself]
        constructor
        · rintro ⟨fo, hmem⟩
          rcases List.mem_append.mp hmem with hmem | hmem
          · obtain ⟨k, hk, heq⟩ := (hi.issued j fid).mp ⟨fo, hmem⟩
            exact ⟨k, by omega, heq⟩
          · cases List.mem_singleton.mp hmem
            exact ⟨_, Nat.lt_succ_self _, hfileid⟩
        · rintro ⟨k, hk, heq⟩
          by_cases hlast : k = gives j tr
          · subst hlast
            exact ⟨file, List.mem_append_right _ (by rw [heq, ← hfileid]; exact List.mem_singleton_self _)⟩
          · obtain ⟨fo, hmem⟩ := (hi.issued j fid).mpr ⟨k, by omega, heq⟩
            exact ⟨fo, List.mem_append_left _ hmem⟩
      · rw [hother j hj, ← hi.issued]
        constructor
        · rintro ⟨fo, hmem⟩
          rcases List.mem_append.mp hmem with hmem | hmem
          · exact ⟨fo, hmem⟩
          · cases List.mem_singleton.mp hmem
            exact absurd rfl hj
        · rintro ⟨fo, hmem⟩
          exact ⟨fo, List.mem_append_left _ hmem⟩

theorem idsInv_run (h₀ : s₁.Started) (h : Run ServStep s₁ tr s) : IdsInv tr s :=
  h.invariant_trace (idsInv_init h₀) fun _ _ _ _ hi hstep => idsInv_step hi hstep

/-! ## Ids that open files are told -/

theorem isNeg_iff (r : U32) : isNeg r = true ↔ 2 ^ 31 ≤ r.toNat := by
  have hlt := r.isLt
  unfold isNeg
  rw [BitVec.slt, decide_eq_true_iff, BitVec.toInt_eq_toNat_cond,
    show (0 : U32).toInt = 0 from rfl]
  split <;> omega

theorem idOf_toNat (i : Fin 1024) (n : Nat) : (idOf i n).toNat = (i.val + 1024 * n) % 2 ^ 32 := by
  unfold idOf MAXOPEN
  rw [BitVec.toNat_ofNat]

theorem slotOf_idOf (i : Fin 1024) (n : Nat) : slotOf (idOf i n) = i := by
  refine Fin.ext ?_
  show (idOf i n).toNat % 1024 = i.val
  have hi := i.isLt
  rw [idOf_toNat]
  omega

/-- The generation number of a slot has 22 bits. -/
theorem idOf_eq_iff {m n : Nat} : idOf i m = idOf j n ↔ i = j ∧ m % 2 ^ 22 = n % 2 ^ 22 := by
  constructor
  · intro h
    have hij : i = j := by rw [← slotOf_idOf i m, h, slotOf_idOf]
    subst hij
    have hnat := congrArg BitVec.toNat h
    rw [idOf_toNat, idOf_toNat] at hnat
    have hi := i.isLt
    exact ⟨rfl, by omega⟩
  · rintro ⟨rfl, h⟩
    apply BitVec.eq_of_toNat_eq
    rw [idOf_toNat, idOf_toNat]
    omega

theorem isNeg_idOf {n : Nat} : isNeg (idOf i n) = false ↔ n % 2 ^ 22 < 2 ^ 21 := by
  have hi := i.isLt
  rw [← Bool.not_eq_true, isNeg_iff, idOf_toNat]
  omega

/-- With the id, `open_lookup` comes back to slot `i` once a client has its page. -/
def LeadsBack (fileid : U32) (i : Fin 1024) (s : Serv) : Prop :=
  ∀ envid (t : Serv), t.opentab = s.opentab → t.openref i ≠ 1 →
    openLookup envid fileid t = (0, i.val)

/-- `open_alloc` succeeds, with an id that leads back to its slot and that was
    never issued before. -/
def GivesGoodId (frame : Option Nat) (tr : List ServEvent) (s : Serv) : Prop :=
  ∃ i fileid s₁, openAlloc frame s = (fileid, some i, s₁) ∧ isNeg fileid = false ∧
    LeadsBack fileid i s₁ ∧ ¬ Issued tr fileid

theorem firstFree_eq (hfree : s.openref i ≤ 1) (hfirst : ∀ j, j < i → 1 < s.openref j) :
    s.firstFree = some i := by
  unfold Serv.firstFree
  rw [List.find?_eq_some_iff_getElem]
  refine ⟨by simpa using hfree, i.val, by simp, by simp, fun k hk => ?_⟩
  have hlt := hfirst ⟨k, by omega⟩ hk
  simpa using hlt

/-- Once memory is there, the first free slot is given away. -/
theorem openAlloc_first (hfree : s.openref i ≤ 1) (hfirst : ∀ j, j < i → 1 < s.openref j)
    (hmem : frame ≠ none) : ∃ fileid s₁, openAlloc frame s = (fileid, some i, s₁) ∧
      Given frame i fileid s s₁ := by
  rw [openAlloc_eq, firstFree_eq hfree hfirst]
  cases halloc : openAllocAt frame i s with
  | mk fileid rest =>
      obtain ⟨o, s₁⟩ := rest
      rcases openAllocAt_cases hfree halloc with ⟨hnone, -⟩ | ⟨rfl, hgiven⟩
      · exact absurd hnone hmem
      · exact ⟨fileid, s₁, halloc, hgiven⟩

theorem Given.leadsBack (h : Given frame i fileid s s₁) (hslot : slotOf fileid = i) :
    LeadsBack fileid i s₁ := by
  intro envid t htab href
  unfold openLookup
  rw [hslot]
  have hid : (t.opentab i).o_fileid = fileid := by rw [htab, h.table, Function.update_self]
  simp only
  rw [if_neg]
  rintro (h₁ | h₂)
  · exact href h₁
  · exact h₂ hid

/-- Slot `i` was last given to an open that has completed, with the file that the
    slot now has. -/
def Completed (tr : List ServEvent) (s : Serv) (i : Fin 1024) : Prop :=
  ∃ tr₁ tr₂ file, tr = tr₁ ++ .opened i (s.opentab i).o_fileid (some file) :: tr₂ ∧
    (∀ ev ∈ tr₂, ev.slot ≠ some i) ∧ (s.opentab i).o_file = file ∧ file ≠ 0

structure TabInv (tr : List ServEvent) (s : Serv) : Prop where
  super : s.fs.super = DISKMAP + BY2BLK
  unused : ∀ i, s.maps (ffPage i) = none → ∀ ev ∈ tr, ev.slot ≠ some i
  apart : ∀ i j p, s.maps (ffPage i) = some p → s.maps (ffPage j) = some p → i = j
  shared : ∀ x i p, x ≠ ffPage i → s.maps (ffPage i) = some p → s.maps x = some p →
    x.1 ≠ server ∧ Completed tr s i

theorem tabInv_init (h : s.Started) : TabInv [] s where
  super := h.super
  unused := fun i _ ev hev => absurd hev List.not_mem_nil
  apart := fun i j p hp _ => by
    rw [h.unmapped] at hp
    cases hp
  shared := fun x i p _ hp _ => by
    rw [h.unmapped] at hp
    cases hp

theorem Completed.snoc (h : Completed tr s i) (hev : ev.slot ≠ some i)
    (htab : s'.opentab i = s.opentab i) : Completed (tr ++ [ev]) s' i := by
  obtain ⟨tr₁, tr₂, file, rfl, hlast, hfile, hne⟩ := h
  rw [Completed, htab]
  refine ⟨tr₁, tr₂ ++ [ev], file, by simp, fun e he => ?_, hfile, hne⟩
  rcases List.mem_append.mp he with he | he
  · exact hlast e he
  · rw [List.mem_singleton.mp he]
    exact hev

/-- A step that leaves the table alone. -/
theorem TabInv.snoc (h : TabInv tr s) (hev : ev.slot = none) : TabInv (tr ++ [ev]) s where
  super := h.super
  unused := fun i hi e he => by
    rcases List.mem_append.mp he with he | he
    · exact h.unused i hi e he
    · rw [List.mem_singleton.mp he, hev]
      simp
  apart := h.apart
  shared := fun x i p hx hp hxp => by
    obtain ⟨hclient, hdone⟩ := h.shared x i p hx hp hxp
    exact ⟨hclient, hdone.snoc (by rw [hev]; simp) rfl⟩

/-- Mapping a page that is none of the table's. -/
theorem TabInv.setMap (h : TabInv tr s) {x : EnvPtr × Vpn} {o : Option Nat} (hx : ∀ i, x ≠ ffPage i)
    (ho : ∀ i p, s.maps (ffPage i) = some p → o = some p → x.1 ≠ server ∧ Completed tr s i) :
    TabInv tr (s.setMap x o) := by
  have hff : ∀ i, (s.setMap x o).maps (ffPage i) = s.maps (ffPage i) :=
    fun i => setMap_of_ne (hx i).symm s o
  constructor
  · exact h.super
  · intro i hi
    rw [hff] at hi
    exact h.unused i hi
  · intro i j p hi hj
    rw [hff] at hi hj
    exact h.apart i j p hi hj
  · intro y i p hy hp hyp
    rw [hff] at hp
    by_cases hyx : y = x
    · subst hyx
      rw [setMap_self] at hyp
      exact ho i p hp hyp
    · rw [setMap_of_ne hyx] at hyp
      exact h.shared y i p hy hp hyp

theorem openref_of_maps (h : IdsInv tr s) (i : Fin 1024) :
    s.openref i = match s.maps (ffPage i) with
      | none => 0
      | some p => s.maps.ref p := by
  have hff := h.o_ff i
  unfold Serv.openref pageref ffPage
  cases hm : s.maps (server, vpn (FILEVA + i.val * BY2PG)) with
  | none => simp [hff, hm]
  | some p => simp [hff, hm]

/-- The slot that is given away has a page of its own. -/
theorem Given.page (h : Given frame i fileid s s₁) (hids : IdsInv tr s)
    (hframe : ∀ p, frame = some p → s.maps.ref p = 0) :
    ∃ p, s₁.maps (ffPage i) = some p ∧ ∀ x, x ≠ ffPage i → s₁.maps x = s.maps x ∧
      s.maps x ≠ some p := by
  rcases h.maps with ⟨href, hm⟩ | ⟨p, href, hp, hm⟩
  · rw [openref_of_maps hids] at href
    cases hpage : s.maps (ffPage i) with
    | none =>
        rw [hpage] at href
        cases href
    | some p =>
        rw [hpage] at href
        refine ⟨p, by rw [hm, hpage], fun x hx => ⟨by rw [hm], fun hxp => ?_⟩⟩
        exact hx (eq_of_ref_one hpage hxp href)
  · rw [hids.o_ff] at hm
    refine ⟨p, by rw [hm]; exact Function.update_self _ _ _, fun x hx => ⟨?_, ?_⟩⟩
    · rw [hm]
      exact Function.update_of_ne hx _ _
    · exact maps_ne_of_ref (hframe p hp) x

/-- A slot that is given away is shared with nobody, and the other slots are as
    they were. -/
theorem TabInv.given (h : TabInv tr s) (hids : IdsInv tr s) (hgiven : Given frame i fileid s s₁)
    (hframe : ∀ p, frame = some p → s.maps.ref p = 0) (hev : ev.slot = some i)
    (htab : ∀ j, j ≠ i → s'.opentab j = s.opentab j) (hmaps : s'.maps = s₁.maps)
    (hsuper : s'.fs.super = s.fs.super) : TabInv (tr ++ [ev]) s' := by
  obtain ⟨p, hp, hrest⟩ := hgiven.page hids hframe
  have hff : ∀ j, j ≠ i → s₁.maps (ffPage j) = s.maps (ffPage j) ∧ s.maps (ffPage j) ≠ some p :=
    fun j hj => hrest _ fun heq => hj (ffPage_injective heq)
  constructor
  · rw [hsuper, h.super]
  · intro j hj e he
    rw [hmaps] at hj
    have hji : j ≠ i := by
      rintro rfl
      rw [hp] at hj
      cases hj
    rw [(hff j hji).1] at hj
    rcases List.mem_append.mp he with he | he
    · exact h.unused j hj e he
    · rw [List.mem_singleton.mp he, hev]
      exact fun heq => hji (Option.some.inj heq).symm
  · intro j k q hj hk
    rw [hmaps] at hj hk
    by_cases hji : j = i
    · by_cases hki : k = i
      · rw [hji, hki]
      · subst hji
        rw [hp] at hj
        cases hj
        rw [(hff k hki).1] at hk
        exact absurd hk (hff k hki).2
    · rw [(hff j hji).1] at hj
      by_cases hki : k = i
      · subst hki
        rw [hp] at hk
        cases hk
        exact absurd hj (hff j hji).2
      · rw [(hff k hki).1] at hk
        exact h.apart j k q hj hk
  · intro x j q hx hj hxq
    rw [hmaps] at hj hxq
    by_cases hji : j = i
    · subst hji
      rw [hp] at hj
      cases hj
      rw [(hrest x hx).1] at hxq
      exact absurd hxq (hrest x hx).2
    · rw [(hff j hji).1] at hj
      have hxi : x ≠ ffPage i := by
        rintro rfl
        rw [hp] at hxq
        cases hxq
        exact (hff j hji).2 hj
      rw [(hrest x hxi).1] at hxq
      obtain ⟨hclient, hdone⟩ := h.shared x j q hx hj hxq
      refine ⟨hclient, hdone.snoc ?_ (htab j hji)⟩
      rw [hev]
      exact fun heq => hji (Option.some.inj heq).symm

theorem TabInv.deliver (h : TabInv tr s) {x : EnvPtr × Vpn} (hx : x.1 ≠ server)
    (hpage : reply.srcva = 0 ∨ ∀ i p, s.maps (ffPage i) = some p →
      s.maps (server, vpn reply.srcva.toNat) = some p → Completed tr s i) :
    TabInv tr (s.deliver x reply) := by
  unfold Serv.deliver
  split
  · exact h
  · rename_i hne
    refine h.setMap (fun i heq => hx (congrArg Prod.fst heq)) fun i p hp hxp => ⟨hx, ?_⟩
    exact hpage.resolve_left hne i p hp hxp

/-- No block of the disk is at a page of the table, or shares one. -/
theorem TabInv.block (h : TabInv tr s) {va : Word} (hlo : DISKMAP ≤ va.toNat)
    (hhi : va.toNat < 2 ^ 39) {p : Nat} (hi : s.maps (ffPage i) = some p) :
    s.maps (server, vpn va.toNat) ≠ some p := by
  intro hp
  have hne : (server, vpn va.toNat) ≠ ffPage i := by
    intro heq
    have hv := congrArg (fun x : EnvPtr × Vpn => x.2.val) heq
    simp only [ffPage, vpn_file] at hv
    have hpage : (vpn va.toNat).val = va.toNat / BY2PG % 2 ^ 27 := rfl
    rw [hpage] at hv
    unfold DISKMAP at hlo
    unfold BY2PG at hv
    have := i.isLt
    omega
  exact (h.shared _ i p hne hi hp).1 rfl

theorem TabInv.congr (h : TabInv tr s) (htab : s'.opentab = s.opentab) (hmaps : s'.maps = s.maps)
    (hsuper : s'.fs.super = s.fs.super) : TabInv tr s' where
  super := by rw [hsuper, h.super]
  unused := by rw [hmaps]; exact h.unused
  apart := by rw [hmaps]; exact h.apart
  shared := by
    rw [hmaps]
    unfold Completed
    rw [htab]
    exact h.shared

/-- No page of an open file is sent to the server as a request. -/
def RequestPageOk (s : Serv) : ServEvent → Prop
  | .copied dst src => dst.1 = server → ∀ i p, s.maps (ffPage i) = some p → s.maps src ≠ some p
  | _ => True

theorem tabInv_step (hids : IdsInv tr s) (h : TabInv tr s) (hok : RequestPageOk s ev)
    (hstep : ServStep s ev s') : TabInv (tr ++ [ev]) s' := by
  cases hstep with
  | @request s₁ e envid rq req frame reply v he hframe hserve hva =>
      unfold servEvent
      split
      · rename_i hopen
        rw [hopen] at hserve
        generalize openEvent frame rq s = ev, serve_opened hserve = hopened
        cases hopened with
        | refused hreply =>
            have hsame : TabInv (tr ++ [.other]) s := h.snoc rfl
            exact hsame.deliver he (Or.inl hreply)
        | failed hgiven htab hmaps hsuper hreply =>
            refine (h.given hids hgiven hframe rfl (fun j hj => ?_) hmaps hsuper).deliver he
              (Or.inl hreply)
            rw [htab, hgiven.table]
            exact Function.update_of_ne hj _ _
        | @done i fileid mode f _ s₂ _ hgiven htab hmaps hsuper hfile hreply =>
            have hrest : ∀ j, j ≠ i → s₁.opentab j = s.opentab j := fun j hj => by
              rw [htab, Function.update_of_ne hj, hgiven.table, Function.update_of_ne hj]
            have hinv : TabInv (tr ++ [.opened i fileid (some (BitVec.ofNat 64 f))]) s₁ :=
              h.given hids hgiven hframe rfl hrest hmaps hsuper
            refine hinv.deliver he (Or.inr fun j p hp hpi => ?_)
            have hff : (server, vpn reply.srcva.toNat) = ffPage i := by
              rw [hreply, hids.o_ff, BitVec.toNat_ofNat, Nat.mod_eq_of_lt]
              · rfl
              · have := i.isLt
                unfold FILEVA BY2PG
                omega
            rw [hff] at hpi
            cases hinv.apart j i p hp hpi
            refine ⟨tr, [], BitVec.ofNat 64 f, ?_, fun e he => absurd he List.not_mem_nil, ?_, ?_⟩
            · rw [htab, Function.update_self, hgiven.table, Function.update_self]
            · rw [htab, Function.update_self]
            · refine hfile ?_
              rw [h.super]
              decide
      · rename_i hother
        obtain ⟨htab, hmaps, hsuper, hblock⟩ := serve_kept hserve hother
        have hinv : TabInv (tr ++ [.other]) s₁ := (h.snoc rfl).congr htab hmaps hsuper
        refine hinv.deliver he (hblock.imp_right fun hlo i p hi hp => ?_)
        exact absurd hp (hinv.block hlo hva hi)
  | @copy dst src hdst hsrc =>
      have hsame : TabInv (tr ++ [.copied dst src]) s := h.snoc rfl
      refine hsame.setMap hdst fun i p hi hp => ?_
      obtain ⟨-, hdone⟩ := hsame.shared _ i p (hsrc i) hi hp
      exact ⟨fun hserver => hok hserver i p hi hp, hdone⟩
  | new hdst hp =>
      refine (h.snoc rfl).setMap hdst fun i q hi hq => ?_
      cases hq
      exact absurd hi (maps_ne_of_ref hp _)
  | unmap hdst =>
      refine (h.snoc rfl).setMap hdst fun i q hi hq => ?_
      cases hq

/-! ## Ids that are accepted -/

/-- An open has completed for `fileid`, its slot has not been given away since and
    has the file of that open, and a client still maps the slot's page. -/
structure ValidOpen (tr : List ServEvent) (s : Serv) (fileid : U32) : Prop where
  opened : ∃ tr₁ tr₂ file, tr = tr₁ ++ .opened (slotOf fileid) fileid (some file) :: tr₂ ∧
    (∀ ev ∈ tr₂, ev.slot ≠ some (slotOf fileid)) ∧
    (s.opentab (slotOf fileid)).o_file = file ∧ file ≠ 0
  mapped : ∃ x p, x.1 ≠ server ∧ s.maps (ffPage (slotOf fileid)) = some p ∧ s.maps x = some p

theorem tabInv_run {s₀ : Serv} (h₀ : s₀.Started)
    (hrun : Run (restrict ServStep RequestPageOk) s₀ tr s) : IdsInv tr s ∧ TabInv tr s := by
  refine hrun.invariant_trace (P := fun tr s => IdsInv tr s ∧ TabInv tr s)
    ⟨idsInv_init h₀, tabInv_init h₀⟩ ?_
  rintro tr s ev s' ⟨hids, htab⟩ ⟨hstep, hok⟩
  exact ⟨idsInv_step hids hstep, tabInv_step hids htab hok hstep⟩

theorem openLookup_eq_zero (envid fileid : U32) (s : Serv) : (openLookup envid fileid s).1 = 0 ↔
    s.openref (slotOf fileid) ≠ 1 ∧ (s.opentab (slotOf fileid)).o_fileid = fileid := by
  unfold openLookup
  simp only
  split
  · rename_i h
    constructor
    · intro h₀
      exact absurd h₀ (by decide)
    · rintro ⟨href, hid⟩
      exact absurd h (by simp [href, hid])
  · rename_i h
    exact ⟨fun _ => by simpa using h, fun _ => rfl⟩

/-- A mounted disk of 1024 blocks, with every page in memory. -/
def plainFs : Fs where
  mem := ByteMem.st32 (ByteMem.st32 (fun _ => 0) (DISKMAP + BY2BLK) FS_MAGIC)
    (DISKMAP + BY2BLK + 4) 1024
  mapped := fun _ => true
  disk := fun _ => 0
  super := DISKMAP + BY2BLK
  bitmap := DISKMAP + 2 * BY2BLK
  nbitmap := 1
  memOk := fun _ => true
  allocs := 0

def plainServ : Serv := serveInit
  { fs := plainFs
    opentab := fun _ => ⟨0, 0, 0, 0⟩
    filefd := fun _ => zeroFilefd
    maps := fun _ => none }

theorem plainServ_started : plainServ.Started := ⟨⟨_, rfl⟩, rfl, fun _ => rfl⟩

/-- A request page with the empty path. -/
def zeroPage : PageWords := fun _ => 0

theorem cstring_zero : cstring (copyPath zeroPage 0) = [] := by
  unfold cstring
  have hzero : ∀ k, copyPath zeroPage 0 k = 0 := by
    intro k
    unfold copyPath PageWords.u8At zeroPage
    split
    · rfl
    · simp
  have hfn := List.ofFn_succ (n := 1023) (f := copyPath zeroPage 0)
  rw [hzero] at hfn
  rw [hfn]
  exact List.takeWhile_cons_of_neg (by decide)

/-- Only the page of slot 0 is mapped, if any. -/
structure OnlyFirst (s : Serv) : Prop where
  fs : s.fs = plainFs
  o_ff : (s.opentab 0).o_ff = FILEVA
  maps : ∀ x, x ≠ ffPage 0 → s.maps x = none

theorem OnlyFirst.openref (h : OnlyFirst s) : s.openref 0 ≤ 1 := by
  unfold Serv.openref pageref
  rw [h.o_ff]
  split
  · omega
  · rename_i p hp
    by_contra hgt
    obtain ⟨y, hne, hy⟩ := exists_other hp (by omega)
    rw [h.maps y hne] at hy
    cases hy

theorem OnlyFirst.ref_fresh (h : OnlyFirst s) :
    ∃ p, s.maps.ref p = 0 := by
  have hnone : ∀ p, s.maps (ffPage 0) ≠ some p → s.maps.ref p = 0 := by
    intro p hp
    refine Finset.card_eq_zero.mpr (Finset.filter_eq_empty_iff.mpr fun x _ hx => ?_)
    by_cases hx₀ : x = ffPage 0
    · exact hp (hx₀ ▸ hx)
    · rw [h.maps x hx₀] at hx
      cases hx
  cases hm : s.maps (ffPage 0) with
  | none => exact ⟨0, hnone 0 (by rw [hm]; simp)⟩
  | some q => exact ⟨q + 1, hnone (q + 1) (by rw [hm]; simp)⟩

theorem access_all_mapped {fs : Fs} (h : ∀ v, fs.mapped v = true) (a n : Nat) :
    access a n fs = .ret () fs := by
  have htouch : ∀ v, touch v fs = .ret () fs := fun v => by rw [touch, if_pos (h v)]
  exact (Prog.bind_ret (htouch _)).trans (htouch _)

theorem fileOpen_root (fs : Fs) : fileOpen [] fs = .ret (sRoot fs.super) fs := rfl

/-- An open that goes well. -/
theorem serve_open_ok {f : Nat} {fs : Fs} (envid : U32)
    (halloc : openAlloc frame s = (fileid, some i, s₁))
    (hpos : isNeg fileid = false) (hopen : fileOpen (cstring (copyPath rq 0)) s₁.fs = .ret f fs)
    (hfill : fillOpen i (BitVec.ofNat 64 f) (rq.u32At 1024) { s₁ with fs := fs } = .ok s') :
    s.serve frame envid rq FSREQ_OPEN =
        some (.page (BitVec.ofNat 64 (s'.opentab i).o_ff), .ok s') ∧
      openEvent frame rq s = .opened i fileid (some (BitVec.ofNat 64 f)) := by
  have hi : (⟨i.val % 1024, Nat.mod_lt _ (by decide)⟩ : Fin 1024) = i :=
    Fin.ext (Nat.mod_eq_of_lt i.isLt)
  constructor
  · unfold Serv.serve serve
    rw [if_pos rfl]
    refine congrArg some ?_
    unfold serveOpen
    generalize copyPath rq 0 = path at hopen ⊢
    have hop : (servOps frame).open_alloc (.ok s) = (fileid, i.val, .ok s₁) := by
      simp only [servOps, halloc]
      rfl
    have hcall : (servOps frame).file_open path (.ok s₁) =
        (0, BitVec.ofNat 64 f, .ok { s₁ with fs := fs }) := callFs_ret hopen
    have hfill' : (servOps frame).fill_open i.val (BitVec.ofNat 64 f) (rq.u32At 1024)
        (.ok { s₁ with fs := fs }) = .ok s' := by
      show fillOpen ⟨i.val % 1024, _⟩ _ _ _ = _
      rw [hi, hfill]
    have hff : (servOps frame).o_ff i.val (.ok s') = BitVec.ofNat 64 (s'.opentab i).o_ff := by
      show BitVec.ofNat 64 (s'.opentab ⟨i.val % 1024, _⟩).o_ff = _
      rw [hi]
    simp only [hop, hpos, hcall, hfill', hff, show isNeg 0 = false by decide,
      Bool.false_eq_true, if_false]
  · unfold openEvent
    simp only [halloc, hpos, hopen, Bool.false_eq_true, if_false]

/-- One client opens the root and closes it again. -/
theorem open_close_round (h : OnlyFirst s) (hids : IdsInv tr s) (hn : gives 0 tr + 1 < 2 ^ 21) :
    ∃ ev s', Run ServStep s [ev, .other] s' ∧ ev.slot = some 0 ∧ OnlyFirst s' := by
  obtain ⟨p, hp⟩ := h.ref_fresh
  have hfirst : ∀ j : Fin 1024, j < 0 → 1 < s.openref j :=
    fun j hj => absurd hj (Nat.not_lt_zero j.val)
  obtain ⟨fileid, s₁, halloc, hgiven⟩ := openAlloc_first h.openref hfirst (Option.some_ne_none p)
  have hpos : isNeg fileid = false := by
    rw [hgiven.next, hids.last, ← idOf_succ, isNeg_idOf]
    omega
  have hfs : s₁.fs = plainFs := hgiven.fs.trans h.fs
  have hopen : fileOpen (cstring (copyPath zeroPage 0)) s₁.fs =
      .ret (sRoot plainFs.super) plainFs := by
    rw [cstring_zero, hfs, fileOpen_root]
  have hacc := access_all_mapped (fun v => (rfl : plainFs.mapped v = true))
    (BitVec.ofNat 64 (sRoot plainFs.super)).toNat BY2FILE
  obtain ⟨s₂, hfill, hfs₂⟩ : ∃ s₂, fillOpen 0 (BitVec.ofNat 64 (sRoot plainFs.super))
      (zeroPage.u32At 1024) { s₁ with fs := plainFs } = .ok s₂ ∧ s₂.fs = plainFs := by
    unfold fillOpen
    simp only [hacc]
    exact ⟨_, rfl, rfl⟩
  obtain ⟨htab, hmaps, -⟩ := fillOpen_ok hfill
  obtain ⟨hserve, hevent⟩ := serve_open_ok 0 halloc hpos hopen hfill
  have hff : (s₂.opentab 0).o_ff = FILEVA := by
    rw [htab, Function.update_self]
    show (s₁.opentab 0).o_ff = _
    rw [hgiven.table, Function.update_self, h.o_ff]
  have hserver : (1 : EnvPtr) ≠ server := by decide
  have hclient : ∀ i, ((1 : EnvPtr), vpn 0) ≠ ffPage i := fun i heq => hserver (congrArg Prod.fst heq)
  have hreq : ServStep s (servEvent (some p) zeroPage FSREQ_OPEN s) _ :=
    .request hserver (by rintro q ⟨⟩; exact hp) hserve (v := vpn 0) (by rw [hff]; decide)
  refine ⟨_, _, (Run.single hreq).append (.single (.unmap hclient)), ?_, ?_, ?_, fun x hx => ?_⟩
  · rw [servEvent, if_pos rfl, hevent, slot_opened]
  · exact (deliver_fs _ _ _).trans hfs₂
  · show ((s₂.deliver _ _).opentab 0).o_ff = _
    rw [deliver_opentab, hff]
  · by_cases hdst : x = (1, vpn 0)
    · rw [hdst, setMap_self]
    · rw [setMap_of_ne hdst, deliver_maps hdst, hmaps]
      rcases hgiven.maps with ⟨-, hm⟩ | ⟨q, -, -, hm⟩
      · exact (congrFun hm x).trans (h.maps x hx)
      · refine (congrFun hm x).trans ?_
        rw [Function.update_of_ne (by rwa [h.o_ff]), h.maps x hx]

theorem open_close_rounds {n : Nat} (hn : n < 2 ^ 21) :
    ∃ tr s, Run ServStep plainServ tr s ∧ OnlyFirst s ∧ gives 0 tr = n := by
  induction n with
  | zero => exact ⟨[], plainServ, .nil, ⟨rfl, rfl, fun _ _ => rfl⟩, rfl⟩
  | succ n ih =>
      obtain ⟨tr, s, hrun, hs, hgives⟩ := ih (by omega)
      have hids := idsInv_run plainServ_started hrun
      obtain ⟨ev, s', hround, hslot, hs'⟩ := open_close_round hs hids (by omega)
      refine ⟨_, s', hrun.append hround, hs', ?_⟩
      rw [← hgives, show tr ++ [ev, .other] = (tr ++ [ev]) ++ [.other] by simp, gives_snoc,
        gives_snoc, if_pos hslot]
      rfl

end RpiMos
