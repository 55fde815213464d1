/-
  RpiMos.Fs.Serv

  fs/serv.c: what `serve` answers to a request page.  The file system behind it
  (`open_alloc`, `file_open` and the other functions that the handlers call) is
  a parameter, over the server's private memory `σ`.
-/

import RpiMos.Fs.Block

namespace RpiMos

/-- The bytes of a request page, as 64-bit words. -/
abbrev PageWords := Fin 512 → Word

/-- Paths start at one of the first eight words. -/
instance neZero_path : NeZero 8 := ⟨by decide⟩

namespace PageWords

def u8At (p : PageWords) (off : Fin 4096) : BitVec 8 :=
  (p ⟨off.val / 8, by omega⟩ >>> (8 * (off.val % 8))).setWidth 8

/-- A 32-bit field at an offset that is a multiple of 4. -/
def u32At (p : PageWords) (off : Fin 4096) : U32 :=
  (p ⟨off.val / 8, by omega⟩ >>> (8 * (off.val % 8))).setWidth 32

end PageWords

def MAXPATHLEN : Nat := 1024

/-- A path buffer. -/
abbrev Path := Fin 1024 → BitVec 8

/-- `user_bcopy(rq->req_path, path, MAXPATHLEN)` and the terminating null, for a
    `req_path` at byte `off` of the request. -/
def copyPath (p : PageWords) (off : Fin 8) : Path := fun i =>
  if i.val = MAXPATHLEN - 1 then 0 else p.u8At ⟨off.val + i.val, by omega⟩

def FSREQ_OPEN : Word := 1
def FSREQ_MAP : Word := 2
def FSREQ_SET_SIZE : Word := 3
def FSREQ_CLOSE : Word := 4
def FSREQ_DIRTY : Word := 5
def FSREQ_REMOVE : Word := 6
def FSREQ_SYNC : Word := 7
def FSREQ_CREATE : Word := 8

/-- What the handlers call.  Results are `int`s, negative for an error. -/
structure FsOps (σ : Type) where
  open_alloc : σ → U32 × Nat × σ
  file_open : Path → σ → U32 × Word × σ
  /-- The stores of `serve_open` into the open file and its `Filefd` page. -/
  fill_open : Nat → Word → U32 → σ → σ
  /-- `opentab[i].o_ff` and `opentab[i].o_file`. -/
  o_ff : Nat → σ → Word
  o_file : Nat → σ → Word
  open_lookup : U32 → U32 → σ → U32 × Nat
  file_get_block : Word → U32 → σ → U32 × Word × σ
  file_set_size : Word → U32 → σ → U32 × σ
  file_close : Word → σ → σ
  file_dirty : Word → U32 → σ → U32 × σ
  file_remove : Path → σ → U32 × σ
  file_create : Path → U32 → σ → U32 × σ
  fs_sync : σ → σ

/-- The arguments of the handler's `ipc_send`. -/
structure Reply where
  r : U32
  srcva : Word
  perm : Word

/-- `r < 0`, for an `int`. -/
def isNeg (r : U32) : Bool := r.slt 0

/-- `ipc_send(envid, r, 0, 0)`. -/
def Reply.plain (r : U32) : Reply := ⟨r, 0, 0⟩

/-- `ipc_send(envid, 0, srcva, VALID | PTE_RW | PTE_LIBRARY | PTE_USER)`. -/
def Reply.page (srcva : Word) : Reply := ⟨0, srcva, VALID ||| PTE_RW ||| PTE_LIBRARY ||| PTE_USER⟩

section Handlers

variable {σ : Type} (ops : FsOps σ) (envid : U32) (rq : PageWords) (s : σ)

def serveOpen : Reply × σ :=
  let path := copyPath rq 0
  let (r, o, s₁) := ops.open_alloc s
  if isNeg r then (.plain r, s₁)
  else
    let (r, f, s₂) := ops.file_open path s₁
    if isNeg r then (.plain r, s₂)
    else
      let s₃ := ops.fill_open o f (rq.u32At 1024) s₂
      (.page (ops.o_ff o s₃), s₃)

def serveMap : Reply × σ :=
  let (r, o) := ops.open_lookup envid (rq.u32At 0) s
  if isNeg r then (.plain r, s)
  else
    let filebno := rq.u32At 4 / BitVec.ofNat 32 BY2BLK
    let (r, blk, s₁) := ops.file_get_block (ops.o_file o s) filebno s
    if isNeg r then (.plain r, s₁) else (.page blk, s₁)

/-- `serve_set_size` and `serve_dirty`: look the open file up and pass the
    request's second field on. -/
def serveField (op : Word → U32 → σ → U32 × σ) : Reply × σ :=
  let (r, o) := ops.open_lookup envid (rq.u32At 0) s
  if isNeg r then (.plain r, s)
  else
    let (r, s₁) := op (ops.o_file o s) (rq.u32At 4) s
    if isNeg r then (.plain r, s₁) else (.plain 0, s₁)

def serveSetSize : Reply × σ := serveField ops envid rq s ops.file_set_size

def serveDirty : Reply × σ := serveField ops envid rq s ops.file_dirty

def serveClose : Reply × σ :=
  let (r, o) := ops.open_lookup envid (rq.u32At 0) s
  if isNeg r then (.plain r, s) else (.plain 0, ops.file_close (ops.o_file o s) s)

def serveRemove : Reply × σ :=
  let (r, s₁) := ops.file_remove (copyPath rq 0) s
  if isNeg r then (.plain r, s₁) else (.plain 0, s₁)

/-- The path of a create request stands after the file type. -/
def serveCreate : Reply × σ :=
  let (r, s₁) := ops.file_create (copyPath rq 4) (rq.u32At 0) s
  if isNeg r then (.plain r, s₁) else (.plain 0, s₁)

def serveSync : Reply × σ := (.plain 0, ops.fs_sync s)

/-- The switch of `serve`: `none` for a code it does not know. -/
def serve (req : Word) : Option (Reply × σ) :=
  if req = FSREQ_OPEN then some (serveOpen ops rq s)
  else if req = FSREQ_MAP then some (serveMap ops envid rq s)
  else if req = FSREQ_SET_SIZE then some (serveSetSize ops envid rq s)
  else if req = FSREQ_CLOSE then some (serveClose ops envid rq s)
  else if req = FSREQ_DIRTY then some (serveDirty ops envid rq s)
  else if req = FSREQ_REMOVE then some (serveRemove ops rq s)
  else if req = FSREQ_SYNC then some (serveSync ops s)
  else if req = FSREQ_CREATE then some (serveCreate ops rq s)
  else none

end Handlers

/-- The codes that `serve` knows. -/
def KnownReq (type : U32) : Prop := 1 ≤ type.toNat ∧ type.toNat ≤ 8

/-! ## What a reply may carry -/

section ReplyOk

variable {σ : Type} {ops : FsOps σ} {envid : U32} {rq : PageWords} {s s' : σ} {reply : Reply}
  {req : Word} {r : U32}

/-- The page of a reply lies outside the self-map, and its perm is one for a page. -/
structure Reply.Ok (reply : Reply) : Prop where
  srcva : GET_L1_INDEX reply.srcva ≠ uvptIndex
  perm : reply.perm &&& pageNumberBits = 0

/-- `Filefd` pages (from `FILEVA` on) and disk blocks (from `DISKMAP` on). -/
structure FsOps.PagesOk (ops : FsOps σ) : Prop where
  o_ff : ∀ o s, GET_L1_INDEX (ops.o_ff o s) ≠ uvptIndex
  blk : ∀ f filebno s, GET_L1_INDEX (ops.file_get_block f filebno s).2.1 ≠ uvptIndex

theorem Reply.plain_ok (r : U32) : (Reply.plain r).Ok := by
  refine ⟨?_, by simp [Reply.plain]⟩
  show GET_L1_INDEX 0 ≠ uvptIndex
  rw [uvptIndex_eq, GET_L1_INDEX_eq]
  decide

theorem Reply.page_ok {srcva : Word} (h : GET_L1_INDEX srcva ≠ uvptIndex) :
    (Reply.page srcva).Ok := ⟨h, by simp only [Reply.page]; decide⟩

theorem serveField_ok (op : Word → U32 → σ → U32 × σ) :
    (serveField ops envid rq s op).1.Ok := by
  unfold serveField
  simp only
  split
  · exact Reply.plain_ok _
  · split <;> exact Reply.plain_ok _

theorem serveOpen_ok (hops : ops.PagesOk) : (serveOpen ops rq s).1.Ok := by
  unfold serveOpen
  simp only
  split
  · exact Reply.plain_ok _
  · split
    · exact Reply.plain_ok _
    · exact Reply.page_ok (hops.o_ff _ _)

theorem serveMap_ok (hops : ops.PagesOk) : (serveMap ops envid rq s).1.Ok := by
  unfold serveMap
  simp only
  split
  · exact Reply.plain_ok _
  · split
    · exact Reply.plain_ok _
    · exact Reply.page_ok (hops.blk _ _ _)

/-- Every handler sends a reply that is in order. -/
theorem serve_ok (hops : ops.PagesOk) (h : serve ops envid rq s req = some (reply, s')) :
    reply.Ok := by
  have hreply : ∀ {x : Reply × σ}, x.1.Ok → some x = some (reply, s') → reply.Ok := by
    rintro x hx heq
    cases heq
    exact hx
  unfold serve at h
  split at h
  · exact hreply (serveOpen_ok hops) h
  · split at h
    · exact hreply (serveMap_ok hops) h
    · split at h
      · exact hreply (serveField_ok _) h
      · split at h
        · refine hreply ?_ h
          unfold serveClose
          simp only
          split <;> exact Reply.plain_ok _
        · split at h
          · exact hreply (serveField_ok _) h
          · split at h
            · refine hreply ?_ h
              unfold serveRemove
              simp only
              split <;> exact Reply.plain_ok _
            · split at h
              · exact hreply (Reply.plain_ok _) h
              · split at h
                · refine hreply ?_ h
                  unfold serveCreate
                  simp only
                  split <;> exact Reply.plain_ok _
                · cases h

/-- A known code is never rejected. -/
theorem serve_known {type : U32} (h : KnownReq type) :
    serve ops envid rq s (type.setWidth 64) ≠ none := by
  obtain ⟨hlo, hhi⟩ := h
  have hcode : ∀ n : Nat, n < 2 ^ 32 → type.toNat = n → type.setWidth 64 = BitVec.ofNat 64 n := by
    intro n hn h
    apply BitVec.eq_of_toNat_eq
    rw [BitVec.toNat_setWidth, BitVec.toNat_ofNat, h]
  have hcases : type.toNat = 1 ∨ type.toNat = 2 ∨ type.toNat = 3 ∨ type.toNat = 4 ∨
      type.toNat = 5 ∨ type.toNat = 6 ∨ type.toNat = 7 ∨ type.toNat = 8 := by omega
  rcases hcases with h | h | h | h | h | h | h | h <;>
    rw [hcode _ (by decide) h] <;>
    simp [serve, FSREQ_OPEN, FSREQ_MAP, FSREQ_SET_SIZE, FSREQ_CLOSE, FSREQ_DIRTY, FSREQ_REMOVE,
      FSREQ_SYNC, FSREQ_CREATE]

end ReplyOk

end RpiMos
