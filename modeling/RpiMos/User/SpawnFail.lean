/-
  RpiMos.User.SpawnFail

  What is left behind when a step of `spawn` fails.  The environment, the
  descriptor and the child's pages are told from the calls that were made.
-/

import RpiMos.User.SpawnFile
import RpiMos.User.PipeRefs

namespace RpiMos

open Lib

variable {os : Os} {file : ProgFile} {child : U32} {s s' : SpawnSt} {log : List Event}

/-! ## What the events say -/

/-- A step that fails: a call that answers an error, a header that is not read whole,
    arguments that `init_stack` does not take. -/
def FailedStep : Event → Prop
  | .query (.vpd _) _ => False
  | .query (.vpm _) _ => False
  | .query (.vpt _) _ => False
  | .query _ r => (r.setWidth 32).msb = true
  | .readn .elfbuf n got => got < n
  | .stack r => r ≠ 0
  | _ => False

/-- A file has been opened: its descriptor page is mapped. -/
def OpensFd : Event → Prop
  | .query (.fsipc_open _ _) r => (r.setWidth 32).msb = false
  | _ => False

/-- A page of the descriptor table is unmapped. -/
def ClosesFd : Event → Prop
  | .query (.mem_unmap envid va) _ =>
      envid = 0 ∧ FDTABLE ≤ va.toNat ∧ va.toNat < FDTABLE + 32 * 4096
  | _ => False

/-- `child` has been allocated. -/
def Allocated (log : List Event) (child : U32) : Prop :=
  ∃ r, .query .env_alloc r ∈ log ∧ r.setWidth 32 = child ∧ child.msb = false

/-- The environment that a call changes. -/
def target : Event → Option U32
  | .query (.mem_alloc envid _ _) _ => some envid
  | .query (.mem_map _ _ dstid _ _) _ => some dstid
  | .query (.mem_unmap envid _) _ => some envid
  | .query (.set_env_status envid _) _ => some envid
  | .query (.env_destroy envid) _ => some envid
  | _ => none

/-- A descriptor that was opened has been closed since. -/
def FdClosed (log : List Event) : Prop := ∀ before e after, log = before ++ e :: after →
  OpensFd e → ∃ e' ∈ after, ClosesFd e'

/-- An environment that was allocated has been destroyed since, and none was made
    runnable. -/
def EnvGone (log : List Event) : Prop :=
  (∀ before r after, log = before ++ .query .env_alloc r :: after → (r.setWidth 32).msb = false →
    ∃ r', .query (.env_destroy (r.setWidth 32)) r' ∈ after) ∧
  ∀ child r, .query (.set_env_status child .ENV_RUNNABLE) r ∈ log → (r.setWidth 32).msb = true

/-- Only the caller and environments that were allocated are changed. -/
def OtherEnvsKept (log : List Event) : Prop :=
  (∀ e ∈ log, ∀ envid, target e = some envid → envid = 0 ∨ Allocated log envid) ∧
  ∀ p elr_el1 sp_el0, .setTf p elr_el1 sp_el0 ∈ log → ∃ child, Allocated log child ∧ ENVX child = p

/-- A step has failed in the call. -/
def SomeStepFails (os : Os) (file : ProgFile) (prog : List (BitVec 8))
    (argv : List (List (BitVec 8))) (s : SpawnSt) : Prop :=
  ∃ r s', SpawnReturns os file prog argv s r s' ∧ ∃ e ∈ s'.log, FailedStep e

/-- Where a step fails, the result is an error and nothing is left behind. -/
def AllOrNothing (os : Os) (file : ProgFile) (prog : List (BitVec 8))
    (argv : List (List (BitVec 8))) (s : SpawnSt) : Prop :=
  ∀ r s', SpawnReturns os file prog argv s r s' → (∃ e ∈ s'.log, FailedStep e) →
    r.msb = true ∧ EnvGone s'.log ∧ OtherEnvsKept s'.log ∧ FdClosed s'.log

/-- There is no free descriptor, or the file server does not open the file. -/
def OpenRefused (os : Os) (prog : List (BitVec 8)) : Prop :=
  ((os [] .fd_alloc).setWidth 32).msb = true ∨
  ((os [.query .fd_alloc (os [] .fd_alloc)] (.fsipc_open (progName prog) O_RDONLY)).setWidth 32).msb =
    true

/-! ## The descriptor stays -/

/-- Events that `P` holds of have been added. -/
def Added (P : Event → Prop) (s s' : SpawnSt) : Prop :=
  ∃ new, s'.log = s.log ++ new ∧ ∀ e ∈ new, P e

theorem Added.refl {P : Event → Prop} (s : SpawnSt) : Added P s s :=
  ⟨[], (List.append_nil _).symm, fun _ h => absurd h List.not_mem_nil⟩

theorem Added.trans {P : Event → Prop} (s s₁ s₂ : SpawnSt) (h : Added P s s₁) (h' : Added P s₁ s₂) :
    Added P s s₂ := by
  obtain ⟨new, hlog, hnew⟩ := h
  obtain ⟨new', hlog', hnew'⟩ := h'
  refine ⟨new ++ new', by rw [hlog', hlog, List.append_assoc], fun e he => ?_⟩
  rcases List.mem_append.mp he with he | he
  · exact hnew e he
  · exact hnew' e he

variable {α β : Type}

/-- Nothing that `x` does closes a descriptor. -/
def KeepsFd (x : SpawnM α) : Prop := Prog.Moves (Added fun e => ¬ ClosesFd e) x

theorem keepsFd_pure (a : α) : KeepsFd (pure a) := Prog.moves_pure Added.refl a

theorem keepsFd_get : KeepsFd Prog.get := Prog.moves_get Added.refl

theorem KeepsFd.bind {x : SpawnM α} {f : α → SpawnM β} (h : KeepsFd x)
    (hf : ∀ a, KeepsFd (f a)) : KeepsFd (x >>= f) :=
  Prog.Moves.bind Added.trans h hf

theorem KeepsFd.forRange {body : Nat → SpawnM PUnit} (h : ∀ i, KeepsFd (body i)) (i n : Nat) :
    KeepsFd (Prog.forRange i n body) :=
  Prog.Moves.forRange Added.refl Added.trans h i n

theorem keepsFd_modify {f : SpawnSt → SpawnSt} (h : ∀ s, (f s).log = s.log) :
    KeepsFd (Prog.modify f) :=
  Prog.moves_modify fun s =>
    ⟨[], (h s).trans (List.append_nil _).symm, fun _ h => absurd h List.not_mem_nil⟩

theorem keepsFd_emit {e : Event} (h : ¬ ClosesFd e) : KeepsFd (emit e) := by
  refine Prog.moves_modify fun s => ⟨[e], rfl, fun e' he' => ?_⟩
  rw [List.mem_singleton.mp he']
  exact h

/-- A call that closes no descriptor, whatever it answers. -/
def Query.Keeps (q : Query) : Prop := ∀ r, ¬ ClosesFd (.query q r)

theorem keepsFd_ask {q : Query} (h : q.Keeps) : KeepsFd (ask os q) :=
  KeepsFd.bind keepsFd_get fun _ => KeepsFd.bind (keepsFd_emit (h _)) fun _ => keepsFd_pure _

theorem keepsFd_askInt {q : Query} (h : q.Keeps) : KeepsFd (askInt os q) :=
  KeepsFd.bind (keepsFd_ask h) fun _ => keepsFd_pure _

theorem keepsFd_must {q : Query} (h : q.Keeps) : KeepsFd (must os q) := by
  refine KeepsFd.bind (keepsFd_askInt h) fun r => ?_
  split
  · exact Prog.moves_throw Added.refl _
  · exact keepsFd_pure _

theorem keeps_mem_alloc (envid : U32) (va perm : Word) : (Query.mem_alloc envid va perm).Keeps :=
  fun _ h => h

theorem keeps_mem_map (srcid dstid : U32) (srcva dstva perm : Word) :
    (Query.mem_map srcid srcva dstid dstva perm).Keeps :=
  fun _ h => h

/-- The page that `spawn` builds things in is not in the descriptor table. -/
theorem keeps_unmap_page : (Query.mem_unmap 0 4096).Keeps := fun _ h => absurd h.2.1 (by decide)

theorem keepsFd_seek (pos : Word) : KeepsFd (seek os pos) :=
  KeepsFd.bind (keepsFd_must fun _ h => h) fun _ => keepsFd_modify fun _ => rfl

theorem keepsFd_read (b : Buf) (start n : Nat) : KeepsFd (read os file b start n) := by
  refine KeepsFd.bind (keepsFd_must fun _ h => h) fun _ => KeepsFd.bind keepsFd_get fun s => ?_
  refine KeepsFd.bind (keepsFd_modify fun _ => rfl) fun _ => ?_
  exact KeepsFd.bind (keepsFd_emit fun h => h) fun _ => keepsFd_pure _

theorem keepsFd_readnFrom (b : Buf) (n tot : Nat) : KeepsFd (readnFrom os file b n tot) := by
  fun_induction readnFrom os file b n tot with
  | case1 tot hlt ih =>
      refine KeepsFd.bind (keepsFd_read b tot (n - tot)) fun m => ?_
      split
      · exact keepsFd_pure _
      · rename_i hm
        exact ih m hm
  | case2 tot hge => exact keepsFd_pure _

theorem keepsFd_readn (b : Buf) (n : Nat) : KeepsFd (readn os file b n) :=
  KeepsFd.bind (keepsFd_readnFrom b n 0) fun _ =>
    KeepsFd.bind (keepsFd_emit fun h => h) fun _ => keepsFd_pure _

theorem KeepsFd.chunkLoop {body : U32 → Word → SpawnM PUnit} (h : ∀ i size, KeepsFd (body i size))
    (limit : Word) (i : U32) : KeepsFd (chunkLoop limit body i) := by
  fun_induction RpiMos.chunkLoop limit body i with
  | case1 i hlt size ih => exact KeepsFd.bind (h i _) fun _ => ih
  | case2 i hge => exact keepsFd_pure _

theorem keepsFd_initStack (argv : List (List (BitVec 8))) : KeepsFd (initStack os child argv) := by
  unfold initStack
  split
  · exact keepsFd_pure _
  · refine KeepsFd.bind (keepsFd_askInt (keeps_mem_alloc _ _ _)) fun r => ?_
    split
    · exact keepsFd_pure _
    · refine KeepsFd.bind (keepsFd_modify fun _ => rfl) fun _ => ?_
      refine KeepsFd.bind (keepsFd_askInt (keeps_mem_map _ _ _ _ _)) fun r => ?_
      split
      · exact KeepsFd.bind (keepsFd_ask keeps_unmap_page) fun _ => keepsFd_pure _
      · refine KeepsFd.bind (keepsFd_askInt keeps_unmap_page) fun r => ?_
        split
        · exact KeepsFd.bind (keepsFd_ask keeps_unmap_page) fun _ => keepsFd_pure _
        · exact keepsFd_pure _

variable {ph : Phdr}

theorem keepsFd_loadPage (offset : Word) (i : U32) (size : Word) :
    KeepsFd (loadPage os file ph child offset i size) := by
  refine KeepsFd.bind (keepsFd_must (keeps_mem_alloc _ _ _)) fun _ => ?_
  refine KeepsFd.bind (keepsFd_seek _) fun _ => ?_
  refine KeepsFd.bind (keepsFd_readn _ _) fun _ => ?_
  refine KeepsFd.bind (keepsFd_must (keeps_mem_map _ _ _ _ _)) fun _ => ?_
  refine KeepsFd.bind keepsFd_get fun s => KeepsFd.bind (keepsFd_emit fun h => h) fun _ => ?_
  exact keepsFd_must keeps_unmap_page

theorem keepsFd_loadFirst : KeepsFd (loadFirst os file ph child) := by
  unfold loadFirst
  simp only
  split
  · exact keepsFd_pure _
  · exact KeepsFd.bind (keepsFd_loadPage _ _ _) fun _ => keepsFd_pure _

theorem keepsFd_zeroTail (i : U32) : KeepsFd (zeroTail os ph child i) := by
  unfold zeroTail
  simp only
  split
  · exact keepsFd_pure _
  · refine KeepsFd.bind (keepsFd_must (keeps_mem_map _ _ _ _ _)) fun _ => ?_
    refine KeepsFd.bind (keepsFd_emit fun h => h) fun _ => ?_
    exact KeepsFd.bind (keepsFd_must keeps_unmap_page) fun _ => keepsFd_pure _

theorem keepsFd_usrLoadElf : KeepsFd (usrLoadElf os file ph child) := by
  refine KeepsFd.bind keepsFd_loadFirst fun i => ?_
  refine KeepsFd.bind (KeepsFd.chunkLoop (fun _ _ => keepsFd_loadPage _ _ _) _ i) fun i => ?_
  refine KeepsFd.bind (keepsFd_zeroTail i) fun i => ?_
  refine KeepsFd.bind (KeepsFd.chunkLoop (fun _ _ => ?_) _ i) fun _ => keepsFd_pure _
  exact keepsFd_must (keeps_mem_alloc _ _ _)

theorem keepsFd_loadEntry (entry_size : Nat) (text_start : Word) :
    KeepsFd (loadEntry os file child entry_size text_start) := by
  refine KeepsFd.bind (keepsFd_seek _) fun _ => KeepsFd.bind (keepsFd_readn _ _) fun _ => ?_
  refine KeepsFd.bind keepsFd_get fun s => KeepsFd.bind (keepsFd_emit fun h => h) fun _ => ?_
  split
  · refine KeepsFd.bind (keepsFd_emit fun h => h) fun _ => ?_
    refine KeepsFd.bind (keepsFd_emit fun h => h) fun _ => ?_
    exact keepsFd_usrLoadElf
  · exact keepsFd_pure _

theorem keepsFd_loadEntries (entry_size n : Nat) (text_start : Word) :
    KeepsFd (loadEntries os file child entry_size n text_start) := by
  induction n generalizing text_start with
  | zero => exact keepsFd_pure _
  | succ n ih => exact KeepsFd.bind (keepsFd_loadEntry _ _) fun _ => ih _

theorem keepsFd_shareDir (i : Nat) : KeepsFd (shareDir os child i) := by
  refine KeepsFd.bind (keepsFd_ask fun _ h => h) fun pde => ?_
  split
  · exact keepsFd_pure _
  · refine KeepsFd.forRange (fun j => ?_) 0 512
    refine KeepsFd.bind (keepsFd_ask fun _ h => h) fun pme => ?_
    split
    · exact keepsFd_pure _
    · refine KeepsFd.forRange (fun k => ?_) 0 512
      refine KeepsFd.bind (keepsFd_ask fun _ h => h) fun pte => ?_
      split
      · exact keepsFd_pure _
      · exact keepsFd_must (keeps_mem_map _ _ _ _ _)

theorem keepsFd_fsipc_map (offset : Nat) : KeepsFd (must os (.fsipc_map offset)) :=
  keepsFd_must fun _ h => h

/-- `spawn` from the answer of the file server on. -/
theorem spawn_opening (os : Os) (file : ProgFile) (prog : List (BitVec 8))
    (argv : List (List (BitVec 8))) : ∃ y : SpawnM U32, KeepsFd y ∧ spawn os file prog argv =
      must os .fd_alloc >>= fun _ => must os (.fsipc_open (progName prog) O_RDONLY) >>= fun _ => y := by
  unfold spawn openFile
  simp only [Prog.bind_assoc]
  refine ⟨_, ?_, rfl⟩
  refine KeepsFd.bind (keepsFd_modify fun _ => rfl) fun _ => ?_
  refine KeepsFd.bind (KeepsFd.forRange (fun i => keepsFd_fsipc_map _) 0 _) fun _ => ?_
  refine KeepsFd.bind (keepsFd_readn _ _) fun _ => ?_
  refine KeepsFd.bind keepsFd_get fun s => ?_
  refine KeepsFd.bind (keepsFd_emit fun h => h) fun _ => ?_
  refine KeepsFd.bind (keepsFd_emit fun h => h) fun _ => ?_
  refine KeepsFd.bind (keepsFd_emit fun h => h) fun _ => ?_
  refine KeepsFd.bind (keepsFd_askInt fun _ h => h) fun child => ?_
  refine KeepsFd.bind (keepsFd_initStack _) fun r => ?_
  refine KeepsFd.bind (keepsFd_emit fun h => h) fun _ => ?_
  refine KeepsFd.bind (keepsFd_loadEntries _ _ _) fun _ => ?_
  refine KeepsFd.bind keepsFd_get fun s => ?_
  refine KeepsFd.bind (keepsFd_emit fun h => h) fun _ => ?_
  refine KeepsFd.bind (KeepsFd.forRange keepsFd_shareDir 0 512) fun _ => ?_
  exact KeepsFd.bind (keepsFd_must fun _ h => h) fun _ => keepsFd_pure _

/-! ## All or nothing -/

theorem must_fails {q : Query} (h : ((os s.log q).setWidth 32).msb = true) :
    must os q s = .fail ((os s.log q).setWidth 32) (s.asked os q) := by
  unfold must
  rw [Prog.bind_ret (askInt_apply os q s), if_pos h]
  rfl

theorem must_answers {q : Query} (h : ((os s.log q).setWidth 32).msb = false) :
    must os q s = .ret ⟨⟩ (s.asked os q) := by
  unfold must
  rw [Prog.bind_ret (askInt_apply os q s), if_neg (by rw [h]; exact Bool.false_ne_true)]
  rfl

/-- The descriptor is open, and stays so. -/
theorem not_fdClosed_of_opened {before after : List Event} {e : Event} (hopens : OpensFd e)
    (hkeeps : ∀ e' ∈ after, ¬ ClosesFd e') : ¬ FdClosed (before ++ e :: after) := by
  intro hclosed
  obtain ⟨e', hmem, hcloses⟩ := hclosed before e after rfl hopens
  exact hkeeps e' hmem hcloses

variable {prog : List (BitVec 8)} {argv : List (List (BitVec 8))} {r : U32}

theorem fd_stays_open (hs : s.log = []) (hopen : ¬ OpenRefused os prog)
    (h : SpawnReturns os file prog argv s r s') : ¬ FdClosed s'.log := by
  unfold OpenRefused at hopen
  simp only [not_or, Bool.not_eq_true] at hopen
  obtain ⟨halloc, hserver⟩ := hopen
  rw [← hs] at halloc
  have hlog : (s.asked os .fd_alloc).log = [.query .fd_alloc (os [] .fd_alloc)] := by
    rw [SpawnSt.asked, hs, List.nil_append]
  rw [← hlog] at hserver
  obtain ⟨y, hy, hspawn⟩ := spawn_opening os file prog argv
  unfold SpawnReturns at h
  rw [hspawn, Prog.bind_ret (must_answers halloc), Prog.bind_ret (must_answers hserver)] at h
  have hadded : Added (fun e => ¬ ClosesFd e)
      ((s.asked os .fd_alloc).asked os (.fsipc_open (progName prog) O_RDONLY)) s' := by
    rcases h with h | h
    · exact hy.ret h
    · exact hy.fail h
  obtain ⟨new, hnew, hkeeps⟩ := hadded
  rw [hnew, SpawnSt.asked, List.append_assoc]
  exact not_fdClosed_of_opened hserver hkeeps

/-- Events that leave nothing to be undone. -/
def Harmless (e : Event) : Prop :=
  ¬ OpensFd e ∧ target e = none ∧ (∀ r, e ≠ .query .env_alloc r) ∧ ∀ p elr sp, e ≠ .setTf p elr sp

theorem nothing_left (h : ∀ e ∈ log, Harmless e) : EnvGone log ∧ OtherEnvsKept log ∧ FdClosed log := by
  refine ⟨⟨fun before r after hlog => ?_, fun child r hmem => ?_⟩,
    ⟨fun e he envid htarget => ?_, fun p elr sp hmem => ?_⟩, fun before e after hlog hopens => ?_⟩
  · have hmem : .query .env_alloc r ∈ log := by
      rw [hlog]
      exact List.mem_append_right before List.mem_cons_self
    exact absurd rfl ((h _ hmem).2.2.1 r)
  · have hnone := (h _ hmem).2.1
    cases hnone
  · rw [(h e he).2.1] at htarget
    cases htarget
  · exact absurd rfl ((h _ hmem).2.2.2 p elr sp)
  · have hmem : e ∈ log := by
      rw [hlog]
      exact List.mem_append_right before List.mem_cons_self
    exact absurd hopens (h e hmem).1

theorem fd_alloc_harmless (r : Word) : Harmless (.query .fd_alloc r) :=
  ⟨fun h => h, rfl, nofun, nofun⟩

theorem refused_all_or_nothing (hs : s.log = []) (hrefused : OpenRefused os prog) :
    AllOrNothing os file prog argv s := by
  intro r s' hreturns _
  obtain ⟨y, -, hspawn⟩ := spawn_opening os file prog argv
  unfold SpawnReturns at hreturns
  rw [hspawn] at hreturns
  by_cases halloc : ((os s.log .fd_alloc).setWidth 32).msb = true
  · -- No descriptor is free.
    rw [Prog.bind_fail (must_fails halloc)] at hreturns
    rcases hreturns with h | h
    · cases h
    · cases h
      refine ⟨halloc, nothing_left fun e he => ?_⟩
      rw [SpawnSt.asked, hs, List.nil_append, List.mem_singleton] at he
      rw [he]
      exact fd_alloc_harmless _
  · have hlog : (s.asked os .fd_alloc).log = [.query .fd_alloc (os [] .fd_alloc)] := by
      rw [SpawnSt.asked, hs, List.nil_append]
    have hserver := hrefused.resolve_left (by rw [← hs]; exact halloc)
    rw [← hlog] at hserver
    rw [Prog.bind_ret (must_answers (Bool.not_eq_true _ ▸ halloc)),
      Prog.bind_fail (must_fails hserver)] at hreturns
    rcases hreturns with h | h
    · cases h
    · cases h
      refine ⟨hserver, nothing_left fun e he => ?_⟩
      rw [SpawnSt.asked, hlog] at he
      rcases List.mem_cons.mp he with rfl | he
      · exact fd_alloc_harmless _
      · rw [List.mem_singleton.mp he]
        refine ⟨fun hopens => ?_, rfl, nofun, nofun⟩
        rw [← hlog] at hopens
        exact absurd (hserver.symm.trans hopens) (by decide)

/-- Nothing has happened. -/
def spawnStart : SpawnSt where
  fd_offset := 0
  bufs := fun _ _ => 0
  mem := fun _ => 0
  esp := 0
  log := []

/-- Every call fails. -/
def failingOs : Os := fun _ _ => -1

/-- An argument of 4096 characters. -/
def longArgument : List (List (BitVec 8)) := [List.replicate 4096 0x78]

theorem longArgument_rejected : 4096 < stackNeed longArgument := by
  have htotal : stringsTotal longArgument = 4097 := by
    rw [stringsTotal, longArgument, List.foldl_cons, List.foldl_nil, List.length_replicate]
    decide
  rw [stackNeed, htotal]
  decide

end RpiMos
