/-
  RpiMos.Fs.FsRun

  Runs of the file server.  Whatever its clients ask for and in whatever order, it
  serves the abstract file server below, which knows nothing but a map from paths to
  files and the paths of open files, as long as each step keeps clear of the known
  defects: a file is not removed while it is open, the last block number of a table is
  not used, a free block that becomes a table or a directory is blank, and there is
  nothing behind a hole.
-/

import RpiMos.Fs.FsOps
import RpiMos.Lib.Run

namespace RpiMos

open Lib Prog BlockTree

variable {s s' : Fs} {N f g k : Nat} {m : ByteMem} {path : List (BitVec 8)} {names p : List (List (BitVec 8))}
  {v : FileMap}

/-! ## The abstract file server -/

/-- What was done, and how it ended. -/
inductive FsEvent where
  | opened (path : List (BitVec 8)) (f : Nat)
  | notOpened (path : List (BitVec 8))
  | created (path : List (BitVec 8)) (ftype : U32) (f : Nat)
  | notCreated (path : List (BitVec 8)) (ftype : U32)
  | removed (path : List (BitVec 8))
  | notRemoved (path : List (BitVec 8))
  | got (f : Nat) (filebno : U32)
  | notGot (f : Nat) (filebno : U32)
  | dirtied (f : Nat) (offset : U32)
  | notDirtied (f : Nat) (offset : U32)
  | poked (f k off : Nat) (x : BitVec 8)
  | resized (f : Nat) (newsize : Word)
  | closed (f : Nat)
  | synced

structure FileServer where
  files : FileMap
  opens : Nat → Option (List (List (BitVec 8)))

namespace FileServer

def opening (A : FileServer) (f : Nat) (p : List (List (BitVec 8))) : FileServer :=
  { A with opens := Function.update A.opens f (some p) }

def putting (A : FileServer) (p : List (List (BitVec 8))) (nd : Node) : FileServer :=
  { A with files := A.files.put p nd }

/-- File `f` is open, and is no directory. -/
def HasFile (A : FileServer) (f : Nat) (p : List (List (BitVec 8))) (type size : U32)
    (data : Nat → Option (Nat → BitVec 8)) : Prop :=
  A.opens f = some p ∧ A.files p = some (.file type size data)

/-- A file can be made at `names`. -/
def CanMake (A : FileServer) (names : List (List (BitVec 8))) : Prop := A.files names = none ∧
  ∃ p name, names = p ++ [name] ∧ name.length < MAXNAMELEN ∧ A.files p = some .dir

@[simp] theorem opening_self (A : FileServer) (f : Nat) (p : List (List (BitVec 8))) :
    (A.opening f p).opens f = some p := by
  show Function.update A.opens f (some p) f = some p
  rw [Function.update_self]

@[simp] theorem opening_other (A : FileServer) (p : List (List (BitVec 8))) (h : g ≠ f) :
    (A.opening f p).opens g = A.opens g := by
  show Function.update A.opens f (some p) g = A.opens g
  rw [Function.update_of_ne h]

end FileServer

open FileServer in
/-- The steps of the abstract file server. -/
inductive FileStep (A : FileServer) : FsEvent → FileServer → Prop
  | opened {path : List (BitVec 8)} {f : Nat} (h : A.files (components path) ≠ none) :
      FileStep A (.opened path f) (A.opening f (components path))
  | notOpened {path : List (BitVec 8)} (h : A.files (components path) = none) : FileStep A (.notOpened path) A
  | created {path : List (BitVec 8)} {ftype : U32} {f : Nat} {p : List (List (BitVec 8))} {name : List (BitVec 8)}
      {data : Nat → Option (Nat → BitVec 8)} (hp : components path = p ++ [name]) (hdir : A.files p = some .dir)
      (h : A.files (components path) = none) : FileStep A (.created path ftype f)
        ((A.putting (components path) (if ftype = FTYPE_DIR then .dir else .file ftype 0 data)).opening f
          (components path))
  | notCreated {path : List (BitVec 8)} {ftype : U32} (h : ¬ A.CanMake (components path)) :
      FileStep A (.notCreated path ftype) A
  | removed {path : List (BitVec 8)} (h : A.files (components path) ≠ none) :
      FileStep A (.removed path) { A with files := A.files.cut (components path) }
  | notRemoved {path : List (BitVec 8)} (h : A.files (components path) = none) : FileStep A (.notRemoved path) A
  | got {f : Nat} {filebno : U32} {p : List (List (BitVec 8))} {type size : U32}
      {data data' : Nat → Option (Nat → BitVec 8)} (h : A.HasFile f p type size data)
      (hdata : DataGrew filebno.toNat data data') (hsome : data' filebno.toNat ≠ none) :
      FileStep A (.got f filebno) (A.putting p (.file type size data'))
  | notGot {f : Nat} {filebno : U32} {p : List (List (BitVec 8))} {type size : U32}
      {data : Nat → Option (Nat → BitVec 8)} (h : A.HasFile f p type size data)
      (hnone : data filebno.toNat = none) : FileStep A (.notGot f filebno) A
  | dirtied {f : Nat} {offset : U32} {p : List (List (BitVec 8))} {type size : U32}
      {data data' : Nat → Option (Nat → BitVec 8)} (h : A.HasFile f p type size data)
      (hdata : DataGrew (blockOf offset) data data') (hsome : data' (blockOf offset) ≠ none) :
      FileStep A (.dirtied f offset) (A.putting p (.file type size data'))
  | notDirtied {f : Nat} {offset : U32} {p : List (List (BitVec 8))} {type size : U32}
      {data : Nat → Option (Nat → BitVec 8)} (h : A.HasFile f p type size data)
      (hnone : data (blockOf offset) = none) : FileStep A (.notDirtied f offset) A
  | poked {f k off : Nat} {x : BitVec 8} {p : List (List (BitVec 8))} {type size : U32}
      {data : Nat → Option (Nat → BitVec 8)} {c : Nat → BitVec 8} (h : A.HasFile f p type size data)
      (hc : data k = some c) : FileStep A (.poked f k off x)
        (A.putting p (.file type size (Function.update data k (some (Function.update c off x)))))
  | resized {f : Nat} {newsize : Word} {p : List (List (BitVec 8))} {type size : U32}
      {data data' : Nat → Option (Nat → BitVec 8)} (h : A.HasFile f p type size data)
      (hdata : DataCut (keptSlots size newsize) data data') :
      FileStep A (.resized f newsize) (A.putting p (.file type (newsize.setWidth 32) data'))
  | closed {f : Nat} : FileStep A (.closed f) A
  | synced : FileStep A .synced A

/-! ## The file server -/

/-- The server, and the files that it has given out. -/
structure FsState where
  fs : Fs
  given : List Nat

/-- A step is what one of the operations does, or a store of a client's to a page that
    it was given. -/
inductive FsStep (σ : FsState) : FsEvent → FsState → Prop
  | opened {path : List (BitVec 8)} {f : Nat} {s' : Fs} (h : fileOpen path σ.fs = .ret f s') :
      FsStep σ (.opened path f) ⟨s', f :: σ.given⟩
  | notOpened {path : List (BitVec 8)} {e : U32} {s' : Fs} (h : fileOpen path σ.fs = .fail e s') :
      FsStep σ (.notOpened path) ⟨s', σ.given⟩
  | created {path : List (BitVec 8)} {ftype : U32} {f : Nat} {s' : Fs}
      (h : fileCreate path ftype σ.fs = .ret f s') : FsStep σ (.created path ftype f) ⟨s', f :: σ.given⟩
  | notCreated {path : List (BitVec 8)} {ftype e : U32} {s' : Fs}
      (h : fileCreate path ftype σ.fs = .fail e s') : FsStep σ (.notCreated path ftype) ⟨s', σ.given⟩
  | removed {path : List (BitVec 8)} {s' : Fs} (h : fileRemove path σ.fs = .ret () s') :
      FsStep σ (.removed path) ⟨s', σ.given⟩
  | notRemoved {path : List (BitVec 8)} {e : U32} {s' : Fs} (h : fileRemove path σ.fs = .fail e s') :
      FsStep σ (.notRemoved path) ⟨s', σ.given⟩
  | got {f blk : Nat} {filebno : U32} {s' : Fs} (h : fileGetBlock f filebno σ.fs = .ret blk s') :
      FsStep σ (.got f filebno) ⟨s', σ.given⟩
  | notGot {f : Nat} {filebno e : U32} {s' : Fs} (h : fileGetBlock f filebno σ.fs = .fail e s') :
      FsStep σ (.notGot f filebno) ⟨s', σ.given⟩
  | dirtied {f : Nat} {offset : U32} {s' : Fs} (h : fileDirty f offset σ.fs = .ret () s') :
      FsStep σ (.dirtied f offset) ⟨s', σ.given⟩
  | notDirtied {f : Nat} {offset e : U32} {s' : Fs} (h : fileDirty f offset σ.fs = .fail e s') :
      FsStep σ (.notDirtied f offset) ⟨s', σ.given⟩
  | poked {f k off : Nat} {x : BitVec 8} : FsStep σ (.poked f k off x) ⟨σ.fs.poked f k off x, σ.given⟩
  | resized {f : Nat} {newsize : Word} {s' : Fs} (h : fileSetSize f newsize σ.fs = .ret () s') :
      FsStep σ (.resized f newsize) ⟨s', σ.given⟩
  | closed {f : Nat} {s' : Fs} (h : fileClose f σ.fs = .ret () s') : FsStep σ (.closed f) ⟨s', σ.given⟩
  | synced {s' : Fs} (h : fsSync σ.fs = .ret () s') : FsStep σ .synced ⟨s', σ.given⟩

/-- File `f` was given out, and is no directory. -/
structure IsOpen (σ : FsState) (f : Nat) : Prop where
  given : f ∈ σ.given
  file : isDir σ.fs.blocks f = false

/-- What may be removed: not the root, nothing with a block that does not fit a table, and
    nothing that is open or that something open is in. -/
structure RemoveOk (σ : FsState) (N f : Nat) : Prop where
  ne_root : f ≠ rootFile
  fits : blockCount σ.fs.blocks f < NINDIRECT
  shut : ∀ g ∈ σ.given, ¬ Under (fsShape N) (fileTree σ.fs.blocks) f g

/-- The steps that keep clear of the defects. -/
def FsOk (N : Nat) (σ : FsState) : FsEvent → Prop
  | .opened path _ | .notOpened path => (0 : BitVec 8) ∉ path
  | .created path ftype _ => (0 : BitVec 8) ∉ path ∧ ∀ d name, Misses σ.fs path d name → CreateOk σ.fs N d ftype
  | .notCreated path ftype => (0 : BitVec 8) ∉ path ∧
      (∀ d name, Misses σ.fs path d name → CreateOk σ.fs N d ftype) ∧ ¬ FullParent σ.fs path
  | .removed path | .notRemoved path =>
      (0 : BitVec 8) ∉ path ∧ ∀ f, PathTo σ.fs.blocks path f → RemoveOk σ N f
  | .got f filebno | .notGot f filebno => IsOpen σ f ∧ GetOk σ.fs N f filebno.toNat
  | .dirtied f offset | .notDirtied f offset => IsOpen σ f ∧ GetOk σ.fs N f (blockOf offset)
  | .poked f k off _ => IsOpen σ f ∧ blockNo σ.fs.blocks f k ≠ 0 ∧
      σ.fs.mapped (blockPage (blockNo σ.fs.blocks f k)) = true ∧ off < BY2BLK
  | .resized f _ => IsOpen σ f ∧ blockCount σ.fs.blocks f < NINDIRECT
  | .closed f => f ∈ σ.given ∧ blockCount σ.fs.blocks f < NINDIRECT
  | .synced => True

/-! ## The file server serves the abstract one -/

/-- `A` is what the clients of the file server see. -/
structure Serves (N : Nat) (σ : FsState) (A : FileServer) : Prop where
  ok : StoreOk σ.fs N
  files : A.files = pathView σ.fs.blocks
  opens : ∀ f, f ∈ σ.given → ∃ p, A.opens f = some p ∧ OpenAt σ.fs N p f

variable {σ σ' : FsState} {A A' : FileServer} {type size : U32}

section Serves

variable (h : Serves N σ A)

include h

theorem Serves.view : ViewOf σ.fs.blocks N A.files := by
  rw [h.files]
  exact h.ok.shows

/-- Nothing has changed that can be seen. -/
theorem Serves.same (hs : SameView N σ.fs s') : Serves N ⟨s', σ.given⟩ A where
  ok := hs.ok
  files := hs.ok.view_eq (hs.view h.view)
  opens f hf := by
    obtain ⟨p, hp, ho⟩ := h.opens f hf
    exact ⟨p, hp, hs.openAt ho⟩

/-- One file has changed. -/
theorem Serves.put (ho : OpenAt σ.fs N p f) (hb : ViewBut N σ.fs s' (· = f)) {nd : Node}
    (hnode : nodeAt s'.blocks f = nd) : Serves N ⟨s', σ.given⟩ (A.putting p nd) where
  ok := hb.ok
  files := by
    have hv := hb.view h.ok ho.path h.view
    rw [hnode] at hv
    exact hb.ok.view_eq hv
  opens g hg := by
    obtain ⟨q, hq, hog⟩ := h.opens g hg
    exact ⟨q, hq, hb.openAt hog⟩

/-- A file is given out. -/
theorem Serves.opening (ho : OpenAt σ.fs N p f) : Serves N ⟨σ.fs, f :: σ.given⟩ (A.opening f p) where
  ok := h.ok
  files := h.files
  opens g hg := by
    by_cases hgf : g = f
    · rw [hgf]
      exact ⟨p, A.opening_self f p, ho⟩
    · obtain ⟨q, hq, hog⟩ := h.opens g ((List.mem_cons.mp hg).resolve_left hgf)
      exact ⟨q, (A.opening_other p hgf).trans hq, hog⟩

/-- An open file that is no directory, as it is seen. -/
theorem Serves.hasFile (ho : IsOpen σ f) : ∃ p, OpenAt σ.fs N p f ∧
    A.HasFile f p (σ.fs.blocks.ld32 (fType f)) (σ.fs.blocks.ld32 (fSize f)) (fileData σ.fs.blocks f) := by
  obtain ⟨p, hp, hat⟩ := h.opens f ho.given
  refine ⟨p, hat, hp, ?_⟩
  rw [h.view.at_path hat.path, nodeAt_file ho.file]

/-- What the failure of `file_create` tells. -/
theorem Serves.not_canMake (h0 : (0 : BitVec 8) ∉ path) (hno : ∀ d name, ¬ Misses σ.fs path d name) :
    ¬ A.CanMake (components path) := by
  rintro ⟨hnone, p, name, hcomp, hfits, hdir⟩
  have hproper : ∀ n ∈ components path, ProperName n := fun _ hmem => components_proper h0 hmem
  obtain ⟨d, hd, hnode⟩ := (h.view p .dir).mp hdir
  have hisdir : isDir σ.fs.blocks d = true := by
    by_contra hfile
    rw [nodeAt_file (Bool.eq_false_iff.mpr hfile)] at hnode
    cases hnode
  have hpre : (dirTree σ.fs.blocks).descend rootFile p = some d := by
    refine (h.ok.path_iff fun n hn => hproper n ?_).mpr hd
    rw [hcomp]
    exact List.mem_append_left _ hn
  have hchild : lookupEntry σ.fs.blocks d name = none := by
    cases hlook : lookupEntry σ.fs.blocks d name with
    | none => rfl
    | some e =>
        have hname : ProperName name := hproper name (by rw [hcomp]; simp)
        have hstep : (dirTree σ.fs.blocks).step d name = some e :=
          NameSpace.step_eq_some.mpr ⟨decide_eq_true hfits, hisdir, hlook⟩
        have hpath : PathIn σ.fs.blocks N (components path) e := by
          rw [hcomp]
          exact .child hd ((h.ok.step_iff (PathIn.live hd) hname).mp hstep)
        exact absurd hpath (h.view.eq_none.mp hnone e)
  apply hno d name
  rw [Misses, hcomp]
  exact NameSpace.resolve_missing hpre (decide_eq_true hfits) hisdir hchild

end Serves

/-! ### The steps -/

section Step

variable (h : Serves N σ A)

include h

/-- A path that leads to a file is one that is seen. -/
theorem Serves.found (h0 : (0 : BitVec 8) ∉ path) (ho : PathFound N σ.fs s' path f) :
    A.files (components path) ≠ none := by
  rw [h.view.at_path (ho.pathIn h.ok h0)]
  exact Option.some_ne_none _

theorem Serves.lost (h0 : (0 : BitVec 8) ∉ path) (hno : PathLost N σ.fs s' path) :
    A.files (components path) = none :=
  hno.none h.ok h0 h.view

theorem serves_gotBlock (ho : IsOpen σ f) (hg : GotBlock N σ.fs s' f k) : ∃ p type size data,
    A.HasFile f p type size data ∧ DataGrew k data (fileData s'.blocks f) ∧ fileData s'.blocks f k ≠ none ∧
      Serves N ⟨s', σ.given⟩ (A.putting p (.file type size (fileData s'.blocks f))) := by
  obtain ⟨p, hat, hfile⟩ := h.hasFile ho
  exact ⟨p, _, _, _, hfile, hg.pointed.dataGrew h.ok hat.live ho.file, fun hn => hg.some (fileData_none.mp hn),
    h.put hat (hg.pointed.viewBut h.ok hat.live ho.file) (hg.pointed.node ho.file)⟩

theorem serves_noBlock (ho : IsOpen σ f) (hno : NoBlock N σ.fs s' f k) : ∃ p type size data,
    A.HasFile f p type size data ∧ data k = none ∧ Serves N ⟨s', σ.given⟩ A := by
  obtain ⟨p, hat, hfile⟩ := h.hasFile ho
  exact ⟨p, _, _, _, hfile, fileData_none.mpr hno.none, h.same (hno.sameView h.ok hat.live ho.file)⟩

/-- One step of the file server is one of the abstract file server. -/
theorem serves_step {ev : FsEvent} (hok : FsOk N σ ev) (hstep : FsStep σ ev σ') :
    ∃ A', FileStep A ev A' ∧ Serves N σ' A' := by
  have htree := h.ok.tree
  cases hstep with
  | @opened path f s' hrun =>
      have ho := (fileOpen_tree htree hok).ret_of hrun
      have hsame := h.same (ho.sameView h.ok)
      exact ⟨_, .opened (h.found hok ho), hsame.opening (ho.openAt h.ok hok)⟩
  | notOpened hrun =>
      have hno := (fileOpen_tree htree hok).fail_of hrun
      exact ⟨A, .notOpened (h.lost hok hno), h.same (hno.climbed.sameView h.ok hno.looked)⟩
  | @created path ftype f s' hrun =>
      obtain ⟨h0, hcreate⟩ := hok
      obtain ⟨d, name, s₁, s₂, hc⟩ := (fileCreate_tree htree h0 hcreate).ret_of hrun
      have hnew := hc.newFile h.ok h0 h.view
      obtain ⟨p, last, hp, hdir⟩ := hnew.parent
      refine ⟨_, @FileStep.created A path ftype f p last (fileData s'.blocks f) hp hdir hnew.none, ?_⟩
      have hput : Serves N ⟨s', σ.given⟩ (A.putting (components path)
          (if ftype = FTYPE_DIR then .dir else .file ftype 0 (fileData s'.blocks f))) := by
        refine ⟨hnew.ok, hnew.ok.view_eq ?_, fun g hg => ?_⟩
        · have hv := hnew.view
          rwa [hnew.node] at hv
        · obtain ⟨q, hq, hog⟩ := h.opens g hg
          exact ⟨q, hq, hnew.others hog⟩
      exact hput.opening hnew.openAt
  | notCreated hrun =>
      obtain ⟨h0, hcreate, hroom⟩ := hok
      have hno := ((fileCreate_tree htree h0 hcreate).fail_of hrun).resolve_right hroom
      exact ⟨A, .notCreated (h.not_canMake h0 hno.no), h.same (hno.climbed.sameView h.ok hno.looked)⟩
  | @removed path s' hrun =>
      obtain ⟨h0, hremove⟩ := hok
      obtain ⟨f, s₁, ho, hr⟩ := (fileRemove_tree htree h0 fun f hf =>
        ⟨(hremove f hf).ne_root, (hremove f hf).fits⟩).ret_of hrun
      have hrm := hremove f ho.leads
      have hgone := hr.gone h.ok h0 h.view ho hrm.ne_root
      refine ⟨_, .removed (h.found h0 ho), hgone.ok, hgone.ok.view_eq hgone.view, fun g hg => ?_⟩
      obtain ⟨q, hq, hog⟩ := h.opens g hg
      exact ⟨q, hq, hgone.others hog fun hpre => hrm.shut g hg (under_of_longer h.ok hgone.path hog.path hpre)⟩
  | notRemoved hrun =>
      obtain ⟨h0, hremove⟩ := hok
      have hno := (fileRemove_tree htree h0 fun f hf =>
        ⟨(hremove f hf).ne_root, (hremove f hf).fits⟩).fail_of hrun
      exact ⟨A, .notRemoved (h.lost h0 hno), h.same (hno.climbed.sameView h.ok hno.looked)⟩
  | got hrun =>
      obtain ⟨ho, hget⟩ := hok
      obtain ⟨p, hat, -⟩ := h.hasFile ho
      have hg := ((fileGetBlock_tree htree hat.live ho.file hat.cached hget).ret_of hrun).1
      obtain ⟨p, type, size, data, hfile, hdata, hsome, hserves⟩ := serves_gotBlock h ho hg
      exact ⟨_, .got hfile hdata hsome, hserves⟩
  | notGot hrun =>
      obtain ⟨ho, hget⟩ := hok
      obtain ⟨p, hat, -⟩ := h.hasFile ho
      have hno := (fileGetBlock_tree htree hat.live ho.file hat.cached hget).fail_of hrun
      obtain ⟨p, type, size, data, hfile, hnone, hserves⟩ := serves_noBlock h ho hno
      exact ⟨A, .notGot hfile hnone, hserves⟩
  | dirtied hrun =>
      obtain ⟨ho, hget⟩ := hok
      obtain ⟨p, hat, -⟩ := h.hasFile ho
      have hg := (fileDirty_tree htree hat.live ho.file hat.cached hget).ret_of hrun
      obtain ⟨p, type, size, data, hfile, hdata, hsome, hserves⟩ := serves_gotBlock h ho hg
      exact ⟨_, .dirtied hfile hdata hsome, hserves⟩
  | notDirtied hrun =>
      obtain ⟨ho, hget⟩ := hok
      obtain ⟨p, hat, -⟩ := h.hasFile ho
      have hno := (fileDirty_tree htree hat.live ho.file hat.cached hget).fail_of hrun
      obtain ⟨p, type, size, data, hfile, hnone, hserves⟩ := serves_noBlock h ho hno
      exact ⟨A, .notDirtied hfile hnone, hserves⟩
  | poked =>
      obtain ⟨ho, h0, hm, hoff⟩ := hok
      obtain ⟨p, hat, hfile⟩ := h.hasFile ho
      obtain ⟨c, hc, hnode⟩ := poked_node h.ok hat.live ho.file h0 hm hoff
      exact ⟨_, .poked hfile hc, h.put hat (poked_viewBut h.ok hat.live ho.file h0 hm hoff) hnode⟩
  | resized hrun =>
      obtain ⟨ho, hfits⟩ := hok
      obtain ⟨p, hat, hfile⟩ := h.hasFile ho
      obtain ⟨hedit, hsize, hkept⟩ := (fileSetSize_tree htree (hat.held htree) ho.file hfits).ret_of hrun
      exact ⟨_, .resized hfile (hedit.dataCut h.ok hat.live ho.file hkept),
        h.put hat (hedit.viewBut h.ok hat.live ho.file) (hedit.node ho.file hsize)⟩
  | @closed f s' hrun =>
      obtain ⟨hgiven, hfits⟩ := hok
      obtain ⟨p, -, hat⟩ := h.opens f hgiven
      have hw := ((fileClose_tree htree (hat.held htree) hfits).ret_of hrun).1
      exact ⟨A, .closed, h.same (hw.sameView h.ok)⟩
  | synced hrun =>
      have hw := ((fsSync_ends htree.mounted).ret_of hrun).1
      exact ⟨A, .synced, h.same (hw.sameView h.ok)⟩

end Step

/-- Every run of the file server whose steps keep clear of the defects is a run of the
    abstract one. -/
theorem serves_run {tr : List FsEvent} (h : Serves N σ A) (hrun : Run (restrict FsStep (FsOk N)) σ tr σ') :
    ∃ A', Run FileStep A tr A' ∧ Serves N σ' A' := by
  have hsim := hrun.simulation (R := fun σ A => Serves N σ A) id
    (fun _ _ _ _ hs hstep => serves_step hs hstep.2 hstep.1) h
  rwa [List.map_id] at hsim

/-- A mounted server that has given nothing out. -/
theorem StoreOk.serves (h : StoreOk s N) : Serves N ⟨s, []⟩ ⟨pathView s.blocks, fun _ => none⟩ :=
  ⟨h, rfl, fun _ hf => absurd hf List.not_mem_nil⟩

end RpiMos
