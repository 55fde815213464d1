/-
  RpiMos.Fs.FsOps

  The operations of the file server on the map from paths to files, with files that
  clients have open: opening, creating and removing by path, and blocks, size and
  closing by the address of an open file.
-/

import RpiMos.Fs.ViewEdits

namespace RpiMos

open Lib Prog BlockTree

variable {s s' s₁ s₂ : Fs} {N d e f g b k j : Nat} {m m' : ByteMem} {name path : List (BitVec 8)}
  {names p q : List (List (BitVec 8))} {ftype : U32} {F : Nat → Prop} {v : FileMap}

/-! ## Open files -/

/-- File `f` at path `p` is open: it is in the cache, with the block of its directory's
    entry. -/
structure OpenAt (s : Fs) (N : Nat) (p : List (List (BitVec 8))) (f : Nat) : Prop where
  path : PathIn s.blocks N p f
  cached : Cached s f
  dir : f = rootFile ∨ ∃ d, EntryIn s.blocks N d f ∧ Cached s d

theorem OpenAt.live (h : OpenAt s N p f) : LiveIn s.blocks N f := PathIn.live h.path

theorem OpenAt.held (h : OpenAt s N p f) (htree : TreeOk s N) : Held s N f :=
  Reached.held htree ⟨h.live, h.cached, h.dir⟩

theorem Reached.openAt (h : Reached s N f) (hp : PathIn s.blocks N p f) : OpenAt s N p f :=
  ⟨hp, h.cached, h.dir⟩

theorem OpenAt.keep (h : OpenAt s N p f) (hst : Steady s s') (hp : PathIn s'.blocks N p f)
    (hent : ∀ d, EntryIn s.blocks N d f → EntryIn s'.blocks N d f) : OpenAt s' N p f where
  path := hp
  cached := h.cached.steady hst
  dir := h.dir.imp id fun ⟨d, he, hc⟩ => ⟨d, hent d he, hc.steady hst⟩

theorem ViewBut.openAt (h : ViewBut N s s' F) (ho : OpenAt s N p f) : OpenAt s' N p f :=
  ho.keep h.steady (h.path_iff.mpr ho.path) fun _ => h.entry

/-! ## Paths that are opened -/

section Path

variable (h : StoreOk s N) (h0 : (0 : BitVec 8) ∉ path)

include h

theorem PathFound.sameView (ho : PathFound N s s' path f) : SameView N s s' := ho.climbed.sameView h ho.looked

include h0

theorem PathFound.pathIn (ho : PathFound N s s' path f) : PathIn s.blocks N (components path) f :=
  (h.pathTo_iff h0).mp ho.leads

theorem PathFound.openAt (ho : PathFound N s s' path f) : OpenAt s' N (components path) f :=
  ho.reached.openAt ((ho.sameView h).path_iff.mpr (ho.pathIn h h0))

theorem PathLost.none (hv : ViewOf s.blocks N v) (hno : PathLost N s s' path) : v (components path) = none :=
  hv.eq_none.mpr fun f hf => hno.no f ((h.pathTo_iff h0).mpr hf)

end Path

/-! ## A new file -/

/-- What `file_create` leaves behind. -/
structure NewFile (N : Nat) (s s' : Fs) (names : List (List (BitVec 8))) (ftype : U32) (f : Nat) (v : FileMap) :
    Prop where
  ok : StoreOk s' N
  parent : ∃ p name, names = p ++ [name] ∧ v p = some .dir
  none : v names = none
  openAt : OpenAt s' N names f
  others : ∀ {p g}, OpenAt s N p g → OpenAt s' N p g
  view : ViewOf s'.blocks N (v.put names (nodeAt s'.blocks f))
  node : nodeAt s'.blocks f = if ftype = FTYPE_DIR then .dir else .file ftype 0 (fileData s'.blocks f)

theorem Created.newFile (h : StoreOk s N) (h0 : (0 : BitVec 8) ∉ path) (hv : ViewOf s.blocks N v)
    (hc : Created N s s' path ftype f d name s₁ s₂) : NewFile N s s' (components path) ftype f v := by
  obtain ⟨pre, hcomp, hpre, hfits, hisdir, hnone⟩ := NameSpace.of_missing hc.misses
  have hdir : isDir s.blocks d = true := hisdir
  have hproper : ∀ n ∈ components path, ProperName n := fun _ hmem => components_proper h0 hmem
  have hpin : PathIn s.blocks N pre d := by
    refine (h.path_iff fun n hn => hproper n ?_).mp hpre
    rw [hcomp]
    exact List.mem_append_left _ hn
  have hname : ProperName name := hproper name (by rw [hcomp]; simp)
  have hlen : name.length < MAXNAMELEN := of_decide_eq_true hfits
  have hno : ∀ c, ¬ ChildIn s.blocks N d name c := by
    intro c hchild
    have hstep := (h.step_iff (PathIn.live hpin) hname).mpr hchild
    have hsome := (NameSpace.step_eq_some.mp hstep).2.2
    rw [hnone] at hsome
    cases hsome
  -- Until the entry is named nothing can be seen.
  have hwalk := hc.climbed.sameView h hc.looked
  have hd₁ : LiveIn s₁.blocks N d := PathIn.live (hwalk.path_iff.mpr hpin)
  have hvacant : SameView N s s₂ := by
    rcases hc.vacant.grown with heq | ⟨b, -, hg⟩
    · have hsame : SameView N s₁ s₂ := by
        refine ⟨⟨hc.vacant.tree, heq ▸ hwalk.ok.names, heq ▸ hwalk.ok.magic⟩, hc.vacant.moved.steady, ?_, ?_, ?_⟩
        · rw [heq]
        · rw [heq]
          exact fun he => he
        · rw [heq]
          exact fun _ _ => rfl
      exact hwalk.trans hsame hc.climbed.ups.live.mpr
    · have hdir₁ : isDir s₁.blocks d = true := (hc.climbed.ups.same d (PathIn.live hpin).known).isDir.mpr hdir
      exact hwalk.trans (hg.sameView hwalk.ok hd₁ hdir₁) hc.climbed.ups.live.mpr
  have hno₂ : ∀ c, ¬ ChildIn s₂.blocks N d name c := fun c hchild => hno c (hvacant.child.mp hchild)
  have he := hc.vacant.entry
  have hfree := hc.vacant.free
  have hpin₂ := hvacant.path_iff.mpr hpin
  have hok := hc.made.storeOk hvacant.ok he hfree hlen hname hno₂
  have hpath : ∀ {ns g}, PathIn s'.blocks N ns g ↔ _ :=
    fun {ns g} => hc.made.path_iff hvacant.ok he hfree hlen hname hpin₂
  refine ⟨hok, ⟨pre, name, hcomp, ?_⟩, ?_, hc.reached.openAt ?_, fun {p g} ho => ?_, ?_, hc.made.fresh⟩
  · rw [hv.at_path hpin, nodeAt, if_pos hdir]
  · refine hv.eq_none.mpr fun c hpc => ?_
    rw [hcomp] at hpc
    obtain ⟨d', hd', hchild⟩ := hpc.of_snoc
    rw [h.isTree.node hd' hpin] at hchild
    exact hno c hchild
  · exact hpath.mpr (Or.inr ⟨hcomp, rfl⟩)
  · have ho₂ := hvacant.openAt ho
    exact ho₂.keep hc.made.moved.steady (hpath.mpr (Or.inl ho₂.path)) fun d hent =>
      (hc.made.entry_iff hvacant.ok he hfree).mpr hent
  · rw [hcomp]
    exact hc.made.view hvacant.ok he hfree hlen hname hpin₂ hno₂ (hvacant.view hv)

/-! ## A file that is removed -/

/-- A path that goes on from that of a file leads to what is under the file. -/
theorem under_of_longer (h : StoreOk s N) (hp : PathIn s.blocks N p f) (hq : PathIn s.blocks N q g)
    (hpre : p <+: q) : Under (fsShape N) (fileTree s.blocks) f g := by
  induction hq with
  | root =>
      rw [List.prefix_nil] at hpre
      rw [hpre] at hp
      rw [hp.of_nil]
      exact .refl
  | child hd hc ih =>
      rcases List.prefix_concat_iff.mp hpre with heq | hin
      · rw [heq] at hp
        rw [h.isTree.node hp (.child hd hc)]
        exact .refl
      · exact .entry (ih hin) hc.entry

/-- What `file_remove` leaves behind. -/
structure Gone (N : Nat) (s s' : Fs) (p : List (List (BitVec 8))) (f : Nat) (v : FileMap) : Prop where
  ok : StoreOk s' N
  path : PathIn s.blocks N p f
  others : ∀ {q g}, OpenAt s N q g → ¬ p <+: q → OpenAt s' N q g
  view : ViewOf s'.blocks N (v.cut p)

theorem FileRemoved.gone (h : StoreOk s N) (h0 : (0 : BitVec 8) ∉ path) (hv : ViewOf s.blocks N v)
    (ho : PathFound N s s₁ path f) (hne : f ≠ rootFile) (hr : FileRemoved N s₁ s' f) :
    Gone N s s' (components path) f v := by
  have hsame := ho.sameView h
  have hp := (ho.openAt h h0).path
  obtain ⟨d, hent⟩ := ho.reached.live.known.resolve_left hne
  refine ⟨hr.emptied.storeOk hsame.ok hent hr.tree, ho.pathIn h h0, fun {q g} hog hpre => ?_,
    hr.emptied.view hsame.ok hent hp (hsame.view hv)⟩
  have hog₁ := hsame.openAt hog
  have hq := (hr.emptied.path_iff hsame.ok hent hp).mpr ⟨hog₁.path, hpre⟩
  refine hog₁.keep hr.steady hq fun d' he => ?_
  -- The directory is still there, since the path goes through it.
  cases hq with
  | root => exact absurd rfl (hsame.ok.tree.wf.entry_ne_root he)
  | child hd hc =>
      have hold := hr.emptied.entry_old hsame.ok hent hc.entry
      rw [hsame.ok.tree.wf.entry_unique he hold]
      exact hc.entry

/-! ## Blocks and size of an open file -/

theorem nodeAt_file (hdir : isDir m f = false) : nodeAt m f = .file (m.ld32 (fType f)) (m.ld32 (fSize f)) (fileData m f) := by
  rw [nodeAt, hdir]
  exact if_neg Bool.false_ne_true

section File

variable (h : StoreOk s N) (hf : LiveIn s.blocks N f) (hdir : isDir s.blocks f = false)

include h hf hdir

theorem Pointed.viewBut (hp : Pointed N s s' f k) : ViewBut N s s' (· = f) :=
  fileEdit_viewBut h (h.tree.pointed hf hdir hp) hp.moved.steady hf hdir hp.within hp.fields.headSame

omit h hf in
theorem Pointed.node (hp : Pointed N s s' f k) :
    nodeAt s'.blocks f = .file (s.blocks.ld32 (fType f)) (s.blocks.ld32 (fSize f)) (fileData s'.blocks f) := by
  have htype := hp.fields.headSame.type.ld32
  have hsize := (hp.fields.head.mono (b := fSize f) (k := 4) (by rw [fSize]; omega) (by rw [fSize]; omega)).ld32
  have hdir' : isDir s'.blocks f = false := by rw [hp.fields.headSame.isDir, hdir]
  rw [nodeAt_file hdir', htype, hsize]

theorem NoBlock.sameView (hno : NoBlock N s s' f k) : SameView N s s' := by
  have hbut := (hno.pointed 0).viewBut h hf hdir
  refine ⟨hbut.ok, hbut.steady, hbut.child, hbut.entry, fun {g} hg _ => ?_⟩
  by_cases hgf : g = f
  · rw [hgf, (hno.pointed 0).node hdir, nodeAt_file hdir]
    congr 1
    funext j
    exact fileEdit_data h hf hdir (hno.pointed (j + 1)).within ((hno.pointed (j + 1)).slots j (Nat.ne_of_lt (Nat.lt_succ_self j)))
  · exact hbut.node hg hgf

theorem FileEdited.viewBut (he : FileEdited N s s' f) : ViewBut N s s' (· = f) :=
  fileEdit_viewBut h he.tree he.steady hf hdir he.within he.head

omit h hf in
theorem FileEdited.node (he : FileEdited N s s' f) {size : U32} (hsize : s'.blocks.ld32 (fSize f) = size) :
    nodeAt s'.blocks f = .file (s.blocks.ld32 (fType f)) size (fileData s'.blocks f) := by
  have hdir' : isDir s'.blocks f = false := by rw [he.head.isDir, hdir]
  rw [nodeAt_file hdir', he.head.type.ld32, hsize]

end File

/-! ## A client's store to a page that it was given -/

/-- Byte `off` of block `k` of file `f` is set to `v`, through a mapping of the page. -/
def Fs.poked (s : Fs) (f k off : Nat) (v : BitVec 8) : Fs :=
  { s with mem := s.mem.st8 (blockAddr (blockNo s.blocks f k) + off) v }

section Poked

variable {off : Nat} {x : BitVec 8} (h : StoreOk s N) (hf : LiveIn s.blocks N f) (hdir : isDir s.blocks f = false)
  (h0 : blockNo s.blocks f k ≠ 0) (hm : s.mapped (blockPage (blockNo s.blocks f k)) = true) (hoff : off < BY2BLK)

include hm hoff in
theorem poked_became : Became s (s.poked f k off x)
    (s.blocks.st8 (blockAddr (blockNo s.blocks f k) + off) x) := by
  rw [BY2BLK] at hoff
  have hmap : s.MappedOn (blockAddr (blockNo s.blocks f k) + off) 1 := mappedOn_block hm (by omega) (by omega)
  refine became_store (g := fun m => m.st8 (blockAddr (blockNo s.blocks f k) + off) x) hmap
    (fun m m' y hlo hhi => ?_) fun m y hy => ?_
  · simp only [ByteMem.st8, if_pos (show y = blockAddr (blockNo s.blocks f k) + off by omega)]
  · simp only [ByteMem.st8, if_neg (show ¬ y = blockAddr (blockNo s.blocks f k) + off by omega)]

include hm hoff in
theorem poked_out {a n : Nat} (hno : ∀ y, a ≤ y → y < a + n → y ≠ blockAddr (blockNo s.blocks f k) + off) :
    ByteMem.Same s.blocks (s.poked f k off x).blocks a n := by
  intro y hlo hhi
  by_contra hy
  rw [(poked_became hm hoff).blocks] at hy
  exact hno y hlo hhi (st8_ne hy)

include h hf hdir h0 hm hoff

omit hm in
/-- Nothing but data is where the data of a file is. -/
theorem poked_footprint (hg : KnownIn s.blocks N g) :
    ¬ Footprint s.blocks N g (blockAddr (blockNo s.blocks f k) + off) :=
  Footprint.not_data h.tree.wf hg hf hdir h0 ⟨Nat.le_add_right _ _, Nat.add_lt_add_left hoff _⟩

theorem poked_head (hg : KnownIn s.blocks N g) : ByteMem.Same s.blocks (s.poked f k off x).blocks g BY2FILE :=
  poked_out hm hoff fun _ hlo hhi hya => poked_footprint h hf hdir h0 hoff hg (.file (hya ▸ hlo) (hya ▸ hhi))

theorem poked_same (hg : KnownIn s.blocks N g) :
    FileSame (fileTree s.blocks) (fileTree (s.poked f k off x).blocks) g := by
  refine fileSame_of ((poked_head h hf hdir h0 hm hoff hg).mono (le_refl g) (by rw [BY2FILE]; omega)) fun ht =>
    poked_out hm hoff fun y hlo hhi hya => poked_footprint h hf hdir h0 hoff hg (.table ht ?_)
  rw [← hya]
  exact ⟨hlo, hhi⟩

/-- Other blocks of data. -/
theorem poked_data (hg : LiveIn s.blocks N g) (hne : ¬ (g = f ∧ j = k)) :
    fileData (s.poked f k off x).blocks g j = fileData s.blocks g j := by
  refine fileData_same ((poked_same h hf hdir h0 hm hoff hg.known).slot j) fun hj0 =>
    poked_out hm hoff fun y hlo hhi hya => hne ?_
  -- No other slot names the block.
  rw [hya] at hlo hhi
  have heq : blockNo s.blocks g j = blockNo s.blocks f k :=
    InBlock.unique ⟨hlo, hhi⟩ ⟨Nat.le_add_right _ _, Nat.add_lt_add_left hoff _⟩
  have hptr : Ptr.slot g j = .slot f k := h.tree.wf.ptrs.inj _ _ hg.known hf.known hj0 heq
  cases hptr
  exact ⟨rfl, rfl⟩

theorem poked_viewBut : ViewBut N s (s.poked f k off x) (· = f) := by
  have hb := poked_became (x := x) hm hoff
  have hwf := h.tree.wf
  have hbits : ∀ b, b < N → freeBit (s.poked f k off x).blocks b = freeBit s.blocks b := fun b hb =>
    freeBit_same (poked_out hm hoff fun y hlo hhi hya => poked_footprint h hf hdir h0 hoff (Or.inl rfl) (by
      rw [← hya]
      exact .bitmap (bitWord_inBitmap hb hlo hhi)))
  have hups : UpEdit (fsShape N) (fileTree s.blocks) (fileTree (s.poked f k off x).blocks) :=
    .of_same (fun _ hg => poked_same h hf hdir h0 hm hoff hg) fun b hb => by
      show freeBit (s.poked f k off x).blocks b = false ↔ freeBit s.blocks b = false
      rw [hbits b hb]
  have hsuper : ByteMem.Same s.blocks (s.poked f k off x).blocks (blockAddr 1) 8 := by
    have hlo := (hwf.slotBlock hf.known h0).lo
    rw [firstData_eq] at hlo
    refine poked_out hm hoff fun y hlo' hhi' hya => ?_
    rw [blockAddr_eq] at hlo' hhi' hya
    omega
  have hmount : Mounted (s.poked f k off x) N := by
    refine h.tree.mounted.became hb ?_
    rw [← hb.blocks]
    exact hsuper.mono (by omega) (by omega)
  refine EntriesSame.viewBut ⟨hups.entry, fun he => (poked_head h hf hdir h0 hm hoff he.known).mono (le_refl _)
    (by rw [MAXNAMELEN, BY2FILE]; omega)⟩ h ⟨hmount, Wf.upEdit hwf hups⟩ hb.steady hsuper fun {g} hg hgf => ?_
  exact nodeAt_same ((poked_head h hf hdir h0 hm hoff hg.known).mono (by rw [fSize]; omega)
    (by rw [fSize, BY2FILE]; omega)) fun _ j => poked_data h hf hdir h0 hm hoff hg fun hboth => hgf hboth.1

theorem poked_node : ∃ c, fileData s.blocks f k = some c ∧ nodeAt (s.poked f k off x).blocks f =
    .file (s.blocks.ld32 (fType f)) (s.blocks.ld32 (fSize f))
      (Function.update (fileData s.blocks f) k (some (Function.update c off x))) := by
  have hb := poked_became (x := x) hm hoff
  have hhead := poked_head (x := x) h hf hdir h0 hm hoff hf.known
  have htype := (hhead.mono (b := fType f) (k := 4) (by rw [fType]; omega) (by rw [fType, BY2FILE]; omega)).ld32
  have hsize := (hhead.mono (b := fSize f) (k := 4) (by rw [fSize]; omega) (by rw [fSize, BY2FILE]; omega)).ld32
  have hdir' : isDir (s.poked f k off x).blocks f = false := by
    rw [isDir, htype]
    exact hdir
  have hno : blockNo (s.poked f k off x).blocks f k = blockNo s.blocks f k :=
    (poked_same h hf hdir h0 hm hoff hf.known).slot k
  refine ⟨_, if_neg h0, ?_⟩
  rw [nodeAt_file hdir', htype, hsize]
  congr 1
  funext j
  by_cases hjk : j = k
  · subst hjk
    rw [Function.update_self, fileData, hno, if_neg h0]
    congr 1
    funext y
    by_cases hy : y = off
    · rw [hy, if_pos hoff, Function.update_self, hb.blocks, ByteMem.st8, if_pos rfl]
    · rw [Function.update_of_ne hy]
      by_cases hyb : y < BY2BLK
      · rw [if_pos hyb, if_pos hyb, hb.blocks, ByteMem.st8, if_neg (by omega)]
      · rw [if_neg hyb, if_neg hyb]
  · rw [Function.update_of_ne hjk]
    exact poked_data h hf hdir h0 hm hoff hf fun hboth => hjk hboth.2

end Poked

end RpiMos
