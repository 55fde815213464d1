/-
  RpiMos.Fs.ViewEdits

  What the operations on files do to the map from paths to files: a walk and writing
  blocks out do nothing, the block map and the size of a file change that file, a new
  file is a new leaf, and a file that is removed takes with it what was in it.
-/

import RpiMos.Fs.FileView

namespace RpiMos

open Lib Prog BlockTree

variable {s s' s₁ s₂ : Fs} {N d e f g b k j : Nat} {m m' : ByteMem} {name path : List (BitVec 8)}
  {names p : List (List (BitVec 8))} {ftype : U32} {F : Nat → Prop} {v : FileMap}

/-- From `s` to `s'` the paths stay what they are, and so do the files but those in `F`. -/
structure ViewBut (N : Nat) (s s' : Fs) (F : Nat → Prop) : Prop where
  ok : StoreOk s' N
  steady : Steady s s'
  child : ∀ {d name e}, ChildIn s'.blocks N d name e ↔ ChildIn s.blocks N d name e
  entry : ∀ {d e}, EntryIn s.blocks N d e → EntryIn s'.blocks N d e
  node : ∀ {f}, LiveIn s.blocks N f → ¬ F f → nodeAt s'.blocks f = nodeAt s.blocks f

/-- Nothing is different that can be seen. -/
abbrev SameView (N : Nat) (s s' : Fs) : Prop := ViewBut N s s' fun _ => False

section ViewBut

variable (h : ViewBut N s s' F)

include h

theorem ViewBut.path_iff : PathIn s'.blocks N names f ↔ PathIn s.blocks N names f :=
  descent_congr fun _ _ _ _ _ => h.child

theorem ViewBut.trans (h' : ViewBut N s' s₂ F) (hlive : ∀ {f}, LiveIn s.blocks N f → LiveIn s'.blocks N f) :
    ViewBut N s s₂ F where
  ok := h'.ok
  steady := h.steady.trans _ _ _ h'.steady
  child := h'.child.trans h.child
  entry he := h'.entry (h.entry he)
  node hf hF := (h'.node (hlive hf) hF).trans (h.node hf hF)

end ViewBut

theorem SameView.view (h : SameView N s s') (hv : ViewOf s.blocks N v) : ViewOf s'.blocks N v :=
  hv.congr (fun _ _ => h.path_iff) fun _ _ hf => h.node (PathIn.live hf) id

/-- One file is seen to have changed. -/
theorem ViewBut.view (h : ViewBut N s s' (· = f)) (hs : StoreOk s N) (hf : PathIn s.blocks N p f)
    (hv : ViewOf s.blocks N v) : ViewOf s'.blocks N (v.put p (nodeAt s'.blocks f)) :=
  hv.put hs.isTree hf (fun _ _ => h.path_iff) fun _ _ hg hne => h.node (PathIn.live hg) hne

theorem EntriesSame.live_iff (h : EntriesSame m m' N) : LiveIn m' N f ↔ LiveIn m N f := by
  have hbyte : ∀ {d e}, EntryIn m N d e → m' e = m e := fun he => first_same (h.name he)
  constructor
  · intro hf
    rcases hf.known with hroot | ⟨d, he⟩
    · rw [hroot]
      exact .root
    · have he₀ := h.entry.mp he
      by_cases hr : f = rootFile
      · rw [hr]
        exact .root
      · have hname : m' f ≠ 0 := hf.named_or_root.resolve_right hr
        rw [hbyte he₀] at hname
        exact he₀.live hname
  · intro hf
    rcases hf.known with hroot | ⟨d, he⟩
    · rw [hroot]
      exact .root
    · by_cases hr : f = rootFile
      · rw [hr]
        exact .root
      · have hname : m f ≠ 0 := hf.named_or_root.resolve_right hr
        rw [← hbyte he] at hname
        exact (h.entry.mpr he).live hname

/-- The super block is as it was. -/
theorem StoreOk.magic_same (h : StoreOk s N) (hsame : ByteMem.Same s.blocks s'.blocks (blockAddr 1) 8) :
    s'.blocks.ld32 (blockAddr 1) = FS_MAGIC := by
  rw [(hsame.mono (b := blockAddr 1) (k := 4) (le_refl _) (by omega)).ld32, h.magic]

theorem EntriesSame.viewBut (h : EntriesSame s.blocks s'.blocks N) (hs : StoreOk s N) (htree : TreeOk s' N)
    (hst : Steady s s') (hsuper : ByteMem.Same s.blocks s'.blocks (blockAddr 1) 8) (hnode : ∀ {f}, LiveIn s.blocks N f → ¬ F f → nodeAt s'.blocks f = nodeAt s.blocks f) :
    ViewBut N s s' F where
  ok := ⟨htree, h.namesOk hs.names, hs.magic_same hsuper⟩
  steady := hst
  child := h.child
  entry := h.entry.mpr
  node := hnode

/-! ## Walks, and blocks that are written out -/

/-- `f_dir` is in no data. -/
theorem ButDir.data (hw : Wf (fsShape N) (fileTree m)) (h : ButDir m m') (hg : LiveIn m N g) (hdir : isDir m g = false)
    (h0 : blockNo m g k ≠ 0) : ByteMem.Same m m' (blockAddr (blockNo m g k)) BY2BLK := by
  intro x hlo hhi
  by_contra hne
  obtain ⟨e, he, hlo', hhi'⟩ := h x hne
  rw [fDir_eq] at hlo' hhi'
  exact Footprint.not_data hw (hw.inTree_iff.mp he).known hg hdir h0 ⟨hlo, hhi⟩
    (.file (by omega) (by rw [BY2FILE]; omega))

theorem Climbed.sameView (h : StoreOk s N) (hc : Climbed N s s') (hl : Looked s s' N) : SameView N s s' := by
  have hg := h.tree.wf.dirGraph
  refine EntriesSame.viewBut ⟨hc.ups.entry, fun he => ?_⟩ h hc.tree hc.moved.steady
    (hl.butDir.super hg) fun hf _ => ?_
  · obtain ⟨-, -, i, j, -, -, rfl⟩ := he
    exact (hl.butDir.entry hg _ j).mono (le_refl _) (by rw [MAXNAMELEN]; exact Nat.add_le_add_left (by omega) _)
  · have hin := h.tree.wf.inTree_iff.mpr hf
    refine nodeAt_same ((hl.butDir.fields hg hin).mono (by rw [fSize]; omega) (by rw [fSize]; omega))
      fun hdir k => ?_
    exact fileData_same (hl.butDir.blockNo_eq hg hin k) fun h0 => hl.butDir.data h.tree.wf hf hdir h0

theorem WroteOut.sameView (h : StoreOk s N) (hw : WroteOut N s s') : SameView N s s' := by
  have hups : UpEdit (fsShape N) (fileTree s.blocks) (fileTree s'.blocks) :=
    .of_same (fun g hg => fileSame_high hw.blocks (h.tree.wf.placed hg).high) fun b _ => by
      show freeBit s'.blocks b = false ↔ freeBit s.blocks b = false
      rw [freeBit_high hw.blocks]
  refine EntriesSame.viewBut ⟨hups.entry, fun he => ?_⟩ h (h.tree.wroteOut hw) hw.steady
    (same_high hw.blocks (Nat.le_add_right _ _)) fun {f} hf _ => ?_
  · exact same_high hw.blocks (h.tree.wf.placed he.known).high
  · have hhigh := (h.tree.wf.placed hf.known).high
    refine nodeAt_same (same_high hw.blocks (by rw [fSize]; omega)) fun _ k => ?_
    exact fileData_same ((fileSame_high hw.blocks hhigh).slot k) fun _ => same_high hw.blocks (by rw [blockAddr]; omega)

/-! ## One file that is no directory -/

theorem fileEdit_viewBut (h : StoreOk s N) (htree : TreeOk s' N) (hst : Steady s s') (hf : LiveIn s.blocks N f)
    (hdir : isDir s.blocks f = false) (hw : Within (Footprint s.blocks N f) s.blocks s'.blocks)
    (hhead : HeadSame s.blocks s'.blocks f) : ViewBut N s s' (· = f) := by
  have hwf := h.tree.wf
  have hedit := hhead.fileEdit (Within.rest hwf hf.known hw)
  refine EntriesSame.viewBut ⟨hedit.entry (notDir h.tree hf hdir), fun {d e} he => ?_⟩ h htree hst
    (hw.super hwf hf.known) fun hg hne => hw.node hwf hf.known hg hne
  by_cases hef : e = f
  · rw [hef]
    exact hhead.name
  · exact hw.same fun x hlo hhi => Footprint.not_head hwf hf.known he.known hef hlo (by
      rw [MAXNAMELEN] at hhi
      rw [BY2FILE]
      omega)

/-- The data in a slot that stays. -/
theorem fileEdit_data (h : StoreOk s N) (hf : LiveIn s.blocks N f) (hdir : isDir s.blocks f = false)
    (hw : Within (Footprint s.blocks N f) s.blocks s'.blocks) (hno : blockNo s'.blocks f k = blockNo s.blocks f k) :
    fileData s'.blocks f k = fileData s.blocks f k :=
  fileData_same hno fun h0 => hw.data h.tree.wf hf.known hf hdir h0

theorem fileData_none : fileData m f k = none ↔ blockNo m f k = 0 := by
  rw [fileData]
  split
  · rename_i h0
    exact ⟨fun _ => h0, fun _ => rfl⟩
  · rename_i h0
    exact ⟨fun h => absurd h (Option.some_ne_none _), fun h => absurd h h0⟩

/-- Data that is there stays, and is nowhere new but in block `k`. -/
structure DataGrew (k : Nat) (data data' : Nat → Option (Nat → BitVec 8)) : Prop where
  others : ∀ j, j ≠ k → data' j = data j
  kept : data k ≠ none → data' k = data k

/-- Data is kept or is gone. -/
structure DataCut (kept : Nat) (data data' : Nat → Option (Nat → BitVec 8)) : Prop where
  low : ∀ j, j < kept → data' j = data j
  sub : ∀ j, data' j = data j ∨ data' j = none

theorem Pointed.dataGrew (h : StoreOk s N) (hf : LiveIn s.blocks N f) (hdir : isDir s.blocks f = false)
    (hp : Pointed N s s' f k) : DataGrew k (fileData s.blocks f) (fileData s'.blocks f) where
  others j hj := fileEdit_data h hf hdir hp.within (hp.slots j hj)
  kept hne := by
    refine fileEdit_data h hf hdir hp.within (hp.keeps (.slot f k) rfl fun h0 => hne ?_)
    exact fileData_none.mpr h0

theorem FileEdited.dataCut (h : StoreOk s N) (hf : LiveIn s.blocks N f) (hdir : isDir s.blocks f = false)
    (he : FileEdited N s s' f) {kept : Nat} (hkept : ∀ j, j < kept → blockNo s'.blocks f j = blockNo s.blocks f j) :
    DataCut kept (fileData s.blocks f) (fileData s'.blocks f) where
  low j hj := fileEdit_data h hf hdir he.within (hkept j hj)
  sub j := by
    rcases he.subs (.slot f j) rfl with hval | h0
    · exact Or.inl (fileEdit_data h hf hdir he.within hval)
    · exact Or.inr (fileData_none.mpr h0)

/-! ## A new file -/

section DirGrown

variable (h : StoreOk s N) (hd : LiveIn s.blocks N d) (hdir : isDir s.blocks d = true) (hg : DirGrown N s s' d b)

include h hd hg

theorem DirGrown.name_same (he : EntryIn s.blocks N g e) : ByteMem.Same s.blocks s'.blocks e MAXNAMELEN := by
  by_cases hed : e = d
  · rw [hed]
    exact hg.head.name
  · exact hg.within.same fun x hlo hhi =>
      Footprint.not_head h.tree.wf hd.known he.known hed hlo (by
        rw [MAXNAMELEN] at hhi
        rw [BY2FILE]
        omega)

include hdir

/-- An entry with a name is not in the new block. -/
theorem DirGrown.entry_old (he : EntryIn s'.blocks N g e) (hfirst : s'.blocks e ≠ 0) : EntryIn s.blocks N g e := by
  rcases (hg.growth.entry h.tree.wf hd hdir).mp he with he | ⟨-, j, hj, rfl⟩
  · exact he
  · exact absurd (blank_entry hg.blank hj).1 hfirst

theorem DirGrown.sameView : SameView N s s' := by
  have hup : ∀ {g e}, EntryIn s.blocks N g e → EntryIn s'.blocks N g e := fun he =>
    (hg.growth.entry h.tree.wf hd hdir).mpr (Or.inl he)
  have hchild : ∀ {g name e}, ChildIn s'.blocks N g name e ↔ ChildIn s.blocks N g name e := by
    intro g name e
    constructor
    · intro hc
      have hent := hg.entry_old h hd hdir hc.entry hc.first
      exact childIn_of_name hc hent fun x hlo hhi => (hg.name_same h hd hent x hlo hhi).symm
    · exact fun hc => childIn_of_name hc (hup hc.entry) (hg.name_same h hd hc.entry)
  refine ⟨⟨hg.tree, ⟨fun g e he hfirst => ?_, fun hc hc' => h.names.unique (hchild.mp hc) (hchild.mp hc')⟩,
    h.magic_same (hg.within.super h.tree.wf hd.known)⟩, hg.moved.steady, hchild, hup, fun {f} hf _ => ?_⟩
  · have hent := hg.entry_old h hd hdir he hfirst
    exact h.names.ended_same hent (hg.name_same h hd hent) hfirst
  · by_cases hfd : f = d
    · have hdir' : isDir s'.blocks d = true := hg.growth.isDir.mpr hdir
      rw [hfd, nodeAt, nodeAt, hdir, hdir', if_pos rfl, if_pos rfl]
    · exact hg.within.node h.tree.wf hd.known hf hfd

end DirGrown

theorem named_end (h : named m e name = true) : m (e + name.length) = 0 := by
  induction name generalizing e with
  | nil => exact beq_iff_eq.mp h
  | cons c name ih =>
      rw [named, Bool.and_eq_true] at h
      rw [List.length_cons, Nat.add_comm name.length, ← Nat.add_assoc]
      exact ih h.2

section Made

variable (h : StoreOk s N) (he : EntryIn s.blocks N d e) (hfree : s.blocks e = 0)
  (hfits : name.length < MAXNAMELEN) (hproper : ProperName name) (hm : Made N s s' e name ftype)

include h he hm

theorem Made.name_same {c : Nat} (hc : EntryIn s.blocks N g c) (hne : c ≠ e) :
    ByteMem.Same s.blocks s'.blocks c MAXNAMELEN := by
  have hap := (h.tree.wf.placed hc.known).apart (h.tree.wf.placed he.known) hne
  rw [BY2FILE] at hap
  refine hm.within.same fun x hlo hhi hx => ?_
  rw [HeadBytes, fType] at hx
  rw [MAXNAMELEN] at hhi hx
  omega

theorem Made.super : ByteMem.Same s.blocks s'.blocks (blockAddr 1) 8 := by
  have hlt := (h.tree.wf.placed he.known).super_lt
  refine hm.within.same fun x hlo hhi hx => ?_
  rw [HeadBytes, fType] at hx
  omega

include hfree

theorem Made.entry_iff {c : Nat} : EntryIn s'.blocks N g c ↔ EntryIn s.blocks N g c :=
  hm.naming.entry h.tree.wf he fun hn => hn hfree

include hfits hproper

theorem Made.child_iff {c : Nat} {n : List (BitVec 8)} : ChildIn s'.blocks N g n c ↔
    ChildIn s.blocks N g n c ∨ (g = d ∧ n = name ∧ c = e) := by
  have hent := fun {g c : Nat} => hm.entry_iff h he hfree (g := g) (c := c)
  constructor
  · intro hc
    have hin := hent.mp hc.entry
    by_cases hce : c = e
    · subst hce
      exact Or.inr ⟨h.tree.wf.entry_unique hin he, named_inj hc.named hm.named hc.proper.2 hproper.2, rfl⟩
    · exact Or.inl (childIn_of_name hc hin fun x hlo hhi => (hm.name_same h he hin hce x hlo hhi).symm)
  · rintro (hc | ⟨rfl, rfl, rfl⟩)
    · have hce : c ≠ e := by
        rintro rfl
        exact hc.first hfree
      exact childIn_of_name hc (hent.mpr hc.entry) (hm.name_same h he hc.entry hce)
    · exact ⟨hent.mpr he, hfits, hproper, hm.named⟩

theorem Made.storeOk (hno : ∀ c, ¬ ChildIn s.blocks N d name c) : StoreOk s' N := by
  have hchild := fun {g n c} => hm.child_iff h he hfree hfits hproper (g := g) (n := n) (c := c)
  refine ⟨hm.tree, ⟨fun g c hc hfirst => ?_, fun {g c c' n} hc hc' => ?_⟩, h.magic_same (hm.super h he)⟩
  · by_cases hce : c = e
    · rw [hce]
      exact ⟨_, hfits, named_end hm.named⟩
    · have hin := (hm.entry_iff h he hfree).mp hc
      exact h.names.ended_same hin (hm.name_same h he hin hce) hfirst
  · rcases hchild.mp hc with hold | ⟨rfl, rfl, rfl⟩
    · rcases hchild.mp hc' with hold' | ⟨rfl, rfl, rfl⟩
      · exact h.names.unique hold hold'
      · exact absurd hold (hno c)
    · rcases hchild.mp hc' with hold' | ⟨-, -, rfl⟩
      · exact absurd hold' (hno c')
      · rfl

theorem Made.path_iff (hd : PathIn s.blocks N p d) :
    PathIn s'.blocks N names f ↔ PathIn s.blocks N names f ∨ (names = p ++ [name] ∧ f = e) := by
  refine descent_leaf h.isTree hd (fun _ _ _ _ _ => hm.child_iff h he hfree hfits hproper) fun n c hc => ?_
  have hin := (hm.entry_iff h he hfree).mp hc.entry
  exact h.tree.wf.not_live he (fun hn => hn hfree) hin.1

omit hfits hproper in
theorem Made.node (hf : LiveIn s.blocks N f) : nodeAt s'.blocks f = nodeAt s.blocks f := by
  have hne : f ≠ e := by
    rintro rfl
    exact h.tree.wf.not_live he (fun hn => hn hfree) hf
  have hw : Within (Footprint s.blocks N e) s.blocks s'.blocks := by
    intro x hx
    have hin := hm.within x hx
    rw [HeadBytes, MAXNAMELEN, fType] at hin
    exact .file (by omega) (by rw [BY2FILE]; omega)
  exact hw.node h.tree.wf he.known hf hne

theorem Made.view (hd : PathIn s.blocks N p d) (hno : ∀ c, ¬ ChildIn s.blocks N d name c)
    (hv : ViewOf s.blocks N v) : ViewOf s'.blocks N (v.put (p ++ [name]) (nodeAt s'.blocks e)) := by
  refine hv.leaf (fun c hc => ?_) (fun _ _ => hm.path_iff h he hfree hfits hproper hd) fun _ _ hf =>
    hm.node h he hfree (PathIn.live hf)
  obtain ⟨d', hd', hc'⟩ := hc.of_snoc
  rw [h.isTree.node hd' hd] at hc'
  exact hno c hc'

end Made

/-- What a file is that was just made: it has no size. -/
theorem Made.fresh (hm : Made N s s' e name ftype) : nodeAt s'.blocks e =
      if ftype = FTYPE_DIR then .dir else .file ftype 0 (fileData s'.blocks e) := by
  have hcount : blockCount s'.blocks e = 0 := hm.naming.nblk
  have hsize : s'.blocks.ld32 (fSize e) = 0 := by
    rw [blockCount, ROUND, BY2BLK] at hcount
    apply BitVec.eq_of_toNat_eq
    show _ = 0
    omega
  rw [nodeAt, isDir, hm.type, hsize]
  by_cases hty : ftype = FTYPE_DIR
  · rw [if_pos hty, if_pos (beq_iff_eq.mpr hty)]
  · rw [if_neg hty, if_neg fun hb => hty (beq_iff_eq.mp hb)]

/-! ## A file that is gone -/

section Emptied

variable (h : StoreOk s N) (hf : EntryIn s.blocks N d f) (hem : Emptied s.blocks s'.blocks N f)

include h hf hem

theorem Emptied.name_same (he : EntryIn s.blocks N g e) (hne : e ≠ f) :
    ByteMem.Same s.blocks s'.blocks e MAXNAMELEN :=
  hem.within.same fun x hlo hhi => Footprint.not_head h.tree.wf hf.known he.known hne hlo (by
    rw [MAXNAMELEN] at hhi
    rw [BY2FILE]
    omega)

theorem Emptied.entry_old (he : EntryIn s'.blocks N g e) : EntryIn s.blocks N g e :=
  (hem.removal h.tree.wf hf.known).entry h.tree.wf hf he

theorem Emptied.entry_new (hg : LiveIn s'.blocks N g) (he : EntryIn s.blocks N g e) : EntryIn s'.blocks N g e := by
  have hr := hem.removal h.tree.wf hf.known
  obtain ⟨hd, hdir, k, j, hk, hj, rfl⟩ := he
  have hs := hr.rest g hd.known (hr.live h.tree.wf hf hg).2
  exact ⟨hg, hs.isDir.mpr hdir, k, j, by rwa [hs.nblk], hj, by rw [hs.slot]⟩

theorem Emptied.child_iff (hg : LiveIn s'.blocks N g) :
    ChildIn s'.blocks N g name e ↔ ChildIn s.blocks N g name e ∧ e ≠ f := by
  constructor
  · intro hc
    have hne : e ≠ f := by
      rintro rfl
      exact hc.first hem.name
    have hent := hem.entry_old h hf hc.entry
    exact ⟨childIn_of_name hc hent fun x hlo hhi => (hem.name_same h hf hent hne x hlo hhi).symm, hne⟩
  · rintro ⟨hc, hne⟩
    exact childIn_of_name hc (hem.entry_new h hf hg hc.entry) (hem.name_same h hf hc.entry hne)

theorem Emptied.path_iff (hp : PathIn s.blocks N p f) :
    PathIn s'.blocks N names e ↔ PathIn s.blocks N names e ∧ ¬ p <+: names :=
  descent_cut h.isTree hp (h.tree.wf.entry_ne_root hf) fun _ _ _ hd' _ _ => hem.child_iff h hf (PathIn.live hd')

theorem Emptied.storeOk (htree : TreeOk s' N) : StoreOk s' N where
  tree := htree
  names := by
    refine ⟨fun g e he hfirst => ?_, fun hc hc' => ?_⟩
    · have hne : e ≠ f := by
        rintro rfl
        exact hfirst hem.name
      have hin := hem.entry_old h hf he
      exact h.names.ended_same hin (hem.name_same h hf hin hne) hfirst
    · have hold := ((hem.child_iff h hf hc.entry.1).mp hc).1
      have hold' := ((hem.child_iff h hf hc'.entry.1).mp hc').1
      exact h.names.unique hold hold'
  magic := h.magic_same (hem.within.super h.tree.wf hf.known)

theorem Emptied.view (hp : PathIn s.blocks N p f) (hv : ViewOf s.blocks N v) :
    ViewOf s'.blocks N (v.cut p) := by
  refine hv.cut (fun _ _ => hem.path_iff h hf hp) fun names g hg => ?_
  obtain ⟨hg₀, hpre⟩ := (hem.path_iff h hf hp).mp hg
  have hne : g ≠ f := by
    rintro rfl
    exact hpre (h.isTree.path hp hg₀ ▸ List.prefix_refl _)
  exact hem.within.node h.tree.wf hf.known (PathIn.live hg₀) hne

end Emptied

end RpiMos
