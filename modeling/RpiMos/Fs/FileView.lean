/-
  RpiMos.Fs.FileView

  The tree of files as a map from paths to files and directories, which is what a
  file server is for, and what each kind of edit of the blocks does to the map.
-/

import RpiMos.Fs.TreeCreate
import RpiMos.Lib.NamedTree

namespace RpiMos

open Lib Prog BlockTree

variable {s s' s₁ s₂ : Fs} {N d e f g b k j : Nat} {m m' : ByteMem} {name name' path : List (BitVec 8)}
  {names p : List (List (BitVec 8))} {ftype : U32}

/-! ## Names -/

/-- File `e` is called `name` in directory `d`. -/
structure ChildIn (m : ByteMem) (N d : Nat) (name : List (BitVec 8)) (e : Nat) : Prop where
  entry : EntryIn m N d e
  fits : name.length < MAXNAMELEN
  proper : ProperName name
  named : named m e name = true

abbrev PathIn (m : ByteMem) (N : Nat) (names : List (List (BitVec 8))) (f : Nat) : Prop :=
  Descent (ChildIn m N) rootFile names f

/-- Names end, and tell the entries of a directory apart. -/
structure NamesOk (m : ByteMem) (N : Nat) : Prop where
  ended : ∀ d e, EntryIn m N d e → m e ≠ 0 → ∃ k, k < MAXNAMELEN ∧ m (e + k) = 0
  unique : ∀ {d e e' name}, ChildIn m N d name e → ChildIn m N d name e' → e = e'

/-- The tree of files is in order, and so are the names in it and the super block. -/
structure StoreOk (s : Fs) (N : Nat) : Prop where
  tree : TreeOk s N
  names : NamesOk s.blocks N
  magic : s.blocks.ld32 (blockAddr 1) = FS_MAGIC

theorem ChildIn.first (h : ChildIn m N d name e) : m e ≠ 0 := named_ne_zero h.named h.proper.1 h.proper.2

theorem ChildIn.live (h : ChildIn m N d name e) : LiveIn m N e := h.entry.live h.first

theorem PathIn.live (h : PathIn m N names f) : LiveIn m N f := by
  cases h with
  | root => exact .root
  | child _ hc => exact hc.live

theorem PathIn.proper (h : PathIn m N names f) : ∀ name ∈ names, ProperName name := by
  induction h with
  | root => exact fun _ hmem => absurd hmem List.not_mem_nil
  | child _ hc ih =>
      intro name hmem
      rcases List.mem_append.mp hmem with hmem | hmem
      · exact ih name hmem
      · rw [List.mem_singleton.mp hmem]
        exact hc.proper

/-- The name that stands somewhere. -/
theorem named_inj (h : named m e name = true) (h' : named m e name' = true) (h0 : (0 : BitVec 8) ∉ name)
    (h0' : (0 : BitVec 8) ∉ name') : name = name' := by
  induction name generalizing e name' with
  | nil =>
      cases name' with
      | nil => rfl
      | cons c name' =>
          rw [named, beq_iff_eq] at h
          rw [named, Bool.and_eq_true, beq_iff_eq, h] at h'
          exact absurd (h'.1 ▸ List.mem_cons_self) h0'
  | cons c name ih =>
      rw [named, Bool.and_eq_true, beq_iff_eq] at h
      cases name' with
      | nil =>
          rw [named, beq_iff_eq, h.1] at h'
          exact absurd (h' ▸ List.mem_cons_self) h0
      | cons c' name' =>
          rw [named, Bool.and_eq_true, beq_iff_eq, h.1] at h'
          rw [h'.1, ih h.2 h'.2 (fun hmem => h0 (List.mem_cons_of_mem _ hmem)) fun hmem =>
            h0' (List.mem_cons_of_mem _ hmem)]

/-- Only what stands before the first null byte counts. -/
theorem named_takeWhile (h : named m e name = true) : named m e (name.takeWhile fun c => c != 0) = true := by
  induction name generalizing e with
  | nil => exact h
  | cons c name ih =>
      rw [named, Bool.and_eq_true, beq_iff_eq] at h
      by_cases hc : c = 0
      · rw [List.takeWhile_cons_of_neg (by simp [hc]), named, h.1, hc]
        rfl
      · rw [List.takeWhile_cons_of_pos (by rw [bne_iff_ne]; exact hc), named, h.1, ih h.2, beq_self_eq_true]
        rfl

/-- A name ends at the first null byte. -/
theorem named_length (h : named m e name = true) (h0 : (0 : BitVec 8) ∉ name) (hk : m (e + k) = 0) :
    name.length ≤ k := by
  induction name generalizing e k with
  | nil => exact Nat.zero_le k
  | cons c name ih =>
      rw [named, Bool.and_eq_true, beq_iff_eq] at h
      cases k with
      | zero =>
          rw [Nat.add_zero, h.1] at hk
          exact absurd (hk ▸ List.mem_cons_self) h0
      | succ k =>
          rw [← Nat.add_assoc, Nat.add_right_comm] at hk
          rw [List.length_cons]
          exact Nat.succ_le_succ (ih h.2 (fun hmem => h0 (List.mem_cons_of_mem _ hmem)) hk)

/-- An entry that has a name is called something. -/
theorem NamesOk.child (h : NamesOk m N) (he : EntryIn m N d e) (hfirst : m e ≠ 0) (hname : named m e name = true) :
    ChildIn m N d (name.takeWhile fun c => c != 0) e := by
  have hthis := named_takeWhile hname
  have hall : (0 : BitVec 8) ∉ name.takeWhile fun c => c != 0 := by
    intro hmem
    have hnot := List.all_eq_true.mp (List.all_takeWhile (p := fun c : BitVec 8 => c != 0) (l := name)) 0 hmem
    cases hnot
  obtain ⟨k, hk, hzero⟩ := h.ended d e he hfirst
  refine ⟨he, Nat.lt_of_le_of_lt (named_length hthis hall hzero) hk, ⟨fun hnil => ?_, hall⟩, hthis⟩
  rw [hnil, named, beq_iff_eq] at hthis
  exact hfirst hthis

section StoreOk

variable (h : StoreOk s N)

include h

theorem StoreOk.entryOf_iff (hd : LiveIn s.blocks N d) (hdir : isDir s.blocks d = true) :
    EntryOf s.blocks d e ↔ EntryIn s.blocks N d e ∧ s.blocks e ≠ 0 := by
  constructor
  · rintro ⟨i, j, hi, -, hj, he, hname⟩
    exact ⟨⟨hd, hdir, i, j, hi, hj, he⟩, hname⟩
  · rintro ⟨⟨-, -, k, j, hk, hj, he⟩, hname⟩
    exact ⟨k, j, hk, h.tree.wf.dirs.dense d k hd hdir hk, hj, he, hname⟩

/-- What is known of paths in well-formed trees holds here. -/
theorem StoreOk.wellFormed : WellFormedTree s.blocks N where
  toDirGraph := h.tree.wf.dirGraph
  small d hd hdir := by
    have hshort : blockCount s.blocks d + 1 < NINDIRECT :=
      h.tree.wf.dirs.short d (h.tree.wf.inTree_iff.mp hd) hdir
    omega
  full d i hd hdir hi := h.tree.wf.dirs.dense d i (h.tree.wf.inTree_iff.mp hd) hdir hi
  terminated d e hd hdir he := by
    obtain ⟨hent, hname⟩ := (h.entryOf_iff (h.tree.wf.inTree_iff.mp hd) hdir).mp he
    exact h.names.ended d e hent hname
  unique d e e' name hd hdir he he' hn hn' := by
    have hd' := h.tree.wf.inTree_iff.mp hd
    obtain ⟨hent, hname⟩ := (h.entryOf_iff hd' hdir).mp he
    obtain ⟨hent', hname'⟩ := (h.entryOf_iff hd' hdir).mp he'
    exact h.names.unique (h.names.child hent hname hn) (h.names.child hent' hname' hn')

theorem StoreOk.isTree : IsTree (ChildIn s.blocks N) rootFile where
  child := h.names.unique
  parent hc hc' :=
    ⟨h.tree.wf.entry_unique hc.entry hc'.entry, named_inj hc.named hc'.named hc.proper.2 hc'.proper.2⟩
  root hc := h.tree.wf.entry_ne_root hc.entry rfl

theorem StoreOk.step_iff (hd : LiveIn s.blocks N d) (hp : ProperName name) :
    (dirTree s.blocks).step d name = some e ↔ ChildIn s.blocks N d name e := by
  rw [RpiMos.step_iff h.wellFormed (h.tree.wf.inTree_iff.mpr hd) hp]
  constructor
  · rintro ⟨hfits, hdir, he, hname⟩
    exact ⟨((h.entryOf_iff hd hdir).mp he).1, hfits, hp, hname⟩
  · intro hc
    exact ⟨hc.fits, hc.entry.2.1, (h.entryOf_iff hd hc.entry.2.1).mpr ⟨hc.entry, hc.first⟩, hc.named⟩

/-- `walk_path` goes down the tree. -/
theorem StoreOk.path_iff (hp : ∀ name ∈ names, ProperName name) :
    (dirTree s.blocks).descend rootFile names = some f ↔ PathIn s.blocks N names f := by
  have hlast : ∀ d n, (dirTree s.blocks).descend d [n] = (dirTree s.blocks).step d n := by
    intro d n
    rw [NameSpace.descend]
    cases (dirTree s.blocks).step d n with
    | none => rfl
    | some e => rfl
  constructor
  · intro hf
    induction names using List.reverseRecOn generalizing f with
    | nil =>
        cases hf
        exact .root
    | append_singleton names name ih =>
        rw [NameSpace.descend_append, Option.bind_eq_some_iff] at hf
        obtain ⟨d, hd, hstep⟩ := hf
        have hdesc := ih (fun n hn => hp n (List.mem_append_left _ hn)) hd
        rw [hlast] at hstep
        exact .child hdesc ((h.step_iff hdesc.live (hp name (by simp))).mp hstep)
  · intro hf
    induction hf with
    | root => rfl
    | child hd hc ih =>
        rw [NameSpace.descend_append, ih fun n hn => hp n (List.mem_append_left _ hn), Option.bind_some, hlast]
        exact (h.step_iff (PathIn.live hd) hc.proper).mpr hc

theorem StoreOk.pathTo_iff (h0 : (0 : BitVec 8) ∉ path) :
    PathTo s.blocks path f ↔ PathIn s.blocks N (components path) f := by
  rw [← h.path_iff fun _ hmem => components_proper h0 hmem]
  constructor
  · rintro ⟨par, hres⟩
    exact NameSpace.descend_of_found hres
  · intro hf
    obtain ⟨par, hres⟩ : ∃ par, (dirTree s.blocks).resolve none rootFile (components path ++ []) =
        (dirTree s.blocks).resolve par f [] := NameSpace.resolve_descend hf []
    rw [List.append_nil] at hres
    exact ⟨par, hres⟩

end StoreOk

/-! ## What is seen of a file -/

/-- What is at a path.  A file has blocks of data, some of which may be missing. -/
inductive Node where
  | dir
  | file (type size : U32) (data : Nat → Option (Nat → BitVec 8))

/-- Block `k` of file `f`, by offset. -/
def fileData (m : ByteMem) (f k : Nat) : Option (Nat → BitVec 8) :=
  if blockNo m f k = 0 then none
  else some fun x => if x < BY2BLK then m (blockAddr (blockNo m f k) + x) else 0

def nodeAt (m : ByteMem) (f : Nat) : Node :=
  if isDir m f then .dir else .file (m.ld32 (fType f)) (m.ld32 (fSize f)) (fileData m f)

abbrev FileMap := PathMap (List (BitVec 8)) Node

/-- What the files look like from outside. -/
abbrev ViewOf (m : ByteMem) (N : Nat) (v : FileMap) : Prop := Shows (ChildIn m N) rootFile (nodeAt m) v

instance : Decidable (ProperName name) := inferInstanceAs (Decidable (name ≠ [] ∧ (0 : BitVec 8) ∉ name))

/-- What stands at a path, as `walk_path` finds it. -/
def pathView (m : ByteMem) : FileMap := fun names =>
  if ∀ name ∈ names, ProperName name then ((dirTree m).descend rootFile names).map (nodeAt m) else none

theorem StoreOk.shows (h : StoreOk s N) : ViewOf s.blocks N (pathView s.blocks) := by
  intro names k
  unfold pathView
  by_cases hp : ∀ name ∈ names, ProperName name
  · rw [if_pos hp, Option.map_eq_some_iff]
    simp only [h.path_iff hp]
  · rw [if_neg hp]
    constructor
    · rintro ⟨⟩
    · rintro ⟨f, hf, -⟩
      exact absurd (PathIn.proper hf) hp

theorem StoreOk.view_eq (h : StoreOk s N) {v : FileMap} (hv : ViewOf s.blocks N v) : v = pathView s.blocks :=
  hv.unique h.shows

theorem fileData_same (hno : blockNo m' f k = blockNo m f k)
    (hdata : blockNo m f k ≠ 0 → ByteMem.Same m m' (blockAddr (blockNo m f k)) BY2BLK) :
    fileData m' f k = fileData m f k := by
  rw [fileData, fileData, hno]
  by_cases h0 : blockNo m f k = 0
  · rw [if_pos h0, if_pos h0]
  · rw [if_neg h0, if_neg h0]
    congr 1
    funext x
    by_cases hx : x < BY2BLK
    · rw [if_pos hx, if_pos hx]
      exact hdata h0 _ (Nat.le_add_right _ _) (by omega)
    · rw [if_neg hx, if_neg hx]

theorem nodeAt_same (hhead : ByteMem.Same m m' (fSize f) 8)
    (hdata : isDir m f = false → ∀ k, fileData m' f k = fileData m f k) : nodeAt m' f = nodeAt m f := by
  have htype := (hhead.mono (b := fType f) (k := 4) (by rw [fType, fSize]; omega) (by rw [fType, fSize])).ld32
  have hsize := (hhead.mono (b := fSize f) (k := 4) (le_refl _) (by omega)).ld32
  have hdir : isDir m' f = isDir m f := by rw [isDir, isDir, htype]
  rw [nodeAt, nodeAt, hdir]
  cases hd : isDir m f with
  | true => rfl
  | false =>
      rw [if_neg Bool.false_ne_true, if_neg Bool.false_ne_true, htype, hsize, funext (hdata hd)]

/-! ## Edits that leave the entries of directories as they are -/

theorem first_same (h : ByteMem.Same m m' e MAXNAMELEN) : m' e = m e :=
  h e (le_refl e) (Nat.lt_add_of_pos_right (by decide))

theorem NamesOk.ended_same (h : NamesOk m N) (he : EntryIn m N d e) (hsame : ByteMem.Same m m' e MAXNAMELEN)
    (hfirst : m' e ≠ 0) : ∃ k, k < MAXNAMELEN ∧ m' (e + k) = 0 := by
  rw [first_same hsame] at hfirst
  obtain ⟨k, hk, hzero⟩ := h.ended d e he hfirst
  exact ⟨k, hk, (hsame (e + k) (by omega) (by omega)).trans hzero⟩

/-- From `m` to `m'` no entry has come or gone, and none has another name. -/
structure EntriesSame (m m' : ByteMem) (N : Nat) : Prop where
  entry : ∀ {d e}, EntryIn m' N d e ↔ EntryIn m N d e
  name : ∀ {d e}, EntryIn m N d e → ByteMem.Same m m' e MAXNAMELEN

theorem childIn_of_name (h : ChildIn m N d name e) (hent : EntryIn m' N d e)
    (hsame : ByteMem.Same m m' e MAXNAMELEN) : ChildIn m' N d name e := by
  refine ⟨hent, h.fits, h.proper, ?_⟩
  rw [named_same (hsame.mono (le_refl e) (by have hfits := h.fits; omega))]
  exact h.named

section EntriesSame

variable (h : EntriesSame m m' N)

include h

theorem EntriesSame.child : ChildIn m' N d name e ↔ ChildIn m N d name e := by
  constructor
  · intro hc
    have hent := h.entry.mp hc.entry
    exact childIn_of_name hc hent fun x hlo hhi => (h.name hent x hlo hhi).symm
  · intro hc
    exact childIn_of_name hc (h.entry.mpr hc.entry) (h.name hc.entry)

theorem EntriesSame.path_iff : PathIn m' N names f ↔ PathIn m N names f :=
  descent_congr fun _ _ _ _ _ => h.child

theorem EntriesSame.namesOk (hn : NamesOk m N) : NamesOk m' N where
  ended d e he hfirst := by
    have he₀ := h.entry.mp he
    exact hn.ended_same he₀ (h.name he₀) hfirst
  unique hc hc' := hn.unique (h.child.mp hc) (h.child.mp hc')

end EntriesSame

section Footprint

variable (h : Wf (fsShape N) (fileTree m)) (hf : KnownIn m N f) (hw : Within (Footprint m N f) m m')

include h hf hw

/-- No data is written to when a file is edited. -/
theorem Within.data (hg : LiveIn m N g) (hdir : isDir m g = false) (h0 : blockNo m g k ≠ 0) :
    ByteMem.Same m m' (blockAddr (blockNo m g k)) BY2BLK :=
  hw.same fun _ hlo hhi => Footprint.not_data h hf hg hdir h0 ⟨hlo, hhi⟩

theorem Within.super : ByteMem.Same m m' (blockAddr 1) 8 :=
  hw.same fun _ hlo hhi => Footprint.not_super h hf hlo hhi

theorem Within.node (hg : LiveIn m N g) (hne : g ≠ f) : nodeAt m' g = nodeAt m g := by
  have hsame : ByteMem.Same m m' g BY2FILE := hw.same fun _ => Footprint.not_head h hf hg.known hne
  refine nodeAt_same (hsame.mono (by rw [fSize]; omega) (by rw [fSize, BY2FILE]; omega)) fun hdir k => ?_
  exact fileData_same ((Within.rest h hf hw g hg.known hne).slot k) fun h0 => hw.data h hf hg hdir h0

end Footprint

end RpiMos
