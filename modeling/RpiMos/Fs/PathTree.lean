/-
  RpiMos.Fs.PathTree

  `walk_path`, with the array it copies a name to, against paths as they are meant:
  the names between the slashes lead from the root down, each to the entry with
  that name.  In a well-formed tree the two agree, and the walk changes nothing
  that a path depends on.
-/

import RpiMos.Fs.WalkPath

namespace RpiMos

open Lib Prog

variable {s s' s₀ : Fs} {m m' : ByteMem} {N d e f i n file : Nat} {w w' : WalkResult}
  {name path buf cs : List (BitVec 8)} {names : List (List (BitVec 8))}

/-! ## The array for a name -/

/-- The bytes stored from place `i` of an array on, none of them past its end. -/
def storeAt : List (BitVec 8) → Nat → List (BitVec 8) → Option (List (BitVec 8))
  | buf, _, [] => some buf
  | buf, i, c :: cs => if i < buf.length then storeAt (buf.set i c) (i + 1) cs else none

/-- The string in an array. -/
def cString (buf : List (BitVec 8)) : List (BitVec 8) := buf.takeWhile fun c => c != 0

/-- The loop of `walk_path`, with `name`. -/
def walkLoopBuf : Nat → List (BitVec 8) → Nat → Nat → List (BitVec 8) → FsM WalkResult
  | _, [], dir, file, _ => pure ⟨0, dir, file, []⟩
  | 0, _ :: _, _, _, _ => Prog.stop "unreachable"
  | n + 1, c :: cs, _, dir, buf => do
      let p := (c :: cs).takeWhile fun c => c != slash
      let path := skipSlash ((c :: cs).dropWhile fun c => c != slash)
      if MAXNAMELEN ≤ p.length then pure ⟨-E_BAD_PATH, 0, 0, []⟩
      else
        match storeAt buf 0 (p ++ [0]) with
        | none => Prog.stop "stored past name[MAXNAMELEN]"
        | some buf => do
            let type ← load32 (fType dir)
            if type ≠ FTYPE_DIR then pure ⟨-E_NOT_FOUND, 0, 0, []⟩
            else
              let found ← Prog.attempt (dirLookup dir (cString buf))
              match found with
              | .ok file => walkLoopBuf n path dir file buf
              | .error r =>
                  if r = -E_NOT_FOUND ∧ path = [] then pure ⟨r, dir, 0, cString buf⟩
                  else pure ⟨r, 0, 0, []⟩

/-- `walk_path`; `name` holds anything but for `name[0]`. -/
def walkPathBuf (name path : List (BitVec 8)) : FsM WalkResult := do
  let s ← Prog.get
  walkLoopBuf path.length (skipSlash path) 0 (sRoot s.super) (name.set 0 0)

theorem storeAt_eq (h : i + cs.length ≤ buf.length) :
    storeAt buf i cs = some (buf.take i ++ cs ++ buf.drop (i + cs.length)) := by
  induction cs generalizing buf i with
  | nil => simp [storeAt]
  | cons c cs ih =>
      rw [List.length_cons] at h
      rw [storeAt, if_pos (by omega), ih (by rw [List.length_set]; omega)]
      have htake : (buf.set i c).take (i + 1) = buf.take i ++ [c] := by
        have hlen : (buf.take i).length = i := by
          rw [List.length_take]
          omega
        rw [List.take_set, ← List.take_append_getElem (by omega), List.set_append_right i c (by omega),
          hlen, Nat.sub_self]
        rfl
      have hdrop : (buf.set i c).drop (i + 1 + cs.length) = buf.drop (i + (cs.length + 1)) := by
        rw [List.drop_set_of_lt (by omega), Nat.add_assoc, Nat.add_comm 1]
      rw [htake, hdrop, List.length_cons]
      simp

/-- A name that fits is read back as it was. -/
theorem storeAt_name (hbuf : buf.length = MAXNAMELEN) (hname : name.length < MAXNAMELEN)
    (h0 : (0 : BitVec 8) ∉ name) : ∃ buf', storeAt buf 0 (name ++ [0]) = some buf' ∧
      cString buf' = name ∧ buf'.length = MAXNAMELEN := by
  have hfit : 0 + (name ++ [0]).length ≤ buf.length := by
    rw [List.length_append, List.length_singleton]
    omega
  refine ⟨_, storeAt_eq hfit, ?_, ?_⟩
  · have hall : ∀ c ∈ name, (c != 0) = true := by
      intro c hc
      rw [bne_iff_ne]
      rintro rfl
      exact h0 hc
    rw [List.take_zero, List.nil_append, List.append_assoc, cString,
      List.takeWhile_append_of_pos hall]
    simp
  · simp only [List.length_append, List.length_take, List.length_drop]
    rw [List.length_append] at hfit
    omega

/-- The array is never overrun, and makes no difference. -/
theorem walkLoopBuf_eq (hbuf : buf.length = MAXNAMELEN) (h0 : (0 : BitVec 8) ∉ path) :
    walkLoopBuf n path d file buf = walkLoop n path d file := by
  induction n generalizing path d file buf with
  | zero => cases path <;> rfl
  | succ n ih =>
      cases path with
      | nil => rfl
      | cons c cs =>
          have hname0 : (0 : BitVec 8) ∉ (c :: cs).takeWhile (fun c => c != slash) :=
            fun hmem => h0 ((List.takeWhile_sublist _).subset hmem)
          have hrest0 : (0 : BitVec 8) ∉ skipSlash ((c :: cs).dropWhile fun c => c != slash) :=
            fun hmem => h0 ((List.dropWhile_sublist _).subset ((List.dropWhile_sublist _).subset hmem))
          rw [walkLoopBuf, walkLoop]
          by_cases hlong : MAXNAMELEN ≤ ((c :: cs).takeWhile fun c => c != slash).length
          · rw [if_pos hlong, if_pos hlong]
          · obtain ⟨buf', hstore, hstring, hlen⟩ := storeAt_name hbuf (Nat.lt_of_not_le hlong) hname0
            rw [if_neg hlong, if_neg hlong, hstore]
            simp only [hstring, ih hlen hrest0] <;> rfl

theorem walkPathBuf_eq (hbuf : buf.length = MAXNAMELEN) (h0 : (0 : BitVec 8) ∉ path) :
    walkPathBuf buf path = walkPath path := by
  have hskip : (0 : BitVec 8) ∉ skipSlash path := fun hmem => h0 ((List.dropWhile_sublist _).subset hmem)
  have hlen : (buf.set 0 0).length = MAXNAMELEN := by rw [List.length_set, hbuf]
  rw [walkPathBuf, walkPath]
  simp only [walkLoopBuf_eq hlen hskip]

/-! ## Well-formed trees -/

/-- A tree of directories without holes, none larger than the block numbers that
    its table can hold are read for. -/
structure WellFormedTree (m : ByteMem) (N : Nat) : Prop extends DirGraph m N where
  small : ∀ d, InTree m d → isDir m d = true → blockCount m d ≤ NINDIRECT - 1
  full : ∀ d i, InTree m d → isDir m d = true → i < blockCount m d → blockNo m d i ≠ 0
  terminated : ∀ d e, InTree m d → isDir m d = true → EntryOf m d e →
    ∃ k, k < MAXNAMELEN ∧ m (e + k) = 0
  unique : ∀ d e e' name, InTree m d → isDir m d = true → EntryOf m d e → EntryOf m d e' →
    named m e name = true → named m e' name = true → e = e'

/-- The names lead down from `d`, each to the entry of that name. -/
inductive Leads (m : ByteMem) : Nat → List (List (BitVec 8)) → Nat → Prop
  | nil {d : Nat} : Leads m d [] d
  | cons {d e f : Nat} {name : List (BitVec 8)} {names : List (List (BitVec 8))}
      (hfits : name.length < MAXNAMELEN) (hdir : isDir m d = true) (he : EntryOf m d e)
      (hname : named m e name = true) (h : Leads m e names f) : Leads m d (name :: names) f

/-- The directory has no entry of that name. -/
def NoEntry (m : ByteMem) (d : Nat) (name : List (BitVec 8)) : Prop :=
  ∀ e, EntryOf m d e → named m e name = false

/-- What a path is to be answered with. -/
inductive Answers (m : ByteMem) (path : List (BitVec 8)) : WalkResult → Prop
  | root (h : components path = []) : Answers m path ⟨0, 0, rootFile, []⟩
  | found {names : List (List (BitVec 8))} {name : List (BitVec 8)} {d f : Nat}
      (h : components path = names ++ [name]) (hd : Leads m rootFile names d)
      (hf : Leads m d [name] f) : Answers m path ⟨0, d, f, []⟩
  | badPath {names rest : List (List (BitVec 8))} {name : List (BitVec 8)} {d : Nat}
      (h : components path = names ++ name :: rest)
      (hd : Leads m rootFile names d) (hlong : MAXNAMELEN ≤ name.length) :
      Answers m path ⟨-E_BAD_PATH, 0, 0, []⟩
  | missing {names : List (List (BitVec 8))} {name : List (BitVec 8)} {d : Nat}
      (h : components path = names ++ [name]) (hd : Leads m rootFile names d)
      (hfits : name.length < MAXNAMELEN) (hdir : isDir m d = true) (hno : NoEntry m d name) :
      Answers m path ⟨-E_NOT_FOUND, d, 0, name⟩
  | notFound {names rest : List (List (BitVec 8))} {name : List (BitVec 8)} {d : Nat}
      (h : components path = names ++ name :: rest)
      (hd : Leads m rootFile names d) (hfits : name.length < MAXNAMELEN)
      (hend : isDir m d = false ∨ NoEntry m d name ∧ rest ≠ []) :
      Answers m path ⟨-E_NOT_FOUND, 0, 0, []⟩

/-- A name as it can stand between slashes. -/
def ProperName (name : List (BitVec 8)) : Prop := name ≠ [] ∧ (0 : BitVec 8) ∉ name

theorem components_proper (h0 : (0 : BitVec 8) ∉ path) (h : name ∈ components path) :
    ProperName name := by
  obtain ⟨hne, hsub⟩ := mem_pieces h
  exact ⟨hne, fun hmem => h0 (hsub hmem)⟩

section WellFormedTree

variable (hw : WellFormedTree m N)

include hw

/-- The first entry of a name is the only one. -/
theorem lookup_iff (hd : InTree m d) (hdir : isDir m d = true) (hp : ProperName name) :
    lookupEntry m d name = some e ↔ EntryOf m d e ∧ named m e name = true := by
  have hsound : ∀ e, lookupEntry m d name = some e → EntryOf m d e ∧ named m e name = true := by
    intro e h
    obtain ⟨i, hi, hfind⟩ := lookupEntry_some h
    obtain ⟨hnamed, j, hj, rfl⟩ := findIn_some hfind
    exact ⟨⟨i, j, hi, hw.full d i hd hdir hi, hj, rfl, named_ne_zero hnamed hp.1 hp.2⟩, hnamed⟩
  constructor
  · exact hsound e
  · rintro ⟨he, hnamed⟩
    cases hlook : lookupEntry m d name with
    | some e' =>
        obtain ⟨he', hnamed'⟩ := hsound e' hlook
        rw [hw.unique d e e' name hd hdir he he' hnamed hnamed']
    | none =>
        obtain ⟨i, j, hi, -, hj, rfl, -⟩ := he
        have hblock := List.findSome?_eq_none_iff.mp hlook i (List.mem_range.mpr hi)
        have hentry := List.find?_eq_none.mp hblock _ (List.mem_map_of_mem (List.mem_range.mpr hj))
        exact absurd hnamed hentry

theorem lookup_none (hd : InTree m d) (hdir : isDir m d = true) (hp : ProperName name) :
    lookupEntry m d name = none ↔ NoEntry m d name := by
  constructor
  · intro h e he
    by_contra hnamed
    rw [(lookup_iff hw hd hdir hp).mpr ⟨he, Bool.eq_true_of_not_eq_false hnamed⟩] at h
    cases h
  · intro h
    cases hlook : lookupEntry m d name with
    | none => rfl
    | some e =>
        obtain ⟨he, hnamed⟩ := (lookup_iff hw hd hdir hp).mp hlook
        rw [h e he] at hnamed
        cases hnamed

/-- One name down. -/
theorem step_iff (hd : InTree m d) (hp : ProperName name) : (dirTree m).step d name = some e ↔
    name.length < MAXNAMELEN ∧ isDir m d = true ∧ EntryOf m d e ∧ named m e name = true := by
  rw [NameSpace.step_eq_some]
  constructor
  · rintro ⟨hfits, hdir, hchild⟩
    exact ⟨of_decide_eq_true hfits, hdir, (lookup_iff hw hd hdir hp).mp hchild⟩
  · rintro ⟨hfits, hdir, he⟩
    exact ⟨decide_eq_true hfits, hdir, (lookup_iff hw hd hdir hp).mpr he⟩

theorem leads_iff (hd : InTree m d) (hp : ∀ name ∈ names, ProperName name) :
    (dirTree m).descend d names = some f ↔ Leads m d names f := by
  induction names generalizing d with
  | nil =>
      constructor
      · rintro ⟨⟩
        exact .nil
      · rintro ⟨⟩
        rfl
  | cons name names ih =>
      have hproper := hp name List.mem_cons_self
      have hrest : ∀ n ∈ names, ProperName n := fun n hn => hp n (List.mem_cons_of_mem _ hn)
      rw [NameSpace.descend, Option.bind_eq_some_iff]
      constructor
      · rintro ⟨e, hstep, htail⟩
        obtain ⟨hfits, hdir, he, hnamed⟩ := (step_iff hw hd hproper).mp hstep
        exact .cons hfits hdir he hnamed ((ih (.entry hd hdir he) hrest).mp htail)
      · intro h
        cases h with
        | cons hfits hdir he hnamed htail =>
            exact ⟨_, (step_iff hw hd hproper).mpr ⟨hfits, hdir, he, hnamed⟩,
              (ih (.entry hd hdir he) hrest).mpr htail⟩

end WellFormedTree

theorem leads_inTree (hd : InTree m d) (h : Leads m d names f) : InTree m f := by
  induction h with
  | nil => exact hd
  | cons _ hdir he _ _ ih => exact ih (.entry hd hdir he)

/-- The answer that names give when they are looked up one after another. -/
theorem answers_eq (hw : WellFormedTree m N) (h0 : (0 : BitVec 8) ∉ path) (h : Answers m path w) :
    w = answer ((dirTree m).resolve none rootFile (components path)) := by
  have hp : ∀ name ∈ components path, ProperName name := fun _ hmem => components_proper h0 hmem
  cases h with
  | root h =>
      rw [h]
      rfl
  | found h hd hf =>
      rw [h] at hp ⊢
      have hin := leads_inTree .root hd
      have hpre := (leads_iff hw .root fun n hn => hp n (List.mem_append_left _ hn)).mpr hd
      cases hf with
      | cons hfits hdir he hnamed hnil =>
          cases hnil
          have hstep := (step_iff hw hin (hp _ List.mem_append_cons_self)).mpr ⟨hfits, hdir, he, hnamed⟩
          rw [NameSpace.resolve_found hpre hstep]
          rfl
  | badPath h hd hlong =>
      rw [h] at hp ⊢
      have hpre := (leads_iff hw .root fun n hn => hp n (List.mem_append_left _ hn)).mpr hd
      rw [NameSpace.resolve_unfit hpre (decide_eq_false (by omega))]
      rfl
  | missing h hd hfits hdir hno =>
      rw [h] at hp ⊢
      have hin := leads_inTree .root hd
      have hpre := (leads_iff hw .root fun n hn => hp n (List.mem_append_left _ hn)).mpr hd
      have hchild := (lookup_none hw hin hdir (hp _ List.mem_append_cons_self)).mpr hno
      rw [NameSpace.resolve_missing hpre (decide_eq_true hfits) hdir hchild]
      rfl
  | @notFound names rest name d h hd hfits hend =>
      rw [h] at hp ⊢
      have hin := leads_inTree .root hd
      have hpre := (leads_iff hw .root fun n hn => hp n (List.mem_append_left _ hn)).mpr hd
      have hend' : isDir m d = false ∨ lookupEntry m d name = none ∧ rest ≠ [] := by
        cases hdir : isDir m d with
        | false => exact Or.inl rfl
        | true =>
            rw [hdir] at hend
            rcases hend with ⟨⟨⟩⟩ | ⟨hno, hrest⟩
            exact Or.inr ⟨(lookup_none hw hin hdir (hp _ List.mem_append_cons_self)).mpr hno, hrest⟩
      rw [NameSpace.resolve_nowhere hpre (decide_eq_true hfits) hend']
      rfl

/-- Every path has an answer. -/
theorem answers_exists (hw : WellFormedTree m N) (h0 : (0 : BitVec 8) ∉ path) : ∃ w, Answers m path w := by
  have hp : ∀ name ∈ components path, ProperName name := fun _ hmem => components_proper h0 hmem
  rcases (dirTree m).descend_total rootFile (components path) with
    ⟨f, hall⟩ | ⟨pre, name, rest, d, hsplit, hpre, hend⟩
  · rcases List.eq_nil_or_concat (components path) with hnil | ⟨names, name, hsplit⟩
    · exact ⟨_, .root hnil⟩
    · rw [List.concat_eq_append] at hsplit
      rw [hsplit] at hp hall
      rw [NameSpace.descend_append] at hall
      obtain ⟨d, hpre, hlast⟩ := Option.bind_eq_some_iff.mp hall
      have hd := (leads_iff hw .root fun n hn => hp n (List.mem_append_left _ hn)).mp hpre
      have hf := (leads_iff hw (leads_inTree .root hd)
        fun n hn => hp n (List.mem_append_right _ hn)).mp hlast
      exact ⟨_, .found hsplit hd hf⟩
  · rw [hsplit] at hp
    have hd := (leads_iff hw .root fun n hn => hp n (List.mem_append_left _ hn)).mp hpre
    have hin := leads_inTree .root hd
    by_cases hfits : name.length < MAXNAMELEN
    · cases hdir : isDir m d with
      | false => exact ⟨_, .notFound hsplit hd hfits (Or.inl hdir)⟩
      | true =>
          have hno : NoEntry m d name := by
            intro e he
            by_contra hnamed
            rw [(step_iff hw hin (hp _ List.mem_append_cons_self)).mpr
              ⟨hfits, hdir, he, Bool.eq_true_of_not_eq_false hnamed⟩] at hend
            cases hend
          by_cases hrest : rest = []
          · rw [hrest] at hsplit
            exact ⟨_, .missing hsplit hd hfits hdir hno⟩
          · exact ⟨_, .notFound hsplit hd hfits (Or.inr ⟨hno, hrest⟩)⟩
    · exact ⟨_, .badPath hsplit hd (Nat.le_of_not_lt hfits)⟩

theorem answers_iff (hw : WellFormedTree m N) (h0 : (0 : BitVec 8) ∉ path) :
    Answers m path w ↔ w = answer ((dirTree m).resolve none rootFile (components path)) := by
  constructor
  · exact answers_eq hw h0
  · rintro rfl
    obtain ⟨w, h⟩ := answers_exists hw h0
    exact answers_eq hw h0 h ▸ h

/-! ## The walk -/

theorem Mounted.root_cached (h : Mounted s N) : Cached s rootFile := by
  apply mappedOn_block h.superMapped
  · rw [rootFile_eq]
    omega
  · rw [rootFile_eq, BY2FILE]
    omega

/-- `walk_path` answers with where the path led when the lookups began. -/
theorem walkPath_ends (hg : DirGraph s₀.blocks N) (hl : Looked s₀ s N) (h0 : (0 : BitVec 8) ∉ path)
    (hclean : CleanFrom s₀ rootFile (components path)) :
    (walkPath path).Ends s
      (fun w s' => w = answer ((dirTree s₀.blocks).resolve none rootFile (components path)) ∧
        Looked s₀ s' N ∧ ∀ d name, (dirTree s₀.blocks).resolve none rootFile (components path) =
          .missing d name → Searched s₀ s' d)
      (fun _ _ => False) (OutOfMem s₀) := by
  have hskip : components (skipSlash path) = components path := pieces_dropWhile
  have hskip0 : (0 : BitVec 8) ∉ skipSlash path := fun hmem => h0 ((List.dropWhile_sublist _).subset hmem)
  have hroot : sRoot s.super = rootFile := by rw [hl.mounted.super, rootFile]
  have hloop := walkLoop_ends hg none (atName_skipSlash path) hskip0 (skipSlash_length path) hl
    .root hl.mounted.root_cached (hskip ▸ hclean)
  rw [hskip] at hloop
  rw [walkPath]
  apply Ends.bind_ret (get_apply s)
  rw [hroot]
  exact hloop

theorem WellFormedTree.clean (hw : WellFormedTree s.blocks N) (hd : InTree s.blocks d)
    (hp : ∀ name ∈ names, ProperName name) : CleanFrom s d names := by
  induction names generalizing d with
  | nil => trivial
  | cons name names ih =>
      intro hfits hdir
      have hsmall := hw.small d hd hdir
      rw [NINDIRECT] at hsmall
      constructor
      · intro k hk _
        refine ⟨hw.full d k hd hdir hk, fun hlast => ?_⟩
        rw [NINDIRECT] at hlast
        omega
      · intro f hf
        have hproper := hp name List.mem_cons_self
        exact ih (.entry hd hdir ((lookup_iff hw hd hdir hproper).mp hf).1)
          fun n hn => hp n (List.mem_cons_of_mem _ hn)

/-- From `s` to `s'` a walk has answered `w`, and left alone what paths depend on. -/
structure WalkMeets (s s' : Fs) (N : Nat) (path : List (BitVec 8)) (w : WalkResult) : Prop where
  answers : ∀ w', Answers s.blocks path w' ↔ w' = w
  pointers : ∀ f i, InTree s.blocks f → blockNo s'.blocks f i = blockNo s.blocks f i
  tables : ∀ f, InTree s.blocks f → tableOf s'.blocks f = tableOf s.blocks f
  sizes : ∀ f, InTree s.blocks f → s'.blocks.ld32 (fSize f) = s.blocks.ld32 (fSize f)
  bits : ∀ b, b < N → freeBit s'.blocks b = freeBit s.blocks b
  others : ButDir s.blocks s'.blocks
  disk : s'.disk = s.disk

/-- How a walk from `s` can end: it stops only for want of memory for a block. -/
structure PathEnds (s : Fs) (N : Nat) (name path : List (BitVec 8)) : Prop where
  returned : ∀ w s', walkPathBuf name path s = .ret w s' → WalkMeets s s' N path w
  failed : ∀ e s', walkPathBuf name path s ≠ .fail e s'
  stopped : ∀ msg, walkPathBuf name path s = .stop msg → OutOfMem s msg

/-- In a well-formed tree `walk_path` gives every path its answer. -/
theorem walk_path_meets (h : Mounted s N) (hw : WellFormedTree s.blocks N)
    (hname : name.length = MAXNAMELEN) (hpath : (0 : BitVec 8) ∉ path) : PathEnds s N name path := by
  have hg := hw.toDirGraph
  have hclean := hw.clean .root fun _ hmem => components_proper hpath hmem
  have hends := walkPath_ends hg (.refl h) hpath hclean
  rw [← walkPathBuf_eq hname hpath] at hends
  refine ⟨fun w s' hret => ?_, fun e s' hfail => hends.fail_of hfail, fun msg hstop => hends.stop_of hstop⟩
  obtain ⟨rfl, hl, -⟩ := hends.ret_of hret
  exact {
    answers := fun w' => answers_iff hw hpath
    pointers := fun f i hf => hl.butDir.blockNo_eq hg hf i
    tables := fun f hf => hl.butDir.tableOf_eq hg hf
    sizes := fun f hf => hl.butDir.size_eq hg hf
    bits := fun b hb => hl.butDir.bits hg hb
    others := hl.butDir
    disk := hl.disk }

/-! ### A root with one file -/

/-- The root has one block, block 5, and in it the file `"a"`. -/
def treeMem : ByteMem :=
  (((smallMem 5 0).st32 (fSize rootFile) 4096).st32 (fType rootFile) FTYPE_DIR).st8 (dirEntryAt 5 0) 97

def treeFs : Fs := { smallFs 5 0 with mem := treeMem }

theorem treeFs_mounted : Mounted treeFs 64 where
  super := rfl
  bitmap := rfl
  nblocks := by decide
  le := by decide
  superMapped := rfl
  bitmapMapped _ _ := rfl

theorem treeMem_entry (h : EntryOf treeMem rootFile e) : e = dirEntryAt 5 0 := by
  obtain ⟨i, j, hi, -, hj, rfl, hused⟩ := h
  have hone : blockCount treeMem rootFile = 1 := by decide
  have hi0 : i = 0 := by omega
  have hno : blockNo treeMem rootFile 0 = 5 := by decide
  have hfirst : ∀ j, j < FILE2BLK → treeMem (dirEntryAt 5 j) ≠ 0 → j = 0 := by decide
  rw [hi0, hno] at hused ⊢
  rw [hfirst j hj hused]

/-- The root, and the file in it. -/
theorem treeMem_inTree (h : InTree treeMem f) : f = rootFile ∨ f = dirEntryAt 5 0 := by
  induction h with
  | root => exact Or.inl rfl
  | entry _ hdir he ih =>
      have hfile : isDir treeMem (dirEntryAt 5 0) = false := by decide
      rcases ih with rfl | rfl
      · exact Or.inr (treeMem_entry he)
      · rw [hfile] at hdir
        cases hdir

theorem treeMem_dir (h : InTree treeMem d) (hdir : isDir treeMem d = true) : d = rootFile := by
  have hfile : isDir treeMem (dirEntryAt 5 0) = false := by decide
  rcases treeMem_inTree h with rfl | rfl
  · rfl
  · rw [hfile] at hdir
    cases hdir

theorem treeMem_block (h : i < blockCount treeMem rootFile) : blockNo treeMem rootFile i = 5 := by
  have hone : blockCount treeMem rootFile = 1 := by decide
  have hno : blockNo treeMem rootFile 0 = 5 := by decide
  have hi0 : i = 0 := by omega
  rw [hi0, hno]

theorem treeMem_table (h : InTree treeMem f) : tableOf treeMem f = 0 := by
  rcases treeMem_inTree h with rfl | rfl
  · decide
  · decide

theorem treeMem_wellFormed : WellFormedTree treeMem 64 where
  block d i hd hdir hi _ := by
    rw [treeMem_dir hd hdir] at hi ⊢
    rw [treeMem_block hi]
    exact ⟨by decide, by decide, by decide⟩
  table f hf h0 := absurd (treeMem_table hf) h0
  apart f _ _ hf _ _ _ h0 := absurd (treeMem_table hf) h0
  small d hd hdir := by
    rw [treeMem_dir hd hdir]
    decide
  full d i hd hdir hi := by
    rw [treeMem_dir hd hdir] at hi ⊢
    rw [treeMem_block hi]
    decide
  terminated d e hd hdir he := by
    rw [treeMem_dir hd hdir] at he
    rw [treeMem_entry he]
    exact ⟨1, by decide, by decide⟩
  unique d e e' _ hd hdir he he' _ _ := by
    rw [treeMem_dir hd hdir] at he he'
    rw [treeMem_entry he, treeMem_entry he']

def treeName : List (BitVec 8) := List.replicate MAXNAMELEN 255

/-- Looking up `"/a"`. -/
theorem treeFs_walk : PathEnds treeFs 64 treeName [47, 97] :=
  walk_path_meets treeFs_mounted treeMem_wellFormed List.length_replicate (by decide)

end RpiMos
