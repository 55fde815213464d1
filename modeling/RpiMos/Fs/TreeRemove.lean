/-
  RpiMos.Fs.TreeRemove

  `file_remove` on the tree of files: the file that the path leads to loses its
  blocks and its name, and what was in it is gone with it.
-/

import RpiMos.Fs.TreeLookup

namespace RpiMos

open Lib Prog BlockTree

variable {s s' s₁ s₂ s₃ : Fs} {N d f k : Nat} {m m' : ByteMem} {path : List (BitVec 8)} {par : Option Nat}

/-! ## A file without blocks and name -/

/-- Of file `f` nothing is left but its type and `f_dir`. -/
structure Emptied (m m' : ByteMem) (N f : Nat) : Prop where
  within : Within (Footprint m N f) m m'
  name : m' f = 0
  size : m'.ld32 (fSize f) = 0
  dir : ByteMem.Same m m' (fDir f) 8

theorem Emptied.removal (h : Emptied m m' N f) (hw : Wf (fsShape N) (fileTree m)) (hf : KnownIn m N f) :
    Removal (fsShape N) (fileTree m) (fileTree m') f where
  rest := Within.rest hw hf h.within
  named hn := hn h.name
  nblk := by
    show blockCount m' f = 0
    rw [blockCount, h.size]
    decide
  up := congrArg BitVec.toNat h.dir.ld64

theorem Emptied.high (h : Emptied m m₁ N f) (hf : DISKMAP ≤ f) (hh : ∀ x, DISKMAP ≤ x → m' x = m₁ x) :
    Emptied m m' N f where
  within := h.within.high hh
  name := (hh f hf).trans h.name
  size := ((same_high hh (by rw [fSize]; omega) : ByteMem.Same m₁ m' (fSize f) 4).ld32).trans h.size
  dir x hlo hhi := (hh x (by rw [fDir_eq] at hlo; omega)).trans (h.dir x hlo hhi)

/-- File `f` has been removed, and blocks may have been written out. -/
structure FileRemoved (N : Nat) (s s' : Fs) (f : Nat) : Prop where
  tree : TreeOk s' N
  steady : Steady s s'
  emptied : Emptied s.blocks s'.blocks N f

section Remove

variable (h : TreeOk s N) (hf : EntryIn s.blocks N d f) (hh : Held s N f)
  (hn : blockCount s.blocks f < NINDIRECT)

include h hf hh

/-- The name goes last. -/
theorem unname_tree (hcut : Cut N s s₁ f 0) (hb : Became s₁ s₂ (s₁.blocks.st32 (fSize f) 0)) :
    ∃ s₃, store8 f 0 s₂ = .ret () s₃ ∧ TreeOk s₃ N ∧ Steady s s₃ ∧ Emptied s.blocks s₃.blocks N f := by
  have hk := hf.known
  have hw : Within (SizeWord f) s₁.blocks s₂.blocks := by
    rw [hb.blocks]
    exact st32_within 0
  have hs : Sized N s s₂ f 0 0 := hcut.sized h hk hh.cached ⟨rfl, hb.disk, hb.steady⟩ hw
    (by rw [hb.blocks, ByteMem.ld32_st32])
  have hm : s₂.MappedOn f 1 :=
    (hh.cached.steady hs.steady : s₂.MappedOn f BY2FILE).mono (le_refl f) (by rw [BY2FILE]; omega)
  obtain ⟨s₃, hstore, hb₃⟩ := store8_blocks (v := 0) hm
  have hlast : Within (fun x => x = f) s₂.blocks s₃.blocks := by
    intro x hx
    by_contra hne
    rw [hb₃.blocks, ByteMem.st8, if_neg hne] at hx
    exact hx rfl
  have hsame : ∀ a n, f < a → ByteMem.Same s₂.blocks s₃.blocks a n := fun a n ha =>
    hlast.same fun x hlo _ hx => by omega
  have hem : Emptied s.blocks s₃.blocks N f := by
    refine ⟨fun x hx => ?_, ?_, ?_, fun x hlo hhi => ?_⟩
    · by_cases hmid : s₂.blocks x = s.blocks x
      · have hxf := hlast x (hmid ▸ hx)
        exact .file (by omega) (by rw [BY2FILE]; omega)
      · exact hs.within x hmid
    · rw [hb₃.blocks, ByteMem.st8, if_pos rfl]
    · rw [(hsame (fSize f) 4 (by rw [fSize]; omega)).ld32, hs.size]
    · rw [hsame (fDir f) 8 (by rw [fDir_eq]; omega) x hlo hhi]
      exact hs.head.dir x hlo hhi
  refine ⟨s₃, hstore, ⟨?_, ?_⟩, hs.steady.trans _ _ _ hb₃.steady, hem⟩
  · refine hs.mounted.became hb₃ (ByteMem.same_st8 0 ?_)
    have hp := (h.wf.placed hk).super_lt
    omega
  · have hplace : ∀ {x}, InBitmap N x → x ≠ f := fun hx heq =>
      (h.wf.placed hk).not_bitmap (le_refl f) (by rw [BY2FILE]; omega) (heq ▸ hx)
    have hptr : PtrEditIn s.blocks s₃.blocks N f := by
      refine PtrEdit.congr (hs.ptrs h hk hh.cached) (fun p hp => ptrs_same (hsame _ _ (by omega)) (fun h0 => ?_) hp)
        fun b hb => ?_
      · -- The table is no block that the file is in.
        refine hlast.same fun x hlo hhi hx => ?_
        have hval : tableOf s₂.blocks f = tableOf s.blocks f := by
          obtain ⟨s₁', hcut', hw'⟩ := hs.cut
          have h₁ : tableOf s₂.blocks f = tableOf s₁'.blocks f :=
            (h.cut_fileOk hk hh.cached hcut').size_ptrs hw' (p := .ind f) rfl
          rw [h₁] at h0 ⊢
          exact (hcut'.shrunk.subs (.ind f) rfl).resolve_right h0
        rw [hval] at h0 hlo hhi
        exact (h.fileOk hk hh.cached).apart h0 x (by omega) (by rw [BY2FILE]; omega) ⟨hlo, by rw [BY2BLK]; omega⟩
      · show freeBit s₃.blocks b = false ↔ freeBit s₂.blocks b = false
        rw [hlast.freeBit (fun x hx => hplace hx) hb]
    exact Wf.removal h.wf (hem.removal h.wf hk) hf hptr

include hn

/-- Everything that `file_remove` does once the file is found. -/
theorem removeFile_tree : (fileTruncate f 0 >>= fun _ => store8 f 0 >>= fun _ => fileFlush f >>= fun _ =>
    flushDir f).Ends s (fun _ s' => FileRemoved N s s' f) (fun _ _ => False) AnyStop := by
  have hk := hf.known
  refine Ends.bind (fileTruncate_ends h hk hh.cached hn) ?_
  rintro u s₂ ⟨s₁, hcut, hb⟩
  obtain ⟨s₃, hstore, htree, hst, hem⟩ := unname_tree h hf hh hcut hb
  have hr := hem.removal h.wf hk
  have hc₃ := hh.cached.steady hst
  -- The directory is still there, and the file in it.
  have hlive : LiveIn s₃.blocks N d := (hr.live_iff h.wf hf).mpr ⟨hf.1, h.wf.not_under hf.1 hf⟩
  have hent : EntryIn s₃.blocks N d f := by
    obtain ⟨hd, hdir, k, j, hk', hj, heq⟩ := hf
    have hs := hr.rest d hd.known fun hdf => h.wf.entry_irrefl hd ⟨hd, hdir, k, j, hk', hj, hdf.trans heq⟩
    exact ⟨hlive, hs.isDir.mpr hdir, k, j, by rwa [hs.nblk], hj, by rw [hs.slot]; exact heq⟩
  have hok := htree.fileOk hent.known hc₃
  have hcount : blockCount s₃.blocks f = 0 := hr.nblk
  apply Ends.bind_ret hstore
  refine Ends.bind ((fileFlush_ends hok (by rw [hcount, NINDIRECT]; omega)).mono (fun _ _ h => h.1) (fun _ _ h => h)
    fun _ h => h) fun u s₄ hs₄ => ?_
  have htree₄ := htree.wroteOut hs₄
  have hup : dirOf s₄.blocks f = dirOf s.blocks f :=
    (fileSame_high hs₄.blocks hok.placed.high).up.trans hr.up
  have hsame := fileSame_high hs₄.blocks (htree.wf.placed hlive.known).high
  have hlive₄ : LiveIn s₄.blocks N d := by
    have hups : UpEdit (fsShape N) (fileTree s₃.blocks) (fileTree s₄.blocks) :=
      .of_same (fun g hg => fileSame_high hs₄.blocks (htree.wf.placed hg).high) fun b _ => by
        show freeBit s₄.blocks b = false ↔ freeBit s₃.blocks b = false
        rw [freeBit_high hs₄.blocks]
    exact hups.live.mpr hlive
  have hdir₄ : isDir s₄.blocks d = true := hsame.isDir.mpr hent.2.1
  refine (flushDir_ends (hok.wroteOut hs₄) fun h0 => ?_).mono ?_ (fun _ _ h => h) fun _ h => h
  · rw [hup] at h0 ⊢
    have hd : dirOf s.blocks f = d := h.wf.entry_unique (h.dir_known hh.live h0) hf
    have hcd := hh.dir h0
    rw [hd] at hcd ⊢
    have hshort : blockCount s₄.blocks d + 1 < NINDIRECT := htree₄.wf.dirs.short d hlive₄ hdir₄
    exact ⟨htree₄.fileOk hlive₄.known ((hcd.steady hst).steady hs₄.steady), by omega⟩
  · rintro u s' ⟨hs', -⟩
    have hall := hs₄.trans hs'
    exact ⟨htree.wroteOut hall, hst.trans _ _ _ hall.steady, hem.high hok.placed.high hall.blocks⟩

end Remove

/-! ## `file_remove` -/

/-- The path leads to file `f`. -/
def PathTo (m : ByteMem) (path : List (BitVec 8)) (f : Nat) : Prop :=
  ∃ par, (dirTree m).resolve none rootFile (components path) = .found par f

theorem answer_found {res : Resolution Nat (List (BitVec 8))} (h : (answer res).r.slt 0 = false) :
    ∃ par f, res = .found par f := by
  cases res with
  | found par f => exact ⟨par, f, rfl⟩
  | unfit => exact absurd h (by decide)
  | missing d name => exact absurd h (by decide : ¬ (-E_NOT_FOUND : U32).slt 0 = false)
  | nowhere => exact absurd h (by decide)

/-- The path was walked to file `f`, and what may follow is known of it. -/
structure PathFound (N : Nat) (s s' : Fs) (path : List (BitVec 8)) (f : Nat) : Prop where
  leads : PathTo s.blocks path f
  climbed : Climbed N s s'
  looked : Looked s s' N
  reached : Reached s' N f

/-- The path leads nowhere. -/
structure PathLost (N : Nat) (s s' : Fs) (path : List (BitVec 8)) : Prop where
  no : ∀ f, ¬ PathTo s.blocks path f
  climbed : Climbed N s s'
  looked : Looked s s' N

/-- `walk_path`, and what is done only when it finds the file. -/
theorem walkPath_opens {α : Type} {p : Nat → FsM α} {Q : α → Fs → Prop} {E : U32 → Fs → Prop} (h : TreeOk s N)
    (h0 : (0 : BitVec 8) ∉ path) (hno : ∀ r s', PathLost N s s' path → E r s')
    (hp : ∀ f s', PathFound N s s' path f → (p f).Ends s' Q E AnyStop) :
    (walkPath path >>= fun w => if w.r.slt 0 then Prog.throw w.r else p w.pfile).Ends s Q E AnyStop := by
  refine Ends.bind ((walkPath_tree h h0).mono (fun _ _ h => h) (fun _ _ h => h.elim) fun _ h => h) ?_
  intro w s₁ hw
  cases hneg : w.r.slt 0 with
  | true =>
      rw [if_pos rfl]
      refine Ends.of_fail rfl (hno _ _ ⟨fun f hf => ?_, hw.climbed, hw.looked⟩)
      obtain ⟨par, hres⟩ := hf
      rw [hw.answer, hres] at hneg
      cases hneg
  | false =>
      rw [if_neg Bool.false_ne_true]
      have hans := hw.answer
      rw [hans] at hneg
      obtain ⟨par, f, hres⟩ := answer_found hneg
      rw [hres] at hans
      have hr : w.r = 0 := by rw [hans]; rfl
      have hf : w.pfile = f := by rw [hans]; rfl
      rw [hf]
      exact hp f s₁ ⟨⟨par, hres⟩, hw.climbed, hw.looked, hf ▸ hw.file hr⟩

theorem fileOpen_tree (h : TreeOk s N) (h0 : (0 : BitVec 8) ∉ path) :
    (fileOpen path).Ends s (fun f s' => PathFound N s s' path f) (fun _ s' => PathLost N s s' path) AnyStop :=
  walkPath_opens h h0 (fun _ _ hno => hno) fun _ _ ho => Ends.of_ret rfl ho

theorem fileRemove_tree (h : TreeOk s N) (h0 : (0 : BitVec 8) ∉ path)
    (hfit : ∀ f, PathTo s.blocks path f → f ≠ rootFile ∧ blockCount s.blocks f < NINDIRECT) :
    (fileRemove path).Ends s (fun _ s' => ∃ f s₁, PathFound N s s₁ path f ∧ FileRemoved N s₁ s' f)
      (fun _ s' => PathLost N s s' path) AnyStop := by
  refine walkPath_opens (p := fun f => fileTruncate f 0 >>= fun _ => store8 f 0 >>= fun _ => fileFlush f >>=
    fun _ => flushDir f) h h0 (fun _ _ hno => hno) fun f s₁ ho => ?_
  obtain ⟨hne, hcount⟩ := hfit f ho.leads
  obtain ⟨d, hent⟩ := ho.reached.live.known.resolve_left hne
  have hsame : blockCount s₁.blocks f = blockCount s.blocks f :=
    (ho.climbed.ups.same f (ho.climbed.ups.known.mp hent.known)).nblk
  exact (removeFile_tree ho.climbed.tree hent (ho.reached.held ho.climbed.tree) (by rw [hsame]; exact hcount)).mono
    (fun _ s' hr => ⟨f, s₁, ho, hr⟩) (fun _ _ h => h.elim) fun _ h => h

end RpiMos
