/-
  RpiMos.Fs.TreeLookup

  `dir_lookup` and `walk_path` on the tree of files: all that they write is `f_dir` of
  files that they find, to the directory the file was found in.
-/

import RpiMos.Fs.TreeTruncate

namespace RpiMos

open Lib Prog BlockTree

variable {s s' s₁ s₂ : Fs} {N d e f g k j i n : Nat} {m m' : ByteMem} {name path : List (BitVec 8)}
  {names : List (List (BitVec 8))}

/-! ## Blocks of a directory -/

theorem TreeOk.present (h : TreeOk s N) (hd : LiveIn s.blocks N d) (hdir : isDir s.blocks d = true)
    (hi : i < blockCount s.blocks d) : Present s d i := by
  have hshort : blockCount s.blocks d + 1 < NINDIRECT := h.wf.dirs.short d hd hdir
  exact ⟨h.wf.dirs.dense d i hd hdir hi, fun hlast => absurd hlast (by omega)⟩

/-- From `s` to `s'` one block has been read; it is in the cache. -/
structure BlockRead (N : Nat) (s s' : Fs) (b blk : Nat) : Prop where
  addr : blk = blockAddr b
  mapped : s'.mapped (blockPage b) = true
  moved : Moved N s s' s.blocks

/-- Block `i` of a directory is read, and none is taken. -/
theorem TreeOk.dirBlock (h : TreeOk s N) (hd : LiveIn s.blocks N d) (hdir : isDir s.blocks d = true)
    (hc : Cached s d) (hi : i < blockCount s.blocks d) :
    (fileGetBlock d (BitVec.ofNat 32 i)).Ends s
      (fun blk s' => BlockRead N s s' (blockNo s.blocks d i) blk) (fun _ _ => False) AnyStop := by
  have hshort : blockCount s.blocks d + 1 < NINDIRECT := h.wf.dirs.short d hd hdir
  have hnat : (BitVec.ofNat 32 i).toNat = i := by
    rw [NINDIRECT] at hshort
    rw [BitVec.toNat_ofNat, Nat.mod_eq_of_lt (by omega)]
  have hloads := fileGetBlock_ends h.wf.dirGraph (h.wf.inTree_iff.mpr hd) hdir hi (.refl h.mounted) hc
    (h.present hd hdir hi)
  have hreach : (fileGetBlock d (BitVec.ofNat 32 i)).Ends s _ _ _ :=
    fileGetBlock_reaches (h.fileOk hd.known hc) (by rw [hnat]; omega)
  refine (hloads.and hreach).mono ?_ (fun _ _ h => h.1) fun _ h => h.2
  rintro blk s' ⟨hr, s₁, b, hmap, hm, -⟩
  obtain ⟨mid, hslot, hslot', -, -⟩ := hmap.walk
  have hfirst : FreeKept N s mid := by
    cases hslot.reach with
    | had hm => exact hm.kept
    | handed _ _ _ hm => exact hm.kept
  have hsecond : FreeKept N mid s₁ := by
    cases hslot' with
    | had hm => exact hm.kept
    | handed _ _ _ hm => exact hm.kept
  exact ⟨hr.addr, hr.mapped, hr.loads.became, (hfirst.trans hsecond).trans hm.kept⟩

/-- On the way from the root no block is missing. -/
theorem TreeOk.clean (h : TreeOk s N) (hd : LiveIn s.blocks N d) (hp : ∀ name ∈ names, ProperName name) :
    CleanFrom s d names := by
  induction names generalizing d with
  | nil => trivial
  | cons name names ih =>
      intro _ hdir
      refine ⟨fun k hk _ => h.present hd hdir hk, fun f hf => ih ?_ fun n hn =>
        hp n (List.mem_cons_of_mem _ hn)⟩
      obtain ⟨i, hi, hfind⟩ := lookupEntry_some hf
      obtain ⟨hnamed, j, hj, rfl⟩ := findIn_some hfind
      have hproper := hp name List.mem_cons_self
      exact .entry hd hdir hi hj (named_ne_zero hnamed hproper.1 hproper.2)

/-! ## `f_dir` -/

/-- From `s` to `s'` blocks have been loaded, and `f_dir` has been set. -/
structure Climbed (N : Nat) (s s' : Fs) : Prop where
  tree : TreeOk s' N
  moved : Moved N s s' s'.blocks
  ups : UpEdit (fsShape N) (fileTree s.blocks) (fileTree s'.blocks)

theorem Climbed.of_loads (h : TreeOk s N) (hm : Moved N s s' s.blocks) : Climbed N s s' where
  tree := h.loads hm
  moved := ⟨⟨rfl, hm.disk, hm.steady⟩, hm.kept⟩
  ups := by
    rw [hm.blocks]
    exact .refl _ _

theorem Climbed.trans (h : Climbed N s s₁) (h' : Climbed N s₁ s₂) : Climbed N s s₂ where
  tree := h'.tree
  moved := h.moved.trans h'.moved
  ups := h.ups.trans h'.ups

theorem Placed.lt (h : Placed N f) (hN : N ≤ 262144) : f < 2 ^ 64 := by
  rcases h with rfl | ⟨b, j, -, hb, hj, rfl⟩
  · rw [rootFile_eq, blockAddr_eq]
    omega
  · rw [FILE2BLK] at hj
    rw [entryAt_eq]
    omega

/-- `f->f_dir = dir` for a file in the directory. -/
theorem TreeOk.setDir (h : TreeOk s N) (he : EntryIn s.blocks N d e) (hc : Cached s e) :
    Climbed N s { s with mem := s.mem.st64 (fDir e) (BitVec.ofNat 64 d) } := by
  have hok := h.fileOk he.known hc
  have hm : s.MappedOn (fDir e) 8 :=
    hok.head_mapped (by rw [fDir_eq]; omega) (by rw [fDir_eq, BY2FILE]; omega)
  have hw : Writable s.blocks N (fDir e) 8 :=
    hok.writable.mono (by rw [fDir_eq]; omega) (by rw [fDir_eq, BY2FILE]; omega)
  have hmoved : Moved N s { s with mem := s.mem.st64 (fDir e) (BitVec.ofNat 64 d) }
      (s.blocks.st64 (fDir e) (BitVec.ofNat 64 d)) := by
    refine moved_store (g := fun m => m.st64 (fDir e) (BitVec.ofNat 64 d)) hm hw
      (fun m m' x hlo hhi => ?_) fun m x hx => ?_
    · simp only [ByteMem.st64, ByteMem.st32]
      split
      · rfl
      · rw [if_pos (by omega), if_pos (by omega)]
    · exact ByteMem.same_st64 (n := 1) _ (by omega) x (le_refl x) (by omega)
  generalize ({ s with mem := s.mem.st64 (fDir e) (BitVec.ofNat 64 d) } : Fs) = s' at *
  generalize hm' : s.blocks.st64 (fDir e) (BitVec.ofNat 64 d) = m' at *
  have hin : Within (fun x => fDir e ≤ x ∧ x < fDir e + 8) s.blocks m' := by
    intro x hx
    by_contra hout
    rw [← hm', ByteMem.same_st64 (n := 1) _ (by omega) x (le_refl x) (by omega)] at hx
    exact hx rfl
  have hprint : Within (Footprint s.blocks N e) s.blocks m' := by
    intro x hx
    obtain ⟨hlo, hhi⟩ := hin x hx
    rw [fDir_eq] at hlo hhi
    exact .file (by omega) (by rw [BY2FILE]; omega)
  have hrest := Within.rest h.wf he.known hprint
  have hup : dirOf m' e = d := by
    have hlt := (h.wf.placed he.1.known).lt h.mounted.lt
    rw [dirOf, ← hm', ByteMem.ld64_st64, BitVec.toNat_ofNat, Nat.mod_eq_of_lt hlt]
  have hself : FileSame (fileTree s.blocks) { fileTree m' with up := (fileTree s.blocks).up } e := by
    have hsame : ∀ a n, (a + n ≤ fDir e ∨ fDir e + 8 ≤ a) → ByteMem.Same s.blocks m' a n :=
      fun a n hout => hin.same fun x hlo hhi hx => by omega
    have hfields : isDir m' e = isDir s.blocks e := by
      rw [isDir, isDir, (hsame (fType e) 4 (by rw [fType, fDir_eq]; omega)).ld32]
    have hval : ∀ {p : Ptr}, p.file = e → (fileTree m').val p = (fileTree s.blocks).val p := by
      refine fun hp => ptrs_same (hsame _ _ (by rw [fDir_eq]; omega)) (fun h0 => ?_) hp
      refine hin.same fun x hlo hhi hx => ?_
      rw [fDir_eq] at hx
      exact hok.apart h0 x (by omega) (by rw [BY2FILE]; omega) ⟨hlo, by rw [BY2BLK]; omega⟩
    refine ⟨?_, ?_, ?_, hval (p := .ind e) rfl, fun k => hval (p := .slot e k) rfl, rfl⟩
    · show isDir m' e = true ↔ isDir s.blocks e = true
      rw [hfields]
    · show m' e ≠ 0 ↔ s.blocks e ≠ 0
      rw [hsame e 1 (by rw [fDir_eq]; omega) e (le_refl e) (by omega)]
    · show blockCount m' e = blockCount s.blocks e
      rw [blockCount, blockCount, (hsame (fSize e) 4 (by rw [fSize, fDir_eq]; omega)).ld32]
  have hne : e ≠ rootFile := h.wf.entry_ne_root he
  have hbits : ∀ b, b < N → freeBit m' b = freeBit s.blocks b := fun b hb =>
    hin.freeBit (fun x hx hd => hw.bitmap x hd.1 hd.2 hx) hb
  have hedit : UpEdit (fsShape N) (fileTree s.blocks) (fileTree m') := by
    refine ⟨fun g hg => ?_, (hrest rootFile (Or.inl rfl) hne.symm).up, fun d' g hg => ?_, fun b hb => ?_⟩
    · by_cases hge : g = e
      · rw [hge]
        exact hself
      · have hs := hrest g hg hge
        exact ⟨hs.isDir, hs.named, hs.nblk, hs.ind, hs.slot, rfl⟩
    · by_cases hge : g = e
      · subst hge
        rw [h.wf.entry_unique hg he]
        exact Or.inr hup
      · exact Or.inl (hrest g hg.known hge).up
    · show freeBit m' b = false ↔ freeBit s.blocks b = false
      rw [hbits b hb]
  have hback : s'.blocks = m' := hmoved.blocks
  refine ⟨⟨h.mounted.moved hmoved hin hw, ?_⟩, ⟨⟨rfl, hmoved.disk, hmoved.steady⟩, hmoved.kept⟩, ?_⟩
  · rw [hback]
    exact Wf.upEdit h.wf hedit
  · rw [hback]
    exact hedit

/-! ## `dir_lookup` -/

/-- A file that was found: it and the directory it is in are in the cache. -/
structure FoundIn (N : Nat) (s s' : Fs) (d e : Nat) : Prop where
  climbed : Climbed N s s'
  entry : EntryIn s.blocks N d e
  named : s.blocks e ≠ 0
  cached : Cached s' e

section Directory

variable (hdir : isDir s.blocks d = true) (hname : name.length < MAXNAMELEN) (hp : ProperName name)

include hdir hname hp

/-- The blocks from `i` on; the induction is on the number of them. -/
theorem dirLookupBlocks_tree (h : TreeOk s N) (hd : LiveIn s.blocks N d) (hc : Cached s d)
    (hn : i + n = blockCount s.blocks d) :
    (dirLookupBlocks d name n i).Ends s (fun e s' => FoundIn N s s' d e)
      (fun r s' => r = -E_NOT_FOUND ∧ Climbed N s s') AnyStop := by
  induction n generalizing s i with
  | zero => exact Ends.of_fail rfl ⟨rfl, .of_loads h (.refl N s)⟩
  | succ n ih =>
      have hi : i < blockCount s.blocks d := by omega
      rw [dirLookupBlocks]
      refine Ends.bind ((h.dirBlock hd hdir hc hi).mono (fun _ _ h => h) (fun _ _ h => h.elim)
        fun _ h => h) ?_
      rintro blk s₁ ⟨rfl, hmapped, hm⟩
      have hfirst := Climbed.of_loads h hm
      have hc₁ := hc.steady hm.steady
      have hfiles := dirLookupFiles_found (d := d) hmapped hname
      rw [hm.blocks] at hfiles
      cases hfind : findIn s.blocks (blockNo s.blocks d i) name with
      | none =>
          rw [hfind] at hfiles
          apply Ends.bind_ret hfiles
          have hback : ∀ {t}, Climbed N s₁ t → Climbed N s t := fun ht => hfirst.trans ht
          refine (ih (by rw [hm.blocks]; exact hdir) hfirst.tree (by rw [hm.blocks]; exact hd) hc₁
            (by rw [hm.blocks]; omega)).mono ?_ (fun _ _ h => ⟨h.1, hback h.2⟩) fun _ h => h
          rintro e s' ⟨hclimb, he, hnamed, hce⟩
          rw [hm.blocks] at he hnamed
          exact ⟨hback hclimb, he, hnamed, hce⟩
      | some e =>
          rw [hfind] at hfiles
          obtain ⟨hnamed, j, hj, rfl⟩ := findIn_some hfind
          have he : EntryIn s.blocks N d (dirEntryAt (blockNo s.blocks d i) j) :=
            ⟨hd, hdir, i, j, hi, hj, rfl⟩
          have hce := cached_entry hmapped hj
          have hset := hfirst.tree.setDir (by rw [hm.blocks]; exact he) hce
          apply Ends.bind_ret hfiles
          exact Ends.of_ret rfl ⟨hfirst.trans hset, he, named_ne_zero hnamed hp.1 hp.2,
            hce.steady hset.moved.steady⟩

theorem dirLookup_tree (h : TreeOk s N) (hd : LiveIn s.blocks N d) (hc : Cached s d) :
    (dirLookup d name).Ends s (fun e s' => FoundIn N s s' d e)
      (fun r s' => r = -E_NOT_FOUND ∧ Climbed N s s') AnyStop := by
  rw [dirLookup]
  apply Ends.bind_ret (h.fileOk hd.known hc).fileBlocks
  exact dirLookupBlocks_tree hdir hname hp h hd hc (Nat.zero_add _)

end Directory

/-! ## `walk_path` -/

/-- Where a walk has come to: the file and the directory it is in are in the cache. -/
structure Reached (s : Fs) (N f : Nat) : Prop where
  live : LiveIn s.blocks N f
  cached : Cached s f
  dir : f = rootFile ∨ ∃ d, EntryIn s.blocks N d f ∧ Cached s d

theorem Reached.held (h : TreeOk s N) (hr : Reached s N f) : Held s N f := by
  refine ⟨hr.live, hr.cached, fun h0 => ?_⟩
  have he := h.dir_known hr.live h0
  rcases hr.dir with rfl | ⟨d, hd, hc⟩
  · exact absurd rfl (h.wf.entry_ne_root he)
  · rw [h.wf.entry_unique he hd]
    exact hc

theorem TreeOk.root_reached (h : TreeOk s N) : Reached s N rootFile :=
  ⟨.root, h.mounted.root_cached, Or.inl rfl⟩

theorem walkLoop_tree (h : TreeOk s N) (hpath : AtName path) (h0 : (0 : BitVec 8) ∉ path)
    (hn : path.length ≤ n) (hf : Reached s N f) :
    (walkLoop n path d f).Ends s (fun w s' => Climbed N s s' ∧ (w.r = 0 → Reached s' N w.pfile))
      (fun _ _ => False) AnyStop := by
  induction n generalizing path s d f with
  | zero =>
      cases path with
      | nil => exact Ends.of_ret rfl ⟨.of_loads h (.refl N s), fun _ => hf⟩
      | cons c cs => exact absurd hn (Nat.not_succ_le_zero _)
  | succ n ih =>
      cases path with
      | nil => exact Ends.of_ret rfl ⟨.of_loads h (.refl N s), fun _ => hf⟩
      | cons c cs =>
          have hslash := hpath c cs rfl
          rw [walkLoop]
          have hname : (c :: cs).takeWhile (fun c => c != slash) ≠ [] := by
            rw [List.takeWhile_cons_of_pos (by simpa [isSlash] using hslash)]
            exact List.cons_ne_nil _ _
          have hname0 : (0 : BitVec 8) ∉ (c :: cs).takeWhile (fun c => c != slash) :=
            fun hmem => h0 ((List.takeWhile_sublist _).subset hmem)
          have hrest0 : (0 : BitVec 8) ∉ skipSlash ((c :: cs).dropWhile fun c => c != slash) :=
            fun hmem => h0 ((List.dropWhile_sublist _).subset ((List.dropWhile_sublist _).subset hmem))
          have hrest := rest_length cs hslash
          have hat := atName_skipSlash ((c :: cs).dropWhile fun c => c != slash)
          generalize (c :: cs).takeWhile (fun c => c != slash) = name at *
          generalize skipSlash ((c :: cs).dropWhile fun c => c != slash) = rest at *
          rw [List.length_cons] at hn
          have hstay : ∀ r : U32, r ≠ 0 → ∀ p name, (pure ⟨r, p, 0, name⟩ : FsM WalkResult).Ends s
              (fun w s' => Climbed N s s' ∧ (w.r = 0 → Reached s' N w.pfile)) (fun _ _ => False) AnyStop :=
            fun r hr p name => Ends.of_ret rfl ⟨.of_loads h (.refl N s), fun h0 => absurd h0 hr⟩
          by_cases hlong : MAXNAMELEN ≤ name.length
          · rw [if_pos hlong]
            exact hstay _ (by decide) 0 []
          · rw [if_neg hlong]
            have hm : s.MappedOn (fType f) 4 :=
              hf.cached.mono (by rw [fType]; omega) (by rw [fType, BY2FILE]; omega)
            apply Ends.bind_ret (load32_blocks hm)
            by_cases hdir : s.blocks.ld32 (fType f) = FTYPE_DIR
            · rw [if_neg (not_not.mpr hdir)]
              have hisdir : isDir s.blocks f = true := beq_iff_eq.mpr hdir
              have hlook := dirLookup_tree (N := N) hisdir (Nat.lt_of_not_le hlong) ⟨hname, hname0⟩ h hf.live
                hf.cached
              refine Ends.bind hlook.attempt ?_
              rintro (e | r) s₁ hr
              · obtain ⟨rfl, hclimb⟩ := hr
                have hfail : ∀ p name, (pure ⟨-E_NOT_FOUND, p, 0, name⟩ : FsM WalkResult).Ends s₁
                    (fun w s' => Climbed N s s' ∧ (w.r = 0 → Reached s' N w.pfile))
                    (fun _ _ => False) AnyStop :=
                  fun p name => Ends.of_ret rfl ⟨hclimb, fun h0 => absurd h0 (by decide : ¬ (-E_NOT_FOUND : U32) = 0)⟩
                show Ends (if -E_NOT_FOUND = -E_NOT_FOUND ∧ rest = [] then pure ⟨-E_NOT_FOUND, f, 0, name⟩
                  else pure ⟨-E_NOT_FOUND, 0, 0, []⟩ : FsM WalkResult) s₁ _ _ _
                split
                · exact hfail f name
                · exact hfail 0 []
              · obtain ⟨hclimb, he, hnamed, hce⟩ := hr
                have he₁ : EntryIn s₁.blocks N f r := hclimb.ups.entry.mpr he
                have hlive : LiveIn s₁.blocks N r := hclimb.ups.live.mpr (he.live hnamed)
                refine (ih hclimb.tree hat hrest0 (by omega)
                  ⟨hlive, hce, Or.inr ⟨f, he₁, hf.cached.steady hclimb.moved.steady⟩⟩).mono ?_
                  (fun _ _ h => h) fun _ h => h
                rintro w s' ⟨hrest', hreached⟩
                exact ⟨hclimb.trans hrest', hreached⟩
            · rw [if_pos hdir]
              exact hstay _ (by decide) 0 []

/-- What a walk leaves: what it answers is as before, and the tree is in order. -/
structure PathWalk (N : Nat) (s s' : Fs) (path : List (BitVec 8)) (w : WalkResult) : Prop where
  answer : w = answer ((dirTree s.blocks).resolve none rootFile (components path))
  climbed : Climbed N s s'
  looked : Looked s s' N
  file : w.r = 0 → Reached s' N w.pfile
  parent : ∀ d name, (dirTree s.blocks).resolve none rootFile (components path) = .missing d name →
    Searched s s' d

theorem walkPath_tree (h : TreeOk s N) (h0 : (0 : BitVec 8) ∉ path) :
    (walkPath path).Ends s (fun w s' => PathWalk N s s' path w) (fun _ _ => False) AnyStop := by
  have hclean := h.clean .root fun _ hmem => components_proper h0 hmem
  have hans := walkPath_ends h.wf.dirGraph (.refl h.mounted) h0 hclean
  have hskip0 : (0 : BitVec 8) ∉ skipSlash path := fun hmem => h0 ((List.dropWhile_sublist _).subset hmem)
  have hroot : sRoot s.super = rootFile := by rw [h.mounted.super, rootFile]
  have hloop := walkLoop_tree (d := 0) h (atName_skipSlash path) hskip0 (skipSlash_length path) h.root_reached
  have hwalk : (walkPath path).Ends s (fun w s' => Climbed N s s' ∧ (w.r = 0 → Reached s' N w.pfile))
      (fun _ _ => False) AnyStop := by
    rw [walkPath]
    apply Ends.bind_ret (get_apply s)
    rw [hroot]
    exact hloop
  refine (hans.and hwalk).mono ?_ (fun _ _ h => h.1) fun _ _ => trivial
  rintro w s' ⟨⟨hw, hl, hmissing⟩, hclimb, hfile⟩
  exact ⟨hw, hclimb, hl, hfile, hmissing⟩

end RpiMos
