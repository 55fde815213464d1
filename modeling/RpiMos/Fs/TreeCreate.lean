/-
  RpiMos.Fs.TreeCreate

  `file_create` on the tree of files: an entry without a name is found, or the
  directory gets a block with such entries, and the entry gets the name.
-/

import RpiMos.Fs.TreeRemove

namespace RpiMos

open Lib Prog BlockTree

variable {s s' s₀ s₁ s₂ : Fs} {N d e f b i j k n p : Nat} {m m' : ByteMem} {name path : List (BitVec 8)}
  {ftype : U32}

/-! ## Looking for an entry without a name -/

theorem freeIn_zero (h : freeIn m b = some e) : m e = 0 := by
  unfold freeIn at h
  have hfree := List.find?_some h
  exact beq_iff_eq.mp hfree

section Directory

variable (h : TreeOk s₀ N) (hd : LiveIn s₀.blocks N d) (hdir : isDir s₀.blocks d = true)

include h hd hdir

/-- The blocks of the directory are searched, and only then is it made larger.  The
    induction is on the blocks that are left. -/
theorem dirAllocBlocks_search {Q : Nat → Fs → Prop} {E : U32 → Fs → Prop} (hm : Moved N s₀ s s₀.blocks)
    (hc : Cached s d) (hn : i + n = blockCount s₀.blocks d)
    (hfull : ∀ k, k < i → freeIn s₀.blocks (blockNo s₀.blocks d k) = none)
    (hfound : ∀ e s', Moved N s₀ s' s₀.blocks → EntryIn s₀.blocks N d e → s₀.blocks e = 0 → Cached s' e →
      Q e s')
    (hgrow : ∀ s', Moved N s₀ s' s₀.blocks → Cached s' d → NoFree s₀.blocks d →
      (dirAllocBlocks d 0 (blockCount s₀.blocks d)).Ends s' Q E AnyStop) :
    (dirAllocBlocks d n i).Ends s Q E AnyStop := by
  induction n generalizing s i with
  | zero =>
      rw [Nat.add_zero] at hn
      rw [hn] at hfull ⊢
      exact hgrow s hm hc hfull
  | succ n ih =>
      have hi : i < blockCount s₀.blocks d := by omega
      have hs : TreeOk s N := h.loads hm
      rw [dirAllocBlocks]
      refine Ends.bind ((hs.dirBlock (by rw [hm.blocks]; exact hd) (by rw [hm.blocks]; exact hdir) hc
        (by rw [hm.blocks]; exact hi)).mono (fun _ _ h => h) (fun _ _ h => h.elim) fun _ h => h) ?_
      rintro blk s₁ ⟨rfl, hmapped, hread⟩
      have hm₁ : Moved N s₀ s₁ s₀.blocks := by
        have hboth := hm.trans hread
        rwa [hm.blocks] at hboth
      rw [hm.blocks] at hmapped ⊢
      have hfiles := dirAllocFiles_free hmapped
      rw [hm₁.blocks] at hfiles
      apply Ends.bind_ret hfiles
      cases hfind : freeIn s₀.blocks (blockNo s₀.blocks d i) with
      | none =>
          refine ih hm₁ (hc.steady hread.steady) (by omega) fun k hk => ?_
          by_cases hki : k = i
          · rw [hki]
            exact hfind
          · exact hfull k (by omega)
      | some e =>
          have hfree := freeIn_zero hfind
          obtain ⟨j, hj, rfl⟩ := freeIn_some hfind
          exact Ends.of_ret rfl (hfound _ s₁ hm₁ ⟨hd, hdir, i, j, hi, hj, rfl⟩ hfree (cached_entry hmapped hj))

end Directory

/-! ## A block that no slot names yet -/

/-- A slot that was null, in a file without blocks behind it, gets a block that was free. -/
theorem MapsTo.fresh (h : MapsTo N true s s' f k b) (hk : k + 1 < NINDIRECT) (hf : FileOk s N f)
    (hu : OwnsIn s.blocks N f) (hblank : BlankNext s.blocks s.seen N 2) (hnull : ∀ j, k ≤ j → blockNo s.blocks f j = 0)
    (htable : tableOf s.blocks f ≠ 0 → NDIRECT < k) : firstData N ≤ b ∧ b < N ∧ freeBit s.blocks b = true ∧
      ∀ x, InBlock b x → s'.blocks x = 0 := by
  have hlast : k + 1 = NDIRECT → tableOf s.blocks f = 0 := by
    intro hd
    by_contra h0
    have hlt := htable h0
    omega
  obtain ⟨mid, r, hfirst, hslot, hr, hb⟩ := h.taken hk hf hu (fun _ _ => hblank.pred) (hnull k (le_refl k))
    ⟨hlast, fun _ => hnull (k + 1) (Nat.le_succ k)⟩
  have hblank₁ : BlankNext mid.blocks mid.seen N 1 := by
    cases hslot.reach with
    | had hm => exact (hblank.kept hf.low hm.kept fun b _ => by rw [hm.blocks]).pred
    | handed _ _ hr hm => exact (hblank.handed hf.low hr hf.ind_writable hm.kept).2
  rw [hb]
  refine ⟨hr.data, hr.first.hi, ?_, fun x hx => (hr.inside x hx).trans ((hblank₁ r hr.first).1 x hx)⟩
  by_contra hused
  rw [Bool.not_eq_true] at hused
  have hmid := hfirst.used _ hr.first.hi hused
  rw [hr.first.free] at hmid
  cases hmid

/-! ## A directory that gets a block -/

/-- Directory `d` has got block `b`, which is blank. -/
structure DirGrown (N : Nat) (s s' : Fs) (d b : Nat) : Prop where
  growth : Growth (fsShape N) (fileTree s.blocks) (fileTree s'.blocks) d b
  tree : TreeOk s' N
  moved : Moved N s s' s'.blocks
  within : Within (Footprint s.blocks N d) s.blocks s'.blocks
  head : HeadSame s.blocks s'.blocks d
  lo : firstData N ≤ b
  hi : b < N
  blank : ∀ x, InBlock b x → s'.blocks x = 0
  mapped : s'.mapped (blockPage b) = true

theorem Footprint.congr {x : Nat} (hbits : ∀ b, b < N → freeBit m' b = freeBit m b) (ht : tableOf m' f = tableOf m f)
    (h : Footprint m' N f x) : Footprint m N f x := by
  rcases h with hl | hb | ⟨hb, hlt, hfree, hx⟩ | ⟨hlo, hhi⟩ | ⟨h0, hx⟩
  · exact .low hl
  · exact .bitmap hb
  · exact .free hb hlt ((hbits _ hlt).symm.trans hfree) hx
  · exact .file hlo hhi
  · rw [ht] at h0 hx
    exact .table h0 hx

/-- Entries of a block that is blank. -/
theorem blank_entry (hblank : ∀ x, InBlock b x → m x = 0) (hj : j < FILE2BLK) :
    m (dirEntryAt b j) = 0 ∧ blockCount m (dirEntryAt b j) = 0 ∧
      (∀ p : Ptr, p.file = dirEntryAt b j → (fileTree m).val p = 0) ∧ dirOf m (dirEntryAt b j) = 0 := by
  have hin : ∀ x, dirEntryAt b j ≤ x → x < dirEntryAt b j + BY2FILE → m x = 0 := fun x hlo hhi =>
    hblank x (Placed.inBlock hlo hhi hj)
  generalize dirEntryAt b j = e at *
  have hword : ∀ a, e ≤ a → a + 4 ≤ e + 256 → m.ld32 a = 0 := by
    intro a hlo hhi
    have hsame : ByteMem.Same (fun _ => 0) m a 4 := fun x hx hx' => hin x (by omega) (by rw [BY2FILE]; omega)
    rw [hsame.ld32, ByteMem.ld32_zero]
  have hind : tableOf m e = 0 := by
    rw [tableOf, hword _ (by rw [fIndirect_eq]; omega) (by rw [fIndirect_eq]; omega)]
    rfl
  refine ⟨hin e (le_refl e) (by rw [BY2FILE]; omega), ?_, ?_, ?_⟩
  · rw [blockCount, hword _ (by rw [fSize]; omega) (by rw [fSize]; omega)]
    decide
  · rintro (g | ⟨g, k⟩) hg
    · have hge : g = e := hg
      rw [hge]
      exact hind
    · have hge : g = e := hg
      subst hge
      show blockNo m g k = 0
      by_cases hk : k < NDIRECT
      · rw [blockNo_direct hk]
        rw [NDIRECT] at hk
        rw [hword _ (by rw [fDirect_eq]; omega) (by rw [fDirect_eq]; omega)]
        rfl
      · exact blockNo_no_table hk hind
  · have hdir : m.ld64 (fDir e) = 0 := by
      rw [fDir_eq]
      exact ByteMem.ld64_eq_zero.mpr ⟨hword _ (by omega) (by omega), hword _ (by omega) (by omega)⟩
    rw [dirOf, hdir]
    rfl

/-- The size of a directory that is made larger by a block. -/
theorem blockCount_grown {size : U32} (hn : ROUND size.toNat BY2BLK / BY2BLK + 2 < NINDIRECT) :
    ROUND (size + BitVec.ofNat 32 BY2BLK).toNat BY2BLK / BY2BLK = ROUND size.toNat BY2BLK / BY2BLK + 1 := by
  have hblk : (BitVec.ofNat 32 4096).toNat = 4096 := rfl
  simp only [NINDIRECT, ROUND, BY2BLK] at hn ⊢
  rw [BitVec.toNat_add, hblk]
  omega

section Grow

variable (h : TreeOk s N) (hd : LiveIn s.blocks N d) (hdir : isDir s.blocks d = true) (hc : Cached s d)

include h hd hc

/-- The size is stored before there is a block for it. -/
theorem growSize_tree (size : U32) : ∃ s₁, store32 (fSize d) size s = .ret () s₁ ∧
    Moved N s s₁ (s.blocks.st32 (fSize d) size) ∧ FileOk s₁ N d ∧
    PtrEditIn s.blocks s₁.blocks N d ∧ HeadSame s.blocks s₁.blocks d ∧
    (∀ b, b < N → freeBit s₁.blocks b = freeBit s.blocks b) ∧
    ∀ p : Ptr, p.file = d → (fileTree s₁.blocks).val p = (fileTree s.blocks).val p := by
  have hok := h.fileOk hd.known hc
  have hm := hok.head_mapped (a := fSize d) (n := 4) (by rw [fSize]; omega) (by rw [fSize, BY2FILE]; omega)
  have hw : Writable s.blocks N (fSize d) 4 :=
    hok.writable.mono (by rw [fSize]; omega) (by rw [fSize, BY2FILE]; omega)
  obtain ⟨s₁, hstore, hmove⟩ := store32_moves (v := size) hm hw
  have hin : Within (SizeWord d) s.blocks (s.blocks.st32 (fSize d) size) := st32_within size
  have hptrs : ∀ p : Ptr, p.file = d →
      (fileTree (s.blocks.st32 (fSize d) size)).val p = (fileTree s.blocks).val p :=
    fun p hp => hok.size_ptrs hin hp
  have hbits : ∀ b, b < N → freeBit (s.blocks.st32 (fSize d) size) b = freeBit s.blocks b :=
    fun b hb => hok.size_bits hin hb
  have hsame : ∀ a n, (a + n ≤ fSize d ∨ fSize d + 4 ≤ a) →
      ByteMem.Same s.blocks (s.blocks.st32 (fSize d) size) a n :=
    fun a n hout => hin.same fun x hlo hhi hx => by
      rw [SizeWord] at hx
      omega
  refine ⟨s₁, hstore, hmove, hok.moved hmove (hsame _ _ ?_) (fun b hb hu => (hbits b hb).trans hu)
    (hptrs (.ind d) rfl), ?_, ?_, ?_, ?_⟩
  · have hp := hok.placed.super_lt
    rw [fSize]
    omega
  · rw [hmove.blocks]
    refine PtrEdit.congr (ptrEditIn_refl (h.owns hd)) hptrs fun b hb => ?_
    show freeBit _ b = false ↔ freeBit s.blocks b = false
    rw [hbits b hb]
  · rw [hmove.blocks]
    exact ⟨hsame d 128 (by rw [fSize]; omega), hsame (fType d) 4 (by rw [fSize, fType]; omega),
      hsame (fDir d) 8 (by rw [fSize, fDir_eq]; omega)⟩
  · rw [hmove.blocks]
    exact hbits
  · rw [hmove.blocks]
    exact hptrs

include hdir

/-- The directory gets the block that its new size is for, when there is one. -/
theorem dirGrow_tree (hroom : blockCount s.blocks d + 2 < NINDIRECT) (hblank : BlankNext s.blocks s.seen N 2) :
    (dirAllocBlocks d 0 (blockCount s.blocks d)).Ends s
      (fun e s' => ∃ b, e = dirEntryAt b 0 ∧ DirGrown N s s' d b) (fun _ _ => True) AnyStop := by
  have hok := h.fileOk hd.known hc
  have hm := hok.head_mapped (a := fSize d) (n := 4) (by rw [fSize]; omega) (by rw [fSize, BY2FILE]; omega)
  generalize hn : blockCount s.blocks d = n at hroom ⊢
  have hnat : (BitVec.ofNat 32 n).toNat = n := by
    rw [NINDIRECT] at hroom
    rw [BitVec.toNat_ofNat, Nat.mod_eq_of_lt (by omega)]
  rw [dirAllocBlocks]
  apply Ends.bind_ret (load32_blocks hm)
  obtain ⟨s₁, hstore, hmove, hok₁, hedit₁, hhead₁, hbits₁, hptrs₁⟩ :=
    growSize_tree h hd hc (s.blocks.ld32 (fSize d) + BitVec.ofNat 32 BY2BLK)
  apply Ends.bind_ret hstore
  have hslots₁ : ∀ k, blockNo s₁.blocks d k = blockNo s.blocks d k := fun k => hptrs₁ (.slot d k) rfl
  have htable₁ : tableOf s₁.blocks d = tableOf s.blocks d := hptrs₁ (.ind d) rfl
  have hnone : ∀ k, n ≤ k → blockNo s₁.blocks d k = 0 := by
    intro k hk
    rw [← hn] at hk
    exact (hslots₁ k).trans (h.wf.dirs.tight d k hd hdir hk)
  have hind : tableOf s₁.blocks d ≠ 0 → NDIRECT < n := by
    intro h0
    rw [htable₁] at h0
    rw [← hn]
    exact h.wf.dirs.table d hd hdir h0
  have hused₁ : ∀ b, b < N → freeBit s.blocks b = false → freeBit s₁.blocks b = false := fun b hb hu =>
    (hbits₁ b hb).trans hu
  have hu₁ : OwnsIn s₁.blocks N d := PtrEdit.owns hedit₁ (h.owns hd) hused₁
  have hblank₁ : BlankNext s₁.blocks s₁.seen N 2 := hblank.kept hok.low hmove.kept hbits₁
  refine (fileGetBlock_reaches hok₁ (by rw [hnat]; omega)).mono ?_
    (fun _ _ _ => trivial) fun _ h => h
  rintro blk s₂ ⟨s₃, b, hmap, hread, rfl, hmapped, -, -⟩
  rw [hnat] at hmap
  have hp := hmap.pointed (by omega) hok₁ hu₁ fun _ _ _ => hblank₁.pred
  obtain ⟨hlo, hhi, hfree, hzero⟩ := hmap.fresh (by omega) hok₁ hu₁ hblank₁ hnone hind
  rw [hbits₁ b hhi] at hfree
  rw [← hread.blocks] at hzero
  have hblk : blockNo s₂.blocks d n = b := by rw [hread.blocks, hmap.no]
  have hb0 : b ≠ 0 := by
    have hpos := firstData_pos N
    omega
  have hptrs := hp.ptrs
  have hfields := hp.fields
  have hslots := hp.slots
  have hpwithin := hp.within
  have hused := hp.used
  rw [← hread.blocks] at hptrs hfields hslots hpwithin hused
  have hwithin : Within (Footprint s.blocks N d) s.blocks s₂.blocks := by
    refine (show Within _ s.blocks s₁.blocks from fun x hx => ?_).trans fun x hx =>
      Footprint.congr hbits₁ htable₁ (hpwithin x hx)
    rw [hmove.blocks] at hx
    have hin : SizeWord d x := st32_within _ x hx
    rw [SizeWord, fSize] at hin
    exact .file (by omega) (by rw [BY2FILE]; omega)
  have hedit : PtrEditIn s.blocks s₂.blocks N d := PtrEdit.trans hedit₁ hptrs hused₁ hused
  have hhead : HeadSame s.blocks s₂.blocks d := by
    have hlast := hfields.headSame
    exact ⟨fun x hx hx' => (hlast.name x hx hx').trans (hhead₁.name x hx hx'),
      fun x hx hx' => (hlast.type x hx hx').trans (hhead₁.type x hx hx'),
      fun x hx hx' => (hlast.dir x hx hx').trans (hhead₁.dir x hx hx')⟩
  have hfe := hhead.fileEdit (Within.rest h.wf hd.known hwithin)
  have hcount : blockCount s₂.blocks d = n + 1 := by
    rw [hfields.blockCount, blockCount, hmove.blocks, ByteMem.ld32_st32, ← hn, blockCount]
    rw [← hn, blockCount] at hroom
    exact blockCount_grown hroom
  have hgr : Growth (fsShape N) (fileTree s.blocks) (fileTree s₂.blocks) d b := by
    refine ⟨hfe.rest, hfe.isDir, hfe.named, hfe.up, ?_, fun k hk => ?_, ?_, fun k hk => ?_, fun h0 => ?_, ?_, hb0,
      ?_, fun j hj => ?_⟩
    · show blockCount s₂.blocks d = blockCount s.blocks d + 1
      rw [hcount, hn]
    · have hk' : k < n := hn ▸ hk
      exact (hslots k (by omega)).trans (hslots₁ k)
    · show blockNo s₂.blocks d (blockCount s.blocks d) = b
      rw [hn, hblk]
    · have hk' : n < k := hn ▸ hk
      exact (hslots k (by omega)).trans (hnone k (by omega))
    · show NDIRECT < blockCount s.blocks d + 1
      rw [hn]
      by_cases hd10 : n < NDIRECT
      · -- The slot is in the file itself, so that no table was made.
        obtain ⟨mid, hslot, -, hkept, -⟩ := hmap.walk
        have hval : tableOf s₂.blocks d = tableOf s₁.blocks d := by
          rw [hread.blocks, hkept, hslot.direct hd10]
        have h0' : tableOf s₂.blocks d ≠ 0 := h0
        rw [hval] at h0'
        have hlt := hind h0'
        omega
      · omega
    · show blockCount s.blocks d + 2 < NINDIRECT
      rw [hn]
      exact hroom
    · show ¬ freeBit s.blocks b = false
      rw [hfree]
      exact Bool.noConfusion
    · obtain ⟨hname, hsize, hnull, hup⟩ := blank_entry hzero hj
      exact ⟨not_not.mpr hname, hsize, hnull, hup⟩
  have hmoved : Moved N s s₂ s₂.blocks := by
    have hall := (hmove.trans hp.moved).trans hread
    exact ⟨⟨rfl, hall.disk, hall.steady⟩, hall.kept⟩
  refine ⟨b, rfl, hgr, ⟨?_, ?_⟩, hmoved, hwithin, hhead, hlo, hhi, hzero, hmapped⟩
  · exact hmap.ok.mounted.became hread.toBecame fun _ _ _ => rfl
  · exact Wf.growth h.wf hgr hd hdir hedit

end Grow

/-! ## `dir_alloc_file` -/

/-- Entry `e` of directory `d` has no name, and the directory may have got a block for it. -/
structure Vacant (N : Nat) (s s' : Fs) (d e : Nat) : Prop where
  tree : TreeOk s' N
  moved : Moved N s s' s'.blocks
  entry : EntryIn s'.blocks N d e
  free : s'.blocks e = 0
  cached : Cached s' e
  grown : s'.blocks = s.blocks ∨ ∃ b, e = dirEntryAt b 0 ∧ DirGrown N s s' d b

theorem DirGrown.vacant (h : TreeOk s N) (hd : LiveIn s.blocks N d) (hdir : isDir s.blocks d = true)
    (hg : DirGrown N s s' d b) : Vacant N s s' d (dirEntryAt b 0) where
  tree := hg.tree
  moved := hg.moved
  entry := (hg.growth.entry h.wf hd hdir).mpr (Or.inr ⟨rfl, 0, Nat.zero_lt_succ _, rfl⟩)
  free := (blank_entry hg.blank (Nat.zero_lt_succ _)).1
  cached := cached_entry hg.mapped (Nat.zero_lt_succ _)
  grown := Or.inr ⟨b, rfl, hg⟩

/-- There is room for another block of a directory in which no entry is free. -/
structure Room (s : Fs) (N d : Nat) : Prop where
  slots : blockCount s.blocks d + 2 < NINDIRECT
  blank : BlankNext s.blocks s.seen N 2

theorem dirAllocFile_tree (h : TreeOk s N) (hd : LiveIn s.blocks N d) (hdir : isDir s.blocks d = true)
    (hc : Cached s d) (hroom : NoFree s.blocks d → Room s N d) :
    (dirAllocFile d).Ends s (fun e s' => Vacant N s s' d e) (fun _ _ => NoFree s.blocks d) AnyStop := by
  rw [dirAllocFile]
  apply Ends.bind_ret (h.fileOk hd.known hc).fileBlocks
  refine dirAllocBlocks_search h hd hdir (.refl N s) hc (Nat.zero_add _) (fun k hk => absurd hk (Nat.not_lt_zero k))
    (fun e s' hm he hfree hce => ?_) fun s' hm hc' hfull => ?_
  · refine ⟨h.loads hm, ⟨⟨rfl, hm.disk, hm.steady⟩, hm.kept⟩, ?_, ?_, hce, Or.inl hm.blocks⟩
    · rw [hm.blocks]
      exact he
    · rw [hm.blocks]
      exact hfree
  · have hr := hroom hfull
    have hlow := h.wf.lowUsed
    have hd' : LiveIn s'.blocks N d := by
      rw [hm.blocks]
      exact hd
    have hdir' : isDir s'.blocks d = true := by
      rw [hm.blocks]
      exact hdir
    have hslots : blockCount s'.blocks d + 2 < NINDIRECT := by
      rw [hm.blocks]
      exact hr.slots
    have hgrow := dirGrow_tree (h.loads hm) hd' hdir' hc' hslots
      (hr.blank.kept hlow hm.kept fun b _ => by rw [hm.blocks])
    rw [hm.blocks] at hgrow
    refine hgrow.mono ?_ (fun _ _ _ => hfull) fun _ h => h
    rintro e s₂ ⟨b, rfl, hg⟩
    -- Searching has changed no block.
    have hg' : DirGrown N s s₂ d b := by
      have hall := hm.trans hg.moved
      refine ⟨?_, hg.tree, ⟨⟨rfl, hall.disk, hall.steady⟩, hall.kept⟩, ?_, ?_, hg.lo, hg.hi, hg.blank, hg.mapped⟩
      · rw [← hm.blocks]
        exact hg.growth
      · rw [← hm.blocks]
        exact hg.within
      · rw [← hm.blocks]
        exact hg.head
    exact hg'.vacant h hd hdir

/-! ## An entry that gets its name -/

theorem st8_ne {v : BitVec 8} {a x : Nat} (h : m.st8 a v x ≠ m x) : x = a := by
  by_contra hne
  exact h (by rw [ByteMem.st8, if_neg hne])

/-- `strcpy` to the cache. -/
theorem strcpy_moves (hm : s.MappedOn p (name.length + 1)) (hw : Writable s.blocks N p (name.length + 1)) :
    ∃ s', strcpy p name s = .ret () s' ∧ Moved N s s' s'.blocks ∧
      Within (fun x => p ≤ x ∧ x < p + name.length + 1) s.blocks s'.blocks ∧ named s'.blocks p name = true := by
  have hmove := moved_store (g := fun m => m.stStr p name) hm hw
    (fun _ _ _ hlo hhi => ByteMem.stStr_congr hlo (by omega)) fun _ _ hx => ByteMem.stStr_of_out (by omega)
  refine ⟨_, strcpy_eq hm, ⟨⟨rfl, hmove.disk, hmove.steady⟩, hmove.kept⟩, fun x hx => ?_, ?_⟩
  · rw [hmove.blocks] at hx
    by_contra hout
    exact hx (ByteMem.stStr_of_out (by omega))
  · rw [hmove.blocks]
    exact named_stStr s.blocks p name

/-- The name and the type of file `e`. -/
def HeadBytes (e x : Nat) : Prop := (e ≤ x ∧ x < e + MAXNAMELEN) ∨ (fType e ≤ x ∧ x < fType e + 4)

/-- Entry `e` has been made a file with that name and type. -/
structure Made (N : Nat) (s s' : Fs) (e : Nat) (name : List (BitVec 8)) (ftype : U32) : Prop where
  tree : TreeOk s' N
  moved : Moved N s s' s'.blocks
  within : Within (HeadBytes e) s.blocks s'.blocks
  naming : Naming (fsShape N) (fileTree s.blocks) (fileTree s'.blocks) e
  named : named s'.blocks e name = true
  type : s'.blocks.ld32 (fType e) = ftype

/-- No block is left in the entry. -/
def Clear (m : ByteMem) (e : Nat) : Prop := tableOf m e = 0 ∧ ∀ k, blockNo m e k = 0

theorem nameEntry_tree (h : TreeOk s N) (he : EntryIn s.blocks N d e) (hfree : s.blocks e = 0) (hc : Cached s e)
    (hp : ProperName name) (hlen : name.length < MAXNAMELEN) (hclear : ftype = FTYPE_DIR → Clear s.blocks e) :
    ∃ s', (strcpy e name >>= fun _ => store32 (fType e) ftype) s = .ret () s' ∧ Made N s s' e name ftype := by
  have hok := h.fileOk he.known hc
  rw [MAXNAMELEN] at hlen
  obtain ⟨s₁, hcpy, hmove₁, hin₁, hname⟩ := strcpy_moves
    (hok.head_mapped (a := e) (n := name.length + 1) (le_refl e) (by rw [BY2FILE]; omega))
    (hok.writable.mono (le_refl e) (by rw [BY2FILE]; omega))
  obtain ⟨s₂, hstore, hmove₂⟩ := store32_moves (a := fType e) (v := ftype)
    ((hok.head_mapped (by rw [fType]; omega) (by rw [fType, BY2FILE]; omega)).steady hmove₁.steady)
    ((hok.writable.mono (by rw [fType]; omega) (by rw [fType, BY2FILE]; omega)).kept hmove₁.kept)
  have hall := hmove₁.trans hmove₂
  have hlast : Within (fun x => fType e ≤ x ∧ x < fType e + 4) s₁.blocks s₂.blocks := by
    rw [hmove₂.blocks]
    exact st32_within ftype
  have hin : Within (HeadBytes e) s.blocks s₂.blocks := by
    intro x hx
    by_cases hmid : s₁.blocks x = s.blocks x
    · exact Or.inr (hlast x (hmid ▸ hx))
    · obtain ⟨hlo, hhi⟩ := hin₁ x hmid
      exact Or.inl ⟨hlo, by rw [MAXNAMELEN]; omega⟩
  have hbytes : ∀ {x}, HeadBytes e x → e ≤ x ∧ x < e + 136 := by
    intro x hx
    rw [HeadBytes, MAXNAMELEN, fType] at hx
    omega
  have hprint : Within (Footprint s.blocks N e) s.blocks s₂.blocks := by
    intro x hx
    obtain ⟨hlo, hhi⟩ := hbytes (hin x hx)
    exact .file hlo (by rw [BY2FILE]; omega)
  have hsame : ∀ a n, e + 136 ≤ a → ByteMem.Same s.blocks s₂.blocks a n := fun a n ha =>
    hin.same fun x hlo _ hx => by
      have hx' := hbytes hx
      omega
  have hnamed : named s₂.blocks e name = true := by
    rw [← hname]
    exact named_same (hlast.same fun x hlo hhi hx => by rw [fType] at hx; omega)
  have htype : s₂.blocks.ld32 (fType e) = ftype := by rw [hmove₂.blocks, ByteMem.ld32_st32]
  have hptrs : ∀ p : Ptr, p.file = e → (fileTree s₂.blocks).val p = (fileTree s.blocks).val p := by
    intro p hpe
    refine ptrs_same (hsame _ _ (le_refl _)) (fun h0 => hin.same fun x hlo hhi hx => ?_) hpe
    obtain ⟨hlo', hhi'⟩ := hbytes hx
    exact hok.apart h0 x hlo' (by rw [BY2FILE]; omega) ⟨hlo, by rw [BY2BLK]; omega⟩
  have hbits : ∀ b, b < N → freeBit s₂.blocks b = freeBit s.blocks b := fun b hb =>
    hin.freeBit (fun x hx hh => by
      obtain ⟨hlo, hhi⟩ := hbytes hh
      exact hok.placed.not_bitmap hlo (by rw [BY2FILE]; omega) hx) hb
  have hno : ¬ (fileTree s.blocks).named e := fun hn => hn hfree
  have hcount : blockCount s₂.blocks e = 0 := by
    have hsize : ByteMem.Same s.blocks s₂.blocks (fSize e) 4 := by
      refine hin.same fun x hlo hhi hx => ?_
      rw [fSize] at hlo hhi
      rw [HeadBytes, MAXNAMELEN, fType] at hx
      omega
    have hold : blockCount s.blocks e = 0 := h.wf.dirs.hollow d e he hno
    rw [blockCount] at hold ⊢
    rwa [hsize.ld32]
  have hn : Naming (fsShape N) (fileTree s.blocks) (fileTree s₂.blocks) e := by
    refine ⟨Within.rest h.wf he.known hprint, named_ne_zero hnamed hp.1 hp.2, hcount, hptrs (.ind e) rfl,
      fun k => hptrs (.slot e k) rfl, ?_, fun b hb hu => (hbits b hb).trans hu, fun hd => ?_⟩
    · exact congrArg BitVec.toNat (hsame (fDir e) 8 (by rw [fDir_eq]; omega)).ld64
    · have hd' : isDir s₂.blocks e = true := hd
      rw [isDir, htype, beq_iff_eq] at hd'
      exact hclear hd'
  refine ⟨s₂, (bind_ret hcpy).trans hstore, ⟨⟨?_, ?_⟩, ⟨⟨rfl, hall.disk, hall.steady⟩, hall.kept⟩, hin, hn, hnamed,
    htype⟩⟩
  · refine h.mounted.became ⟨rfl, hall.disk, hall.steady⟩ (hin.same fun x hlo hhi hx => ?_)
    have hx' := hbytes hx
    have hs := hok.placed.super_lt
    omega
  · exact Wf.naming h.wf hn he hno (by show 1 < NINDIRECT; rw [NINDIRECT]; omega)

/-! ## `file_create` -/

/-- File `f` has been created in directory `d`: the path was walked, an entry was had,
    and it was named. -/
structure Created (N : Nat) (s s' : Fs) (path : List (BitVec 8)) (ftype : U32) (f d : Nat)
    (name : List (BitVec 8)) (s₁ s₂ : Fs) : Prop where
  misses : Misses s path d name
  climbed : Climbed N s s₁
  looked : Looked s s₁ N
  vacant : Vacant N s₁ s₂ d f
  made : Made N s₂ s' f name ftype
  reached : Reached s' N f

/-- What `file_create` needs when the last name of the path is missing in `d`: room when
    no entry is free, and for a directory an entry without blocks. -/
structure CreateOk (s : Fs) (N d : Nat) (ftype : U32) : Prop where
  room : NoFree s.blocks d → Room s N d
  clear : ftype = FTYPE_DIR → ∀ e, EntryIn s.blocks N d e → s.blocks e = 0 → Clear s.blocks e

theorem Climbed.freeBit_eq (h : Climbed N s s') (hb : b < N) : freeBit s'.blocks b = freeBit s.blocks b := by
  have hiff : freeBit s'.blocks b = false ↔ freeBit s.blocks b = false := h.ups.used b hb
  exact Bool.eq_iff_iff.mpr (by rw [← Bool.not_eq_false, ← Bool.not_eq_false, hiff])

theorem Room.climbed (h : Room s N d) (hd : KnownIn s.blocks N d) (hlow : LowUsed s.blocks N) (hc : Climbed N s s') :
    Room s' N d where
  slots := by
    have hcount : blockCount s'.blocks d = blockCount s.blocks d := (hc.ups.same d hd).nblk
    rw [hcount]
    exact h.slots
  blank := h.blank.kept hlow hc.moved.kept fun _ hb => hc.freeBit_eq hb

/-- Entries of a directory that walks do not touch. -/
theorem Looked.noFree (h : TreeOk s N) (hl : Looked s s' N) (hc : Climbed N s s') (hd : KnownIn s.blocks N d) :
    NoFree s'.blocks d ↔ NoFree s.blocks d := by
  have hs := hc.ups.same d hd
  have hcount : blockCount s'.blocks d = blockCount s.blocks d := hs.nblk
  have hslot : ∀ i, blockNo s'.blocks d i = blockNo s.blocks d i := hs.slot
  have hfree : ∀ b, freeIn s'.blocks b = freeIn s.blocks b := hl.butDir.freeIn_eq h.wf.dirGraph
  simp only [NoFree, hcount, hslot, hfree]

/-- An entry without a name, after a walk. -/
theorem Climbed.clear (hc : Climbed N s s')
    (hclear : ∀ e, EntryIn s.blocks N d e → s.blocks e = 0 → Clear s.blocks e) :
    ∀ e, EntryIn s'.blocks N d e → s'.blocks e = 0 → Clear s'.blocks e := by
  intro e he hfree
  have he₀ : EntryIn s.blocks N d e := hc.ups.entry.mp he
  have hs := hc.ups.same e he₀.known
  have hname : ¬ s.blocks e ≠ 0 := fun hn => hs.named.mpr hn hfree
  obtain ⟨htable, hslots⟩ := hclear e he₀ (not_not.mp hname)
  have hind : tableOf s'.blocks e = tableOf s.blocks e := hs.ind
  have hslot : ∀ k, blockNo s'.blocks e k = blockNo s.blocks e k := hs.slot
  exact ⟨hind.trans htable, fun k => (hslot k).trans (hslots k)⟩

/-- The file was there, or the path leads to no directory for it. -/
structure NotCreated (N : Nat) (s s' : Fs) (path : List (BitVec 8)) : Prop where
  no : ∀ d name, ¬ Misses s path d name
  climbed : Climbed N s s'
  looked : Looked s s' N

theorem fileCreate_tree (h : TreeOk s N) (h0 : (0 : BitVec 8) ∉ path)
    (hok : ∀ d name, Misses s path d name → CreateOk s N d ftype) :
    (fileCreate path ftype).Ends s
      (fun f s' => ∃ d name s₁ s₂, Created N s s' path ftype f d name s₁ s₂)
      (fun _ s' => NotCreated N s s' path ∨ FullParent s path) AnyStop := by
  rw [fileCreate]
  refine Ends.bind ((walkPath_tree h h0).mono (fun _ _ h => h) (fun _ _ h => h.elim) fun _ h => h) ?_
  intro w s₁ hw
  have hans := hw.answer
  have hdone : (∀ d name, ¬ Misses s path d name) → NotCreated N s s₁ path ∨ FullParent s path := fun hno =>
    Or.inl ⟨hno, hw.climbed, hw.looked⟩
  cases hres : (dirTree s.blocks).resolve none rootFile (components path) with
  | found par f =>
      rw [hans, hres]
      refine Ends.of_fail rfl (hdone fun d name hd => ?_)
      rw [Misses, hres] at hd
      cases hd
  | unfit =>
      rw [hans, hres]
      refine Ends.of_fail rfl (hdone fun d name hd => ?_)
      rw [Misses, hres] at hd
      cases hd
  | nowhere =>
      rw [hans, hres]
      refine Ends.of_fail rfl (hdone fun d name hd => ?_)
      rw [Misses, hres] at hd
      cases hd
  | missing d name =>
      rw [hans, hres]
      have hsearch := hw.parent d name hres
      have hd₀ := h.wf.inTree_iff.mp hsearch.inTree
      have hcreate := hok d name hres
      obtain ⟨pre, hcomp, -, hfits, -, hnone⟩ := NameSpace.of_missing hres
      have hmem : name ∈ components path := by
        rw [hcomp]
        exact List.mem_append_right _ (List.mem_singleton_self name)
      have hproper := components_proper h0 hmem
      have hlen : name.length < MAXNAMELEN := of_decide_eq_true hfits
      have hd₁ : LiveIn s₁.blocks N d := hw.climbed.ups.live.mpr hd₀
      have hdir₁ : isDir s₁.blocks d = true := (hw.climbed.ups.same d hd₀.known).isDir.mpr hsearch.dir
      have hfull := hw.looked.noFree h hw.climbed hd₀.known
      have hroom : NoFree s₁.blocks d → Room s₁ N d := fun hno =>
        (hcreate.room (hfull.mp hno)).climbed hd₀.known h.wf.lowUsed hw.climbed
      have hne : ¬ (answer (.missing d name)).r = 0 := (by decide : ¬ (-E_NOT_FOUND : U32) = 0)
      have hgo : ¬ ((answer (.missing d name)).r ≠ -E_NOT_FOUND ∨ (answer (.missing d name)).pdir = 0) := by
        rintro (hr | hz)
        · exact hr rfl
        · exact inTree_ne_zero h.wf.dirGraph hsearch.inTree hz
      rw [if_neg hne, if_neg hgo]
      have halloc := dirAllocFile_tree hw.climbed.tree hd₁ hdir₁ hsearch.cached hroom
      refine Ends.bind (halloc.attempt.mono (fun _ _ h => h) (fun _ _ h => h.elim) fun _ h => h) ?_
      rintro (e | f) s₂ hv
      · exact Ends.of_fail rfl (Or.inr ⟨d, name, hres, hfull.mp hv⟩)
      · have hclear : ftype = FTYPE_DIR → Clear s₂.blocks f := by
          intro hty
          rcases hv.grown with heq | ⟨b, rfl, hg⟩
          · have hent := hv.entry
            have hfree := hv.free
            rw [heq] at hent hfree ⊢
            exact hw.climbed.clear (hcreate.clear hty) f hent hfree
          · obtain ⟨-, -, hnull, -⟩ := blank_entry hg.blank (j := 0) (Nat.zero_lt_succ _)
            exact ⟨hnull (.ind _) rfl, fun k => hnull (.slot _ k) rfl⟩
        obtain ⟨s', hrun, hmade⟩ := nameEntry_tree hv.tree hv.entry hv.free hv.cached hproper hlen hclear
        have hlive : LiveIn s'.blocks N f :=
          (hmade.naming.live hv.tree.wf hv.entry fun hn => hn hv.free).mpr (Or.inr rfl)
        have hent : EntryIn s'.blocks N d f :=
          (hmade.naming.entry hv.tree.wf hv.entry fun hn => hn hv.free).mpr hv.entry
        have hst := hv.moved.steady.trans _ _ _ hmade.moved.steady
        have hreach : Reached s' N f :=
          ⟨hlive, hv.cached.steady hmade.moved.steady, Or.inr ⟨d, hent, hsearch.cached.steady hst⟩⟩
        obtain ⟨u, s₃, hcpy, hstore⟩ := bind_eq_ret.mp hrun
        exact Ends.of_ret ((bind_ret hcpy).trans (bind_ret hstore))
          ⟨d, name, s₁, s₂, hres, hw.climbed, hw.looked, hv, hmade, hreach⟩

end RpiMos
