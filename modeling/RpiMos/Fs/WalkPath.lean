/-
  RpiMos.Fs.WalkPath

  Looking a path up: `dir_lookup` and `walk_path` over the directory tree.  They
  load blocks and write `f_dir`, and what they return is what the names of the
  path lead to in the tree.
-/

import RpiMos.Fs.DirTree

namespace RpiMos

open Lib Prog

variable {s s' s₀ s₁ : Fs} {m : ByteMem} {N d e f b i j k n a len : Nat} {r blockno : U32}
  {name path : List (BitVec 8)} {names : List (List (BitVec 8))}

/-! ## Loading blocks -/

/-- From `s` to `s'` blocks may have been loaded. -/
structure Loads (s s' : Fs) : Prop where
  blocks : s'.blocks = s.blocks
  disk : s'.disk = s.disk
  steady : Steady s s'

theorem Loads.refl (s : Fs) : Loads s s := ⟨rfl, rfl, .refl s⟩

theorem Loads.trans {s₂ s₃ : Fs} (h : Loads s s₂) (h' : Loads s₂ s₃) : Loads s s₃ :=
  ⟨h'.blocks.trans h.blocks, h'.disk.trans h.disk, h.steady.trans _ _ _ h'.steady⟩

theorem Fs.MappedOn.blocks_eq (h : s.MappedOn a len) : ByteMem.Same s.seen s.blocks a len := by
  intro x hlo hhi
  rw [Fs.blocks, Fs.seen, h x hlo hhi, if_pos rfl, if_pos rfl]

theorem Fs.MappedOn.steady (h : s.MappedOn a len) (hst : Steady s s') : s'.MappedOn a len :=
  fun x hlo hhi => hst.mapped _ (h x hlo hhi)

/-- The super block and the bitmap are in the cache, so that nothing else matters. -/
theorem Mounted.steady (h : Mounted s N) (hst : Steady s s')
    (hsame : ByteMem.Same s.blocks s'.blocks (blockAddr 1 + 4) 4) : Mounted s' N where
  super := hst.super.trans h.super
  bitmap := hst.bitmap.trans h.bitmap
  nblocks := by
    have hnow := h.superWord.blocks_eq.ld32
    have hthen := (h.superWord.steady hst).blocks_eq.ld32
    rw [← hthen, hsame.ld32, hnow, h.nblocks]
  le := h.le
  superMapped := hst.mapped _ h.superMapped
  bitmapMapped i hi := hst.mapped _ (h.bitmapMapped i hi)

theorem Mounted.freeBit_blocks (h : Mounted s N) (hb : b < N) :
    freeBit s.blocks b = freeBit s.seen b :=
  freeBit_same (h.bitWord_mapped hb).blocks_eq

/-- The server stops when a page it touches cannot be had. -/
def OutOfMem (s : Fs) (msg : String) : Prop :=
  msg = "page_out error: no free page" ∧ ∃ k, s.memOk k = false

theorem OutOfMem.steady {msg : String} (hst : Steady s s') (h : OutOfMem s' msg) : OutOfMem s msg := by
  obtain ⟨hmsg, k, hk⟩ := h
  rw [hst.memOk] at hk
  exact ⟨hmsg, k, hk⟩

/-- What `read_block` leaves of a block in use. -/
structure HasRead (s s' : Fs) (b blk : Nat) : Prop where
  addr : blk = blockAddr b
  mapped : s'.mapped (blockPage b) = true
  loads : Loads s s'

theorem readBlock_ends (h : Mounted s N) (hb : blockno.toNat < N)
    (hused : freeBit s.seen blockno.toNat = false) :
    (readBlock blockno).Ends s (fun blk s' => HasRead s s' blockno.toNat blk.1)
      (fun _ _ => False) (OutOfMem s) := by
  by_cases hmem : CanRead s blockno.toNat
  · obtain ⟨isnew, s', hread, hpages⟩ := readBlock_total h hb hused hmem
    obtain ⟨-, -, -, hmapped, hw⟩ := readBlock_ret h hread
    refine Ends.of_ret hread ⟨rfl, hmapped, ?_, hw.disk, hw.steady⟩
    funext x
    -- Outside the block nothing happens; inside, what was on the disk is now in the cache.
    by_cases hpage : x / BY2PG = blockPage blockno.toNat
    · have hseen : s'.blocks x = s'.seen x := by
        rw [Fs.blocks, Fs.seen, hpage, hmapped, if_pos rfl, if_pos rfl]
      have hx : blockAddr blockno.toNat ≤ x ∧ x < blockAddr blockno.toNat + BY2BLK := by
        rw [blockPage_eq, BY2PG] at hpage
        rw [blockAddr_eq, BY2BLK]
        omega
      rw [hseen, hw.seen, Fs.loaded, Fs.blocks, hpage]
      by_cases hm : s.mapped (blockPage blockno.toNat) = true
      · rw [if_pos hm, if_pos hm, Fs.seen, hpage, if_pos hm]
      · rw [if_neg hm, if_neg hm, ByteMem.fill, if_pos hx]
        apply congrArg
        rw [blockAddr_eq] at hx ⊢
        rw [DISKMAP, BY2BLK]
        omega
    · have hmap : s'.mapped (x / BY2PG) = s.mapped (x / BY2PG) := hpages.mapped _ hpage
      rw [Fs.blocks, Fs.blocks, hmap, hw.disk]
      by_cases hm : s.mapped (x / BY2PG) = true
      · have hout : ¬ (blockAddr blockno.toNat ≤ x ∧ x < blockAddr blockno.toNat + BY2BLK) := by
          rw [blockPage_eq, BY2PG] at hpage
          rw [blockAddr_eq, BY2BLK]
          omega
        have hseen : s'.seen x = s.seen x := by
          rw [hw.seen, Fs.loaded]
          split
          · rfl
          · rw [ByteMem.fill, if_neg hout]
        rw [Fs.seen, Fs.seen, hmap, if_pos hm, if_pos hm] at hseen
        rw [if_pos hm, if_pos hm, hseen]
      · rw [if_neg hm, if_neg hm]
  · rw [Ends, readBlock_stuck h hb hused hmem]
    refine ⟨rfl, s.allocs, ?_⟩
    rw [CanRead, not_or, not_or] at hmem
    exact Bool.eq_false_of_not_eq_true hmem.2.1

/-! ## Stores to files in the cache -/

theorem blocks_st64 (v : Word) (h : s.MappedOn a 8) :
    ({ s with mem := s.mem.st64 a v } : Fs).blocks = s.blocks.st64 a v := by
  funext x
  by_cases hx : a ≤ x ∧ x < a + 8
  · have hin : ∀ m m' : ByteMem, m.st64 a v x = m'.st64 a v x := by
      intro m m'
      simp only [ByteMem.st64, ByteMem.st32]
      split
      · rfl
      · rw [if_pos (by omega), if_pos (by omega)]
    show (if s.mapped (x / BY2PG) then s.mem.st64 a v x else _) = _
    rw [h x hx.1 hx.2, if_pos rfl]
    exact hin _ _
  · have hout : ∀ m : ByteMem, m.st64 a v x = m x := fun m =>
      ByteMem.same_st64 (n := 1) v (by omega) x (le_refl x) (by omega)
    show (if s.mapped (x / BY2PG) then s.mem.st64 a v x else _) = _
    rw [hout, hout]
    rfl

/-- From `s₀` on nothing was done but loading blocks and writing `f_dir`. -/
structure Looked (s₀ s : Fs) (N : Nat) : Prop where
  mounted : Mounted s N
  steady : Steady s₀ s
  disk : s.disk = s₀.disk
  butDir : ButDir s₀.blocks s.blocks

theorem Looked.refl (h : Mounted s N) : Looked s s N := ⟨h, .refl s, rfl, .refl _⟩

theorem Looked.loads (h : Looked s₀ s N) (hl : Loads s s') : Looked s₀ s' N where
  mounted := h.mounted.steady hl.steady (by rw [hl.blocks]; exact fun _ _ _ => rfl)
  steady := h.steady.trans _ _ _ hl.steady
  disk := hl.disk.trans h.disk
  butDir := by
    rw [hl.blocks]
    exact h.butDir

/-- Reading a block that was in use when the lookups began. -/
theorem Looked.readBlock (hg : DirGraph s₀.blocks N) (h : Looked s₀ s N)
    (hb : UsedBlock s₀.blocks N blockno.toNat) :
    (RpiMos.readBlock blockno).Ends s (fun blk s' => HasRead s s' blockno.toNat blk.1)
      (fun _ _ => False) (OutOfMem s₀) := by
  have hused : freeBit s.seen blockno.toNat = false := by
    rw [← h.mounted.freeBit_blocks hb.hi, h.butDir.bits hg hb.hi]
    exact hb.used
  exact (readBlock_ends h.mounted hb.hi hused).mono (fun _ _ h => h) (fun _ _ h => h)
    fun _ hm => hm.steady h.steady

/-- The file is in the cache. -/
def Cached (s : Fs) (f : Nat) : Prop := s.MappedOn f BY2FILE

theorem Looked.setDir (hg : DirGraph s₀.blocks N) (h : Looked s₀ s N) (he : InTree s₀.blocks e)
    (hc : Cached s e) (v : Word) : Looked s₀ { s with mem := s.mem.st64 (fDir e) v } N := by
  have hm : s.MappedOn (fDir e) 8 := hc.mono (by rw [fDir_eq]; omega) (by rw [fDir_eq, BY2FILE]; omega)
  have hbut : ButDir s₀.blocks ({ s with mem := s.mem.st64 (fDir e) v } : Fs).blocks := by
    rw [blocks_st64 v hm]
    exact h.butDir.st64 he v
  have hst : Steady s { s with mem := s.mem.st64 (fDir e) v } := ⟨rfl, rfl, rfl, rfl, fun _ hv => hv⟩
  refine ⟨h.mounted.steady hst fun x hlo hhi => ?_, h.steady.trans _ _ _ hst, h.disk, hbut⟩
  -- The number of blocks in the super block is no `f_dir`.
  rw [hbut.super hg x (by omega) (by omega), h.butDir.super hg x (by omega) (by omega)]

/-! ## Blocks of a directory -/

/-- Block `i` of the directory is there.  The number of the last block is read as
    64 bits, and so together with the first word behind the table. -/
structure Present (s : Fs) (d i : Nat) : Prop where
  ne : blockNo s.blocks d i ≠ 0
  last : i + 1 = NINDIRECT → s.mapped (blockPage (tableOf s.blocks d + 1)) = true

theorem blockNo_lt (h : blockNo m d i ≠ 0) : i < NINDIRECT := by
  by_contra hi
  exact h (if_neg hi)

theorem blockNo_direct (hi : i < NDIRECT) : blockNo m d i = (m.ld32 (fDirect d i)).toNat := by
  have hlt : i < NINDIRECT := by
    rw [NDIRECT] at hi
    rw [NINDIRECT]
    omega
  rw [blockNo, if_pos hlt, slotIn, if_pos hi]

theorem blockNo_table (hi : ¬ i < NDIRECT) (h : blockNo m d i ≠ 0) :
    tableOf m d ≠ 0 ∧ blockNo m d i = (m.ld32 (blockAddr (tableOf m d) + 4 * i)).toNat := by
  have hlt := blockNo_lt h
  rw [blockNo, if_pos hlt, slotIn, if_neg hi] at h ⊢
  by_cases h0 : tableOf m d = 0
  · rw [if_pos h0] at h
    exact absurd rfl h
  · rw [if_neg h0]
    exact ⟨h0, rfl⟩

/-- A block number that is there is read as it stands. -/
theorem mapPointer_present {ptr : Nat} (h : s.MappedOn ptr 8) (h0 : s.blocks.ld32 ptr ≠ 0) :
    (mapPointer ptr true >>= fun _ => load64 ptr >>= fun v => (pure (v.setWidth 32) : FsM U32)) s =
      .ret (s.blocks.ld32 ptr) s := by
  have hsame : ByteMem.Same s.seen s.blocks ptr 8 := h.blocks_eq
  have hlow : s.blocks.ld32 ptr = s.seen.ld32 ptr := (hsame.mono (le_refl _) (by omega)).ld32
  have hne : ¬ s.seen.ld64 ptr = 0 := by
    intro hz
    rw [ByteMem.ld64_eq_zero] at hz
    exact h0 (hlow.trans hz.1)
  have hload := load64_of_mapped h
  have hmap : mapPointer ptr true s = .ret () s := by
    rw [mapPointer, bind_ret hload, if_neg hne]
    rfl
  rw [bind_ret hmap, bind_ret hload, hlow, ← ByteMem.ld64_setWidth]
  rfl

theorem cached_fDirect (hc : Cached s d) (hi : i < NDIRECT) : s.MappedOn (fDirect d i) 8 := by
  rw [NDIRECT] at hi
  exact hc.mono (by rw [fDirect_eq]; omega) (by rw [fDirect_eq, BY2FILE]; omega)

section Directory

variable (hg : DirGraph s₀.blocks N) (hd : InTree s₀.blocks d)

include hg hd

/-- The number of a block that is there. -/
theorem fileMapBlock_ends (hl : Looked s₀ s N) (hc : Cached s d) (hp : Present s₀ d i) :
    (fileMapBlock d (BitVec.ofNat 32 i) true).Ends s
      (fun r s' => r.toNat = blockNo s₀.blocks d i ∧ Loads s s') (fun _ _ => False) (OutOfMem s₀) := by
  have hi := blockNo_lt hp.ne
  have hnat : (BitVec.ofNat 32 i).toNat = i := by
    rw [NINDIRECT] at hi
    rw [BitVec.toNat_ofNat, Nat.mod_eq_of_lt (by omega)]
  have hno := hl.butDir.blockNo_eq hg hd i
  have hne := hp.ne
  rw [← hno] at hne
  by_cases hdir : i < NDIRECT
  · have hwalk : fileBlockWalk d (BitVec.ofNat 32 i) true s = .ret (fDirect d i) s := by
      rw [fileBlockWalk, hnat, if_pos hdir]
      rfl
    rw [blockNo_direct hdir] at hno hne
    have hmap := mapPointer_present (cached_fDirect hc hdir) fun h0 => hne (congrArg BitVec.toNat h0)
    rw [fileMapBlock]
    exact Ends.bind_ret hwalk (Ends.of_ret hmap ⟨hno, .refl s⟩)
  · -- The table is read first; the number is in it.
    obtain ⟨ht0, hslot⟩ := blockNo_table hdir hne
    rw [hslot] at hno hne
    have htable := hl.butDir.tableOf_eq hg hd
    have hused := hg.table d hd (htable ▸ ht0)
    rw [← htable] at hused
    have hind : load32 (fIndirect d) s = .ret (s.seen.ld32 (fIndirect d)) s :=
      load32_of_mapped (hc.mono (by rw [fIndirect_eq]; omega) (by rw [fIndirect_eq, BY2FILE]; omega))
    have hseen : s.seen.ld32 (fIndirect d) = s.blocks.ld32 (fIndirect d) := by
      have hm : s.MappedOn (fIndirect d) 4 :=
        hc.mono (by rw [fIndirect_eq]; omega) (by rw [fIndirect_eq, BY2FILE]; omega)
      exact hm.blocks_eq.ld32.symm
    have hzero : ¬ s.seen.ld32 (fIndirect d) = 0 := by
      intro h0
      rw [hseen] at h0
      exact ht0 (congrArg BitVec.toNat h0)
    have hwalk : walkIndirect d true s = .ret () s := by
      rw [walkIndirect, bind_ret hind, if_neg hzero]
      rfl
    have hread : (readBlock (s.blocks.ld32 (fIndirect d))).Ends s _ _ _ := hl.readBlock hg hused
    have hstep : (fileBlockWalk d (BitVec.ofNat 32 i) true).Ends s
        (fun ptr s₁ => ptr = blockAddr (tableOf s.blocks d) + 4 * i ∧ Loads s s₁ ∧ s₁.MappedOn ptr 8)
        (fun _ _ => False) (OutOfMem s₀) := by
      rw [fileBlockWalk, hnat, if_neg hdir, if_pos hi]
      apply Ends.bind_ret hwalk
      apply Ends.bind_ret hind
      rw [hseen]
      refine Ends.bind hread ?_
      rintro ⟨blk, isnew⟩ s₁ hr
      have haddr : blk = blockAddr (tableOf s.blocks d) := hr.addr
      have hpage : s₁.mapped (blockPage (tableOf s.blocks d)) = true := hr.mapped
      refine Ends.of_ret rfl ⟨by rw [haddr], hr.loads, ?_⟩
      intro x hlo hhi
      rw [haddr, blockAddr_eq] at hlo hhi
      rw [NINDIRECT] at hi
      -- Only the last number reaches into the next page.
      by_cases hx : x < blockAddr (tableOf s.blocks d) + 4096
      · have hv : x / BY2PG = blockPage (tableOf s.blocks d) := by
          rw [blockAddr_eq] at hx
          rw [blockPage_eq, BY2PG]
          omega
        rw [hv]
        exact hpage
      · have hv : x / BY2PG = blockPage (tableOf s₀.blocks d + 1) := by
          rw [blockAddr_eq] at hx
          rw [blockPage_eq, BY2PG, ← htable]
          omega
        rw [blockAddr_eq] at hx
        rw [hv]
        exact hr.loads.steady.mapped _ (hl.steady.mapped _ (hp.last (by rw [NINDIRECT]; omega)))
    rw [fileMapBlock]
    refine Ends.bind hstep ?_
    rintro ptr s₁ ⟨rfl, hloads, hm⟩
    have hmap := mapPointer_present hm
      (by rw [hloads.blocks]; exact fun h0 => hne (congrArg BitVec.toNat h0))
    exact Ends.of_ret hmap ⟨by rw [hloads.blocks]; exact hno, hloads⟩

theorem fileGetBlock_ends (hdir : isDir s₀.blocks d = true) (hi : i < blockCount s₀.blocks d)
    (hl : Looked s₀ s N) (hc : Cached s d) (hp : Present s₀ d i) :
    (fileGetBlock d (BitVec.ofNat 32 i)).Ends s (fun blk s' => HasRead s s' (blockNo s₀.blocks d i) blk)
      (fun _ _ => False) (OutOfMem s₀) := by
  have hused := hg.block d i hd hdir hi hp.ne
  rw [fileGetBlock]
  refine Ends.bind (fileMapBlock_ends hg hd hl hc hp) ?_
  rintro r s₁ ⟨hr, hloads⟩
  have hl₁ := hl.loads hloads
  have hread : (readBlock r).Ends s₁ _ _ _ := hl₁.readBlock hg (by rw [hr]; exact hused)
  refine Ends.bind hread ?_
  rintro ⟨blk, isnew⟩ s₂ h₂
  rw [hr] at h₂
  exact Ends.of_ret rfl ⟨h₂.addr, h₂.mapped, hloads.trans h₂.loads⟩

end Directory

/-! ## `dir_lookup` -/

theorem strcmpEq_mapped (h : s.MappedOn a (name.length + 1)) :
    strcmpEq a name s = .ret (named s.blocks a name) s := by
  induction name generalizing a with
  | nil =>
      have hload : load8 a s = .ret (s.seen.ld8 a) s :=
        load_of_mapped (by decide) (fun _ _ hm => hm.ld8) h
      have hbyte : s.seen.ld8 a = s.blocks a := (h.blocks_eq a (le_refl a) (by simp)).symm
      rw [strcmpEq, bind_ret hload, hbyte, named]
      exact congrArg (Outcome.ret · s) (by rw [Bool.eq_iff_iff]; simp)
  | cons c name ih =>
      rw [List.length_cons] at h
      have hload : load8 a s = .ret (s.seen.ld8 a) s :=
        load_of_mapped (by decide) (fun _ _ hm => hm.ld8) (h.mono (le_refl _) (by omega))
      have hbyte : s.seen.ld8 a = s.blocks a := (h.blocks_eq a (le_refl a) (by omega)).symm
      rw [strcmpEq, bind_ret hload, hbyte, named]
      by_cases hc : s.blocks a = c
      · rw [if_pos hc, ih (h.mono (by omega) (by omega)), hc]
        simp
      · rw [if_neg hc]
        have hne : (s.blocks a == c) = false := by simp [hc]
        rw [hne]
        rfl

theorem cached_entry (h : s.mapped (blockPage b) = true) (hj : j < FILE2BLK) :
    Cached s (dirEntryAt b j) := by
  rw [FILE2BLK] at hj
  apply mappedOn_block h
  · rw [entryAt_eq, blockAddr_eq]
    omega
  · rw [entryAt_eq, blockAddr_eq, BY2FILE]
    omega

/-- What `dir_lookup` does to the entry it finds in a block. -/
def foundIn (s : Fs) (d : Nat) : Option Nat → Outcome Fs U32 (Option Nat)
  | none => .ret none s
  | some e => .ret (some e) { s with mem := s.mem.st64 (fDir e) (BitVec.ofNat 64 d) }

theorem dirLookupFiles_eq (h : s.mapped (blockPage b) = true) (hname : name.length < MAXNAMELEN)
    (hn : j + n ≤ FILE2BLK) :
    dirLookupFiles d (blockAddr b) name n j s =
      foundIn s d (((List.range' j n).map (dirEntryAt b)).find? fun e => named s.blocks e name) := by
  induction n generalizing j with
  | zero => rfl
  | succ n ih =>
      have hc : Cached s (dirEntryAt b j) := cached_entry h (by omega)
      have hcmp : strcmpEq (blockAddr b + BY2FILE * j) name s =
          .ret (named s.blocks (dirEntryAt b j) name) s := by
        rw [MAXNAMELEN] at hname
        have hm : s.MappedOn (dirEntryAt b j) (name.length + 1) :=
          hc.mono (le_refl _) (by rw [BY2FILE]; omega)
        exact strcmpEq_mapped hm
      rw [dirLookupFiles, bind_ret hcmp, List.range'_succ, List.map_cons, List.find?_cons]
      cases hsame : named s.blocks (dirEntryAt b j) name with
      | true =>
          have hm : s.MappedOn (fDir (dirEntryAt b j)) 8 :=
            hc.mono (by rw [fDir_eq]; omega) (by rw [fDir_eq, BY2FILE]; omega)
          exact bind_ret (store64_of_mapped hm)
      | false =>
          rw [if_neg Bool.false_ne_true]
          exact ih (by omega)

/-- In a block of the directory the entry is found, and its `f_dir` written. -/
theorem dirLookupFiles_found (h : s.mapped (blockPage b) = true) (hname : name.length < MAXNAMELEN) :
    dirLookupFiles d (blockAddr b) name FILE2BLK 0 s = foundIn s d (findIn s.blocks b name) := by
  rw [dirLookupFiles_eq h hname (by omega), findIn, List.range_eq_range']

/-- The blocks that are read when the name is looked up are there. -/
def Readable (s : Fs) (d : Nat) (name : List (BitVec 8)) : Prop :=
  ∀ k, k < blockCount s.blocks d →
    (List.range k).findSome? (fun i => findIn s.blocks (blockNo s.blocks d i) name) = none →
    Present s d k

section Directory

variable (hg : DirGraph s₀.blocks N) (hd : InTree s₀.blocks d) (hdir : isDir s₀.blocks d = true)
  (hname : name.length < MAXNAMELEN) (hne : name ≠ []) (h0 : (0 : BitVec 8) ∉ name)

include hg hd hdir

include hname hne h0 in
/-- One block of the directory. -/
theorem dirLookupBlock_ends (hi : i < blockCount s₀.blocks d) (hl : Looked s₀ s N) (hc : Cached s d)
    (hp : Present s₀ d i) :
    (fileGetBlock d (BitVec.ofNat 32 i) >>= fun blk => dirLookupFiles d blk name FILE2BLK 0).Ends s
      (fun found s' => found = findIn s₀.blocks (blockNo s₀.blocks d i) name ∧ Looked s₀ s' N ∧
        Cached s' d ∧ ∀ e, found = some e → InTree s₀.blocks e ∧ Cached s' e)
      (fun _ _ => False) (OutOfMem s₀) := by
  refine Ends.bind (fileGetBlock_ends hg hd hdir hi hl hc hp) fun blk s₁ hr => ?_
  have hl₁ := hl.loads hr.loads
  have hc₁ : Cached s₁ d := hc.steady hr.loads.steady
  have hfiles := dirLookupFiles_found (d := d) hr.mapped hname
  rw [hl₁.butDir.findIn_eq hg hname, ← hr.addr] at hfiles
  cases hfind : findIn s₀.blocks (blockNo s₀.blocks d i) name with
  | none =>
      rw [hfind] at hfiles
      exact Ends.of_ret hfiles ⟨rfl, hl₁, hc₁, by rintro e ⟨⟩⟩
  | some e =>
      rw [hfind] at hfiles
      obtain ⟨hnamed, j, hj, rfl⟩ := findIn_some hfind
      have hin : InTree s₀.blocks (dirEntryAt (blockNo s₀.blocks d i) j) :=
        .entry hd hdir ⟨i, j, hi, hp.ne, hj, rfl, named_ne_zero hnamed hne h0⟩
      have hce := cached_entry hr.mapped hj
      refine Ends.of_ret hfiles ⟨rfl, hl₁.setDir hg hin hce _, hc₁, ?_⟩
      rintro e ⟨⟩
      exact ⟨hin, hce⟩

include hname hne h0 in
/-- The blocks from `i` on; the induction is on the number of them. -/
theorem dirLookupBlocks_ends (hn : i + n = blockCount s₀.blocks d) (hl : Looked s₀ s N)
    (hc : Cached s d) (hr : ∀ k, k < n → (List.range' i k).findSome?
      (fun i => findIn s₀.blocks (blockNo s₀.blocks d i) name) = none → Present s₀ d (i + k)) :
    (dirLookupBlocks d name n i).Ends s
      (fun e s' => (List.range' i n).findSome?
          (fun i => findIn s₀.blocks (blockNo s₀.blocks d i) name) = some e ∧
        Looked s₀ s' N ∧ InTree s₀.blocks e ∧ Cached s' e)
      (fun r s' => (List.range' i n).findSome?
          (fun i => findIn s₀.blocks (blockNo s₀.blocks d i) name) = none ∧
        r = -E_NOT_FOUND ∧ Looked s₀ s' N ∧ Cached s' d)
      (OutOfMem s₀) := by
  induction n generalizing i s with
  | zero => exact Ends.of_fail rfl ⟨rfl, rfl, hl, hc⟩
  | succ n ih =>
      have hp : Present s₀ d i := hr 0 (by omega) rfl
      have hblock := dirLookupBlock_ends hg hd hdir hname hne h0 (by omega) hl hc hp
      rw [dirLookupBlocks, ← bind_assoc, List.range'_succ, List.findSome?_cons]
      refine Ends.bind (hblock.mono (fun _ _ h => h) (fun _ _ h => h.elim) fun _ h => h) ?_
      rintro found s₁ ⟨hfound, hl₁, hc₁, hin⟩
      rw [← hfound]
      cases found with
      | some e => exact Ends.of_ret rfl ⟨rfl, hl₁, hin e rfl⟩
      | none =>
          refine ih (by omega) hl₁ hc₁ fun k hk hnone => ?_
          have hk' := hr (k + 1) (by omega)
          rw [List.range'_succ, List.findSome?_cons, ← hfound, Nat.add_comm k 1, ← Nat.add_assoc] at hk'
          exact hk' hnone

include hname hne h0 in
theorem dirLookup_ends (hl : Looked s₀ s N) (hc : Cached s d) (hr : Readable s₀ d name) :
    (dirLookup d name).Ends s
      (fun e s' => lookupEntry s₀.blocks d name = some e ∧ Looked s₀ s' N ∧ InTree s₀.blocks e ∧
        Cached s' e)
      (fun r s' => lookupEntry s₀.blocks d name = none ∧ r = -E_NOT_FOUND ∧ Looked s₀ s' N ∧ Cached s' d)
      (OutOfMem s₀) := by
  have hm : s.MappedOn (fSize d) 4 := hc.mono (by rw [fSize]; omega) (by rw [fSize, BY2FILE]; omega)
  have hcount : fileBlocks d s = .ret (blockCount s₀.blocks d) s := by
    rw [fileBlocks, bind_ret (load32_of_mapped hm), ← hm.blocks_eq.ld32,
      hl.butDir.size_eq hg hd, blockCount]
    rfl
  have hblocks := dirLookupBlocks_ends hg hd hdir hname hne h0 (Nat.zero_add _) hl hc
    fun k hk hnone => by
      rw [Nat.zero_add]
      exact hr k hk (List.range_eq_range' ▸ hnone)
  rw [← List.range_eq_range'] at hblocks
  exact Ends.bind_ret hcount hblocks

end Directory

/-! ## `walk_path` -/

/-- `c != '/'`. -/
def isSlash (c : BitVec 8) : Bool := c == slash

/-- The names in a path. -/
def components (path : List (BitVec 8)) : List (List (BitVec 8)) := pieces isSlash path

/-- What `walk_path` answers, by where the path leads. -/
def answer : Resolution Nat (List (BitVec 8)) → WalkResult
  | .found dir f => ⟨0, dir.getD 0, f, []⟩
  | .unfit => ⟨-E_BAD_PATH, 0, 0, []⟩
  | .missing dir name => ⟨-E_NOT_FOUND, dir, 0, name⟩
  | .nowhere => ⟨-E_NOT_FOUND, 0, 0, []⟩

/-- On the way from `d` all blocks that are read are there. -/
def CleanFrom (s : Fs) : Nat → List (List (BitVec 8)) → Prop
  | _, [] => True
  | d, name :: names => name.length < MAXNAMELEN → isDir s.blocks d = true →
      Readable s d name ∧ ∀ f, lookupEntry s.blocks d name = some f → CleanFrom s f names

theorem components_cons {c : BitVec 8} {cs : List (BitVec 8)} (h : isSlash c = false) :
    components (c :: cs) = ((c :: cs).takeWhile fun c => c != slash) ::
      components (skipSlash ((c :: cs).dropWhile fun c => c != slash)) := by
  have hcons := pieces_cons (p := isSlash) (l := cs) h
  have hdrop := pieces_dropWhile (p := isSlash) (l := (c :: cs).dropWhile fun c => c != slash)
  rw [components, components, skipSlash]
  exact hcons.trans (congrArg _ hdrop.symm)

/-- Where a walk goes on there is no slash. -/
def AtName (path : List (BitVec 8)) : Prop := ∀ c cs, path = c :: cs → isSlash c = false

theorem atName_skipSlash (path : List (BitVec 8)) : AtName (skipSlash path) := by
  intro c cs h
  have hhead := List.head?_dropWhile_not isSlash path
  have hskip : path.dropWhile isSlash = c :: cs := h
  rw [hskip] at hhead
  simpa using hhead

theorem components_eq_nil (h : AtName path) : components path = [] ↔ path = [] := by
  constructor
  · intro hnil
    cases path with
    | nil => rfl
    | cons c cs =>
        rw [components_cons (h c cs rfl)] at hnil
        cases hnil
  · rintro rfl
    rfl

theorem skipSlash_length (path : List (BitVec 8)) : (skipSlash path).length ≤ path.length :=
  (List.dropWhile_sublist _).length_le

/-- What is left behind a name is shorter. -/
theorem rest_length {c : BitVec 8} (cs : List (BitVec 8)) (h : isSlash c = false) :
    (skipSlash ((c :: cs).dropWhile fun c => c != slash)).length ≤ cs.length := by
  have hdrop : (c :: cs).dropWhile (fun c => c != slash) = cs.dropWhile fun c => c != slash := by
    apply List.dropWhile_cons_of_pos
    simpa [isSlash] using h
  rw [hdrop]
  exact (skipSlash_length _).trans (List.dropWhile_sublist _).length_le

/-- A directory that was searched in vain: all its blocks were read. -/
structure Searched (s₀ s : Fs) (d : Nat) : Prop where
  inTree : InTree s₀.blocks d
  dir : isDir s₀.blocks d = true
  present : ∀ i, i < blockCount s₀.blocks d → Present s₀ d i
  cached : Cached s d

theorem Readable.present (h : Readable s d name) (hnone : lookupEntry s.blocks d name = none) {k : Nat}
    (hk : k < blockCount s.blocks d) : Present s d k := by
  apply h k hk
  rw [List.findSome?_eq_none_iff]
  intro i hi
  rw [List.mem_range] at hi
  exact List.findSome?_eq_none_iff.mp hnone i (List.mem_range.mpr (by omega))

/-- The loop of `walk_path` from directory or file `f`, with `dir` the one before.
    The induction is on the turns. -/
theorem walkLoop_ends (hg : DirGraph s₀.blocks N) (par : Option Nat) (hpath : AtName path)
    (h0 : (0 : BitVec 8) ∉ path) (hn : path.length ≤ n) (hl : Looked s₀ s N)
    (hf : InTree s₀.blocks f) (hc : Cached s f) (hclean : CleanFrom s₀ f (components path)) :
    (walkLoop n path (par.getD 0) f).Ends s
      (fun w s' => w = answer ((dirTree s₀.blocks).resolve par f (components path)) ∧
        Looked s₀ s' N ∧ ∀ d name, (dirTree s₀.blocks).resolve par f (components path) =
          .missing d name → Searched s₀ s' d)
      (fun _ _ => False) (OutOfMem s₀) := by
  induction n generalizing path s par f with
  | zero =>
      cases path with
      | nil => exact Ends.of_ret rfl ⟨rfl, hl, by rintro d name ⟨⟩⟩
      | cons c cs => exact absurd hn (Nat.not_succ_le_zero _)
  | succ n ih =>
      cases path with
      | nil => exact Ends.of_ret rfl ⟨rfl, hl, by rintro d name ⟨⟩⟩
      | cons c cs =>
          have hslash := hpath c cs rfl
          rw [components_cons hslash] at hclean ⊢
          rw [walkLoop]
          have hname : (c :: cs).takeWhile (fun c => c != slash) ≠ [] := by
            rw [List.takeWhile_cons_of_pos (by simpa [isSlash] using hslash)]
            exact List.cons_ne_nil _ _
          have hname0 : (0 : BitVec 8) ∉ (c :: cs).takeWhile (fun c => c != slash) :=
            fun hmem => h0 ((List.takeWhile_sublist _).subset hmem)
          have hrest0 : (0 : BitVec 8) ∉ skipSlash ((c :: cs).dropWhile fun c => c != slash) :=
            fun hmem => h0 ((List.dropWhile_sublist _).subset ((List.dropWhile_sublist _).subset hmem))
          have hrest := rest_length cs hslash
          have hat := atName_skipSlash ((c :: cs).dropWhile fun c => c != slash)
          generalize (c :: cs).takeWhile (fun c => c != slash) = name at *
          generalize skipSlash ((c :: cs).dropWhile fun c => c != slash) = rest at *
          rw [List.length_cons] at hn
          by_cases hlong : MAXNAMELEN ≤ name.length
          · rw [if_pos hlong]
            have hfits : (dirTree s₀.blocks).fits name = false := decide_eq_false (by omega)
            rw [NameSpace.resolve, hfits]
            exact Ends.of_ret rfl ⟨rfl, hl, by rintro d name ⟨⟩⟩
          · have hshort : name.length < MAXNAMELEN := by omega
            have hfits : (dirTree s₀.blocks).fits name = true := decide_eq_true hshort
            have hm : s.MappedOn (fType f) 4 :=
              hc.mono (by rw [fType]; omega) (by rw [fType, BY2FILE]; omega)
            have htype := load32_of_mapped hm
            have hdirEq : isDir s₀.blocks f = (s.seen.ld32 (fType f) == FTYPE_DIR) := by
              rw [← hl.butDir.isDir_eq hg hf, isDir, hm.blocks_eq.ld32]
            rw [if_neg hlong, NameSpace.resolve, if_pos hfits]
            apply Ends.bind_ret htype
            cases hdir : isDir s₀.blocks f with
            | false =>
                have hno : (dirTree s₀.blocks).isDir f = false := hdir
                rw [hno]
                rw [hdirEq, beq_eq_false_iff_ne] at hdir
                rw [if_pos hdir]
                exact Ends.of_ret rfl ⟨rfl, hl, by rintro d name ⟨⟩⟩
            | true =>
                have hyes : (dirTree s₀.blocks).isDir f = true := hdir
                rw [hyes]
                obtain ⟨hreadable, hnext⟩ := hclean hshort hdir
                have hlook := dirLookup_ends hg hf hdir hshort hname hname0 hl hc hreadable
                have htype' : s.seen.ld32 (fType f) = FTYPE_DIR := beq_iff_eq.mp (hdirEq ▸ hdir)
                rw [if_neg (not_not.mpr htype'), if_pos rfl]
                refine Ends.bind hlook.attempt ?_
                rintro (e | r) s₁ hr
                · obtain ⟨hnone, rfl, hl₁, hc₁⟩ := hr
                  have hchild : (dirTree s₀.blocks).child f name = none := hnone
                  rw [hchild]
                  by_cases hend : rest = []
                  · have hempty : (components rest).isEmpty = true := by
                      rw [hend]
                      rfl
                    rw [hempty]
                    refine Ends.of_ret (by simp only [hend, and_self, if_true]; rfl) ⟨rfl, hl₁, ?_⟩
                    rintro d name ⟨⟩
                    exact ⟨hf, hdir, fun i hi => hreadable.present hnone hi, hc₁⟩
                  · have hmore : (components rest).isEmpty = false := by
                      rw [List.isEmpty_eq_false_iff, ne_eq, components_eq_nil hat]
                      exact hend
                    rw [hmore]
                    refine Ends.of_ret (by simp only [hend, and_false, if_false]; rfl) ⟨rfl, hl₁, ?_⟩
                    rintro d name ⟨⟩
                · obtain ⟨hsome, hl₁, hr₁, hc₁⟩ := hr
                  have hchild : (dirTree s₀.blocks).child f name = some r := hsome
                  rw [hchild]
                  exact ih (some f) hat hrest0 (by omega) hl₁ hr₁ hc₁ (hnext r hsome)

end RpiMos
