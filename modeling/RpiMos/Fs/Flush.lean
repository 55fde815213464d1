/-
  RpiMos.Fs.Flush

  Writing blocks out: `file_flush`, `file_close` and `fs_sync`.  The cache stays as
  it is, and on the disk nothing changes but to what the cache has; after `fs_sync`
  a server that starts with an empty cache sees the blocks as they were.
-/

import RpiMos.Fs.TreeEdits

namespace RpiMos

open Lib Prog BlockTree

variable {s s' s₁ s₂ : Fs} {N f b i k n x : Nat} {m m' : ByteMem} {blockno : U32}

/-! ## One block -/

/-- The state with block `b` of the cache on the disk. -/
def Fs.written (s : Fs) (b : Nat) : Fs :=
  { s with disk := s.disk.fill s.mem (blockAddr b) (b * BY2BLK) BY2BLK }

theorem writeBlock_eq (h : Mounted s N) (hb : blockno.toNat < N)
    (hm : s.mapped (blockPage blockno.toNat) = true) :
    writeBlock blockno s = .ret () (s.written blockno.toNat) := by
  have hN := h.lt
  have hsect : (blockno * BitVec.ofNat 32 SECT2BLK).toNat * 512 = blockno.toNat * BY2BLK := by
    have h8 : (BitVec.ofNat 32 SECT2BLK).toNat = 8 := rfl
    rw [BitVec.toNat_mul, h8, Nat.mod_eq_of_lt (by omega), BY2BLK]
    omega
  have hpage : s.MappedOn (blockAddr blockno.toNat) BY2PG :=
    mappedOn_block hm (le_refl _) (by rw [BY2PG])
  rw [writeBlock, bind_ret (blockIsMapped_eq h hb), hm, if_pos rfl, bind_ret (diskaddr_eq h hb), sdWrite,
    bind_ret (access_of_mapped (by decide) hpage), hsect]
  rfl

theorem blockIsDirty_eq (h : Mounted s N) (hb : blockno.toNat < N) :
    blockIsDirty blockno s = .ret (s.mapped (blockPage blockno.toNat)) s := by
  rw [blockIsDirty, bind_ret (diskaddr_eq h hb)]
  rfl

/-- From `s` to `s'` blocks have been loaded and written out. -/
structure WroteOut (N : Nat) (s s' : Fs) : Prop where
  steady : Steady s s'
  kept : FreeKept N s s'
  blocks : ∀ x, DISKMAP ≤ x → s'.blocks x = s.blocks x
  disk : ∀ x, s'.disk x = s.disk x ∨ s'.disk x = s.blocks (DISKMAP + x)

theorem WroteOut.refl (N : Nat) (s : Fs) : WroteOut N s s :=
  ⟨.refl s, .refl N s, fun _ _ => rfl, fun _ => Or.inl rfl⟩

theorem WroteOut.trans (h : WroteOut N s s₁) (h' : WroteOut N s₁ s₂) : WroteOut N s s₂ := by
  refine ⟨h.steady.trans _ _ _ h'.steady, h.kept.trans h'.kept,
    fun x hx => (h'.blocks x hx).trans (h.blocks x hx), fun x => ?_⟩
  rcases h'.disk x with hold | hnew
  · rw [hold]
    exact h.disk x
  · rw [hnew, h.blocks _ (Nat.le_add_right _ _)]
    exact Or.inr rfl

theorem Moved.wroteOut (h : Moved N s s' s.blocks) : WroteOut N s s' where
  steady := h.steady
  kept := h.kept
  blocks _ _ := by rw [h.blocks]
  disk _ := by
    rw [h.disk]
    exact Or.inl rfl

/-- Block `b` is on the disk as it is in the cache. -/
def CleanAt (s : Fs) (b : Nat) : Prop := ∀ x, b * BY2BLK ≤ x → x < b * BY2BLK + BY2BLK →
  s.disk x = s.blocks (DISKMAP + x)

theorem CleanAt.wroteOut (h : CleanAt s b) (hs : WroteOut N s s') : CleanAt s' b := by
  intro x hlo hhi
  rw [hs.blocks _ (Nat.le_add_right _ _), ← h x hlo hhi]
  rcases hs.disk x with hold | hnew
  · exact hold
  · rw [hnew, h x hlo hhi]

/-- What is not in the cache is as on the disk. -/
theorem cleanAt_unmapped (hm : s.mapped (blockPage b) = false) : CleanAt s b := by
  intro x hlo hhi
  have hpage : (DISKMAP + x) / BY2PG = blockPage b := by
    rw [blockPage_eq, DISKMAP, BY2PG]
    rw [BY2BLK] at hlo hhi
    omega
  rw [Fs.blocks, hpage, hm, if_neg Bool.false_ne_true, Nat.add_sub_cancel_left]

theorem wroteOut_written (hb : blockno.toNat < N) (hm : s.mapped (blockPage blockno.toNat) = true) :
    WroteOut N s (s.written blockno.toNat) ∧ CleanAt (s.written blockno.toNat) blockno.toNat := by
  generalize blockno.toNat = b at *
  have hpage : ∀ x, b * BY2BLK ≤ x → x < b * BY2BLK + BY2BLK → (DISKMAP + x) / BY2PG = blockPage b := by
    intro x hlo hhi
    rw [blockPage_eq, DISKMAP, BY2PG]
    rw [BY2BLK] at hlo hhi
    omega
  have hin : ∀ x, b * BY2BLK ≤ x → x < b * BY2BLK + BY2BLK →
      (s.written b).disk x = s.blocks (DISKMAP + x) := by
    intro x hlo hhi
    have hsrc : x - b * BY2BLK + blockAddr b = DISKMAP + x := by
      rw [blockAddr]
      omega
    show s.disk.fill s.mem (blockAddr b) (b * BY2BLK) BY2BLK x = _
    rw [ByteMem.fill, if_pos ⟨hlo, hhi⟩, hsrc, Fs.blocks, hpage x hlo hhi, hm, if_pos rfl]
  have hout : ∀ x, ¬ (b * BY2BLK ≤ x ∧ x < b * BY2BLK + BY2BLK) → (s.written b).disk x = s.disk x := by
    intro x hx
    show s.disk.fill s.mem (blockAddr b) (b * BY2BLK) BY2BLK x = _
    rw [ByteMem.fill, if_neg hx]
  have hblocks : ∀ x, DISKMAP ≤ x → (s.written b).blocks x = s.blocks x := by
    intro x hx
    show (if s.mapped (x / BY2PG) then s.mem x else (s.written b).disk (x - DISKMAP)) = s.blocks x
    rw [Fs.blocks]
    by_cases hmx : s.mapped (x / BY2PG) = true
    · rw [if_pos hmx, if_pos hmx]
    · rw [if_neg hmx, if_neg hmx]
      apply hout
      rintro ⟨hlo, hhi⟩
      have hp := hpage _ hlo hhi
      rw [Nat.add_sub_cancel' hx] at hp
      rw [hp] at hmx
      exact hmx hm
  refine ⟨⟨⟨rfl, rfl, rfl, rfl, fun _ hv => hv⟩, fun c x hc hlo hfree hx => ?_, hblocks, fun x => ?_⟩,
    fun x hlo hhi => ?_⟩
  · refine ⟨?_, rfl⟩
    have hsame : ByteMem.Same s.blocks (s.written b).blocks (bitWord c) 8 := fun y hy _ =>
      hblocks y (by rw [bitWord, blockAddr_eq] at hy; rw [DISKMAP]; omega)
    rwa [freeBit_same hsame] at hfree
  · by_cases hx : b * BY2BLK ≤ x ∧ x < b * BY2BLK + BY2BLK
    · exact Or.inr (hin x hx.1 hx.2)
    · exact Or.inl (hout x hx)
  · rw [hblocks _ (Nat.le_add_right _ _)]
    exact hin x hlo hhi

/-- A block is written out when it is in the cache. -/
theorem writeIfDirty {α : Type} {p : FsM α} {Q : α → Fs → Prop} {E : U32 → Fs → Prop} {B : String → Prop}
    (h : Mounted s N) (hb : blockno.toNat < N)
    (hp : ∀ s', WroteOut N s s' → CleanAt s' blockno.toNat → p.Ends s' Q E B) :
    (blockIsDirty blockno >>= fun dirty => if dirty then writeBlock blockno >>= fun _ => p else p).Ends s
      Q E B := by
  apply Ends.bind_ret (blockIsDirty_eq h hb)
  by_cases hm : s.mapped (blockPage blockno.toNat) = true
  · rw [if_pos hm]
    obtain ⟨hs, hclean⟩ := wroteOut_written hb hm
    exact Ends.bind_ret (writeBlock_eq h hb hm) (hp _ hs hclean)
  · rw [if_neg hm]
    rw [Bool.not_eq_true] at hm
    exact hp s (.refl N s) (cleanAt_unmapped hm)

theorem Mounted.wroteOut (h : Mounted s N) (hs : WroteOut N s s') : Mounted s' N :=
  h.steady hs.steady fun x hlo _ => hs.blocks x (by rw [blockAddr_eq] at hlo; rw [DISKMAP]; omega)

/-! ## `fs_sync` -/

/-- The first `n` blocks are on the disk as they are in the cache. -/
def Synced (s : Fs) (n : Nat) : Prop := ∀ b, b < n → CleanAt s b

theorem syncBlocks_ends (h : Mounted s N) (hn : i + n = N) (hs : Synced s i) :
    (syncBlocks n i).Ends s (fun _ s' => WroteOut N s s' ∧ Synced s' N) (fun _ _ => False) fun _ => False := by
  induction n generalizing s i with
  | zero =>
      rw [Nat.add_zero] at hn
      exact Ends.of_ret rfl ⟨.refl N s, hn ▸ hs⟩
  | succ n ih =>
      have hN := h.lt
      have hi : (BitVec.ofNat 32 i).toNat = i := by
        rw [BitVec.toNat_ofNat, Nat.mod_eq_of_lt (by omega)]
      rw [syncBlocks]
      refine writeIfDirty h (by omega) fun s₁ hs₁ hclean => ?_
      rw [hi] at hclean
      have hsync : Synced s₁ (i + 1) := by
        intro b hb
        by_cases hbi : b = i
        · rw [hbi]
          exact hclean
        · exact (hs b (by omega)).wroteOut hs₁
      refine (ih (h.wroteOut hs₁) (by omega) hsync).mono ?_ (fun _ _ h => h) fun _ h => h
      rintro u s₂ ⟨hs₂, hall⟩
      exact ⟨hs₁.trans hs₂, hall⟩

theorem fsSync_ends (h : Mounted s N) : fsSync.Ends s (fun _ s' => WroteOut N s s' ∧ Synced s' N)
    (fun _ _ => False) fun _ => False := by
  obtain ⟨r, hr, hload⟩ := sNblocks_eq h
  rw [fsSync]
  apply Ends.bind_ret hload
  rw [hr]
  exact syncBlocks_ends h (Nat.zero_add N) fun b hb => absurd hb (Nat.not_lt_zero b)

/-- A server that has nothing in its cache yet, with the disk as it is now. -/
def Fs.restarted (s : Fs) : Fs := { s with mapped := fun _ => false }

theorem Synced.restarted (h : Synced s N) (hlo : DISKMAP ≤ x) (hhi : x < blockAddr N) :
    s.restarted.blocks x = s.blocks x := by
  rw [blockAddr] at hhi
  have hclean := h ((x - DISKMAP) / BY2BLK) (by rw [BY2BLK] at *; omega) (x - DISKMAP)
    (by rw [BY2BLK]; omega) (by rw [BY2BLK]; omega)
  show (if false = true then _ else s.disk (x - DISKMAP)) = s.blocks x
  rw [if_neg Bool.false_ne_true, hclean, Nat.add_sub_cancel' hlo]

/-! ## Memories that are the same from the disk map on -/

section High

variable (hh : ∀ x, DISKMAP ≤ x → m' x = m x)

include hh

theorem freeBit_high (b : Nat) : freeBit m' b = freeBit m b :=
  freeBit_same fun x hlo _ => hh x (by rw [bitWord, blockAddr_eq] at hlo; rw [DISKMAP]; omega)

theorem same_high {a : Nat} (ha : DISKMAP ≤ a) : ByteMem.Same m m' a n := fun x hlo _ => hh x (by omega)

theorem fileSame_high {g : Nat} (hg : DISKMAP ≤ g) : FileSame (fileTree m) (fileTree m') g :=
  fileSame_of (same_high hh hg) fun _ => same_high hh (Nat.le_add_right _ _)

end High

theorem FileOk.wroteOut (h : FileOk s N f) (hs : WroteOut N s s') : FileOk s' N f := by
  have htable : tableOf s'.blocks f = tableOf s.blocks f := (fileSame_high hs.blocks h.placed.high).ind
  refine ⟨h.mounted.wroteOut hs, fun b hb hbN => ?_, h.placed, h.cached.steady hs.steady,
    fun b x hb hbN hx hlo hhi => ?_, ?_, ?_⟩
  · rw [freeBit_high hs.blocks]
    exact h.low b hb hbN
  · rw [freeBit_high hs.blocks]
    exact h.used b x hb hbN hx hlo hhi
  · rw [htable]
    intro h0
    obtain ⟨hlo, hhi, hu⟩ := h.table h0
    exact ⟨hlo, hhi, by rw [freeBit_high hs.blocks]; exact hu⟩
  · rw [htable]
    exact h.apart

theorem TreeOk.wroteOut (h : TreeOk s N) (hs : WroteOut N s s') : TreeOk s' N where
  mounted := h.mounted.wroteOut hs
  wf := Wf.upEdit h.wf (.of_same (fun g hg => fileSame_high hs.blocks (h.wf.placed hg).high) fun b _ => by
    show freeBit s'.blocks b = false ↔ freeBit s.blocks b = false
    rw [freeBit_high hs.blocks])

/-! ## `file_flush` -/

theorem diskaddr_stop (h : Mounted s N) (hb : N ≤ blockno.toNat) :
    diskaddr blockno s = .stop "diskaddr() : blockno is too large!" := by
  rw [diskaddr, bind_ret (pastEnd_eq h), decide_eq_true hb]
  rfl

/-- Where no block is to be allocated, blocks are loaded at most. -/
theorem Reaches.had_of_not_alloc {a : Nat} (h : Reaches N false s s' a) : Moved N s s' s.blocks := by
  cases h with
  | had hm => exact hm
  | handed halloc _ _ _ => cases halloc

theorem MapsTo.moved (h : MapsTo N false s s' f k b) : Moved N s s' s.blocks := by
  obtain ⟨mid, hslot, hreach, -, -⟩ := h.walk
  have hm₁ := hslot.reach.had_of_not_alloc
  have hm₂ := hreach.had_of_not_alloc
  have hm := hm₁.trans hm₂
  rwa [hm₁.blocks] at hm

/-- The blocks of file `f` with numbers from `i` on are on the disk. -/
def CleanFile (s : Fs) (f i n : Nat) : Prop := ∀ k, i ≤ k → k < i + n → blockNo s.blocks f k ≠ 0 →
  CleanAt s (blockNo s.blocks f k)

theorem flushBlocks_ends (h : FileOk s N f) (hn : i + n < NINDIRECT) :
    (flushBlocks f n i).Ends s (fun _ s' => WroteOut N s s' ∧ CleanFile s' f i n) (fun _ _ => False) AnyStop := by
  induction n generalizing s i with
  | zero => exact Ends.of_ret rfl ⟨.refl N s, fun k hlo hhi => absurd hhi (by omega)⟩
  | succ n ih =>
      have hi : (BitVec.ofNat 32 i).toNat = i := by
        rw [NINDIRECT] at hn
        rw [BitVec.toNat_ofNat, Nat.mod_eq_of_lt (by omega)]
      -- One turn leaves the file as it is, and block `i` of it clean.
      have hrest : ∀ s₁, WroteOut N s s₁ → (blockNo s.blocks f i ≠ 0 → CleanAt s₁ (blockNo s.blocks f i)) →
          (flushBlocks f n (i + 1)).Ends s₁ (fun _ s' => WroteOut N s s' ∧ CleanFile s' f i (n + 1))
            (fun _ _ => False) AnyStop := by
        intro s₁ hs₁ hclean
        refine (ih (h.wroteOut hs₁) (by omega)).mono ?_ (fun _ _ h => h) fun _ h => h
        rintro u s₂ ⟨hs₂, hall⟩
        have hs := hs₁.trans hs₂
        refine ⟨hs, fun k hlo hhi h0 => ?_⟩
        by_cases hki : k = i
        · have hno : blockNo s₂.blocks f k = blockNo s.blocks f k :=
            (fileSame_high hs.blocks h.placed.high).slot k
          rw [hno] at h0 ⊢
          subst hki
          exact (hclean h0).wroteOut hs₂
        · exact hall k (by omega) (by omega) h0
      rw [flushBlocks]
      have hmap : (fileMapBlock f (BitVec.ofNat 32 i) false).Ends s _ _ _ :=
        fileMapBlock_reaches h (by rw [hi]; omega)
      refine Ends.bind hmap.attempt ?_
      rintro (e | r) s₁ hr
      · have hno := hr.none
        rw [hi] at hno
        exact hrest s₁ hr.reach.had_of_not_alloc.wroteOut fun h0 => absurd hno h0
      · have hm := hr.moved
        have hs₁ := hm.wroteOut
        have hok := h.loads hm
        have hno := hr.no
        rw [hi, hm.blocks] at hno
        by_cases hb : r.toNat < N
        · refine writeIfDirty hok.mounted hb fun s₂ hs₂ hclean => ?_
          rw [hno] at hclean
          exact hrest s₂ (hs₁.trans hs₂) fun _ => hclean
        · have hstop : blockIsDirty r s₁ = .stop "diskaddr() : blockno is too large!" :=
            bind_stop (diskaddr_stop hok.mounted (Nat.le_of_not_lt hb))
          exact Ends.of_stop (bind_stop hstop) trivial

theorem FileOk.fileBlocks (h : FileOk s N f) : fileBlocks f s = .ret (blockCount s.blocks f) s := by
  have hm := h.head_mapped (a := fSize f) (n := 4) (by rw [fSize]; omega) (by rw [fSize, BY2FILE]; omega)
  rw [RpiMos.fileBlocks, bind_ret (load32_blocks hm)]
  rfl

theorem fileFlush_ends (h : FileOk s N f) (hn : blockCount s.blocks f < NINDIRECT) :
    (fileFlush f).Ends s (fun _ s' => WroteOut N s s' ∧ CleanFile s' f 0 (blockCount s.blocks f))
      (fun _ _ => False) AnyStop := by
  rw [fileFlush]
  apply Ends.bind_ret h.fileBlocks
  exact flushBlocks_ends h (by omega)

/-- `f->f_dir`. -/
def dirOf (m : ByteMem) (f : Nat) : Nat := (m.ld64 (fDir f)).toNat

theorem flushDir_ends (h : FileOk s N f) (hd : dirOf s.blocks f ≠ 0 →
    FileOk s N (dirOf s.blocks f) ∧ blockCount s.blocks (dirOf s.blocks f) < NINDIRECT) :
    (flushDir f).Ends s (fun _ s' => WroteOut N s s' ∧ (dirOf s.blocks f ≠ 0 →
        CleanFile s' (dirOf s.blocks f) 0 (blockCount s.blocks (dirOf s.blocks f))))
      (fun _ _ => False) AnyStop := by
  have hm := h.head_mapped (a := fDir f) (n := 8) (by rw [fDir_eq]; omega) (by rw [fDir_eq, BY2FILE]; omega)
  rw [flushDir]
  apply Ends.bind_ret (load64_blocks hm)
  by_cases h0 : s.blocks.ld64 (fDir f) = 0
  · have hdir : dirOf s.blocks f = 0 := congrArg BitVec.toNat h0
    rw [if_pos h0]
    exact Ends.of_ret rfl ⟨.refl N s, fun hne => absurd hdir hne⟩
  · have hdir : dirOf s.blocks f ≠ 0 := fun hz => h0 (BitVec.eq_of_toNat_eq hz)
    rw [if_neg h0]
    obtain ⟨hok, hcount⟩ := hd hdir
    exact (fileFlush_ends hok hcount).mono (fun _ _ h => ⟨h.1, fun _ => h.2⟩) (fun _ _ h => h) fun _ h => h

end RpiMos
