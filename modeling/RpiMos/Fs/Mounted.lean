/-
  RpiMos.Fs.Mounted

  The block layer once the file system is mounted: the super block and the bitmap
  are in the cache, so that what the functions on blocks do can be said of the
  memory they see.  One specification lemma for each of them.
-/

import RpiMos.Fs.Seen

namespace RpiMos

open Lib Prog

variable {s s' : Fs} {N : Nat} {m : ByteMem} {b b' : Nat} {blockno : U32}

/-! ## Blocks in memory -/

/-- Where block `b` is in the cache. -/
def blockAddr (b : Nat) : Nat := DISKMAP + b * BY2BLK

def blockPage (b : Nat) : Nat := blockAddr b / BY2PG

/-- The number of blocks with the bits of `N` blocks. -/
def bitmapBlocks (N : Nat) : Nat := ROUND N BIT2BLK / BIT2BLK

/-- The first block that is neither the boot block, the super block nor in the
    bitmap. -/
def firstData (N : Nat) : Nat := 2 + bitmapBlocks N

/-- Where the word with the bit of block `b` is. -/
def bitWord (b : Nat) : Nat := blockAddr 2 + 8 * (b / 64)

/-- The bit of block `b` is set: the block is free. -/
def freeBit (m : ByteMem) (b : Nat) : Bool := (m.ld64 (bitWord b)).getLsbD (b % 64)

structure Mounted (s : Fs) (N : Nat) : Prop where
  super : s.super = blockAddr 1
  bitmap : s.bitmap = blockAddr 2
  nblocks : (s.seen.ld32 (blockAddr 1 + 4)).toNat = N
  le : N ≤ DISKMAX / BY2BLK
  superMapped : s.mapped (blockPage 1) = true
  bitmapMapped : ∀ i, i < bitmapBlocks N → s.mapped (blockPage (2 + i)) = true

theorem Mounted.lt (h : Mounted s N) : N ≤ 262144 := h.le

theorem bitmapBlocks_eq (N : Nat) : bitmapBlocks N = (N + 32767) / 32768 := by
  unfold bitmapBlocks ROUND BIT2BLK
  omega

theorem blockAddr_eq (b : Nat) : blockAddr b = 8589934592 + b * 4096 := rfl

theorem blockPage_eq (b : Nat) : blockPage b = 2097152 + b := by
  unfold blockPage
  rw [blockAddr_eq, BY2PG]
  omega

/-- Nothing that a mounted file system depends on has changed. -/
theorem Mounted.wrote (h : Mounted s N) (hw : Wrote s s' m)
    (hsame : ByteMem.Same s.seen m (blockAddr 1 + 4) 4) : Mounted s' N where
  super := hw.steady.super.trans h.super
  bitmap := hw.steady.bitmap.trans h.bitmap
  nblocks := by rw [hw.seen, hsame.ld32, h.nblocks]
  le := h.le
  superMapped := hw.steady.mapped _ h.superMapped
  bitmapMapped i hi := hw.steady.mapped _ (h.bitmapMapped i hi)

theorem Mounted.touched (h : Mounted s N) (ht : Touched s s') : Mounted s' N :=
  h.wrote ht.wrote fun _ _ _ => rfl

/-- Bytes within one page. -/
theorem mappedOn_page {v a n : Nat} (h : s.mapped v = true) (hlo : v * 4096 ≤ a)
    (hhi : a + n ≤ v * 4096 + 4096) : s.MappedOn a n := by
  intro x hx hx'
  have hv : x / BY2PG = v := by
    rw [BY2PG]
    omega
  rw [hv]
  exact h

theorem mappedOn_block {a n : Nat} (h : s.mapped (blockPage b) = true) (hlo : blockAddr b ≤ a)
    (hhi : a + n ≤ blockAddr b + 4096) : s.MappedOn a n := by
  rw [blockPage_eq] at h
  rw [blockAddr_eq] at hlo hhi
  exact mappedOn_page h (by omega) (by omega)

theorem Mounted.superWord (h : Mounted s N) : s.MappedOn (blockAddr 1 + 4) 4 :=
  mappedOn_block h.superMapped (by omega) (by omega)

theorem Mounted.bitWord_mapped (h : Mounted s N) (hb : b < N) : s.MappedOn (bitWord b) 8 := by
  have hi : b / 32768 < bitmapBlocks N := by
    rw [bitmapBlocks_eq]
    omega
  apply mappedOn_block (h.bitmapMapped _ hi)
  · rw [bitWord, blockAddr_eq, blockAddr_eq]
    omega
  · rw [bitWord, blockAddr_eq, blockAddr_eq]
    omega

/-! ## Bits of the bitmap -/

theorem blockBit_eq (blockno : U32) : blockBit blockno = BitVec.twoPow 64 (blockno.toNat % 64) := by
  apply BitVec.eq_of_toNat_eq
  have hk : blockno.toNat % 64 < 64 := Nat.mod_lt _ (by decide)
  show (1 <<< (blockno.toNat % 64)) % 2 ^ 64 = _
  rw [BitVec.toNat_twoPow, Nat.one_shiftLeft]

theorem blockBit_getLsbD (blockno : U32) (i : Nat) :
    (blockBit blockno).getLsbD i = decide (i = blockno.toNat % 64) := by
  have hk : blockno.toNat % 64 < 64 := Nat.mod_lt _ (by decide)
  rw [blockBit_eq, BitVec.getLsbD_twoPow, decide_eq_true hk, Bool.true_and]
  exact decide_eq_decide.mpr eq_comm

theorem and_blockBit_ne_zero (w : Word) (blockno : U32) :
    w &&& blockBit blockno ≠ 0 ↔ w.getLsbD (blockno.toNat % 64) = true := by
  have hzero : ∀ i, (0 : Word).getLsbD i = false := fun i => BitVec.getLsbD_zero
  constructor
  · intro h
    by_contra hbit
    apply h
    apply BitVec.eq_of_getLsbD_eq
    intro i hi
    rw [BitVec.getLsbD_and, blockBit_getLsbD blockno i, hzero]
    by_cases heq : i = blockno.toNat % 64
    · rw [heq, Bool.eq_false_of_not_eq_true hbit, Bool.false_and]
    · rw [decide_eq_false heq, Bool.and_false]
  · intro hbit h
    have hand := congrArg (fun x : Word => x.getLsbD (blockno.toNat % 64)) h
    simp only [BitVec.getLsbD_and, blockBit_getLsbD blockno _, hbit, hzero, decide_true,
      Bool.and_self] at hand
    cases hand

/-- The bit of a block set or cleared. -/
def setBit (m : ByteMem) (blockno : U32) (free : Bool) : ByteMem :=
  m.st64 (bitWord blockno.toNat)
    (if free then m.ld64 (bitWord blockno.toNat) ||| blockBit blockno
      else m.ld64 (bitWord blockno.toNat) &&& ~~~ blockBit blockno)

theorem freeBit_setBit (m : ByteMem) (blockno : U32) (free : Bool) (b : Nat) :
    freeBit (setBit m blockno free) b = if b = blockno.toNat then free else freeBit m b := by
  have hk : b % 64 < 64 := Nat.mod_lt _ (by decide)
  by_cases hword : b / 64 = blockno.toNat / 64
  · have haddr : bitWord b = bitWord blockno.toNat := by rw [bitWord, bitWord, hword]
    rw [freeBit, setBit, haddr, ByteMem.ld64_st64]
    by_cases hb : b = blockno.toNat
    · rw [if_pos hb, hb]
      cases free
      · simp only [Bool.false_eq_true, if_false, BitVec.getLsbD_and, BitVec.getLsbD_not,
          blockBit_getLsbD blockno _, decide_true, Bool.not_true, Bool.and_false]
      · simp only [if_true, BitVec.getLsbD_or, blockBit_getLsbD blockno _, decide_true,
          Bool.or_true]
    · have hne : b % 64 ≠ blockno.toNat % 64 := by omega
      rw [if_neg hb, freeBit, haddr]
      cases free
      · simp only [Bool.false_eq_true, if_false, BitVec.getLsbD_and, BitVec.getLsbD_not,
          blockBit_getLsbD blockno _, decide_eq_false hne, hk, decide_true, Bool.not_false,
          Bool.and_true]
      · simp only [if_true, BitVec.getLsbD_or, blockBit_getLsbD blockno _, decide_eq_false hne,
          Bool.or_false]
  · have hb : b ≠ blockno.toNat := by
      rintro rfl
      exact hword rfl
    have hsame : ByteMem.Same m (setBit m blockno free) (bitWord b) 8 := by
      apply ByteMem.same_st64
      unfold bitWord
      omega
    rw [if_neg hb, freeBit, hsame.ld64, freeBit]

/-- What is not in the bitmap is left alone. -/
theorem same_setBit {a n : Nat} (free : Bool) (hb : blockno.toNat < N)
    (h : a + n ≤ blockAddr 2 ∨ blockAddr (firstData N) ≤ a) :
    ByteMem.Same m (setBit m blockno free) a n := by
  apply ByteMem.same_st64
  rw [firstData, bitmapBlocks_eq, blockAddr_eq, blockAddr_eq] at h
  rw [bitWord, blockAddr_eq]
  omega

/-! ## Reading the super block and the bitmap -/

theorem sNblocks_eq (h : Mounted s N) : ∃ n : U32, n.toNat = N ∧ sNblocks s = .ret n s := by
  refine ⟨_, h.nblocks, ?_⟩
  show load32 (s.super + 4) s = _
  rw [h.super]
  exact load32_of_mapped h.superWord

theorem blockAddr_pos (b : Nat) : blockAddr b ≠ 0 := by
  rw [blockAddr_eq]
  omega

theorem pastEnd_eq (h : Mounted s N) : pastEnd blockno s = .ret (decide (N ≤ blockno.toNat)) s := by
  obtain ⟨n, hn, hload⟩ := sNblocks_eq h
  have hsuper : s.super ≠ 0 := h.super ▸ blockAddr_pos 1
  show (if s.super = 0 then pure false else _ : FsM Bool) s = _
  rw [if_neg hsuper, bind_ret hload, ← hn]
  rfl

theorem diskaddr_eq (h : Mounted s N) (hb : blockno.toNat < N) :
    diskaddr blockno s = .ret (blockAddr blockno.toNat) s := by
  have hpast : decide (N ≤ blockno.toNat) = false := decide_eq_false (by omega)
  rw [diskaddr, bind_ret (pastEnd_eq h), hpast]
  rfl

theorem blockIsMapped_eq (h : Mounted s N) (hb : blockno.toNat < N) :
    blockIsMapped blockno s = .ret (s.mapped (blockPage blockno.toNat)) s := by
  rw [blockIsMapped, bind_ret (diskaddr_eq h hb)]
  rfl

theorem bitmapWord_eq (h : Mounted s N) (blockno : U32) :
    bitmapWord s.bitmap blockno = bitWord blockno.toNat := by
  rw [bitmapWord, h.bitmap, bitWord]

theorem loadBits_eq (h : Mounted s N) (hb : blockno.toNat < N) :
    load64 (bitmapWord s.bitmap blockno) s = .ret (s.seen.ld64 (bitWord blockno.toNat)) s := by
  rw [bitmapWord_eq h]
  exact load64_of_mapped (h.bitWord_mapped hb)

theorem knownFree_eq (h : Mounted s N) (hb : blockno.toNat < N) :
    knownFree blockno s = .ret (freeBit s.seen blockno.toNat) s := by
  obtain ⟨n, hn, hload⟩ := sNblocks_eq h
  have hsuper : s.super ≠ 0 := h.super ▸ blockAddr_pos 1
  have hbitmap : s.bitmap ≠ 0 := h.bitmap ▸ blockAddr_pos 2
  have hlt : ¬ n ≤ blockno := by
    show ¬ n.toNat ≤ blockno.toNat
    omega
  have hfree : decide (s.seen.ld64 (bitWord blockno.toNat) &&& blockBit blockno ≠ 0) =
      freeBit s.seen blockno.toNat := by
    rw [freeBit]
    cases hbit : (s.seen.ld64 (bitWord blockno.toNat)).getLsbD (blockno.toNat % 64)
    · rw [decide_eq_false]
      rw [and_blockBit_ne_zero, hbit]
      exact Bool.false_ne_true
    · exact decide_eq_true ((and_blockBit_ne_zero _ _).mpr hbit)
  show (if s.bitmap = 0 then pure false else blockIsFree blockno : FsM Bool) s = _
  rw [if_neg hbitmap]
  show (if s.super = 0 then pure false else _ : FsM Bool) s = _
  rw [if_neg hsuper, bind_ret hload, if_neg hlt]
  show (load64 (bitmapWord s.bitmap blockno) >>= fun w =>
    (pure (decide (w &&& blockBit blockno ≠ 0)) : FsM Bool)) s = _
  rw [bind_ret (loadBits_eq h hb), hfree]
  rfl

/-! ## `free_block` -/

theorem setBits_eq (h : Mounted s N) (hb : blockno.toNat < N) (free : Bool) :
    store64 (bitmapWord s.bitmap blockno) (if free then
        s.seen.ld64 (bitWord blockno.toNat) ||| blockBit blockno
      else s.seen.ld64 (bitWord blockno.toNat) &&& ~~~ blockBit blockno) s =
      .ret () { s with mem := setBit s.mem blockno free } := by
  have hm := h.bitWord_mapped hb
  rw [bitmapWord_eq h, store64_of_mapped hm, setBit, hm.seen_eq.ld64]

theorem seen_setBit (h : Mounted s N) (hb : blockno.toNat < N) (free : Bool) :
    ({ s with mem := setBit s.mem blockno free } : Fs).seen = setBit s.seen blockno free := by
  have hm := h.bitWord_mapped hb
  rw [setBit, seen_st64 _ hm, setBit, hm.seen_eq.ld64]

/-- The state with a block marked. -/
def Fs.marked (s : Fs) (blockno : U32) (free : Bool) : Fs :=
  { s with mem := setBit s.mem blockno free }

theorem wrote_marked (h : Mounted s N) (hb : blockno.toNat < N) (free : Bool) :
    Wrote s (s.marked blockno free) (setBit s.seen blockno free) :=
  ⟨seen_setBit h hb free, rfl, ⟨rfl, rfl, rfl, rfl, fun _ hv => hv⟩⟩

theorem freeBlock_eq (h : Mounted s N) (h0 : blockno ≠ 0) (hb : blockno.toNat < N) :
    freeBlock blockno s = .ret () (s.marked blockno true) := by
  have hpast : decide (N ≤ blockno.toNat) = false := decide_eq_false (by omega)
  rw [freeBlock, if_neg h0, bind_ret (pastEnd_eq h), hpast]
  show (load64 (bitmapWord s.bitmap blockno) >>= fun w =>
    store64 (bitmapWord s.bitmap blockno) (w ||| blockBit blockno)) s = _
  rw [bind_ret (loadBits_eq h hb)]
  exact setBits_eq h hb true

theorem freeBlock_stop (h : Mounted s N) (hbad : blockno = 0 ∨ N ≤ blockno.toNat) :
    freeBlock blockno s = .stop "free block with wrong blockno!\n" := by
  unfold freeBlock
  by_cases h0 : blockno = 0
  · rw [if_pos h0]
    rfl
  · have hpast : decide (N ≤ blockno.toNat) = true := decide_eq_true (hbad.resolve_left h0)
    rw [if_neg h0, bind_ret (pastEnd_eq h), hpast]
    rfl

theorem freeBlock_ne_fail {e : U32} (h : Mounted s N) : freeBlock blockno s ≠ .fail e s' := by
  by_cases hbad : blockno = 0 ∨ N ≤ blockno.toNat
  · rw [freeBlock_stop h hbad]
    rintro ⟨⟩
  · rw [not_or] at hbad
    rw [freeBlock_eq h hbad.1 (Nat.lt_of_not_le hbad.2)]
    rintro ⟨⟩

/-! ## `alloc_block` -/

/-- The block that `alloc_block_num` finds. -/
structure FirstFree (m : ByteMem) (N b : Nat) : Prop where
  lo : 3 ≤ b
  hi : b < N
  free : freeBit m b = true
  first : ∀ b', 3 ≤ b' → b' < b → freeBit m b' = false

theorem FirstFree.unique (h : FirstFree m N b) (h' : FirstFree m N b') : b = b' := by
  rcases Nat.lt_trichotomy b b' with hlt | heq | hgt
  · have := h'.first b h.lo hlt
    rw [h.free] at this
    cases this
  · exact heq
  · have := h.first b' h'.lo hgt
    rw [h'.free] at this
    cases this

/-- The scan stops behind the last block. -/
theorem allocScan_end {n : Nat} (h : Mounted s N) (hb : N ≤ blockno.toNat) :
    allocScan (n + 1) blockno s = .fail (-E_NO_DISK) s := by
  obtain ⟨nblocks, hn, hload⟩ := sNblocks_eq h
  have hpast : nblocks ≤ blockno := by
    show nblocks.toNat ≤ blockno.toNat
    omega
  rw [allocScan, bind_ret hload, if_pos hpast]
  rfl

/-- One turn of the scan: a free block is marked and returned. -/
theorem allocScan_turn {n : Nat} (h : Mounted s N) (hb : blockno.toNat < N) :
    allocScan (n + 1) blockno s = if freeBit s.seen blockno.toNat
      then .ret blockno (s.marked blockno false) else allocScan n (blockno + 1) s := by
  obtain ⟨nblocks, hn, hload⟩ := sNblocks_eq h
  have hpast : ¬ nblocks ≤ blockno := by
    show ¬ nblocks.toNat ≤ blockno.toNat
    omega
  rw [allocScan, bind_ret hload, if_neg hpast]
  show (load64 (bitmapWord s.bitmap blockno) >>= fun w =>
    if w &&& blockBit blockno ≠ 0 then
      load64 (bitmapWord s.bitmap blockno) >>= fun w =>
        store64 (bitmapWord s.bitmap blockno) (w &&& ~~~ blockBit blockno) >>= fun _ =>
          (pure blockno : FsM U32)
    else allocScan n (blockno + 1)) s = _
  rw [bind_ret (loadBits_eq h hb), freeBit]
  by_cases hbit : s.seen.ld64 (bitWord blockno.toNat) &&& blockBit blockno ≠ 0
  · have hset : store64 (bitmapWord s.bitmap blockno)
        (s.seen.ld64 (bitWord blockno.toNat) &&& ~~~ blockBit blockno) s =
          .ret () (s.marked blockno false) := setBits_eq h hb false
    rw [if_pos hbit, if_pos ((and_blockBit_ne_zero _ _).mp hbit), bind_ret (loadBits_eq h hb),
      bind_ret hset]
    rfl
  · rw [if_neg hbit]
    rw [and_blockBit_ne_zero] at hbit
    rw [if_neg hbit]

/-- A block number of the disk plus one does not wrap. -/
theorem Mounted.toNat_succ (h : Mounted s N) (hb : blockno.toNat < N) :
    (blockno + 1).toNat = blockno.toNat + 1 := by
  have hN := h.lt
  have hone : (1 : U32).toNat = 1 := rfl
  rw [BitVec.toNat_add, hone, Nat.mod_eq_of_lt (by omega)]

/-- The scan from `blockno` on, when no block before it is free: with turns enough
    it finds the first free block, or there is none. -/
theorem allocScan_spec {n : Nat} (h : Mounted s N) (hlo : 3 ≤ blockno.toNat)
    (hfirst : ∀ b, 3 ≤ b → b < blockno.toNat → freeBit s.seen b = false)
    (hn : N ≤ blockno.toNat + n) :
    (∃ r : U32, allocScan n blockno s = .ret r (s.marked r false) ∧
      FirstFree s.seen N r.toNat) ∨
    (allocScan n blockno s = .fail (-E_NO_DISK) s ∧
      ∀ b, 3 ≤ b → b < N → freeBit s.seen b = false) := by
  induction n generalizing blockno with
  | zero => exact Or.inr ⟨rfl, fun b hb₃ hlt => hfirst b hb₃ (by omega)⟩
  | succ n ih =>
      by_cases hb : blockno.toNat < N
      · rw [allocScan_turn h hb]
        cases hbit : freeBit s.seen blockno.toNat with
        | true => exact Or.inl ⟨blockno, rfl, hlo, hb, hbit, hfirst⟩
        | false =>
            have hsucc := h.toNat_succ hb
            refine ih (by omega) (fun b hb₃ hlt => ?_) (by omega)
            by_cases hb' : b = blockno.toNat
            · rw [hb', hbit]
            · exact hfirst b hb₃ (by omega)
      · refine Or.inr ⟨allocScan_end h (by omega), fun b hb₃ hlt => hfirst b hb₃ (by omega)⟩

/-- `alloc_block_num` finds the first free block, or there is none. -/
theorem allocBlockNum_spec (h : Mounted s N) :
    (∃ r : U32, allocBlockNum s = .ret r (s.marked r false) ∧ FirstFree s.seen N r.toNat) ∨
    (allocBlockNum s = .fail (-E_NO_DISK) s ∧ ∀ b, 3 ≤ b → b < N → freeBit s.seen b = false) := by
  have hN := h.lt
  have hnone : ∀ b, 3 ≤ b → b < (3 : U32).toNat → freeBit s.seen b = false :=
    fun b hlo hlt => absurd hlt (Nat.not_lt_of_le hlo)
  have hturns : N ≤ (3 : U32).toNat + 2 ^ 32 :=
    Nat.le_add_left_of_le (hN.trans (by decide))
  exact allocScan_spec h (by decide) hnone hturns

theorem allocBlockNum_ret {r : U32} (h : Mounted s N) (hr : allocBlockNum s = .ret r s') :
    FirstFree s.seen N r.toNat ∧ s' = s.marked r false := by
  rcases allocBlockNum_spec h with ⟨b, hb, hfirst⟩ | ⟨hfail, -⟩
  · rw [hb] at hr
    cases hr
    exact ⟨hfirst, rfl⟩
  · rw [hfail] at hr
    cases hr

/-- Of the pages that were not mapped only `v` may be now. -/
def MapsOnly (s s' : Fs) (v : Nat) : Prop := ∀ v', v' ≠ v → s'.mapped v' = s.mapped v'

theorem syscallMemAlloc_ret {va : Nat} {r : U32} (hv : s.mapped (va / BY2PG) = false)
    (hr : syscallMemAlloc va s = .ret r s') :
    Touched s s' ∧ MapsOnly s s' (va / BY2PG) ∧ (r = 0 → s'.mapped (va / BY2PG) = true) := by
  have hsteady := (quiet_syscallMemAlloc va).ret hr
  unfold syscallMemAlloc at hr
  split at hr
  · cases hr
    refine ⟨⟨seen_mapZero hv, rfl, hsteady⟩, fun v' hv' => ?_, fun _ => ?_⟩
    · simp [Fs.mapZero, hv']
    · simp [Fs.mapZero]
  · cases hr
    exact ⟨⟨rfl, rfl, hsteady⟩, fun _ _ => rfl, fun h => absurd h (by decide)⟩

theorem mapBlock_ret {r : U32} (h : Mounted s N) (hb : blockno.toNat < N)
    (hr : mapBlock blockno s = .ret r s') :
    Touched s s' ∧ MapsOnly s s' (blockPage blockno.toNat) ∧
      (r = 0 → s'.mapped (blockPage blockno.toNat) = true) := by
  rw [mapBlock, bind_ret (blockIsMapped_eq h hb)] at hr
  by_cases hm : s.mapped (blockPage blockno.toNat) = true
  · rw [if_pos hm] at hr
    cases hr
    exact ⟨.refl s, fun _ _ => rfl, fun _ => hm⟩
  · rw [if_neg hm, bind_ret (diskaddr_eq h hb)] at hr
    exact syscallMemAlloc_ret (Bool.eq_false_of_not_eq_true hm) hr

/-- A block allocated was the first free one, and is in the cache. -/
theorem allocBlock_ret {r : U32} (h : Mounted s N) (hr : allocBlock s = .ret r s') :
    FirstFree s.seen N r.toNat ∧ Wrote s s' (setBit s.seen r false) ∧
      MapsOnly s s' (blockPage r.toNat) ∧ s'.mapped (blockPage r.toNat) = true := by
  obtain ⟨bno, s₁, h₁, h₂⟩ := bind_eq_ret.mp hr
  obtain ⟨hfirst, rfl⟩ := allocBlockNum_ret h h₁
  have hw := wrote_marked h hfirst.hi false
  have hmount : Mounted (s.marked bno false) N :=
    h.wrote hw (same_setBit false hfirst.hi (Or.inl (by rw [blockAddr_eq, blockAddr_eq]; omega)))
  obtain ⟨r', s₂, h₃, h₄⟩ := bind_eq_ret.mp h₂
  obtain ⟨ht, honly, hmapped⟩ := mapBlock_ret hmount hfirst.hi h₃
  by_cases hr' : r' = 0
  · rw [if_pos hr'] at h₄
    cases h₄
    exact ⟨hfirst, hw.touched ht, honly, hmapped hr'⟩
  · rw [if_neg hr'] at h₄
    obtain ⟨_, _, _, h₅⟩ := bind_eq_ret.mp h₄
    cases h₅

/-- `map_block` fails only for want of a page. -/
theorem mapBlock_cases (h : Mounted s N) (hb : blockno.toNat < N) :
    (∃ s', mapBlock blockno s = .ret 0 s') ∨
    mapBlock blockno s = .ret (-1) { s with allocs := s.allocs + 1 } := by
  rw [mapBlock, bind_ret (blockIsMapped_eq h hb)]
  by_cases hm : s.mapped (blockPage blockno.toNat) = true
  · rw [if_pos hm]
    exact Or.inl ⟨s, rfl⟩
  · rw [if_neg hm, bind_ret (diskaddr_eq h hb)]
    by_cases hok : s.memOk s.allocs = true
    · exact Or.inl ⟨_, if_pos hok⟩
    · exact Or.inr (if_neg hok)

/-- A block that is marked and given back leaves the bitmap as it was. -/
theorem setBit_undo (h : freeBit m blockno.toNat = true) :
    setBit (setBit m blockno false) blockno true = m := by
  have hword : (m.ld64 (bitWord blockno.toNat) &&& ~~~ blockBit blockno) ||| blockBit blockno =
      m.ld64 (bitWord blockno.toNat) := by
    apply BitVec.eq_of_getLsbD_eq
    intro i hi
    rw [BitVec.getLsbD_or, BitVec.getLsbD_and, BitVec.getLsbD_not, blockBit_getLsbD]
    by_cases hbit : i = blockno.toNat % 64
    · rw [hbit]
      rw [freeBit] at h
      simp [h]
    · simp [hi, hbit]
  simp only [setBit, Bool.false_eq_true, if_false, if_true]
  rw [ByteMem.ld64_st64, ByteMem.st64_st64, hword, ByteMem.st64_ld64]

/-- Why no block was allocated: the disk is full, or there is no page for the block. -/
def AllocError (m : ByteMem) (N : Nat) (e : U32) : Prop :=
  (e = -E_NO_DISK ∧ ∀ b, 3 ≤ b → b < N → freeBit m b = false) ∨ (e = -1 ∧ ∃ b, FirstFree m N b)

/-- `alloc_block` returns a block, or leaves everything as it was. -/
theorem allocBlock_cases (h : Mounted s N) :
    (∃ r s', allocBlock s = .ret r s') ∨
    ∃ e s', allocBlock s = .fail e s' ∧ Touched s s' ∧ s'.mapped = s.mapped ∧
      AllocError s.seen N e := by
  rcases allocBlockNum_spec h with ⟨bno, hnum, hfirst⟩ | ⟨hnum, hnone⟩
  · have hw := wrote_marked h hfirst.hi false
    have hmount : Mounted (s.marked bno false) N :=
      h.wrote hw (same_setBit false hfirst.hi (Or.inl (by rw [blockAddr_eq, blockAddr_eq]; omega)))
    rw [allocBlock, bind_ret hnum]
    rcases mapBlock_cases hmount hfirst.hi with ⟨s₂, hmap⟩ | hmap
    · rw [bind_ret hmap]
      exact Or.inl ⟨bno, s₂, rfl⟩
    · -- The block is given back.
      have hmount₂ : Mounted { s.marked bno false with allocs := (s.marked bno false).allocs + 1 } N :=
        ⟨hmount.super, hmount.bitmap, hmount.nblocks, hmount.le, hmount.superMapped,
          hmount.bitmapMapped⟩
      have hne : bno ≠ 0 := by
        intro h0
        have hlo := hfirst.lo
        rw [h0] at hlo
        exact absurd hlo (by decide)
      have hseen := seen_setBit hmount₂ hfirst.hi true
      rw [bind_ret hmap, if_neg (by decide), bind_ret (freeBlock_eq hmount₂ hne hfirst.hi)]
      refine Or.inr ⟨-1, _, rfl, ⟨?_, rfl, ⟨rfl, rfl, rfl, rfl, fun _ hv => hv⟩⟩, rfl,
        Or.inr ⟨rfl, bno.toNat, hfirst⟩⟩
      exact hseen.trans ((congrArg (setBit · bno true) hw.seen).trans (setBit_undo hfirst.free))
  · rw [allocBlock, bind_fail hnum]
    exact Or.inr ⟨_, s, rfl, .refl s, rfl, Or.inl ⟨rfl, hnone⟩⟩

/-! ## `read_block` -/

/-- The view once block `b` is in the cache. -/
def Fs.loaded (s : Fs) (b : Nat) : ByteMem :=
  if s.mapped (blockPage b) then s.seen else s.seen.fill s.disk (b * BY2BLK) (blockAddr b) BY2BLK

theorem readBlock_of_mapped (h : Mounted s N) (hb : blockno.toNat < N)
    (hused : freeBit s.seen blockno.toNat = false) (hm : s.mapped (blockPage blockno.toNat) = true) :
    readBlock blockno s = .ret (blockAddr blockno.toNat, false) s := by
  have hpast : decide (N ≤ blockno.toNat) = false := decide_eq_false (by omega)
  rw [readBlock, bind_ret (pastEnd_eq h), hpast]
  simp only [Bool.false_eq_true, if_false]
  rw [bind_ret (knownFree_eq h hb), hused]
  simp only [Bool.false_eq_true, if_false]
  rw [bind_ret (diskaddr_eq h hb), bind_ret (blockIsMapped_eq h hb), if_pos hm]
  rfl

/-- A block that `read_block` returns is in use, and in the cache afterwards. -/
theorem readBlock_ret {va : Nat} {isnew : Bool} (h : Mounted s N)
    (hr : readBlock blockno s = .ret (va, isnew) s') :
    blockno.toNat < N ∧ freeBit s.seen blockno.toNat = false ∧ va = blockAddr blockno.toNat ∧
      s'.mapped (blockPage blockno.toNat) = true ∧ Wrote s s' (s.loaded blockno.toNat) := by
  have hsteady := (quiet_readBlock blockno).ret hr
  rw [readBlock, bind_ret (pastEnd_eq h)] at hr
  by_cases hb : blockno.toNat < N
  · have hpast : decide (N ≤ blockno.toNat) = false := decide_eq_false (by omega)
    rw [hpast] at hr
    simp only [Bool.false_eq_true, if_false] at hr
    rw [bind_ret (knownFree_eq h hb)] at hr
    cases hused : freeBit s.seen blockno.toNat with
    | true =>
        rw [hused] at hr
        simp only [if_true] at hr
        cases hr
    | false =>
        rw [hused] at hr
        simp only [Bool.false_eq_true, if_false] at hr
        rw [bind_ret (diskaddr_eq h hb), bind_ret (blockIsMapped_eq h hb)] at hr
        by_cases hm : s.mapped (blockPage blockno.toNat) = true
        · rw [if_pos hm] at hr
          cases hr
          exact ⟨hb, rfl, rfl, hm, by rw [Fs.loaded, if_pos hm], rfl, hsteady⟩
        · rw [if_neg hm] at hr
          obtain ⟨r, s₁, h₁, h₂⟩ := bind_eq_ret.mp hr
          obtain ⟨ht₁, -, -⟩ := syscallMemAlloc_ret (Bool.eq_false_of_not_eq_true hm) h₁
          obtain ⟨u, s₂, h₃, h₄⟩ := bind_eq_ret.mp h₂
          cases h₄
          obtain ⟨u', s₃, h₅, h₆⟩ := bind_eq_ret.mp h₃
          obtain ⟨ht₂, hon⟩ := access_ret (le_refl _) h₅
          cases h₆
          have hsec : (blockno * BitVec.ofNat 32 SECT2BLK).toNat * 512 = blockno.toNat * BY2BLK := by
            have hN := h.lt
            have height : (BitVec.ofNat 32 SECT2BLK).toNat = 8 := rfl
            rw [BitVec.toNat_mul, height, Nat.mod_eq_of_lt (by omega), BY2BLK]
            omega
          refine ⟨hb, rfl, rfl, ?_, ?_, (ht₁.trans ht₂).disk, hsteady⟩
          · exact hon (blockAddr blockno.toNat) (le_refl _) (Nat.lt_add_of_pos_right (by decide))
          · rw [Fs.loaded, if_neg hm, ← (ht₁.trans ht₂).seen, ← (ht₁.trans ht₂).disk, ← hsec]
            refine seen_store (g := fun m => m.fill s₃.disk _ (blockAddr blockno.toNat) BY2BLK) hon
              (fun m m' x hlo hhi => ?_) fun m x hx => ?_
            · simp only [ByteMem.fill, if_pos (show _ ∧ x < blockAddr blockno.toNat + BY2BLK from
                ⟨hlo, hhi⟩)]
            · simp only [ByteMem.fill, if_neg (show ¬ (_ ∧ x < blockAddr blockno.toNat + BY2BLK) from
                hx)]
  · rw [decide_eq_true (Nat.le_of_not_lt hb)] at hr
    simp only [if_true] at hr
    cases hr

/-! ### Memory for a block -/

/-- There is a page for block `b`: from `syscall_mem_alloc`, or else from `page_out`
    when `sd_read` touches the block. -/
def CanRead (s : Fs) (b : Nat) : Prop :=
  s.mapped (blockPage b) = true ∨ s.memOk s.allocs = true ∨ s.memOk (s.allocs + 1) = true

/-- How many pages have been asked for once the block has been read. -/
def Fs.allocsAfterRead (s : Fs) (b : Nat) : Nat :=
  if s.mapped (blockPage b) then s.allocs
  else if s.memOk s.allocs then s.allocs + 1
  else s.allocs + 2

/-- The pages of the server after block `b` has been read. -/
structure ReadPages (s s' : Fs) (b : Nat) : Prop where
  mapped : MapsOnly s s' (blockPage b)
  memOk : s'.memOk = s.memOk
  allocs : s'.allocs = s.allocsAfterRead b

/-- `read_block` when the block is not in the cache. -/
theorem readBlock_unmapped (h : Mounted s N) (hb : blockno.toNat < N)
    (hused : freeBit s.seen blockno.toNat = false) (hm : s.mapped (blockPage blockno.toNat) = false) :
    readBlock blockno s = (syscallMemAlloc (blockAddr blockno.toNat) >>= fun _ =>
      sdRead (blockno * BitVec.ofNat 32 SECT2BLK) (blockAddr blockno.toNat) >>= fun _ =>
        (pure (blockAddr blockno.toNat, true) : FsM (Nat × Bool))) s := by
  have hpast : decide (N ≤ blockno.toNat) = false := decide_eq_false (by omega)
  rw [readBlock, bind_ret (pastEnd_eq h), hpast]
  simp only [Bool.false_eq_true, if_false]
  rw [bind_ret (knownFree_eq h hb), hused]
  simp only [Bool.false_eq_true, if_false]
  rw [bind_ret (diskaddr_eq h hb), bind_ret (blockIsMapped_eq h hb), hm]
  rfl

/-- Touching a block, which is one page. -/
theorem access_block (b : Nat) : access (blockAddr b) BY2PG = (touch (blockPage b) >>= fun _ =>
    touch (blockPage b)) := by
  have hlast : (blockAddr b + BY2PG - 1) / BY2PG = blockPage b := by
    rw [blockPage_eq, blockAddr_eq, BY2PG]
    omega
  rw [access, hlast]
  rfl

theorem readBlock_total (h : Mounted s N) (hb : blockno.toNat < N)
    (hused : freeBit s.seen blockno.toNat = false) (hmem : CanRead s blockno.toNat) :
    ∃ isnew s', readBlock blockno s = .ret (blockAddr blockno.toNat, isnew) s' ∧
      ReadPages s s' blockno.toNat := by
  cases hm : s.mapped (blockPage blockno.toNat) with
  | true =>
      refine ⟨false, s, readBlock_of_mapped h hb hused hm, fun _ _ => rfl, rfl, ?_⟩
      rw [Fs.allocsAfterRead, if_pos hm]
  | false =>
      have hne : ¬ s.mapped (blockPage blockno.toNat) = true := by
        rw [hm]
        exact Bool.false_ne_true
      have hpage : blockPage blockno.toNat ≠ 0 := by
        rw [blockPage_eq]
        omega
      rw [readBlock_unmapped h hb hused hm]
      -- The page is there after `syscall_mem_alloc`, or `page_out` makes it.
      suffices hread : ∃ r s₁ s₂, syscallMemAlloc (blockAddr blockno.toNat) s = .ret r s₁ ∧
          access (blockAddr blockno.toNat) BY2PG s₁ = .ret () s₂ ∧
          ReadPages s s₂ blockno.toNat by
        obtain ⟨r, s₁, s₂, halloc, haccess, hpages⟩ := hread
        let m := s₂.mem.fill s₂.disk ((blockno * BitVec.ofNat 32 SECT2BLK).toNat * 512)
          (blockAddr blockno.toNat) BY2BLK
        have hfill : sdRead (blockno * BitVec.ofNat 32 SECT2BLK) (blockAddr blockno.toNat) s₁ =
            .ret () { s₂ with mem := m } := bind_ret haccess
        refine ⟨true, { s₂ with mem := m }, ?_, hpages.mapped, hpages.memOk, hpages.allocs⟩
        rw [bind_ret halloc, bind_ret hfill]
        rfl
      have hmaps : MapsOnly s (s.mapZero (blockPage blockno.toNat)) (blockPage blockno.toNat) := by
        intro v hv
        simp [Fs.mapZero, hv]
      rw [access_block]
      by_cases hok : s.memOk s.allocs = true
      · have hnow : (s.mapZero (blockPage blockno.toNat)).mapped (blockPage blockno.toNat) = true := by
          simp [Fs.mapZero]
        refine ⟨0, _, _, if_pos hok, (bind_ret (touch_of_mapped hnow)).trans (touch_of_mapped hnow),
          hmaps, rfl, ?_⟩
        rw [Fs.allocsAfterRead, if_neg hne, if_pos hok]
        rfl
      · have hnext : s.memOk (s.allocs + 1) = true := (hmem.resolve_left hne).resolve_left hok
        let s₁ : Fs := { s with allocs := s.allocs + 1 }
        have hnow : (s₁.mapZero (blockPage blockno.toNat)).mapped (blockPage blockno.toNat) = true := by
          simp [Fs.mapZero]
        have htouch : touch (blockPage blockno.toNat) s₁ =
            .ret () (s₁.mapZero (blockPage blockno.toNat)) := by
          rw [touch, if_neg hne, if_neg hpage]
          exact if_pos hnext
        refine ⟨-1, s₁, _, if_neg hok, (bind_ret htouch).trans (touch_of_mapped hnow), hmaps, rfl, ?_⟩
        rw [Fs.allocsAfterRead, if_neg hne, if_neg hok]
        rfl

theorem readBlock_stuck (h : Mounted s N) (hb : blockno.toNat < N)
    (hused : freeBit s.seen blockno.toNat = false) (hmem : ¬ CanRead s blockno.toNat) :
    readBlock blockno s = .stop "page_out error: no free page" := by
  rw [CanRead, not_or, not_or] at hmem
  obtain ⟨hne, hok, hnext⟩ := hmem
  have hpage : blockPage blockno.toNat ≠ 0 := by
    rw [blockPage_eq]
    omega
  have halloc : syscallMemAlloc (blockAddr blockno.toNat) s =
      .ret (-1) { s with allocs := s.allocs + 1 } := if_neg hok
  rw [readBlock_unmapped h hb hused (Bool.eq_false_of_not_eq_true hne), bind_ret halloc, sdRead]
  refine bind_stop (bind_stop ?_)
  rw [access_block]
  refine bind_stop ?_
  rw [touch, if_neg hne, if_neg hpage]
  exact if_neg hnext

theorem readBlock_ne_fail {e : U32} (h : Mounted s N) (hb : blockno.toNat < N)
    (hused : freeBit s.seen blockno.toNat = false) : readBlock blockno s ≠ .fail e s' := by
  by_cases hmem : CanRead s blockno.toNat
  · obtain ⟨isnew, s₁, hread, -⟩ := readBlock_total h hb hused hmem
    rw [hread]
    rintro ⟨⟩
  · rw [readBlock_stuck h hb hused hmem]
    rintro ⟨⟩

end RpiMos
