/-
  RpiMos.Fs.BlockSet

  The free blocks of the disk as a set: `alloc_block` takes the least member that
  is a data block, `free_block` puts one back, and over any sequence of the two
  the blocks in use are those handed out and not given back since.
-/

import RpiMos.Fs.Mounted
import RpiMos.Lib.Allocator
import RpiMos.Lib.Run

namespace RpiMos

open Lib Prog

variable {s s' : Fs} {N b : Nat} {r blockno : U32} {U : Nat → Prop}
  {tr tr₁ tr₂ tr₃ : List (AllocEvent Nat)}

/-! ## What the calls should do -/

/-- The bitmap of `s'` is that of `s` with the bit of block `b` as given, and
    nothing else in memory is different. -/
structure OneBit (s s' : Fs) (N b : Nat) (free : Bool) : Prop where
  bits : ∀ b', freeBit s'.seen b' = if b' = b then free else freeBit s.seen b'
  others : ∀ a n, a + n ≤ bitWord b ∨ bitWord b + 8 ≤ a → ByteMem.Same s.seen s'.seen a n
  mounted : Mounted s' N

/-- `alloc_block` has returned `r`: the first free block, which is in memory now. -/
structure HandsOut (s s' : Fs) (N : Nat) (r : U32) : Prop where
  nonneg : ¬ Negative r
  first : FirstFree s.seen N r.toNat
  mapped : s'.mapped (blockPage r.toNat) = true
  bit : OneBit s s' N r.toNat false

theorem oneBit_of_wrote {free : Bool} (h : Mounted s N) (hb : blockno.toNat < N)
    (hw : Wrote s s' (setBit s.seen blockno free)) : OneBit s s' N blockno.toNat free where
  bits b' := by rw [hw.seen, freeBit_setBit]
  others a n hout := by
    rw [hw.seen]
    exact ByteMem.same_st64 _ (by omega)
  mounted := h.wrote hw (same_setBit free hb (Or.inl (by rw [blockAddr_eq, blockAddr_eq]; omega)))

/-- A block number of the disk is not negative as an `int`. -/
theorem Mounted.not_negative (h : Mounted s N) (hr : r.toNat < N) : ¬ Negative r := by
  have hN := h.lt
  intro hneg
  have hmsb : r.msb = true := BitVec.slt_zero_eq_msb ▸ hneg
  rw [BitVec.msb_eq_decide, decide_eq_true_eq] at hmsb
  omega

theorem allocBlock_handsOut (h : Mounted s N) (hr : allocBlock s = .ret r s') :
    HandsOut s s' N r := by
  obtain ⟨hfirst, hw, -, hmapped⟩ := allocBlock_ret h hr
  exact ⟨h.not_negative hfirst.hi, hfirst, hmapped, oneBit_of_wrote h hfirst.hi hw⟩

theorem freeBlock_oneBit (h : Mounted s N) (hr : freeBlock blockno s = .ret () s') :
    OneBit s s' N blockno.toNat true := by
  -- A block that is not one of the disk stops the server.
  by_cases hbad : blockno = 0 ∨ N ≤ blockno.toNat
  · rw [freeBlock_stop h hbad] at hr
    cases hr
  · obtain ⟨h0, hb⟩ := not_or.mp hbad
    rw [freeBlock_eq h h0 (by omega)] at hr
    cases hr
    exact oneBit_of_wrote h (by omega) (wrote_marked h (by omega) true)

/-! ## Sequences of calls -/

/-- One call of `alloc_block` or `free_block` that returns. -/
inductive BlockStep : Fs → AllocEvent Nat → Fs → Prop
  | alloc {s s' : Fs} {r : U32} (h : allocBlock s = .ret r s') : BlockStep s (.alloc r.toNat) s'
  | error {s s' : Fs} {e : U32} (h : allocBlock s = .fail e s') : BlockStep s .other s'
  | free {s s' : Fs} {blockno : U32} (h : freeBlock blockno s = .ret () s') :
      BlockStep s (.free blockno.toNat) s'

/-- Of the blocks that can be handed out those in use are the members of `U`. -/
def BlocksAre (U : Nat → Prop) (s : Fs) (N : Nat) : Prop :=
  ∀ b, 3 ≤ b → b < N → (freeBit s.seen b = false ↔ U b)

theorem blockStep_are {e : AllocEvent Nat} (h : Mounted s N) (hU : BlocksAre U s N)
    (hstep : BlockStep s e s') : Mounted s' N ∧ BlocksAre (e.apply U) s' N := by
  cases hstep with
  | alloc hr =>
      have hout := (allocBlock_handsOut h hr).bit
      refine ⟨hout.mounted, fun b hlo hlt => ?_⟩
      show freeBit s'.seen b = false ↔ b = _ ∨ U b
      rw [hout.bits b, ← hU b hlo hlt]
      split
      · rename_i heq
        exact ⟨fun _ => Or.inl heq, fun _ => rfl⟩
      · rename_i hne
        exact (or_iff_right hne).symm
  | error hr =>
      rcases allocBlock_cases h with ⟨r, s₁, hret⟩ | ⟨e, s₁, hfail, htouch, -⟩
      · rw [hret] at hr
        cases hr
      · rw [hfail] at hr
        cases hr
        refine ⟨h.touched htouch, fun b hlo hlt => ?_⟩
        rw [htouch.seen]
        exact hU b hlo hlt
  | free hr =>
      have hback := freeBlock_oneBit h hr
      refine ⟨hback.mounted, fun b hlo hlt => ?_⟩
      show freeBit s'.seen b = false ↔ b ≠ _ ∧ U b
      rw [hback.bits b, ← hU b hlo hlt]
      split
      · rename_i heq
        exact ⟨fun h => absurd h Bool.false_ne_true.symm, fun h => absurd heq h.1⟩
      · rename_i hne
        exact (and_iff_right hne).symm

theorem blockRun_are (h : Mounted s N) (hrun : Run BlockStep s tr s') :
    Mounted s' N ∧ BlocksAre (inUse (fun b => freeBit s.seen b = false) tr) s' N := by
  refine hrun.invariant_trace (P := fun tr t => Mounted t N ∧
    BlocksAre (inUse (fun b => freeBit s.seen b = false) tr) t N) ⟨h, fun _ _ _ => Iff.rfl⟩ ?_
  intro tr t e t' ih hstep
  rw [inUse_snoc]
  exact blockStep_are ih.1 ih.2 hstep

/-- A block handed out a second time was given back in between. -/
theorem alloc_twice (h : Mounted s N)
    (hrun : Run BlockStep s (tr₁ ++ .alloc b :: (tr₂ ++ .alloc b :: tr₃)) s') : .free b ∈ tr₂ := by
  rw [← List.cons_append, ← List.append_assoc] at hrun
  obtain ⟨s₁, hrun₁, hrun₂⟩ := hrun.split
  rw [← List.singleton_append] at hrun₂
  obtain ⟨s₂, hrun₂, -⟩ := hrun₂.split
  obtain ⟨hm, hare⟩ := blockRun_are h hrun₁
  -- The second call finds the block free.
  have hfree : 3 ≤ b ∧ b < N ∧ freeBit s₁.seen b = true := by
    cases hrun₂.of_single with
    | alloc hr =>
        have hfirst := (allocBlock_handsOut hm hr).first
        exact ⟨hfirst.lo, hfirst.hi, hfirst.free⟩
  by_contra hnot
  have hused := (hare b hfree.1 hfree.2.1).mpr (inUse_iff.mpr (Or.inr ⟨tr₁, tr₂, rfl, hnot⟩))
  rw [hfree.2.2] at hused
  cases hused

/-! ## The allocator -/

/-- `alloc_block` hands out the first free block, or fails and leaves the bitmap;
    it says that the disk is full exactly when it is; `free_block` sets one bit; and
    in a sequence of calls the blocks in use are those handed out and not given
    back, so that none is handed out twice without being given back in between. -/
theorem alloc_block_as_set (h : Mounted s N) :
    ((∃ r s', allocBlock s = .ret r s' ∧ HandsOut s s' N r) ∨
      ∃ e s', allocBlock s = .fail e s' ∧ Negative e ∧ s'.seen = s.seen) ∧
    ((∃ s', allocBlock s = .fail (-E_NO_DISK) s') ↔
      ∀ b, 3 ≤ b → b < N → freeBit s.seen b = false) ∧
    (∀ blockno : U32, 0 < blockno.toNat → blockno.toNat < N →
      ∃ s', freeBlock blockno s = .ret () s' ∧ OneBit s s' N blockno.toNat true) ∧
    ∀ tr s', Run BlockStep s tr s' →
      (∀ b, 3 ≤ b → b < N → (freeBit s'.seen b = false ↔
        (freeBit s.seen b = false ∧ .free b ∉ tr) ∨ HandedOut tr b)) ∧
      ∀ b tr₁ tr₂ tr₃, tr = tr₁ ++ .alloc b :: (tr₂ ++ .alloc b :: tr₃) → .free b ∈ tr₂ := by
  refine ⟨?_, ⟨?_, ?_⟩, ?_, ?_⟩
  · rcases allocBlock_cases h with ⟨r, s', hr⟩ | ⟨e, s', hfail, htouch, -, herr⟩
    · exact Or.inl ⟨r, s', hr, allocBlock_handsOut h hr⟩
    · refine Or.inr ⟨e, s', hfail, ?_, htouch.seen⟩
      rcases herr with ⟨rfl, -⟩ | ⟨rfl, -⟩
      · decide
      · decide
  · rintro ⟨s', hfull⟩
    rcases allocBlock_cases h with ⟨r, s₁, hr⟩ | ⟨e, s₁, hfail, -, -, herr⟩
    · rw [hr] at hfull
      cases hfull
    · rw [hfail] at hfull
      cases hfull
      -- The error of a mapping that failed is another one.
      exact (herr.resolve_right fun hmap => absurd hmap.1 (by decide)).2
  · intro hnone
    have hnot : ∀ b, ¬ FirstFree s.seen N b := by
      intro b hb
      have hused := hnone b hb.lo hb.hi
      rw [hb.free] at hused
      cases hused
    rcases allocBlock_cases h with ⟨r, s₁, hr⟩ | ⟨e, s₁, hfail, -, -, herr⟩
    · exact absurd (allocBlock_handsOut h hr).first (hnot _)
    · obtain ⟨rfl, -⟩ := herr.resolve_right fun hmap => hnot _ hmap.2.choose_spec
      exact ⟨s₁, hfail⟩
  · intro blockno hpos hb
    have h0 : blockno ≠ 0 := by
      rintro rfl
      exact absurd hpos (by decide)
    exact ⟨_, freeBlock_eq h h0 hb, freeBlock_oneBit h (freeBlock_eq h h0 hb)⟩
  · intro tr s' hrun
    refine ⟨fun b hlo hlt => ?_, ?_⟩
    · rw [(blockRun_are h hrun).2 b hlo hlt, inUse_iff]
    · rintro b tr₁ tr₂ tr₃ rfl
      exact alloc_twice h hrun

/-! ### A disk with one free block -/

/-- A file system of 64 blocks in memory, of which block 5 is free. -/
def oneFreeFs : Fs where
  mem := (ByteMem.st32 (fun _ => 0) (blockAddr 1 + 4) 64).st64 (blockAddr 2) (1 <<< 5)
  mapped := fun _ => true
  disk := fun _ => 0
  super := blockAddr 1
  bitmap := blockAddr 2
  nbitmap := 1
  memOk := fun _ => true
  allocs := 0

theorem oneFreeFs_mounted : Mounted oneFreeFs 64 := by
  refine ⟨rfl, rfl, ?_, by decide, rfl, fun _ _ => rfl⟩
  have hout : blockAddr 2 + 8 ≤ blockAddr 1 + 4 ∨ blockAddr 1 + 4 + 4 ≤ blockAddr 2 := by decide
  have hsame := ByteMem.same_st64 (m := ByteMem.st32 (fun _ => 0) (blockAddr 1 + 4) 64) (1 <<< 5) hout
  show (oneFreeFs.mem.ld32 (blockAddr 1 + 4)).toNat = 64
  rw [oneFreeFs, hsame.ld32, ByteMem.ld32_st32]
  rfl

theorem oneFreeFs_bit {b : Nat} (hb : b < 64) : freeBit oneFreeFs.seen b = decide (b = 5) := by
  have hword : bitWord b = blockAddr 2 := by
    rw [bitWord]
    omega
  show (oneFreeFs.mem.ld64 (bitWord b)).getLsbD (b % 64) = _
  rw [hword, oneFreeFs, ByteMem.ld64_st64, Nat.mod_eq_of_lt hb]
  have hbits : ∀ b : Fin 64, ((1 : Word) <<< 5).getLsbD b = decide (b.val = 5) := by decide
  exact hbits ⟨b, hb⟩

/-- There the disk is not full, and block 7 can be given back. -/
theorem oneFreeFs_as_set : (¬ ∃ s', allocBlock oneFreeFs = .fail (-E_NO_DISK) s') ∧
    ∃ s', freeBlock 7 oneFreeFs = .ret () s' ∧ OneBit oneFreeFs s' 64 7 true := by
  obtain ⟨-, hfull, hfree, -⟩ := alloc_block_as_set oneFreeFs_mounted
  refine ⟨fun hfail => ?_, hfree 7 (by decide) (by decide)⟩
  have hused := hfull.mp hfail 5 (by decide) (by decide)
  rw [oneFreeFs_bit (by decide)] at hused
  cases hused

end RpiMos
