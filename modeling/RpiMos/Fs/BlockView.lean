/-
  RpiMos.Fs.BlockView

  The block layer in terms of what the blocks hold, in the cache or on the disk:
  taking the first free block, giving one back, and stores to what is in the cache.
-/

import RpiMos.Fs.FileCreate

namespace RpiMos

open Lib Prog

variable {s s' s₁ s₂ : Fs} {N a n b x : Nat} {m m' : ByteMem} {r : U32}

/-- From `s` to `s'` the blocks have become `m`. -/
structure Became (s s' : Fs) (m : ByteMem) : Prop where
  blocks : s'.blocks = m
  disk : s'.disk = s.disk
  steady : Steady s s'

theorem Became.refl (s : Fs) : Became s s s.blocks := ⟨rfl, rfl, .refl s⟩

theorem Became.trans (h : Became s s₁ m) (h' : Became s₁ s₂ m') : Became s s₂ m' :=
  ⟨h'.blocks, h'.disk.trans h.disk, h.steady.trans _ _ _ h'.steady⟩

theorem Loads.became (h : Loads s s') : Became s s' s.blocks := ⟨h.blocks, h.disk, h.steady⟩

/-- A file system stays mounted while its number of blocks stays. -/
theorem Mounted.became (h : Mounted s N) (hb : Became s s' m)
    (hsame : ByteMem.Same s.blocks m (blockAddr 1 + 4) 4) : Mounted s' N :=
  h.steady hb.steady (by rw [hb.blocks]; exact hsame)

/-! ## Loads and stores in the cache -/

theorem load8_blocks (h : s.MappedOn a 1) : load8 a s = .ret (s.blocks a) s := by
  have hload : load8 a s = .ret (s.seen.ld8 a) s :=
    load_of_mapped (by decide) (fun _ _ hm => hm.ld8) h
  have hsame : ByteMem.Same s.seen s.blocks a 1 := h.blocks_eq
  rw [hload, ← hsame.ld8]
  rfl

theorem load32_blocks (h : s.MappedOn a 4) : load32 a s = .ret (s.blocks.ld32 a) s := by
  have hsame : ByteMem.Same s.seen s.blocks a 4 := h.blocks_eq
  rw [load32_of_mapped h, hsame.ld32]

theorem load64_blocks (h : s.MappedOn a 8) : load64 a s = .ret (s.blocks.ld64 a) s := by
  have hsame : ByteMem.Same s.seen s.blocks a 8 := h.blocks_eq
  rw [load64_of_mapped h, hsame.ld64]

/-- What a store to bytes that are mapped does to the blocks. -/
theorem became_store {g : ByteMem → ByteMem} (h : s.MappedOn a n)
    (hin : ∀ (m m' : ByteMem) x, a ≤ x → x < a + n → g m x = g m' x)
    (hout : ∀ (m : ByteMem) x, ¬ (a ≤ x ∧ x < a + n) → g m x = m x) :
    Became s { s with mem := g s.mem } (g s.blocks) := by
  refine ⟨?_, rfl, ⟨rfl, rfl, rfl, rfl, fun _ hv => hv⟩⟩
  funext x
  by_cases hx : a ≤ x ∧ x < a + n
  · show (if s.mapped (x / BY2PG) then g s.mem x else _) = g s.blocks x
    rw [h x hx.1 hx.2, if_pos rfl]
    exact hin _ _ x hx.1 hx.2
  · show (if s.mapped (x / BY2PG) then g s.mem x else _) = g s.blocks x
    rw [hout _ x hx, hout _ x hx]
    rfl

theorem store8_blocks {v : BitVec 8} (h : s.MappedOn a 1) :
    ∃ s', store8 a v s = .ret () s' ∧ Became s s' (s.blocks.st8 a v) := by
  refine ⟨_, bind_ret (access_of_mapped (by decide) h), ?_⟩
  refine became_store (g := fun m => m.st8 a v) h (fun m m' x hlo hhi => ?_) fun m x hx => ?_
  · simp only [ByteMem.st8, if_pos (show x = a by omega)]
  · simp only [ByteMem.st8, if_neg (show ¬ x = a by omega)]

theorem store32_blocks {v : U32} (h : s.MappedOn a 4) :
    ∃ s', store32 a v s = .ret () s' ∧ Became s s' (s.blocks.st32 a v) := by
  refine ⟨_, store32_of_mapped h, ?_⟩
  refine became_store (g := fun m => m.st32 a v) h (fun m m' x hlo hhi => ?_) fun m x hx => ?_
  · simp only [ByteMem.st32, if_pos (And.intro hlo hhi)]
  · simp only [ByteMem.st32, if_neg hx]

theorem became_st64 (v : Word) (h : s.MappedOn a 8) :
    Became s { s with mem := s.mem.st64 a v } (s.blocks.st64 a v) := by
  refine became_store (g := fun m => m.st64 a v) h (fun m m' x hlo hhi => ?_) fun m x hx => ?_
  · simp only [ByteMem.st64, ByteMem.st32]
    split
    · rfl
    · rw [if_pos (by omega), if_pos (by omega)]
  · simp only [ByteMem.st64, ByteMem.st32]
    rw [if_neg (by omega), if_neg (by omega)]

theorem store64_blocks {v : Word} (h : s.MappedOn a 8) :
    ∃ s', store64 a v s = .ret () s' ∧ Became s s' (s.blocks.st64 a v) :=
  ⟨_, store64_of_mapped h, became_st64 v h⟩

theorem strcpy_eq {str : List (BitVec 8)} (h : s.MappedOn a (str.length + 1)) :
    strcpy a str s = .ret () { s with mem := s.mem.stStr a str } := by
  induction str generalizing s a with
  | nil => exact bind_ret (access_of_mapped (by decide) h)
  | cons c str ih =>
      rw [List.length_cons] at h
      have hstore : store8 a c s = .ret () { s with mem := s.mem.st8 a c } :=
        bind_ret (access_of_mapped (by decide) (h.mono (le_refl a) (by omega)))
      exact (bind_ret hstore).trans (ih (h.mono (by omega) (by omega)))

/-- The string that has been stored stands there. -/
theorem named_stStr (m : ByteMem) (a : Nat) (str : List (BitVec 8)) : named (m.stStr a str) a str = true := by
  induction str generalizing m a with
  | nil =>
      rw [named, ByteMem.stStr, ByteMem.st8, if_pos rfl]
      rfl
  | cons c str ih =>
      have hfirst : m.stStr a (c :: str) a = c := by
        rw [ByteMem.stStr, ByteMem.stStr_of_out (by omega), ByteMem.st8, if_pos rfl]
      rw [named, hfirst, ByteMem.stStr, ih, beq_self_eq_true]
      rfl

theorem became_stStr (str : List (BitVec 8)) (h : s.MappedOn a (str.length + 1)) :
    Became s { s with mem := s.mem.stStr a str } (s.blocks.stStr a str) :=
  became_store (g := fun m => m.stStr a str) h (fun _ _ _ hlo hhi => ByteMem.stStr_congr hlo (by omega))
    fun _ _ hx => ByteMem.stStr_of_out (by omega)

/-! ## Blocks taken and given back -/

theorem inBlock_iff : InBlock b x ↔ x / BY2PG = blockPage b := by
  rw [InBlock, blockPage_eq, blockAddr_eq, BY2BLK, BY2PG]
  omega

/-- Block `r`, the first one that was free, has been taken.  In the block itself is
    what the cache has in its place, and else nothing. -/
structure Took (s s' : Fs) (N : Nat) (r : U32) : Prop where
  first : FirstFree s.blocks N r.toNat
  data : firstData N ≤ r.toNat
  disk : s'.disk = s.disk
  steady : Steady s s'
  seen : s'.seen = setBit s.seen r false
  mapped : s'.mapped (blockPage r.toNat) = true
  outside : ∀ x, ¬ InBlock r.toNat x → s'.blocks x = setBit s.blocks r false x
  inside : ∀ x, InBlock r.toNat x → s'.blocks x = s.seen x

/-- The blocks up to the bitmap are in use. -/
def LowUsed (m : ByteMem) (N : Nat) : Prop := ∀ b, b < firstData N → b < N → freeBit m b = false

theorem Mounted.firstFree_blocks (h : Mounted s N) : FirstFree s.seen N b ↔ FirstFree s.blocks N b := by
  have hbit : ∀ c, c < N → freeBit s.blocks c = freeBit s.seen c := fun c hc => h.freeBit_blocks hc
  constructor
  · intro hf
    exact ⟨hf.lo, hf.hi, (hbit b hf.hi).trans hf.free, fun c hlo hlt =>
      (hbit c (Nat.lt_trans hlt hf.hi)).trans (hf.first c hlo hlt)⟩
  · intro hf
    exact ⟨hf.lo, hf.hi, (hbit b hf.hi).symm.trans hf.free, fun c hlo hlt =>
      (hbit c (Nat.lt_trans hlt hf.hi)).symm.trans (hf.first c hlo hlt)⟩

theorem Mounted.setBit_blocks (h : Mounted s N) (hr : r.toNat < N) (free : Bool) (hx : s.mapped (x / BY2PG) = true) :
    setBit s.blocks r free x = setBit s.seen r free x := by
  have hm := h.bitWord_mapped hr
  have hsame : ByteMem.Same s.seen s.blocks (bitWord r.toNat) 8 := hm.blocks_eq
  have hbyte : s.blocks x = s.seen x := by rw [Fs.blocks, Fs.seen, hx, if_pos rfl, if_pos rfl]
  rw [setBit, setBit, hsame.ld64]
  simp only [ByteMem.st64, ByteMem.st32, hbyte]

/-- Outside the bitmap the bit of a block is no matter. -/
theorem setBit_out (hr : r.toNat < N) (free : Bool) (hx : ¬ InBitmap N x) : setBit m r free x = m x := by
  refine same_setBit (n := 1) free hr ?_ x (le_refl x) (Nat.lt_succ_self x)
  rw [InBitmap] at hx
  omega

theorem Mounted.bitmap_mapped (h : Mounted s N) (hx : InBitmap N x) : s.mapped (x / BY2PG) = true := by
  obtain ⟨hlo, hhi⟩ := hx
  rw [firstData, blockAddr_eq] at hhi
  rw [blockAddr_eq] at hlo
  have hpage : x / BY2PG = blockPage (2 + (x / BY2PG - 2097154)) := by
    rw [blockPage_eq, BY2PG]
    omega
  rw [hpage]
  apply h.bitmapMapped
  rw [BY2PG]
  omega

theorem allocBlock_ends (h : Mounted s N) (hlow : LowUsed s.blocks N) :
    allocBlock.Ends s (fun r s' => Took s s' N r)
      (fun _ s' => Became s s' s.blocks ∧ s'.seen = s.seen) fun _ => False := by
  rcases allocBlock_cases h with ⟨r, s', hret⟩ | ⟨e, s', hfail, ht, hmapped, -⟩
  · obtain ⟨hfirst, hw, honly, hin⟩ := allocBlock_ret h hret
    have hfirst' := h.firstFree_blocks.mp hfirst
    have hdata : firstData N ≤ r.toNat := by
      by_contra hlt
      have hused := hlow _ (Nat.lt_of_not_le hlt) hfirst.hi
      rw [hfirst'.free] at hused
      cases hused
    refine Ends.of_ret hret ⟨hfirst', hdata, hw.disk, hw.steady, hw.seen, hin, fun x hx => ?_, fun x hx => ?_⟩
    · have hsame : s'.mapped (x / BY2PG) = s.mapped (x / BY2PG) :=
        honly _ fun heq => hx (inBlock_iff.mpr heq)
      by_cases hm : s.mapped (x / BY2PG) = true
      · have hseen : s'.blocks x = s'.seen x := by
          rw [Fs.blocks, Fs.seen, hsame, hm, if_pos rfl, if_pos rfl]
        rw [hseen, hw.seen, h.setBit_blocks hfirst.hi false hm]
      · have hout : ¬ InBitmap N x := fun hb => hm (h.bitmap_mapped hb)
        rw [setBit_out hfirst.hi false hout, Fs.blocks, Fs.blocks, hsame, if_neg hm, if_neg hm, hw.disk]
    · have hpage := inBlock_iff.mp hx
      have hout : ¬ InBitmap N x := by
        rintro ⟨-, hhi⟩
        rw [InBlock, blockAddr_eq] at hx
        rw [blockAddr_eq] at hhi
        omega
      have hseen : s'.blocks x = s'.seen x := by
        rw [Fs.blocks, Fs.seen, hpage, hin, if_pos rfl, if_pos rfl]
      rw [hseen, hw.seen, setBit_out hfirst.hi false hout]
  · refine Ends.of_fail hfail ⟨⟨?_, ht.disk, ht.steady⟩, ht.seen⟩
    funext x
    rw [Fs.blocks, Fs.blocks, hmapped, ht.disk]
    by_cases hm : s.mapped (x / BY2PG) = true
    · have hseen := congrFun ht.seen x
      rw [Fs.seen, Fs.seen, hmapped, if_pos hm, if_pos hm] at hseen
      rw [if_pos hm, if_pos hm, hseen]
    · rw [if_neg hm, if_neg hm]

theorem freeBlock_ends (h : Mounted s N) : (freeBlock r).Ends s
    (fun _ s' => r ≠ 0 ∧ r.toNat < N ∧ Became s s' (setBit s.blocks r true)) (fun _ _ => False)
      fun _ => True := by
  by_cases hbad : r = 0 ∨ N ≤ r.toNat
  · rw [Ends, freeBlock_stop h hbad]
    trivial
  · rw [not_or] at hbad
    have hlt := Nat.lt_of_not_le hbad.2
    refine Ends.of_ret (freeBlock_eq h hbad.1 hlt) ⟨hbad.1, hlt, ?_⟩
    have hm := h.bitWord_mapped hlt
    have hsame : ByteMem.Same s.mem s.blocks (bitWord r.toNat) 8 := fun x hlo hhi =>
      (hm.blocks_eq x hlo hhi).trans (hm.seen_eq x hlo hhi)
    have hset := became_st64 (s.blocks.ld64 (bitWord r.toNat) ||| blockBit r) hm
    have hmark : s.marked r true = { s with
        mem := s.mem.st64 (bitWord r.toNat) (s.blocks.ld64 (bitWord r.toNat) ||| blockBit r) } := by
      rw [hsame.ld64]
      rfl
    rw [hmark]
    exact hset

end RpiMos
