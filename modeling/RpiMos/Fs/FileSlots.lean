/-
  RpiMos.Fs.FileSlots

  The pointers of one file, by what the blocks hold: a block that is taken for a
  pointer, the table of a file, and its slots.  Along with the blocks it is kept
  track of what the cache has in the place of a free block, since a block that is
  taken is not cleared.
-/

import RpiMos.Fs.FileTree

namespace RpiMos

open Lib Prog

variable {s s' s₁ s₂ : Fs} {N f b k a n x : Nat} {m m' old : ByteMem} {r blockno : U32}

/-! ## Free blocks in the cache -/

/-- No block becomes free, and in the place of those that are the cache has what it had. -/
def FreeKept (N : Nat) (s s' : Fs) : Prop := ∀ b x, b < N → firstData N ≤ b →
  freeBit s'.blocks b = true → InBlock b x → freeBit s.blocks b = true ∧ s'.seen x = s.seen x

theorem FreeKept.refl (N : Nat) (s : Fs) : FreeKept N s s := fun _ _ _ _ hfree _ => ⟨hfree, rfl⟩

theorem FreeKept.trans (h : FreeKept N s s₁) (h' : FreeKept N s₁ s₂) : FreeKept N s s₂ := by
  intro b x hb hlo hfree hx
  obtain ⟨hfree₁, hseen₁⟩ := h' b x hb hlo hfree hx
  obtain ⟨hfree₀, hseen₀⟩ := h b x hb hlo hfree₁ hx
  exact ⟨hfree₀, hseen₁.trans hseen₀⟩

/-- The blocks have become `m`, and none of them free. -/
structure Moved (N : Nat) (s s' : Fs) (m : ByteMem) : Prop extends Became s s' m where
  kept : FreeKept N s s'

theorem Moved.refl (N : Nat) (s : Fs) : Moved N s s s.blocks := ⟨.refl s, .refl N s⟩

theorem Moved.trans (h : Moved N s s₁ m) (h' : Moved N s₁ s₂ m') : Moved N s s₂ m' :=
  ⟨h.toBecame.trans h'.toBecame, h.kept.trans h'.kept⟩

/-- A block that `read_block` returns is one in use. -/
theorem readBlock_moves (h : Mounted s N) : (readBlock blockno).Ends s
    (fun blk s' => blk.1 = blockAddr blockno.toNat ∧ s'.mapped (blockPage blockno.toNat) = true ∧
      blockno.toNat < N ∧ freeBit s.blocks blockno.toNat = false ∧ Moved N s s' s.blocks)
    (fun _ _ => False) AnyStop := by
  cases hrun : readBlock blockno s with
  | ret blk s' =>
      obtain ⟨blk, isnew⟩ := blk
      obtain ⟨hlt, hseen, -, -, hw⟩ := readBlock_ret h hrun
      have hused : freeBit s.blocks blockno.toNat = false := (h.freeBit_blocks hlt).trans hseen
      have hr := (readBlock_ends h hlt hseen).ret_of hrun
      refine Ends.of_ret hrun ⟨hr.addr, hr.mapped, hlt, hused, hr.loads.became,
        fun b x hb hlo hfree hx => ?_⟩
      rw [hr.loads.blocks] at hfree
      refine ⟨hfree, ?_⟩
      rw [hw.seen, Fs.loaded]
      split
      · rfl
      · rw [ByteMem.fill, if_neg]
        intro hin
        rw [← hx.unique hin, hfree] at hused
        cases hused
  | fail e s' => exact absurd hrun readBlock_never
  | stop msg =>
      rw [Ends, hrun]
      trivial

/-! ## Stores to files and tables -/

/-- Bytes that neither the bitmap nor a free block nor the number of blocks is in. -/
structure Writable (m : ByteMem) (N a n : Nat) : Prop where
  super : a + n ≤ blockAddr 1 + 4 ∨ blockAddr 1 + 8 ≤ a
  bitmap : ∀ x, a ≤ x → x < a + n → ¬ InBitmap N x
  used : ∀ b x, firstData N ≤ b → b < N → InBlock b x → a ≤ x → x < a + n → freeBit m b = false

theorem Writable.mono (h : Writable m N a n) {b k : Nat} (hlo : a ≤ b) (hhi : b + k ≤ a + n) :
    Writable m N b k where
  super := h.super.imp (by omega) (by omega)
  bitmap x hx hx' := h.bitmap x (by omega) (by omega)
  used c x hc hlt hin hx hx' := h.used c x hc hlt hin (by omega) (by omega)

theorem Writable.kept (h : Writable s.blocks N a n) (hk : FreeKept N s s') : Writable s'.blocks N a n where
  super := h.super
  bitmap := h.bitmap
  used b x hb hlt hx hlo hhi := by
    have hu := h.used b x hb hlt hx hlo hhi
    by_contra hfree
    rw [Bool.not_eq_false] at hfree
    rw [(hk b x hlt hb hfree hx).1] at hu
    cases hu

theorem bitWord_inBitmap (hb : b < N) (hlo : bitWord b ≤ x) (hhi : x < bitWord b + 8) : InBitmap N x := by
  have hend := bits_lt_data (le_refl (firstData N)) hb
  refine ⟨?_, by omega⟩
  rw [bitWord] at hlo
  omega

theorem Within.freeBit {F : Nat → Prop} (h : Within F m m') (hout : ∀ x, InBitmap N x → ¬ F x) (hb : b < N) :
    freeBit m' b = freeBit m b :=
  freeBit_same (h.same fun x hlo hhi => hout x (bitWord_inBitmap hb hlo hhi))

/-- A store to such bytes. -/
theorem moved_store {g : ByteMem → ByteMem} (hm : s.MappedOn a n) (hw : Writable s.blocks N a n)
    (hin : ∀ (m m' : ByteMem) x, a ≤ x → x < a + n → g m x = g m' x)
    (hout : ∀ (m : ByteMem) x, ¬ (a ≤ x ∧ x < a + n) → g m x = m x) :
    Moved N s { s with mem := g s.mem } (g s.blocks) := by
  have hb := became_store hm hin hout
  have hwithin : Within (fun x => a ≤ x ∧ x < a + n) s.blocks (g s.blocks) := by
    intro x hx
    by_contra hne
    exact hx (hout _ x hne)
  refine ⟨hb, fun b x hlt hlo hfree hx => ?_⟩
  have hbit : freeBit s.blocks b = true := by
    rw [hb.blocks, hwithin.freeBit (fun x hx h => hw.bitmap x h.1 h.2 hx) hlt] at hfree
    exact hfree
  refine ⟨hbit, ?_⟩
  have hne : ¬ (a ≤ x ∧ x < a + n) := by
    intro hx'
    rw [hw.used b x hlo hlt hx hx'.1 hx'.2] at hbit
    cases hbit
  show (if s.mapped (x / BY2PG) then g s.mem x else 0) = s.seen x
  rw [hout s.mem x hne]
  rfl

theorem st32_out (v : U32) (h : ¬ (a ≤ x ∧ x < a + 4)) : m.st32 a v x = m x :=
  ByteMem.st32_of_out v (by omega)

theorem store32_moves {v : U32} (hm : s.MappedOn a 4) (hw : Writable s.blocks N a 4) :
    ∃ s', store32 a v s = .ret () s' ∧ Moved N s s' (s.blocks.st32 a v) := by
  refine ⟨_, store32_of_mapped hm, ?_⟩
  refine moved_store (g := fun m => m.st32 a v) hm hw (fun m m' x hlo hhi => ?_) fun m x hx => st32_out v hx
  simp only [ByteMem.st32, if_pos (And.intro hlo hhi)]

theorem store8_moves {v : BitVec 8} (hm : s.MappedOn a 1) (hw : Writable s.blocks N a 1) :
    ∃ s', store8 a v s = .ret () s' ∧ Moved N s s' (s.blocks.st8 a v) := by
  refine ⟨_, bind_ret (access_of_mapped (by decide) hm), ?_⟩
  refine moved_store (g := fun m => m.st8 a v) hm hw (fun m m' x hlo hhi => ?_) fun m x hx => ?_
  · simp only [ByteMem.st8, if_pos (show x = a by omega)]
  · simp only [ByteMem.st8, if_neg (show ¬ x = a by omega)]

theorem store64_moves {v : Word} (hm : s.MappedOn a 8) (hw : Writable s.blocks N a 8) :
    ∃ s', store64 a v s = .ret () s' ∧ Moved N s s' (s.blocks.st64 a v) := by
  refine ⟨_, store64_of_mapped hm, ?_⟩
  refine moved_store (g := fun m => m.st64 a v) hm hw (fun m m' x hlo hhi => ?_) fun m x hx => ?_
  · simp only [ByteMem.st64, ByteMem.st32]
    split
    · rfl
    · rw [if_pos (by omega), if_pos (by omega)]
  · exact ByteMem.same_st64 (n := 1) v (by omega) x (le_refl x) (by omega)

/-- A store to such bytes leaves the file system mounted. -/
theorem Mounted.moved (h : Mounted s N) (hm : Moved N s s' m) (hw : Within (fun x => a ≤ x ∧ x < a + n) s.blocks m)
    (hok : Writable s.blocks N a n) : Mounted s' N := by
  refine h.became hm.toBecame (hw.same fun x hlo hhi hx => ?_)
  rcases hok.super with hs | hs
  · omega
  · omega

/-! ## One file -/

/-- A file in the cache.  Neither it nor its table is anything that is free. -/
structure FileOk (s : Fs) (N f : Nat) : Prop where
  mounted : Mounted s N
  low : LowUsed s.blocks N
  placed : Placed N f
  cached : Cached s f
  used : ∀ b x, firstData N ≤ b → b < N → InBlock b x → f ≤ x → x < f + BY2FILE →
    freeBit s.blocks b = false
  table : tableOf s.blocks f ≠ 0 → UsedBlock s.blocks N (tableOf s.blocks f)
  apart : tableOf s.blocks f ≠ 0 → ∀ x, f ≤ x → x < f + BY2FILE → ¬ InBlock (tableOf s.blocks f) x

theorem FileOk.writable (h : FileOk s N f) : Writable s.blocks N f BY2FILE where
  super := Or.inr h.placed.super_lt
  bitmap _ hlo hhi := h.placed.not_bitmap hlo hhi
  used := h.used

/-- The block of a table. -/
theorem UsedBlock.writable (h : UsedBlock m N b) : Writable m N (blockAddr b) 4096 where
  super := by
    have hlo := h.lo
    rw [firstData_eq] at hlo
    rw [blockAddr_eq, blockAddr_eq]
    omega
  bitmap x hlo hhi := UsedBlock.not_bitmap h.lo ⟨hlo, hhi⟩
  used c x _ _ hx hlo hhi := by
    have heq : c = b := hx.unique ⟨hlo, hhi⟩
    rw [heq]
    exact h.used

/-- The file stays what it is while its table and what is in use do. -/
theorem FileOk.moved (h : FileOk s N f) (hm : Moved N s s' m)
    (hsuper : ByteMem.Same s.blocks m (blockAddr 1 + 4) 4)
    (hused : ∀ b, b < N → freeBit s.blocks b = false → freeBit m b = false)
    (htable : tableOf m f = tableOf s.blocks f) : FileOk s' N f := by
  refine ⟨h.mounted.became hm.toBecame hsuper, ?_, h.placed, h.cached.steady hm.steady, ?_, ?_, ?_⟩
  · rw [hm.blocks]
    exact fun b hb hbN => hused b hbN (h.low b hb hbN)
  · rw [hm.blocks]
    exact fun b x hb hlt hx hlo hhi => hused b hlt (h.used b x hb hlt hx hlo hhi)
  · rw [hm.blocks, htable]
    intro h0
    obtain ⟨hlo, hhi, hu⟩ := h.table h0
    exact ⟨hlo, hhi, hused _ hhi hu⟩
  · rw [hm.blocks, htable]
    exact h.apart

theorem FileOk.loads (h : FileOk s N f) (hm : Moved N s s' s.blocks) : FileOk s' N f :=
  h.moved hm (fun _ _ _ => rfl) (fun _ _ hu => hu) rfl

/-! ## A block for a pointer -/

/-- Block `r`, the first free one, has been taken for the pointer at `a`.  In it is what
    was there in `old`. -/
structure Handed (m m' old : ByteMem) (N a : Nat) (r : U32) : Prop where
  first : FirstFree m N r.toNat
  data : firstData N ≤ r.toNat
  outside : ∀ x, ¬ InBlock r.toNat x → m' x = (setBit m r false).st32 a r x
  inside : ∀ x, InBlock r.toNat x → m' x = old x

/-- The pointer at `a` has a block: it had one, or the first free one has been taken. -/
inductive Reaches (N : Nat) (alloc : Bool) (s s' : Fs) (a : Nat) : Prop
  | had (hm : Moved N s s' s.blocks)
  | handed {r : U32} (halloc : alloc = true) (h0 : s.blocks.ld32 a = 0)
      (hr : Handed s.blocks s'.blocks s.seen N a r) (hm : Moved N s s' s'.blocks)

theorem Took.moved (h : Took s s' N r) : Moved N s s' s'.blocks := by
  refine ⟨⟨rfl, h.disk, h.steady⟩, fun b x hb hlo hfree hx => ?_⟩
  have hbits : freeBit s'.blocks b = freeBit (setBit s.blocks r false) b := by
    refine freeBit_same fun y hy hy' => h.outside y fun hin => ?_
    exact UsedBlock.not_bitmap h.data hin (bitWord_inBitmap hb hy hy')
  rw [hbits, freeBit_setBit] at hfree
  by_cases hbr : b = r.toNat
  · rw [if_pos hbr] at hfree
    cases hfree
  · rw [if_neg hbr] at hfree
    exact ⟨hfree, by rw [h.seen, setBit_out h.first.hi false (UsedBlock.not_bitmap hlo hx)]⟩

/-- A block is taken, and its number stored. -/
theorem allocStore_ends {store : U32 → FsM Unit} (h : Mounted s N) (hlow : LowUsed s.blocks N)
    (hw : Writable s.blocks N a 4)
    (hstore : ∀ r s₁, Took s s₁ N r → ∃ s', store r s₁ = .ret () s' ∧ Moved N s₁ s' (s₁.blocks.st32 a r)) :
    (allocBlock >>= store).Ends s
      (fun _ s' => ∃ r : U32, Handed s.blocks s'.blocks s.seen N a r ∧ Moved N s s' s'.blocks ∧
        s'.mapped (blockPage r.toNat) = true)
      (fun _ s' => Moved N s s' s.blocks) AnyStop := by
  refine Ends.bind ((allocBlock_ends h hlow).mono (fun _ _ h => h) ?_ fun _ h => h.elim) fun r s₁ ht => ?_
  · rintro e s' ⟨hb, hseen⟩
    exact ⟨hb, fun b x _ _ hfree _ => ⟨hb.blocks ▸ hfree, congrFun hseen x⟩⟩
  · obtain ⟨s', hrun, hm⟩ := hstore r s₁ ht
    have hmove := ht.moved.trans hm
    refine Ends.of_ret hrun ⟨r, ⟨ht.first, ht.data, fun x hx => ?_, fun x hx => ?_⟩,
      ⟨⟨rfl, hmove.disk, hmove.steady⟩, hmove.kept⟩, hm.steady.mapped _ ht.mapped⟩
    · rw [hm.blocks, ByteMem.st32, ByteMem.st32]
      by_cases hin : a ≤ x ∧ x < a + 4
      · rw [if_pos hin, if_pos hin]
      · rw [if_neg hin, if_neg hin, ht.outside x hx]
    · -- The pointer is not in the block, which was free.
      have hout : ¬ (a ≤ x ∧ x < a + 4) := by
        intro hin
        have hused := hw.used _ x ht.data ht.first.hi hx hin.1 hin.2
        rw [ht.first.free] at hused
        cases hused
      rw [hm.blocks, st32_out _ hout, ht.inside x hx]

section Handed

variable (h : Handed m m' old N a r) (hw : Writable m N a 4)

include h hw

theorem Handed.out_ptr (hlo : a ≤ x) (hhi : x < a + 4) : ¬ InBlock r.toNat x := by
  intro hx
  have hused := hw.used _ x h.data h.first.hi hx hlo hhi
  rw [h.first.free] at hused
  cases hused

omit hw in
/-- What is neither in the bitmap nor in the block nor in the pointer. -/
theorem Handed.byte (hbit : ¬ InBitmap N x) (hblk : ¬ InBlock r.toNat x) (hptr : ¬ (a ≤ x ∧ x < a + 4)) :
    m' x = m x := by
  rw [h.outside x hblk, st32_out r hptr, setBit_out h.first.hi false hbit]

theorem Handed.ptr : m'.ld32 a = r := by
  have hsame : ByteMem.Same ((setBit m r false).st32 a r) m' a 4 := fun x hlo hhi =>
    h.outside x (h.out_ptr hw hlo hhi)
  rw [hsame.ld32, ByteMem.ld32_st32]

theorem Handed.freeBit_eq (hb : b < N) : freeBit m' b = if b = r.toNat then false else freeBit m b := by
  have hsame : ByteMem.Same (setBit m r false) m' (bitWord b) 8 := by
    intro x hlo hhi
    have hin := bitWord_inBitmap hb hlo hhi
    rw [h.outside x fun hx => UsedBlock.not_bitmap h.data hx hin,
      st32_out r fun hx => hw.bitmap x hx.1 hx.2 hin]
  rw [freeBit_same hsame, freeBit_setBit]

theorem Handed.used (hb : b < N) (hu : freeBit m b = false) : freeBit m' b = false := by
  rw [h.freeBit_eq hw hb, hu, ite_self]

theorem Handed.super : ByteMem.Same m m' (blockAddr 1 + 4) 4 := by
  intro x hlo hhi
  have hdata := h.data
  rw [firstData_eq] at hdata
  apply h.byte
  · rintro ⟨hx, -⟩
    rw [blockAddr_eq] at hhi hx
    omega
  · rintro ⟨hx, -⟩
    rw [blockAddr_eq] at hhi hx
    omega
  · have hs := hw.super
    omega

end Handed

/-- The block that is taken is not the file's. -/
theorem FileOk.not_handed (h : FileOk s N f) (hr : Handed s.blocks m' old N a r) (hlo : f ≤ x)
    (hhi : x < f + BY2FILE) : ¬ InBlock r.toNat x := by
  intro hx
  have hused := h.used _ x hr.data hr.first.hi hx hlo hhi
  rw [hr.first.free] at hused
  cases hused

/-- The bytes of the file but for the pointer. -/
theorem FileOk.handed_same (h : FileOk s N f) (hr : Handed s.blocks m' old N a r) (hlo : f ≤ b)
    (hhi : b + n ≤ f + BY2FILE) (hout : a + 4 ≤ b ∨ b + n ≤ a) : ByteMem.Same s.blocks m' b n := by
  intro x hx hx'
  apply hr.byte
  · exact h.placed.not_bitmap (by omega) (by omega)
  · exact h.not_handed hr (by omega) (by omega)
  · omega

theorem FileOk.handed (h : FileOk s N f) (hw : Writable s.blocks N a 4)
    (hr : Handed s.blocks s'.blocks s.seen N a r) (hm : Moved N s s' s'.blocks)
    (ha : a = fIndirect f ∨ a + 4 ≤ fIndirect f ∨ fIndirect f + 4 ≤ a) : FileOk s' N f := by
  by_cases heq : a = fIndirect f
  · have htable : tableOf s'.blocks f = r.toNat := by rw [tableOf, ← heq, hr.ptr hw]
    refine ⟨h.mounted.became hm.toBecame (hr.super hw), fun b hb hbN => hr.used hw hbN (h.low b hb hbN),
      h.placed, h.cached.steady hm.steady,
      fun b x hb hbN hx hlo hhi => hr.used hw hbN (h.used b x hb hbN hx hlo hhi), ?_, ?_⟩
    · rw [htable]
      exact fun _ => ⟨hr.data, hr.first.hi, by rw [hr.freeBit_eq hw hr.first.hi, if_pos rfl]⟩
    · rw [htable]
      exact fun _ x hlo hhi => h.not_handed hr hlo hhi
  · refine h.moved hm (hr.super hw) (fun b hb hu => hr.used hw hb hu) ?_
    have hsame := h.handed_same hr (b := fIndirect f) (n := 4) (by rw [fIndirect_eq]; omega)
      (by rw [fIndirect_eq, BY2FILE]; omega) (ha.resolve_left heq)
    rw [tableOf, tableOf, hsame.ld32]

section Reaches

variable {alloc : Bool}

theorem Reaches.refl (N : Nat) (alloc : Bool) (s : Fs) (a : Nat) : Reaches N alloc s s a := .had (.refl N s)

theorem Reaches.loads (h : Reaches N alloc s s₁ a) (hm : Moved N s₁ s₂ s₁.blocks) : Reaches N alloc s s₂ a := by
  cases h with
  | had hm₁ =>
      refine .had (hm₁.trans ?_)
      rwa [hm₁.blocks] at hm
  | handed halloc h0 hr hm₁ =>
      refine .handed halloc h0 (hm.blocks ▸ hr) ?_
      have hboth := hm₁.trans hm
      rwa [hm.blocks]

theorem Reaches.fileOk (h : Reaches N alloc s s' a) (hf : FileOk s N f) (hw : Writable s.blocks N a 4)
    (ha : a = fIndirect f ∨ a + 4 ≤ fIndirect f ∨ fIndirect f + 4 ≤ a) : FileOk s' N f := by
  cases h with
  | had hm => exact hf.loads hm
  | handed _ _ hr hm => exact hf.handed hw hr hm ha

end Reaches

/-! ## `file_block_walk` and `file_map_block` -/

section Walk

variable {alloc : Bool}

theorem FileOk.head_mapped (h : FileOk s N f) (hlo : f ≤ a) (hhi : a + n ≤ f + BY2FILE) : s.MappedOn a n :=
  h.cached.mono hlo hhi

theorem FileOk.load_ind (h : FileOk s N f) :
    load32 (fIndirect f) s = .ret (s.blocks.ld32 (fIndirect f)) s :=
  load32_blocks (h.head_mapped (by rw [fIndirect_eq]; omega) (by rw [fIndirect_eq, BY2FILE]; omega))

theorem FileOk.ind_writable (h : FileOk s N f) : Writable s.blocks N (fIndirect f) 4 :=
  h.writable.mono (by rw [fIndirect_eq]; omega) (by rw [fIndirect_eq, BY2FILE]; omega)

/-- The table of the file is there, or is made. -/
theorem walkIndirect_reaches (h : FileOk s N f) : (walkIndirect f alloc).Ends s
    (fun _ s' => Reaches N alloc s s' (fIndirect f) ∧ tableOf s'.blocks f ≠ 0)
    (fun _ s' => Moved N s s' s.blocks ∧ tableOf s.blocks f = 0) AnyStop := by
  have hm : s.MappedOn (fIndirect f) 4 :=
    h.head_mapped (by rw [fIndirect_eq]; omega) (by rw [fIndirect_eq, BY2FILE]; omega)
  have hload := load32_blocks hm
  rw [walkIndirect]
  apply Ends.bind_ret hload
  by_cases h0 : s.blocks.ld32 (fIndirect f) = 0
  · have hnull : tableOf s.blocks f = 0 := congrArg BitVec.toNat h0
    rw [if_pos h0]
    cases alloc with
    | false => exact Ends.of_fail rfl ⟨.refl N s, hnull⟩
    | true =>
        refine (allocStore_ends h.mounted h.low h.ind_writable fun r s₁ ht => ?_).mono ?_
          (fun _ _ h => ⟨h, hnull⟩) fun _ h => h
        · exact store32_moves (hm.steady ht.steady) (h.ind_writable.kept ht.moved.kept)
        · rintro u s' ⟨r, hr, hm', -⟩
          refine ⟨.handed rfl h0 hr hm', ?_⟩
          rw [tableOf, hr.ptr h.ind_writable]
          exact fun hz => absurd hr.first.lo (by omega)
  · rw [if_neg h0]
    exact Ends.of_ret rfl ⟨.refl N alloc s _, fun hz => h0 (BitVec.eq_of_toNat_eq hz)⟩

/-- What `file_block_walk` leaves behind: the table is there when the slot is in it. -/
structure SlotAt (N : Nat) (alloc : Bool) (s s' : Fs) (f k : Nat) : Prop where
  lt : k < NINDIRECT
  direct : k < NDIRECT → s' = s
  reach : Reaches N alloc s s' (fIndirect f)
  table : NDIRECT ≤ k → tableOf s'.blocks f ≠ 0 ∧ s'.mapped (blockPage (tableOf s'.blocks f)) = true
  ok : FileOk s' N f

/-- Without a table there are the direct slots only. -/
theorem blockNo_no_table (hk : ¬ k < NDIRECT) (h0 : tableOf m f = 0) : blockNo m f k = 0 := by
  rw [blockNo]
  by_cases hlt : k < NINDIRECT
  · rw [if_pos hlt, slotIn, if_neg hk, if_pos h0]
    rfl
  · rw [if_neg hlt]

theorem fileBlockWalk_reaches {filebno : U32} (h : FileOk s N f) : (fileBlockWalk f filebno alloc).Ends s
    (fun ptr s' => ptr = slotAddr f (tableOf s'.blocks f) filebno.toNat ∧ SlotAt N alloc s s' f filebno.toNat)
    (fun _ s' => Moved N s s' s.blocks ∧ blockNo s.blocks f filebno.toNat = 0) AnyStop := by
  rw [fileBlockWalk]
  by_cases hd : filebno.toNat < NDIRECT
  · rw [if_pos hd]
    refine Ends.of_ret rfl ⟨by rw [slotAddr, if_pos hd], ?_, fun _ => rfl, .refl N alloc s _, ?_, h⟩
    · rw [NDIRECT] at hd
      rw [NINDIRECT]
      omega
    · exact fun hge => absurd hd (Nat.not_lt.mpr hge)
  · rw [if_neg hd]
    by_cases hk : filebno.toNat < NINDIRECT
    · rw [if_pos hk]
      refine Ends.bind ((walkIndirect_reaches h).mono (fun _ _ h => h)
        (fun _ _ h => ⟨h.1, blockNo_no_table hd h.2⟩) fun _ h => h) ?_
      rintro u s₁ ⟨hreach, h0⟩
      have hok := hreach.fileOk h h.ind_writable (Or.inl rfl)
      apply Ends.bind_ret hok.load_ind
      refine Ends.bind ((readBlock_moves hok.mounted).mono (fun _ _ h => h) (fun _ _ h => h.elim)
        fun _ h => h) ?_
      rintro ⟨blk, isnew⟩ s₂ ⟨hblk, hmapped, -, -, hm⟩
      have haddr : blk = blockAddr (tableOf s₁.blocks f) := hblk
      have htable : tableOf s₂.blocks f = tableOf s₁.blocks f := by rw [hm.blocks]
      refine Ends.of_ret rfl ⟨?_, hk, fun hlt => absurd hlt hd, hreach.loads hm, fun _ => ?_, hok.loads hm⟩
      · rw [htable, haddr, slotAddr, if_neg hd]
      · rw [htable]
        exact ⟨h0, hmapped⟩
    · rw [if_neg hk]
      exact Ends.of_fail rfl ⟨.refl N s, if_neg hk⟩

section Slot

variable {mid : Fs} (h : SlotAt N alloc s mid f k)

include h

/-- Where the slot is, and the word behind it. -/
theorem SlotAt.place (hk : k + 1 ≠ NINDIRECT) :
    (f ≤ slotAddr f (tableOf mid.blocks f) k ∧ slotAddr f (tableOf mid.blocks f) k + 8 ≤ f + BY2FILE) ∨
    (NDIRECT ≤ k ∧ blockAddr (tableOf mid.blocks f) ≤ slotAddr f (tableOf mid.blocks f) k ∧
      slotAddr f (tableOf mid.blocks f) k + 8 ≤ blockAddr (tableOf mid.blocks f) + 4096) := by
  have hlt := h.lt
  rw [NINDIRECT] at hlt hk
  rw [slotAddr]
  by_cases hd : k < NDIRECT
  · rw [if_pos hd, fDirect_eq, BY2FILE]
    rw [NDIRECT] at hd
    left
    omega
  · rw [if_neg hd]
    right
    omega

theorem SlotAt.mapped (hk : k + 1 ≠ NINDIRECT) : mid.MappedOn (slotAddr f (tableOf mid.blocks f) k) 8 := by
  rcases h.place hk with ⟨hlo, hhi⟩ | ⟨hd, hlo, hhi⟩
  · exact h.ok.head_mapped hlo hhi
  · exact mappedOn_block (h.table hd).2 hlo hhi

theorem SlotAt.writable (hk : k + 1 ≠ NINDIRECT) :
    Writable mid.blocks N (slotAddr f (tableOf mid.blocks f) k) 8 := by
  rcases h.place hk with ⟨hlo, hhi⟩ | ⟨hd, hlo, hhi⟩
  · exact h.ok.writable.mono hlo hhi
  · exact (h.ok.table (h.table hd).1).writable.mono hlo hhi

/-- No slot is where the pointer to the table is. -/
theorem SlotAt.ne_ind : slotAddr f (tableOf mid.blocks f) k + 4 ≤ fIndirect f ∨
    fIndirect f + 4 ≤ slotAddr f (tableOf mid.blocks f) k := by
  have hlt := h.lt
  rw [NINDIRECT] at hlt
  rw [slotAddr, fIndirect_eq]
  by_cases hd : k < NDIRECT
  · rw [if_pos hd, fDirect_eq]
    rw [NDIRECT] at hd
    left
    omega
  · rw [if_neg hd]
    have hout := h.ok.apart (h.table (Nat.le_of_not_lt hd)).1
    have hfirst := hout (f + 176) (by omega) (by rw [BY2FILE]; omega)
    have hlast := hout (f + 179) (by omega) (by rw [BY2FILE]; omega)
    rw [InBlock, BY2BLK] at hfirst hlast
    omega

/-- What stands in the slot. -/
theorem SlotAt.value : (mid.blocks.ld32 (slotAddr f (tableOf mid.blocks f) k)).toNat = blockNo mid.blocks f k := by
  rw [blockNo, if_pos h.lt, slotIn, slotAddr]
  by_cases hd : k < NDIRECT
  · rw [if_pos hd, if_pos hd]
  · rw [if_neg hd, if_neg hd, if_neg (h.table (Nat.le_of_not_lt hd)).1]

end Slot

/-- A slot of 64 bits that is null, the block number in its lower half. -/
theorem store64_slot (hm : s.MappedOn a 8) (hw : Writable s.blocks N a 8)
    (hnext : s.blocks.ld32 (a + 4) = 0) (ht : Took s s₁ N r) :
    ∃ s', store64 a (r.setWidth 64) s₁ = .ret () s' ∧ Moved N s₁ s' (s₁.blocks.st32 a r) := by
  obtain ⟨s', hrun, hmove⟩ := store64_moves (v := r.setWidth 64) (hm.steady ht.steady)
    (hw.kept ht.moved.kept)
  refine ⟨s', hrun, ?_⟩
  -- The word behind the slot is still null, so that the store is one of 32 bits.
  have hsame : ByteMem.Same s.blocks s₁.blocks (a + 4) 4 := by
    intro x hlo hhi
    rw [ht.outside x, setBit_out ht.first.hi false (hw.bitmap x (by omega) (by omega))]
    intro hx
    have hused := hw.used _ x ht.data ht.first.hi hx (by omega) (by omega)
    rw [ht.first.free] at hused
    cases hused
  rwa [ByteMem.st64_eq_st32 r (hsame.ld32.trans hnext)] at hmove

theorem mapPointer_reaches {ptr : Nat} (h : Mounted s N) (hlow : LowUsed s.blocks N) (hm : s.MappedOn ptr 8)
    (hw : Writable s.blocks N ptr 8) : (mapPointer ptr alloc).Ends s
    (fun _ s' => Reaches N alloc s s' ptr ∧ s'.blocks.ld64 ptr ≠ 0)
    (fun _ s' => Moved N s s' s.blocks ∧ s.blocks.ld32 ptr = 0) AnyStop := by
  rw [mapPointer]
  apply Ends.bind_ret (load64_blocks hm)
  by_cases h0 : s.blocks.ld64 ptr = 0
  · rw [if_pos h0]
    obtain ⟨hslot, hnext⟩ := ByteMem.ld64_eq_zero.mp h0
    cases alloc with
    | false => exact Ends.of_fail rfl ⟨.refl N s, hslot⟩
    | true =>
        refine (allocStore_ends h hlow (hw.mono (le_refl ptr) (by omega)) fun r s₁ ht =>
          store64_slot hm hw hnext ht).mono ?_ (fun _ _ h => ⟨h, hslot⟩) fun _ h => h
        rintro u s' ⟨r, hr, hm', -⟩
        refine ⟨.handed rfl hslot hr hm', fun hz => ?_⟩
        have hptr := hr.ptr (hw.mono (le_refl ptr) (by omega))
        rw [(ByteMem.ld64_eq_zero.mp hz).1] at hptr
        have hlo := hr.first.lo
        rw [← hptr] at hlo
        exact absurd hlo (by decide)
  · rw [if_neg h0]
    exact Ends.of_ret rfl ⟨.refl N alloc s _, h0⟩

/-- What `file_map_block` leaves behind: slot `k` was found, and holds `b` now. -/
structure MapsTo (N : Nat) (alloc : Bool) (s s' : Fs) (f k b : Nat) : Prop where
  walk : ∃ mid, SlotAt N alloc s mid f k ∧ Reaches N alloc mid s' (slotAddr f (tableOf mid.blocks f) k) ∧
    tableOf s'.blocks f = tableOf mid.blocks f ∧ s'.blocks.ld64 (slotAddr f (tableOf mid.blocks f) k) ≠ 0
  ok : FileOk s' N f
  no : b = blockNo s'.blocks f k

/-- What it leaves when it fails: at most the table was made. -/
structure NoSlot (N : Nat) (alloc : Bool) (s s' : Fs) (f k : Nat) : Prop where
  none : blockNo s.blocks f k = 0
  reach : Reaches N alloc s s' (fIndirect f)
  direct : k < NDIRECT → Moved N s s' s.blocks

theorem fileMapBlock_reaches {filebno : U32} (h : FileOk s N f) (hk : filebno.toNat + 1 ≠ NINDIRECT) :
    (fileMapBlock f filebno alloc).Ends s (fun r s' => MapsTo N alloc s s' f filebno.toNat r.toNat)
      (fun _ s' => NoSlot N alloc s s' f filebno.toNat) AnyStop := by
  rw [fileMapBlock]
  refine Ends.bind ((fileBlockWalk_reaches h).mono (fun _ _ h => h)
    (fun _ _ h => ⟨h.2, .had h.1, fun _ => h.1⟩) fun _ h => h) ?_
  rintro ptr mid ⟨rfl, hslot⟩
  have hm := hslot.mapped hk
  have hw := hslot.writable hk
  -- A slot that is null now was null before.
  have hnone : mid.blocks.ld32 (slotAddr f (tableOf mid.blocks f) filebno.toNat) = 0 →
      blockNo s.blocks f filebno.toNat = 0 := by
    intro h0
    have hno := hslot.value
    rw [h0] at hno
    by_cases hd : filebno.toNat < NDIRECT
    · rw [← hslot.direct hd]
      exact hno.symm
    · cases hslot.reach with
      | had hm =>
          rw [hm.blocks] at hno
          exact hno.symm
      | handed _ h0 _ _ => exact blockNo_no_table hd (congrArg BitVec.toNat h0)
  refine Ends.bind ((mapPointer_reaches hslot.ok.mounted hslot.ok.low hm hw).mono (fun _ _ h => h)
    (fun _ s' h => ⟨hnone h.2, hslot.reach.loads h.1, fun hd => by
      have h₁ := h.1
      rwa [hslot.direct hd] at h₁⟩) fun _ h => h) ?_
  rintro u s' ⟨hreach, hfilled⟩
  have hok := hreach.fileOk hslot.ok (hw.mono (le_refl _) (by omega)) (Or.inr hslot.ne_ind)
  have hst : Steady mid s' := by
    cases hreach with
    | had hm => exact hm.steady
    | handed _ _ _ hm => exact hm.steady
  have htable : tableOf s'.blocks f = tableOf mid.blocks f := by
    cases hreach with
    | had hm => rw [hm.blocks]
    | handed _ _ hr _ =>
        have hsame := hslot.ok.handed_same hr (b := fIndirect f) (n := 4) (by rw [fIndirect_eq]; omega)
          (by rw [fIndirect_eq, BY2FILE]; omega) hslot.ne_ind
        rw [tableOf, tableOf, hsame.ld32]
  have hslot' : SlotAt N alloc s' s' f filebno.toNat := by
    refine ⟨hslot.lt, fun _ => rfl, .refl N alloc s' _, fun hd => ?_, hok⟩
    rw [htable]
    exact ⟨(hslot.table hd).1, hst.mapped _ (hslot.table hd).2⟩
  have hload := load64_blocks (hm.steady hst)
  apply Ends.bind_ret hload
  refine Ends.of_ret rfl ⟨⟨mid, hslot, hreach, htable, hfilled⟩, hok, ?_⟩
  rw [ByteMem.ld64_setWidth, ← hslot'.value, htable]

/-- `file_get_block` returns the block of the slot, which is in the cache. -/
theorem fileGetBlock_reaches {filebno : U32} (h : FileOk s N f) (hk : filebno.toNat + 1 ≠ NINDIRECT) :
    (fileGetBlock f filebno).Ends s
      (fun blk s' => ∃ s₁ b, MapsTo N true s s₁ f filebno.toNat b ∧ Moved N s₁ s' s₁.blocks ∧
        blk = blockAddr b ∧ s'.mapped (blockPage b) = true ∧ b < N ∧ freeBit s'.blocks b = false)
      (fun _ s' => NoSlot N true s s' f filebno.toNat) AnyStop := by
  rw [fileGetBlock]
  refine Ends.bind (fileMapBlock_reaches h hk) fun r s₁ hmap => ?_
  refine Ends.bind ((readBlock_moves hmap.ok.mounted).mono (fun _ _ h => h) (fun _ _ h => h.elim)
    fun _ h => h) ?_
  rintro ⟨blk, isnew⟩ s₂ ⟨hblk, hmapped, hlt, hused, hm⟩
  exact Ends.of_ret rfl ⟨s₁, r.toNat, hmap, hm, hblk, hmapped, hlt, by rw [hm.blocks]; exact hused⟩

end Walk

end RpiMos
