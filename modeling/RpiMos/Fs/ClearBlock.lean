/-
  RpiMos.Fs.ClearBlock

  What one call of `file_clear_block` leaves behind, when it returns, and when
  there is the memory for it to return at all.  The slot is cleared with the word
  behind it, whatever that is.
-/

import RpiMos.Fs.BlockMap

namespace RpiMos

open Lib Prog

variable {s s' s₁ : Fs} {N f fb t i j n : Nat} {m : ByteMem} {filebno x : U32} {u : Unit}

/-! ## A slot and the word behind it -/

def fileSize (s : Fs) (f : Nat) : Nat := (s.seen.ld32 (fSize f)).toNat

theorem fSize_eq (f : Nat) : fSize f = f + 128 := rfl

/-- The slots that the store to slot `i` covers. -/
def Covered (i j : Nat) : Prop := j = i ∨ j = i + 1 ∨ (i = 9 ∧ NDIRECT ≤ j)

/-- From `s` to `s'` slot `i`, which names block `x`, has been cleared. -/
structure Cleared (s s' : Fs) (N f fb i : Nat) (x : U32) : Prop where
  mounted : Mounted s' N
  file : FileAt s' N f fb
  ind : fInd s' f = if i = 9 then 0 else fInd s f
  covered : ∀ j, j < NINDIRECT → Covered i j → recorded s' f j = 0
  slots : ∀ j, j < NINDIRECT → ¬ Covered i j → recorded s' f j = recorded s f j
  bits : ∀ n, n < N → freeBit s'.seen n = if n = x.toNat then true else freeBit s.seen n
  size : fileSize s' f = fileSize s f

/-- The memory after block `x` has been freed and slot `i` cleared, with the word
    behind it. -/
def clearPair (m : ByteMem) (x : U32) (ptr : Nat) : ByteMem := (setBit m x true).st64 ptr 0

theorem clearPair_same {ptr a : Nat} (hx : x.toNat < N) (hptr : ptr + 8 ≤ a ∨ a + n ≤ ptr)
    (hbits : a + n ≤ blockAddr 2 ∨ blockAddr (firstData N) ≤ a) :
    ByteMem.Same m (clearPair m x ptr) a n := by
  intro y hlo hhi
  rw [clearPair, ByteMem.same_st64 0 hptr y hlo hhi]
  exact same_setBit true hx hbits y hlo hhi

theorem clearPair_words (m : ByteMem) (x : U32) (ptr : Nat) :
    (clearPair m x ptr).ld32 ptr = 0 ∧ (clearPair m x ptr).ld32 (ptr + 4) = 0 := by
  rw [clearPair]
  exact ByteMem.ld64_eq_zero.mp (ByteMem.ld64_st64 0)

/-- The bitmap is not where the slots are. -/
theorem clearPair_bit {ptr : Nat} (hout : ptr + 8 ≤ blockAddr 2 ∨ blockAddr (firstData N) ≤ ptr)
    (hn : n < N) :
    freeBit (clearPair m x ptr) n = if n = x.toNat then true else freeBit m n := by
  have hsame : ByteMem.Same (setBit m x true) (clearPair m x ptr) (bitWord n) 8 := by
    apply ByteMem.same_st64
    rw [firstData_eq, blockAddr_eq, blockAddr_eq] at hout
    rw [bitWord, blockAddr_eq]
    omega
  rw [freeBit_same hsame, freeBit_setBit]

/-- The file's own bytes are out of the bitmap. -/
theorem Apart.file_out (h : Apart N f fb t) :
    f + BY2FILE ≤ blockAddr 2 ∨ blockAddr (firstData N) ≤ f := by
  have hb := h.lo
  have he := h.hi
  rw [blockAddr_eq] at hb he
  rw [BY2BLK] at he
  rw [blockAddr_eq, blockAddr_eq, firstData_eq]
  rcases h.place with ⟨hfb, -⟩ | hplace
  · omega
  · rw [firstData_eq] at hplace
    omega

theorem Apart.of_zero (h : Apart N f fb t) : Apart N f fb 0 :=
  ⟨h.lo, h.hi, h.place, fun h0 => absurd rfl h0⟩

/-! ## Clearing one slot -/

section Clear

theorem cleared_direct (h : Mounted s N) (hf : FileAt s N f fb) (ht : TableAt s N f fb)
    (hd : i < NDIRECT) (hx : x.toNat < N) (hw : Wrote s s' (clearPair s.seen x (fDirect f i)))
    (hmapped : s'.mapped = s.mapped) : Cleared s s' N f fb i x := by
  have hap := hf.apart ht
  have hout := hap.file_out
  have hsup := hap.super_lt
  rw [NDIRECT] at hd
  rw [BY2FILE] at hout
  have hsame : ∀ a n, (fDirect f i + 8 ≤ a ∨ a + n ≤ fDirect f i) → f ≤ a → a + n ≤ f + 256 →
      ByteMem.Same s.seen s'.seen a n := by
    intro a n hptr hlo hhi
    rw [hw.seen]
    exact clearPair_same hx hptr (by omega)
  have hzero := clearPair_words s.seen x (fDirect f i)
  rw [← hw.seen] at hzero
  have hind : fInd s' f = if i = 9 then 0 else fInd s f := by
    by_cases h9 : i = 9
    · have haddr : fDirect f i + 4 = fIndirect f := by
        rw [fDirect_eq, fIndirect_eq]
        omega
      rw [if_pos h9, fInd, ← haddr, hzero.2]
      rfl
    · rw [if_neg h9, fInd, fInd, (hsame (fIndirect f) 4 ?_ ?_ ?_).ld32]
      all_goals simp only [fDirect_eq, fIndirect_eq]
      all_goals omega
  have hap' : Apart N f fb (fInd s' f) := by
    rw [hind]
    split
    · exact hap.of_zero
    · exact hap
  have hdirect : ∀ j, j < NDIRECT → recorded s' f j = s'.seen.ld32 (fDirect f j) :=
    fun j hj => recorded_direct hap' hj
  refine ⟨?_, hf.steady hw.steady, hind, fun j hj hcov => ?_, fun j hj hcov => ?_, fun n hn => ?_, ?_⟩
  · refine h.wrote hw (clearPair_same hx ?_ ?_)
    · rw [fDirect_eq]
      omega
    · rw [blockAddr_eq, blockAddr_eq]
      omega
  · by_cases hjd : j < NDIRECT
    · rw [hdirect j hjd]
      rcases hcov with rfl | rfl | ⟨-, hge⟩
      · exact hzero.1
      · exact hzero.2
      · exact absurd hjd (Nat.not_lt_of_le hge)
    · have h9 : i = 9 := by
        rw [NDIRECT] at hjd
        rcases hcov with rfl | rfl | ⟨h9, -⟩ <;> omega
      rw [if_pos h9] at hind
      rw [recorded, slotIn, if_neg hjd, if_pos hind]
  · rw [Covered, NDIRECT] at hcov
    by_cases hjd : j < NDIRECT
    · rw [hdirect j hjd, recorded_direct hap hjd, (hsame (fDirect f j) 4 ?_ ?_ ?_).ld32]
      all_goals rw [NDIRECT] at hjd
      all_goals simp only [fDirect_eq]
      all_goals omega
    · have h9 : ¬ i = 9 := by
        rw [NDIRECT] at hjd
        omega
      rw [if_neg h9] at hind
      refine recorded_table_same hind hw.disk (fun _ => by rw [hmapped]) (fun ht0 => ?_) hjd hj
      rw [hw.seen]
      refine clearPair_same hx ?_ (Or.inr (data_le_table (k := 0) (hap.table ht0).1))
      have hfile := hap.file_table (a := fDirect f i) (n := 8) ht0 ?_ ?_
      · omega
      · rw [fDirect_eq]
        omega
      · rw [fDirect_eq, BY2FILE]
        omega
  · rw [hw.seen, clearPair_bit ?_ hn]
    rw [fDirect_eq]
    omega
  · rw [fileSize, fileSize, (hsame (fSize f) 4 ?_ ?_ ?_).ld32]
    all_goals simp only [fDirect_eq, fSize_eq]
    all_goals omega

theorem cleared_table (hi : i < NINDIRECT) (hd : ¬ i < NDIRECT) (hwalk : Walked s s₁ N f fb t)
    (hold : fInd s f = t) (hx : x.toNat < N)
    (hw : Wrote s₁ s' (clearPair s₁.seen x (slotAddr f t i))) : Cleared s s' N f fb i x := by
  have hap := hwalk.apart
  have ht0 := hwalk.ne
  have hind0 : fInd s f ≠ 0 := hold ▸ ht0
  have hseen : s₁.seen = s.loaded t := by
    rcases hwalk.seen with ⟨-, hseen⟩ | ⟨r, -, h0, -⟩
    · exact hseen
    · exact absurd h0 hind0
  have hrec : ∀ j, recorded s f j = slotIn s₁.seen f t j := by
    intro j
    rw [recorded, Fs.withTable, if_neg hind0, hold, hseen]
  have hb := hap.lo
  have he := hap.hi
  have hne := (hap.table ht0).2
  have hdata := (hap.table ht0).1
  have hsup := hap.super_lt
  have hsupt := super_lt_data hdata
  have hfout := hap.file_out
  have hptr : slotAddr f t i = blockAddr t + 4 * i := slotAddr_table hd
  rw [hptr] at hw
  rw [NDIRECT] at hd
  rw [NINDIRECT] at hi
  rw [BY2FILE, BY2BLK] at he
  rw [BY2FILE] at hfout
  have hblock : blockAddr fb + 4096 ≤ blockAddr t ∨ blockAddr t + 4096 ≤ blockAddr fb := by
    rw [blockAddr_eq, blockAddr_eq]
    omega
  have hsame : ∀ a n, (blockAddr t + 4 * i + 8 ≤ a ∨ a + n ≤ blockAddr t + 4 * i) →
      (a + n ≤ blockAddr 2 ∨ blockAddr (firstData N) ≤ a) → ByteMem.Same s₁.seen s'.seen a n := by
    intro a n hp hbits
    rw [hw.seen]
    exact clearPair_same hx hp hbits
  -- What is behind the first word of the file's block is not in the pair.
  have hfile : ∀ a, f + 128 ≤ a → a + 4 ≤ f + 256 → ByteMem.Same s₁.seen s'.seen a 4 := by
    intro a hlo hhi
    apply hsame <;> omega
  have hzero := clearPair_words s₁.seen x (blockAddr t + 4 * i)
  rw [← hw.seen] at hzero
  have hind : fInd s' f = t := by
    rw [fInd, (hfile (fIndirect f) ?_ ?_).ld32]
    · exact hwalk.ind
    all_goals simp only [fIndirect_eq]
    all_goals omega
  have hrec' : ∀ j, recorded s' f j = slotIn s'.seen f t j := fun j => hwalk.recorded hw.steady hind
  refine ⟨?_, hwalk.file.steady hw.steady, ?_, fun j hj hcov => ?_, fun j hj hcov => ?_,
    fun n hn => ?_, ?_⟩
  · refine hwalk.mounted.wrote hw (clearPair_same hx ?_ ?_)
    · omega
    · left
      rw [blockAddr_eq, blockAddr_eq]
      omega
  · rw [hind, if_neg (by omega), hold]
  · have hjd : ¬ j < NDIRECT := by
      rw [Covered, NDIRECT] at hcov
      rw [NDIRECT]
      omega
    rw [hrec', slotIn_table hjd ht0]
    rcases hcov with rfl | rfl | ⟨h9, -⟩
    · exact hzero.1
    · exact hzero.2
    · omega
  · rw [Covered] at hcov
    rw [hrec', hrec]
    by_cases hjd : j < NDIRECT
    · rw [slotIn, if_pos hjd, slotIn, if_pos hjd, (hfile (fDirect f j) ?_ ?_).ld32]
      all_goals rw [NDIRECT] at hjd
      all_goals simp only [fDirect_eq]
      all_goals omega
    · rw [slotIn_table hjd ht0, slotIn_table hjd ht0,
        (hsame (blockAddr t + 4 * j) 4 (by omega) (Or.inr (data_le_table hdata))).ld32]
  · have hbits : freeBit s₁.seen n = freeBit s.seen n := by
      rw [hseen]
      exact loaded_bit hdata hn
    rw [hw.seen, clearPair_bit (Or.inr (data_le_table hdata)) hn, hbits]
  · have hload : ByteMem.Same s.seen s₁.seen (fSize f) 4 := by
      rw [hseen]
      refine loaded_same (hap.file_table ht0 ?_ ?_)
      · rw [fSize_eq]
        omega
      · rw [fSize_eq, BY2FILE]
        omega
    rw [fileSize, fileSize, (hfile (fSize f) ?_ ?_).ld32, hload.ld32]
    all_goals simp only [fSize_eq]
    all_goals omega

end Clear

/-! ## `file_clear_block` -/

/-- Nothing that truncation looks at has changed. -/
structure Kept (s s' : Fs) (N f fb : Nat) : Prop where
  mounted : Mounted s' N
  file : FileAt s' N f fb
  ind : fInd s' f = fInd s f
  slots : ∀ j, j < NINDIRECT → recorded s' f j = recorded s f j
  bits : ∀ n, n < N → freeBit s'.seen n = freeBit s.seen n
  size : fileSize s' f = fileSize s f

theorem Kept.refl (h : Mounted s N) (hf : FileAt s N f fb) : Kept s s N f fb :=
  ⟨h, hf, rfl, fun _ _ => rfl, fun _ _ => rfl, rfl⟩

/-- The walk loads the table, and what it holds is recorded already. -/
theorem kept_of_walked (hwalk : Walked s s₁ N f fb t) (hold : fInd s f = t) (ht : Touched s₁ s') :
    Kept s s' N f fb := by
  have hap := hwalk.apart
  have ht0 := hwalk.ne
  have hind0 : fInd s f ≠ 0 := hold ▸ ht0
  have hdata := (hap.table ht0).1
  have hseen : s₁.seen = s.loaded t := by
    rcases hwalk.seen with ⟨-, hseen⟩ | ⟨r, -, h0, -⟩
    · exact hseen
    · exact absurd h0 hind0
  have hind : fInd s' f = t := by
    rw [fInd, ht.seen]
    exact hwalk.ind
  have hload : ByteMem.Same s.seen s₁.seen (fSize f) 4 := by
    rw [hseen]
    refine loaded_same (hap.file_table ht0 ?_ ?_)
    · rw [fSize_eq]
      omega
    · rw [fSize_eq, BY2FILE]
      omega
  refine ⟨hwalk.mounted.touched ht, hwalk.file.steady ht.steady, hind.trans hold.symm,
    fun j _ => ?_, fun n hn => ?_, ?_⟩
  · rw [hwalk.recorded ht.steady hind, ht.seen, hseen, recorded, Fs.withTable, if_neg hind0, hold]
  · rw [ht.seen, hseen]
    exact loaded_bit hdata hn
  · rw [fileSize, fileSize, ht.seen, hload.ld32]

/-- A call that returns has found the slot empty, or cleared it. -/
theorem fileClearBlock_ret (h : Mounted s N) (hf : FileAt s N f fb) (ht : TableAt s N f fb)
    (hi : filebno.toNat < NINDIRECT) (hr : fileClearBlock f filebno s = .ret u s') :
    (recorded s f filebno.toNat = 0 ∧ Kept s s' N f fb) ∨
    (recorded s f filebno.toNat ≠ 0 ∧ (recorded s f filebno.toNat).toNat < N ∧
      Cleared s s' N f fb filebno.toNat (recorded s f filebno.toNat)) := by
  have hap := hf.apart ht
  by_cases hd : filebno.toNat < NDIRECT
  · have hrec := recorded_direct hap hd
    have hm : s.MappedOn (fDirect f filebno.toNat) 8 := by
      rw [NDIRECT] at hd
      apply hf.mappedOn <;> simp only [fDirect_eq, BY2FILE] <;> omega
    rw [fileClearBlock, fileBlockWalk, if_pos hd] at hr
    rw [hrec]
    rcases clearPointer_ret h hr with ⟨hzero, -, hsame⟩ | ⟨-, hx, hlt, hw, hmapped⟩
    · rw [hsame hm]
      exact Or.inl ⟨(ByteMem.ld64_eq_zero.mp hzero).1, .refl h hf⟩
    · exact Or.inr ⟨hx, hlt, cleared_direct h hf ht hd hlt hw (hmapped hm)⟩
  · obtain ⟨ptr, s₁, hwalk, hr⟩ := bind_eq_ret.mp hr
    obtain ⟨t, rfl, hwalked, hold⟩ := fileBlockWalk_ret h hf ht (by rintro ⟨⟩) hd hwalk
    have hold := hold rfl
    have hrec : recorded s f filebno.toNat = s₁.seen.ld32 (slotAddr f t filebno.toNat) := by
      have hkept := (kept_of_walked hwalked hold (.refl s₁)).slots _ hi
      rw [← hkept, hwalked.recorded (Touched.refl s₁).steady hwalked.ind,
        slotIn_table hd hwalked.ne, slotAddr_table hd]
    rw [hrec]
    rcases clearPointer_ret hwalked.mounted hr with ⟨hzero, htouch, -⟩ | ⟨-, hx, hlt, hw, -⟩
    · exact Or.inl ⟨(ByteMem.ld64_eq_zero.mp hzero).1, kept_of_walked hwalked hold htouch⟩
    · exact Or.inr ⟨hx, hlt, cleared_table hi hd hwalked hold hlt hw⟩

theorem clearPointer_ne_fail {e : U32} {ptr : Nat} (h : Mounted s₁ N) :
    (load64 ptr >>= fun v => if v = 0 then (pure () : FsM Unit) else
      freeBlock (v.setWidth 32) >>= fun _ => store64 ptr 0) s₁ ≠ .fail e s' := by
  intro hr
  rcases bind_eq_fail.mp hr with hload | ⟨v, s₂, hload, hr⟩
  · exact load64_ne_fail hload
  · obtain ⟨-, ht, -⟩ := load64_ret hload
    split at hr
    · cases hr
    · rcases bind_eq_fail.mp hr with hfree | ⟨_, _, -, hstore⟩
      · exact freeBlock_ne_fail (h.touched ht) hfree
      · exact store64_ne_fail hstore

/-- Only a walk that finds no table fails: there is nothing in the slot, and the
    state is left. -/
theorem fileClearBlock_fail {e : U32} (h : Mounted s N) (hf : FileAt s N f fb)
    (ht : TableAt s N f fb) (hlt : fInd s f < N) (hi : filebno.toNat < NINDIRECT)
    (hr : fileClearBlock f filebno s = .fail e s') :
    recorded s f filebno.toNat = 0 ∧ s' = s := by
  rcases bind_eq_fail.mp hr with hwalk | ⟨ptr, s₁, hwalk, hr⟩
  · rw [fileBlockWalk] at hwalk
    by_cases hd : filebno.toNat < NDIRECT
    · rw [if_pos hd] at hwalk
      cases hwalk
    · rw [if_neg hd, if_pos hi] at hwalk
      rcases bind_eq_fail.mp hwalk with hind | ⟨_, s₂, hind, hwalk⟩
      · rw [walkIndirect, bind_ret (loadInd_eq hf)] at hind
        split at hind
        · rename_i h0
          have hnone : fInd s f = 0 := congrArg BitVec.toNat h0
          cases hind
          rw [recorded, slotIn, if_neg hd, if_pos hnone]
          exact ⟨rfl, rfl⟩
        · cases hind
      · rw [walkIndirect, bind_ret (loadInd_eq hf)] at hind
        split at hind
        · cases hind
        · rename_i h0
          cases hind
          rw [bind_ret (loadInd_eq hf)] at hwalk
          rcases bind_eq_fail.mp hwalk with hread | ⟨_, _, -, hwalk⟩
          · exact absurd hread (readBlock_ne_fail h hlt (ht.used (toNat_ne_zero h0)))
          · cases hwalk
  · have hmount : Mounted s₁ N := by
      by_cases hd : filebno.toNat < NDIRECT
      · rw [fileBlockWalk, if_pos hd] at hwalk
        cases hwalk
        exact h
      · obtain ⟨t, -, hwalked, -⟩ := fileBlockWalk_ret h hf ht (by rintro ⟨⟩) hd hwalk
        exact hwalked.mounted
    exact absurd hr (clearPointer_ne_fail hmount)

/-- A full slot that can be read is cleared. -/
theorem clearPointer_total {ptr : Nat} {v : Word} {s₂ : Fs} (h : Mounted s₁ N)
    (hload : load64 ptr s₁ = .ret v s₂) (hx : s₁.seen.ld32 ptr ≠ 0)
    (hlt : (s₁.seen.ld32 ptr).toNat < N) :
    ∃ s', (load64 ptr >>= fun v => if v = 0 then (pure () : FsM Unit) else
      freeBlock (v.setWidth 32) >>= fun _ => store64 ptr 0) s₁ = .ret () s' := by
  obtain ⟨hv, ht, hon⟩ := load64_ret hload
  have hne : v ≠ 0 := by
    rw [hv]
    exact fun h0 => hx (ByteMem.ld64_eq_zero.mp h0).1
  have hlow : v.setWidth 32 = s₁.seen.ld32 ptr := by rw [hv, ByteMem.ld64_setWidth]
  have hon₃ : (s₂.marked (s₁.seen.ld32 ptr) true).MappedOn ptr 8 := hon
  rw [bind_ret hload, if_neg hne, hlow, bind_ret (freeBlock_eq (h.touched ht) hx hlt)]
  exact ⟨_, store64_of_mapped hon₃⟩

theorem fileClearBlock_direct_total (h : Mounted s N) (hf : FileAt s N f fb) (ht : TableAt s N f fb)
    (hd : filebno.toNat < NDIRECT) (hx : recorded s f filebno.toNat ≠ 0)
    (hlt : (recorded s f filebno.toNat).toNat < N) :
    ∃ s', fileClearBlock f filebno s = .ret () s' := by
  have hm : s.MappedOn (fDirect f filebno.toNat) 8 := by
    rw [NDIRECT] at hd
    apply hf.mappedOn <;> simp only [fDirect_eq, BY2FILE] <;> omega
  rw [recorded_direct (hf.apart ht) hd] at hx hlt
  rw [fileClearBlock, fileBlockWalk, if_pos hd]
  exact clearPointer_total h (load64_of_mapped hm) hx hlt

theorem touch_iff {v : Nat} (hv : v ≠ 0) : (∃ s', touch v s = .ret () s') ↔
    s.mapped v = true ∨ s.memOk s.allocs = true := by
  unfold touch
  by_cases hm : s.mapped v = true
  · rw [if_pos hm]
    exact ⟨fun _ => Or.inl hm, fun _ => ⟨s, rfl⟩⟩
  · rw [if_neg hm, if_neg hv]
    by_cases hok : s.memOk s.allocs = true
    · rw [if_pos hok]
      exact ⟨fun _ => Or.inr hok, fun _ => ⟨_, rfl⟩⟩
    · rw [if_neg hok]
      constructor
      · rintro ⟨_, ⟨⟩⟩
      · intro hor
        exact absurd (hor.resolve_left hm) hok

/-- A pointer to the last slot covers a word of the next page. -/
theorem loadSlot_iff (hm : s.mapped (blockPage t) = true) (hi : i < NINDIRECT) :
    (∃ v s', load64 (blockAddr t + 4 * i) s = .ret v s') ↔
      (i + 1 = NINDIRECT → s.mapped (blockPage t + 1) = true ∨ s.memOk s.allocs = true) := by
  rw [NINDIRECT] at hi ⊢
  by_cases hlast : i + 1 = 1024
  · have hpages : (blockAddr t + 4 * i) / BY2PG = blockPage t ∧
        (blockAddr t + 4 * i + 8 - 1) / BY2PG = blockPage t + 1 := by
      rw [blockPage_eq, blockAddr_eq, BY2PG]
      omega
    have haccess : access (blockAddr t + 4 * i) 8 s = touch (blockPage t + 1) s := by
      rw [access, hpages.1, hpages.2]
      exact bind_ret (touch_of_mapped hm)
    rw [← touch_iff (Nat.succ_ne_zero _)]
    constructor
    · rintro ⟨v, s', hload⟩ -
      obtain ⟨u, s₁, h₁, -⟩ := bind_eq_ret.mp hload
      exact ⟨s₁, haccess ▸ h₁⟩
    · intro hall
      obtain ⟨s₁, h₁⟩ := hall hlast
      exact ⟨_, s₁, bind_ret (haccess.trans h₁)⟩
  · have hon : s.MappedOn (blockAddr t + 4 * i) 8 := by
      apply mappedOn_block hm <;> omega
    exact ⟨fun _ hc => absurd hc hlast, fun _ => ⟨_, s, load64_of_mapped hon⟩⟩

/-- The memory that clearing slot `i` of the table takes. -/
def TableReady (s : Fs) (f i : Nat) : Prop :=
  CanRead s (fInd s f) ∧ (i + 1 = NINDIRECT → s.mapped (blockPage (fInd s f) + 1) = true ∨
    s.memOk (s.allocsAfterRead (fInd s f)) = true)

theorem fileClearBlock_table_iff (h : Mounted s N) (hf : FileAt s N f fb) (ht : TableAt s N f fb)
    (hlt : fInd s f < N) (h0 : fInd s f ≠ 0) (hi : filebno.toNat < NINDIRECT)
    (hd : ¬ filebno.toNat < NDIRECT) (hx : recorded s f filebno.toNat ≠ 0)
    (hxlt : (recorded s f filebno.toNat).toNat < N) :
    (∃ s', fileClearBlock f filebno s = .ret () s') ↔ TableReady s f filebno.toNat := by
  have hused := ht.used h0
  have hne : ¬ s.seen.ld32 (fIndirect f) = 0 := fun hz => h0 (congrArg BitVec.toNat hz)
  have hwalk₀ : walkIndirect f false s = .ret () s := by
    rw [walkIndirect, bind_ret (loadInd_eq hf), if_neg hne]
    rfl
  have hwalk : fileBlockWalk f filebno false s = (readBlock (s.seen.ld32 (fIndirect f)) >>= fun blk =>
      (pure (blk.1 + 4 * filebno.toNat) : FsM Nat)) s := by
    rw [fileBlockWalk, if_neg hd, if_pos hi, bind_ret hwalk₀, bind_ret (loadInd_eq hf)]
  by_cases hmem : CanRead s (fInd s f)
  · obtain ⟨isnew, s₁, hread, hpages⟩ := readBlock_total h hlt hused hmem
    rw [bind_ret hread] at hwalk
    obtain ⟨hva, hwalked⟩ := walked_old h hf ht h0 hread
    have hslot : recorded s f filebno.toNat = s₁.seen.ld32 (blockAddr (fInd s f) + 4 * filebno.toNat) := by
      have hkept := (kept_of_walked hwalked rfl (.refl s₁)).slots _ hi
      rw [← hkept, hwalked.recorded (Touched.refl s₁).steady hwalked.ind, slotIn_table hd h0]
    have hnext : s₁.mapped (blockPage (fInd s f) + 1) = s.mapped (blockPage (fInd s f) + 1) :=
      hpages.mapped _ (Nat.succ_ne_self _)
    have hload := loadSlot_iff hwalked.mapped hi
    have hallocs : s₁.allocs = s.allocsAfterRead (fInd s f) := hpages.allocs
    rw [hnext, hpages.memOk, hallocs] at hload
    rw [fileClearBlock, bind_ret hwalk, TableReady, ← hload]
    rw [hslot] at hx hxlt
    constructor
    · rintro ⟨s', hr⟩
      obtain ⟨v, s₂, hv, -⟩ := bind_eq_ret.mp hr
      exact ⟨hmem, v, s₂, hv⟩
    · rintro ⟨-, v, s₂, hv⟩
      exact clearPointer_total hwalked.mounted hv hx hxlt
  · rw [bind_stop (readBlock_stuck h hlt hused hmem)] at hwalk
    rw [fileClearBlock, bind_stop hwalk]
    constructor
    · rintro ⟨_, ⟨⟩⟩
    · exact fun hready => absurd hready.1 hmem

end RpiMos
