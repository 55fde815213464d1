/-
  RpiMos.Fs.TreeEdits

  What taking a block for a pointer does to the tree of files: one pointer gets
  a block that was free, and everything else stays.  So the block map of a file
  that is no directory keeps the tree in order.
-/

import RpiMos.Fs.FileSlots

namespace RpiMos

open Lib Prog BlockTree

variable {s s' s₁ s₂ mid : Fs} {N f g b k j a n x : Nat} {m m' old : ByteMem} {r : U32} {alloc : Bool}

/-! ## The fields of a file -/

/-- The name, the type and `f_dir` of file `f` are what they were. -/
structure HeadSame (m m' : ByteMem) (f : Nat) : Prop where
  name : ByteMem.Same m m' f 128
  type : ByteMem.Same m m' (fType f) 4
  dir : ByteMem.Same m m' (fDir f) 8

theorem HeadSame.isDir (h : HeadSame m m' f) : isDir m' f = isDir m f := by
  rw [RpiMos.isDir, RpiMos.isDir, h.type.ld32]

theorem HeadSame.first (h : HeadSame m m' f) : m' f = m f := h.name f (le_refl f) (by omega)

theorem HeadSame.fileEdit (h : HeadSame m m' f) (hrest : Rest (fsShape N) (fileTree m) (fileTree m') f) :
    FileEdit (fsShape N) (fileTree m) (fileTree m') f where
  rest := hrest
  isDir := by
    show RpiMos.isDir m' f = true ↔ RpiMos.isDir m f = true
    rw [h.isDir]
  named := by
    show m' f ≠ 0 ↔ m f ≠ 0
    rw [h.first]
  up := congrArg BitVec.toNat h.dir.ld64

/-- What an edit of the pointers of file `f` leaves of the file. -/
structure FieldsSame (m m' : ByteMem) (f : Nat) : Prop where
  head : ByteMem.Same m m' f 136
  dir : ByteMem.Same m m' (fDir f) 8

theorem FieldsSame.headSame (h : FieldsSame m m' f) : HeadSame m m' f where
  name := h.head.mono (le_refl f) (by omega)
  type := h.head.mono (by rw [fType]; omega) (by rw [fType])
  dir := h.dir

theorem FieldsSame.blockCount (h : FieldsSame m m' f) : blockCount m' f = blockCount m f := by
  have hsame := h.head.mono (b := fSize f) (k := 4) (by rw [fSize]; omega) (by rw [fSize]; omega)
  rw [RpiMos.blockCount, RpiMos.blockCount, hsame.ld32]

theorem FieldsSame.trans {m₁ : ByteMem} (h : FieldsSame m m₁ f) (h' : FieldsSame m₁ m' f) :
    FieldsSame m m' f :=
  ⟨fun x hlo hhi => (h'.head x hlo hhi).trans (h.head x hlo hhi),
    fun x hlo hhi => (h'.dir x hlo hhi).trans (h.dir x hlo hhi)⟩

/-! ## A pointer that gets a block -/

section Handed

variable (h : FileOk s N f) (hr : Handed s.blocks m' old N a r)

include h hr

/-- The pointers of a file are behind its name, size and type, and before `f_dir`. -/
theorem FileOk.handed_fields (ha : (f + 136 ≤ a ∧ a + 4 ≤ f + 180) ∨ a + 4 ≤ f ∨ f + BY2FILE ≤ a) :
    FieldsSame s.blocks m' f := by
  rw [BY2FILE] at ha
  constructor
  · exact h.handed_same hr (le_refl f) (by rw [BY2FILE]; omega) (by omega)
  · exact h.handed_same hr (by rw [fDir_eq]; omega) (by rw [fDir_eq, BY2FILE]; omega) (by rw [fDir_eq]; omega)

theorem FileOk.handed_within (ha : (f ≤ a ∧ a + 4 ≤ f + BY2FILE) ∨ (tableOf s.blocks f ≠ 0 ∧
    blockAddr (tableOf s.blocks f) ≤ a ∧ a + 4 ≤ blockAddr (tableOf s.blocks f) + 4096)) :
    Within (Footprint s.blocks N f) s.blocks m' := by
  intro x hx
  by_contra hout
  apply hx
  apply hr.byte
  · exact fun hb => hout (.bitmap hb)
  · exact fun hb => hout (.free hr.data hr.first.hi hr.first.free hb)
  · rintro ⟨hlo, hhi⟩
    rcases ha with ⟨hlo', hhi'⟩ | ⟨h0, hlo', hhi'⟩
    · exact hout (.file (by omega) (by omega))
    · exact hout (.table h0 ⟨by omega, by rw [BY2BLK]; omega⟩)

/-- The table of the file is not the block that was free. -/
theorem FileOk.table_same (h0 : tableOf s.blocks f ≠ 0) (hlo : blockAddr (tableOf s.blocks f) ≤ b)
    (hhi : b + n ≤ blockAddr (tableOf s.blocks f) + 4096) (hout : a + 4 ≤ b ∨ b + n ≤ a) :
    ByteMem.Same s.blocks m' b n := by
  have hu := h.table h0
  intro x hx hx'
  have hin : InBlock (tableOf s.blocks f) x := ⟨by omega, by rw [BY2BLK]; omega⟩
  apply hr.byte
  · exact UsedBlock.not_bitmap hu.lo hin
  · intro hx
    have hused := hu.used
    rw [hin.unique hx, hr.first.free] at hused
    cases hused
  · omega

theorem FileOk.handed_direct (hout : a + 4 ≤ fDirect f j ∨ fDirect f j + 4 ≤ a) (hj : j < NDIRECT) :
    blockNo m' f j = blockNo s.blocks f j := by
  have hsame := h.handed_same hr (b := fDirect f j) (n := 4) (by rw [fDirect_eq]; omega)
    (by rw [fDirect_eq, BY2FILE]; rw [NDIRECT] at hj; omega) hout
  rw [blockNo_direct hj, blockNo_direct hj, hsame.ld32]

end Handed

/-- In the bitmap one bit is different. -/
theorem Handed.ptrGot (hr : Handed m m' old N a r) (hw : Writable m N a 4) {p : Ptr}
    (hval : (fileTree m').val p = r.toNat)
    (hothers : ∀ q : Ptr, q.file = p.file → q ≠ p → (fileTree m').val q = (fileTree m).val q) :
    PtrGot (fsShape N) (fileTree m) (fileTree m') p r.toNat where
  val := hval
  others := hothers
  lo := hr.data
  hi := hr.first.hi
  free := by
    show ¬ freeBit m r.toNat = false
    rw [hr.first.free]
    exact Bool.noConfusion
  taken := by
    show freeBit m' r.toNat = false
    rw [hr.freeBit_eq hw hr.first.hi, if_pos rfl]
  used c hc hu := hr.used hw hc hu

theorem st32_zero_block (h : ∀ x, InBlock b x → m x = 0) (hlo : blockAddr b ≤ a) (hhi : a + 4 ≤ blockAddr b + 4096) :
    m.ld32 a = 0 := by
  have hsame : ByteMem.Same (fun _ => 0) m a 4 := fun x hx hx' => h x ⟨by omega, by rw [BY2BLK]; omega⟩
  rw [hsame.ld32, ByteMem.ld32_zero]

/-- A table that is made, where the block taken for it is blank. -/
theorem FileOk.got_table (h : FileOk s N f) (h0 : tableOf s.blocks f = 0)
    (hr : Handed s.blocks m' old N (fIndirect f) r) (hblank : ∀ x, InBlock r.toNat x → old x = 0) :
    PtrGot (fsShape N) (fileTree s.blocks) (fileTree m') (.ind f) r.toNat := by
  have htable : tableOf m' f = r.toNat := by rw [tableOf, hr.ptr h.ind_writable]
  refine hr.ptrGot h.ind_writable htable ?_
  rintro (g | ⟨g, j⟩) hg hne
  · exact absurd (congrArg Ptr.ind hg) hne
  · have hgf : g = f := hg
    subst hgf
    show blockNo m' g j = blockNo s.blocks g j
    by_cases hd : j < NDIRECT
    · refine h.handed_direct hr (Or.inr ?_) hd
      rw [NDIRECT] at hd
      rw [fDirect_eq, fIndirect_eq]
      omega
    · rw [blockNo, blockNo]
      by_cases hj : j < NINDIRECT
      · rw [if_pos hj, if_pos hj, slotIn, slotIn, if_neg hd, if_neg hd, if_pos h0, htable,
          if_neg (by have hlo := hr.first.lo; omega)]
        rw [NINDIRECT] at hj
        rw [st32_zero_block (fun x hx => (hr.inside x hx).trans (hblank x hx)) (by omega) (by omega)]
      · rw [if_neg hj, if_neg hj]

/-- A slot that gets a block. -/
theorem SlotAt.got_slot (h : SlotAt N alloc s mid f k)
    (hw : Writable mid.blocks N (slotAddr f (tableOf mid.blocks f) k) 4)
    (hr : Handed mid.blocks m' old N (slotAddr f (tableOf mid.blocks f) k) r)
    (htable : tableOf m' f = tableOf mid.blocks f) :
    PtrGot (fsShape N) (fileTree mid.blocks) (fileTree m') (.slot f k) r.toNat := by
  have hlt := h.lt
  refine hr.ptrGot hw ?_ ?_
  · show blockNo m' f k = r.toNat
    have hptr := hr.ptr hw
    rw [slotAddr] at hptr
    rw [blockNo, if_pos hlt, slotIn, htable]
    by_cases hd : k < NDIRECT
    · rw [if_pos hd] at hptr ⊢
      rw [hptr]
    · rw [if_neg hd] at hptr ⊢
      rw [if_neg (h.table (Nat.le_of_not_lt hd)).1, hptr]
  · rintro (g | ⟨g, j⟩) hg hne
    · have hgf : g = f := hg
      subst hgf
      exact htable
    · have hgf : g = f := hg
      subst hgf
      have hjk : j ≠ k := fun heq => hne (by rw [heq])
      show blockNo m' g j = blockNo mid.blocks g j
      rw [NINDIRECT] at hlt
      by_cases hd : j < NDIRECT
      · refine h.ok.handed_direct hr ?_ hd
        by_cases hk : k < NDIRECT
        · rw [slotAddr, if_pos hk, fDirect_eq, fDirect_eq]
          omega
        · -- Slot `k` is in the table, and the file is not.
          have hout := h.ok.apart (h.table (Nat.le_of_not_lt hk)).1
          rw [NDIRECT] at hd
          have hfirst := hout (fDirect g j) (by rw [fDirect_eq]; omega) (by rw [fDirect_eq, BY2FILE]; omega)
          have hlast := hout (fDirect g j + 3) (by rw [fDirect_eq]; omega) (by rw [fDirect_eq, BY2FILE]; omega)
          rw [slotAddr, if_neg hk]
          rw [InBlock, BY2BLK] at hfirst hlast
          omega
      · rw [blockNo, blockNo]
        by_cases hj : j < NINDIRECT
        · rw [if_pos hj, if_pos hj, slotIn, slotIn, if_neg hd, if_neg hd, htable]
          by_cases h0 : tableOf mid.blocks g = 0
          · rw [if_pos h0, if_pos h0]
          · rw [if_neg h0, if_neg h0]
            rw [NINDIRECT] at hj
            refine congrArg BitVec.toNat (h.ok.table_same hr h0 (by omega) (by omega) ?_).ld32
            by_cases hk : k < NDIRECT
            · have hout := h.ok.apart h0
              rw [NDIRECT] at hk
              have hfirst := hout (fDirect g k) (by rw [fDirect_eq]; omega) (by rw [fDirect_eq, BY2FILE]; omega)
              have hlast := hout (fDirect g k + 3) (by rw [fDirect_eq]; omega)
                (by rw [fDirect_eq, BY2FILE]; omega)
              rw [slotAddr, if_pos (by rw [NDIRECT]; omega)]
              rw [InBlock, BY2BLK] at hfirst hlast
              omega
            · rw [slotAddr, if_neg hk]
              omega
        · rw [if_neg hj, if_neg hj]

/-! ## Blocks that are blank -/

/-- The next `n` blocks that are taken are blank in the cache `seen`. -/
def BlankNext (m seen : ByteMem) (N : Nat) : Nat → Prop
  | 0 => True
  | n + 1 => ∀ r : U32, FirstFree m N r.toNat →
      (∀ x, InBlock r.toNat x → seen x = 0) ∧ BlankNext (setBit m r false) seen N n

theorem BlankNext.congr {seen seen' : ByteMem} (hbits : ∀ b, b < N → freeBit m' b = freeBit m b)
    (hseen : ∀ b x, 3 ≤ b → b < N → freeBit m b = true → InBlock b x → seen' x = seen x)
    (h : BlankNext m seen N n) : BlankNext m' seen' N n := by
  induction n generalizing m m' with
  | zero => trivial
  | succ n ih =>
      intro r hfirst
      have hfirst' : FirstFree m N r.toNat :=
        ⟨hfirst.lo, hfirst.hi, (hbits _ hfirst.hi).symm.trans hfirst.free, fun c hlo hlt =>
          (hbits c (Nat.lt_trans hlt hfirst.hi)).symm.trans (hfirst.first c hlo hlt)⟩
      obtain ⟨hblank, hrest⟩ := h r hfirst'
      refine ⟨fun x hx => (hseen _ x hfirst.lo hfirst.hi hfirst'.free hx).trans (hblank x hx),
        ih (fun b hb => ?_) (fun b x hlo hb hfree hx => hseen b x hlo hb ?_ hx) hrest⟩
      · rw [freeBit_setBit, freeBit_setBit, hbits b hb]
      · rw [freeBit_setBit] at hfree
        split at hfree
        · cases hfree
        · exact hfree

theorem BlankNext.pred {seen : ByteMem} (h : BlankNext m seen N (n + 1)) : BlankNext m seen N n := by
  induction n generalizing m with
  | zero => trivial
  | succ n ih =>
      intro r hfirst
      obtain ⟨hblank, hrest⟩ := h r hfirst
      exact ⟨hblank, ih hrest⟩

/-- Free blocks are behind the bitmap. -/
theorem LowUsed.data (h : LowUsed m N) (hb : b < N) (hfree : freeBit m b = true) : firstData N ≤ b := by
  by_contra hlt
  rw [h b (Nat.lt_of_not_le hlt) hb] at hfree
  cases hfree

theorem BlankNext.kept (h : BlankNext s.blocks s.seen N n) (hlow : LowUsed s.blocks N) (hk : FreeKept N s s')
    (hbits : ∀ b, b < N → freeBit s'.blocks b = freeBit s.blocks b) : BlankNext s'.blocks s'.seen N n :=
  h.congr hbits fun b x _ hb hfree hx => (hk b x hb (hlow.data hb hfree) ((hbits b hb).trans hfree) hx).2

/-- One block has been taken. -/
theorem BlankNext.handed (h : BlankNext s.blocks s.seen N (n + 1)) (hlow : LowUsed s.blocks N)
    (hr : Handed s.blocks s'.blocks old N a r) (hw : Writable s.blocks N a 4) (hk : FreeKept N s s') :
    (∀ x, InBlock r.toNat x → s.seen x = 0) ∧ BlankNext s'.blocks s'.seen N n := by
  obtain ⟨hblank, hrest⟩ := h r hr.first
  have hbits : ∀ b, b < N → freeBit s'.blocks b = freeBit (setBit s.blocks r false) b := by
    intro b hb
    rw [hr.freeBit_eq hw hb, freeBit_setBit]
  refine ⟨hblank, hrest.congr hbits fun b x _ hb hfree hx => (hk b x hb ?_ ((hbits b hb).trans hfree) hx).2⟩
  rw [freeBit_setBit] at hfree
  split at hfree
  · cases hfree
  · exact hlow.data hb hfree

/-! ## The block map of a file -/

abbrev OwnsIn (m : ByteMem) (N f : Nat) : Prop := Owns (fsShape N) (fileTree m) f

abbrev PtrEditIn (m m' : ByteMem) (N f : Nat) : Prop := PtrEdit (fsShape N) (fileTree m) (fileTree m') f

/-- Slot `k` of file `f` and its table may have got blocks, and nothing else was done. -/
structure Pointed (N : Nat) (s s' : Fs) (f k : Nat) : Prop where
  ok : FileOk s' N f
  moved : Moved N s s' s'.blocks
  within : Within (Footprint s.blocks N f) s.blocks s'.blocks
  fields : FieldsSame s.blocks s'.blocks f
  ptrs : PtrEditIn s.blocks s'.blocks N f
  used : ∀ b, b < N → freeBit s.blocks b = false → freeBit s'.blocks b = false
  keeps : ∀ p : Ptr, p.file = f → (fileTree s.blocks).val p ≠ 0 →
    (fileTree s'.blocks).val p = (fileTree s.blocks).val p
  slots : ∀ j, j ≠ k → blockNo s'.blocks f j = blockNo s.blocks f j

theorem FieldsSame.refl (m : ByteMem) (f : Nat) : FieldsSame m m f := ⟨fun _ _ _ => rfl, fun _ _ _ => rfl⟩

theorem ptrEditIn_refl (h : OwnsIn m N f) : PtrEditIn m m N f where
  old _ _ _ := Or.inl rfl
  inj p _ hpf _ hnew _ _ := by
    have hlo := hnew.lo
    have hpos := (fsShape N).lo_pos
    exact absurd (h p hpf (by omega)).2 hnew.free
  taken p hpf hnew := by
    have hlo := hnew.lo
    have hpos := (fsShape N).lo_pos
    exact (h p hpf (by omega)).2
  freed _ _ hu := Or.inl hu

theorem Pointed.loads (hf : FileOk s N f) (hu : OwnsIn s.blocks N f) (hm : Moved N s s' s.blocks) :
    Pointed N s s' f k := by
  have hok := hf.loads hm
  refine ⟨hok, ⟨⟨rfl, hm.disk, hm.steady⟩, hm.kept⟩, ?_, ?_, ?_, ?_, ?_, ?_⟩
  · rw [hm.blocks]
    exact .refl _ _
  · rw [hm.blocks]
    exact .refl _ _
  · rw [hm.blocks]
    exact ptrEditIn_refl hu
  · rw [hm.blocks]
    exact fun _ _ h => h
  · rw [hm.blocks]
    exact fun _ _ _ => rfl
  · rw [hm.blocks]
    exact fun _ _ => rfl

theorem Pointed.owns (h : Pointed N s s' f k) (hu : OwnsIn s.blocks N f) : OwnsIn s'.blocks N f :=
  PtrEdit.owns h.ptrs hu h.used

/-- What may be written to afterwards could be before. -/
theorem Pointed.footprint (h : Pointed N s s₁ f k) (hx : Footprint s₁.blocks N f x) :
    Footprint s.blocks N f x := by
  rcases hx with hl | hb | ⟨hb, hlt, hfree, hx⟩ | ⟨hlo, hhi⟩ | ⟨h0, hx⟩
  · exact .low hl
  · exact .bitmap hb
  · exact .free hb hlt (h.moved.kept _ x hlt hb hfree hx).1 hx
  · exact .file hlo hhi
  · rcases h.ptrs.old (.ind f) rfl h0 with hval | hnew
    · have htable : tableOf s₁.blocks f = tableOf s.blocks f := hval
      rw [htable] at h0 hx
      exact .table h0 hx
    · refine .free hnew.lo hnew.hi ?_ hx
      have hfree : ¬ freeBit s.blocks (tableOf s₁.blocks f) = false := hnew.free
      rwa [Bool.not_eq_false] at hfree

theorem Pointed.trans (h : Pointed N s s₁ f k) (h' : Pointed N s₁ s₂ f k) : Pointed N s s₂ f k where
  ok := h'.ok
  moved := h.moved.trans h'.moved
  within := by
    refine h.within.trans fun x hx => h.footprint (h'.within x hx)
  fields := h.fields.trans h'.fields
  ptrs := PtrEdit.trans h.ptrs h'.ptrs h.used h'.used
  used b hb hu := h'.used b hb (h.used b hb hu)
  keeps p hpf h0 := by
    have hval := h.keeps p hpf h0
    rw [h'.keeps p hpf (hval ▸ h0), hval]
  slots j hj := (h'.slots j hj).trans (h.slots j hj)

/-- One pointer got a block. -/
theorem Pointed.of_got (hf : FileOk s N f) (hu : OwnsIn s.blocks N f) (hok : FileOk s' N f)
    (hm : Moved N s s' s'.blocks) {p : Ptr} (hp : p.file = f) (hpk : ∀ j, p = .slot f j → j = k)
    (hgot : PtrGot (fsShape N) (fileTree s.blocks) (fileTree s'.blocks) p b)
    (hnull : (fileTree s.blocks).val p = 0) (hr : Handed s.blocks s'.blocks old N a r)
    (hin : Within (Footprint s.blocks N f) s.blocks s'.blocks)
    (ha : (f + 136 ≤ a ∧ a + 4 ≤ f + 180) ∨ a + 4 ≤ f ∨ f + BY2FILE ≤ a) : Pointed N s s' f k where
  ok := hok
  moved := hm
  within := hin
  fields := hf.handed_fields hr ha
  ptrs := by
    subst hp
    exact hgot.ptrEdit hu
  used := hgot.used
  keeps q hqf h0 := by
    refine hgot.others q (hqf.trans hp.symm) ?_
    rintro rfl
    exact h0 hnull
  slots j hj := hgot.others (.slot f j) hp.symm fun heq => hj (hpk j heq.symm)

/-- The table of a file. -/
theorem Reaches.pointed_table (h : Reaches N alloc s s' (fIndirect f)) (hf : FileOk s N f)
    (hu : OwnsIn s.blocks N f) (hblank : tableOf s.blocks f = 0 → alloc = true → BlankNext s.blocks s.seen N 1) :
    Pointed N s s' f k := by
  cases h with
  | had hm => exact .loads hf hu hm
  | handed halloc h0 hr hm =>
      have hnull : tableOf s.blocks f = 0 := congrArg BitVec.toNat h0
      obtain ⟨hzero, -⟩ := (hblank hnull halloc).handed hf.low hr hf.ind_writable hm.kept
      have hin : f ≤ fIndirect f ∧ fIndirect f + 4 ≤ f + BY2FILE := by
        rw [fIndirect_eq, BY2FILE]
        omega
      refine .of_got hf hu (hf.handed hf.ind_writable hr hm (Or.inl rfl)) hm rfl (by rintro j ⟨⟩)
        (hf.got_table hnull hr hzero) hnull hr (hf.handed_within hr (Or.inl hin)) (Or.inl ?_)
      rw [fIndirect_eq]
      omega

/-- A slot of a file. -/
theorem SlotAt.pointed_slot (h : SlotAt N alloc s mid f k) (hk : k + 1 ≠ NINDIRECT) (hu : OwnsIn mid.blocks N f)
    (hreach : Reaches N alloc mid s' (slotAddr f (tableOf mid.blocks f) k))
    (htable : tableOf s'.blocks f = tableOf mid.blocks f) : Pointed N mid s' f k := by
  cases hreach with
  | had hm => exact .loads h.ok hu hm
  | handed halloc h0 hr hm =>
      have hw := (h.writable hk).mono (le_refl _) (k := 4) (by omega)
      have hnull : (fileTree mid.blocks).val (.slot f k) = 0 := by
        show blockNo mid.blocks f k = 0
        rw [← h.value, h0]
        rfl
      refine .of_got h.ok hu (h.ok.handed hw hr hm (Or.inr h.ne_ind)) hm rfl (by rintro j ⟨⟩; rfl)
        (h.got_slot hw hr htable) hnull hr
        (h.ok.handed_within hr ?_) ?_
      · rcases h.place hk with hfile | ⟨hd, hlo, hhi⟩
        · left
          omega
        · exact Or.inr ⟨(h.table hd).1, hlo, by omega⟩
      · have hlt := h.lt
        rw [NINDIRECT] at hlt
        by_cases hd : k < NDIRECT
        · left
          rw [slotAddr, if_pos hd, fDirect_eq]
          rw [NDIRECT] at hd
          omega
        · right
          have hout := h.ok.apart (h.table (Nat.le_of_not_lt hd)).1
          have hfirst := hout f (le_refl f) (by rw [BY2FILE]; omega)
          have hlast := hout (f + 255) (by omega) (by rw [BY2FILE]; omega)
          rw [slotAddr, if_neg hd, BY2FILE]
          rw [InBlock, BY2BLK] at hfirst hlast
          omega

theorem MapsTo.pointed (h : MapsTo N alloc s s' f k b) (hk : k + 1 ≠ NINDIRECT) (hf : FileOk s N f)
    (hu : OwnsIn s.blocks N f)
    (hblank : NDIRECT ≤ k → tableOf s.blocks f = 0 → alloc = true → BlankNext s.blocks s.seen N 1) :
    Pointed N s s' f k := by
  obtain ⟨mid, hslot, hreach, htable, -⟩ := h.walk
  have hfirst : Pointed N s mid f k := by
    by_cases hd : k < NDIRECT
    · rw [hslot.direct hd]
      exact .loads hf hu (.refl N s)
    · exact hslot.reach.pointed_table hf hu (hblank (Nat.le_of_not_lt hd))
  exact hfirst.trans (hslot.pointed_slot hk (hfirst.owns hu) hreach htable)

/-- The word behind slot `k` is null: that of the next slot, or the pointer to the table. -/
structure NextNull (m : ByteMem) (f k : Nat) : Prop where
  table : k + 1 = NDIRECT → tableOf m f = 0
  slot : k + 1 ≠ NDIRECT → blockNo m f (k + 1) = 0

/-- A slot that is null, with nothing in the word behind it, gets a block that was free. -/
theorem MapsTo.taken (h : MapsTo N true s s' f k b) (hk : k + 1 < NINDIRECT) (hf : FileOk s N f)
    (hu : OwnsIn s.blocks N f) (hblank : NDIRECT ≤ k → tableOf s.blocks f = 0 → BlankNext s.blocks s.seen N 1)
    (hnull : blockNo s.blocks f k = 0) (hnext : NextNull s.blocks f k) : ∃ mid, ∃ r : U32, Pointed N s mid f (k + 2) ∧
      SlotAt N true s mid f k ∧ Handed mid.blocks s'.blocks mid.seen N (slotAddr f (tableOf mid.blocks f) k) r ∧
      b = r.toNat := by
  obtain ⟨mid, hslot, hreach, hkept, hfilled⟩ := h.walk
  -- The walk to the slot may have made the table, with nothing in it.
  have hfirst : Pointed N s mid f (k + 2) := by
    by_cases hd : k < NDIRECT
    · rw [hslot.direct hd]
      exact .loads hf hu (.refl N s)
    · exact hslot.reach.pointed_table hf hu fun h0 _ => hblank (Nat.le_of_not_lt hd) h0
  have hzero : mid.blocks.ld64 (slotAddr f (tableOf mid.blocks f) k) = 0 := by
    have hthis := (hfirst.slots k (by omega)).trans hnull
    rw [← hslot.value] at hthis
    refine ByteMem.ld64_eq_zero.mpr ⟨BitVec.eq_of_toNat_eq hthis, BitVec.eq_of_toNat_eq ?_⟩
    by_cases hlast : k + 1 = NDIRECT
    · -- Behind the last direct slot is the pointer to the table.
      have hd : k < NDIRECT := by omega
      have hind : tableOf mid.blocks f = 0 := by
        rw [hslot.direct hd]
        exact hnext.table hlast
      have haddr : slotAddr f (tableOf mid.blocks f) k + 4 = fIndirect f := by
        rw [NDIRECT] at hlast
        rw [slotAddr, if_pos hd, fDirect_eq, fIndirect_eq]
        omega
      rw [haddr]
      exact hind
    · have hbehind := (hfirst.slots (k + 1) (by omega)).trans (hnext.slot hlast)
      rw [blockNo, if_pos hk, slotIn] at hbehind
      rw [slotAddr]
      by_cases hd : k < NDIRECT
      · have haddr : fDirect f k + 4 = fDirect f (k + 1) := by
          rw [fDirect_eq, fDirect_eq]
          omega
        rw [if_pos (by omega)] at hbehind
        rw [if_pos hd, haddr]
        exact hbehind
      · have haddr : blockAddr (tableOf mid.blocks f) + 4 * k + 4 =
            blockAddr (tableOf mid.blocks f) + 4 * (k + 1) := by
          omega
        rw [if_neg (by omega), if_neg (hslot.table (Nat.le_of_not_lt hd)).1] at hbehind
        rw [if_neg hd, haddr]
        exact hbehind
  cases hreach with
  | had hm =>
      rw [hm.blocks] at hfilled
      exact absurd hzero hfilled
  | @handed r _ _ hr _ =>
      have hgot := hslot.got_slot ((hslot.writable (Nat.ne_of_lt hk)).mono (le_refl _) (by omega)) hr hkept
      exact ⟨mid, r, hfirst, hslot, hr, h.no.trans hgot.val⟩

/-- What `file_get_block` needs for block `k`: a blank block when it has to make the table,
    and nothing behind a slot that is null. -/
structure GetOk (s : Fs) (N f k : Nat) : Prop where
  last : k + 1 ≠ NINDIRECT
  blank : NDIRECT ≤ k → tableOf s.blocks f = 0 → BlankNext s.blocks s.seen N 1
  next : blockNo s.blocks f k = 0 → NextNull s.blocks f k

theorem MapsTo.ne_zero (h : MapsTo N true s s' f k b) (hok : GetOk s N f k) (hf : FileOk s N f)
    (hu : OwnsIn s.blocks N f) : b ≠ 0 := by
  obtain ⟨mid, hslot, -, -, -⟩ := h.walk
  have hlt := hslot.lt
  have hlast := hok.last
  by_cases h0 : blockNo s.blocks f k = 0
  · obtain ⟨mid, r, -, -, hr, hb⟩ := h.taken (by omega) hf hu hok.blank h0 (hok.next h0)
    have hlo := hr.first.lo
    omega
  · have hp := h.pointed hlast hf hu fun hd ht _ => hok.blank hd ht
    have hval : blockNo s'.blocks f k = blockNo s.blocks f k := hp.keeps (.slot f k) rfl h0
    rw [h.no, hval]
    exact h0

/-! ## Files that are no directories -/

theorem TreeOk.loads (h : TreeOk s N) (hm : Moved N s s' s.blocks) : TreeOk s' N where
  mounted := h.mounted.became hm.toBecame fun _ _ _ => rfl
  wf := by
    rw [hm.blocks]
    exact h.wf

theorem TreeOk.fileOk (h : TreeOk s N) (hf : KnownIn s.blocks N f) (hc : Cached s f) : FileOk s N f where
  mounted := h.mounted
  low := h.wf.lowUsed
  placed := h.wf.placed hf
  cached := hc
  used b x hb _ hx hlo hhi := by
    rcases h.wf.known_place hf with rfl | ⟨d, k, j, -, -, -, hu, -, hj, rfl⟩
    · exact absurd hx (root_inBlock hlo hhi hb)
    · rw [hx.unique (Placed.inBlock hlo hhi hj)]
      exact hu.used
  table h0 := h.wf.tableBlock hf h0
  apart h0 x hlo hhi hx := by
    rcases h.wf.known_place hf with rfl | ⟨d, k, j, hd, -, -, -, hk, hj, rfl⟩
    · exact root_inBlock hlo hhi (h.wf.tableBlock hf h0).lo hx
    · exact h.wf.ind_ne_place hf h0 hd hk (hx.unique (Placed.inBlock hlo hhi hj))

section File

variable (h : TreeOk s N) (hf : LiveIn s.blocks N f) (hdir : isDir s.blocks f = false)

include h hf

theorem TreeOk.owns : OwnsIn s.blocks N f := h.wf.ptrs.owns hf.known

theorem Pointed.fileEdit (hp : Pointed N s s' f k) :
    FileEdit (fsShape N) (fileTree s.blocks) (fileTree s'.blocks) f :=
  hp.fields.headSame.fileEdit (Within.rest h.wf hf.known hp.within)

include hdir

theorem notDir : ¬ (fileTree s.blocks).isDir f := fun hd => by
  have hd' : isDir s.blocks f = true := hd
  rw [hdir] at hd'
  cases hd'

theorem TreeOk.pointed (hp : Pointed N s s' f k) : TreeOk s' N where
  mounted := hp.ok.mounted
  wf := Wf.fileEdit (hp.fileEdit h hf) (notDir h hf hdir) h.wf hf hp.ptrs

variable (hc : Cached s f)

include hc

/-- File `f` has no block for slot `k`, and none could be had; it may have got a table. -/
structure NoBlock (N : Nat) (s s' : Fs) (f k : Nat) : Prop where
  none : blockNo s.blocks f k = 0
  pointed : ∀ j, Pointed N s s' f j
  tree : TreeOk s' N

/-- Slot `k` of file `f` has a block. -/
structure GotBlock (N : Nat) (s s' : Fs) (f k : Nat) : Prop where
  pointed : Pointed N s s' f k
  tree : TreeOk s' N
  some : blockNo s'.blocks f k ≠ 0
  mapped : s'.mapped (blockPage (blockNo s'.blocks f k)) = true

/-- `file_get_block` for a file that is no directory. -/
theorem fileGetBlock_tree {filebno : U32} (hget : GetOk s N f filebno.toNat) :
    (fileGetBlock f filebno).Ends s
      (fun blk s' => GotBlock N s s' f filebno.toNat ∧ blk = blockAddr (blockNo s'.blocks f filebno.toNat))
      (fun _ s' => NoBlock N s s' f filebno.toNat) AnyStop := by
  have hok := h.fileOk hf.known hc
  have hu := h.owns hf
  refine (fileGetBlock_reaches hok hget.last).mono ?_ ?_ fun _ h => h
  · rintro blk s' ⟨s₁, b, hmap, hm, hblk, hmapped, -, -⟩
    have hp₁ := hmap.pointed hget.last hok hu fun hd h0 _ => hget.blank hd h0
    have hp := hp₁.trans (.loads hp₁.ok (hp₁.owns hu) hm)
    have hno : b = blockNo s'.blocks f filebno.toNat := by rw [hm.blocks, hmap.no]
    have hb0 := hmap.ne_zero hget hok hu
    exact ⟨⟨hp, h.pointed hf hdir hp, hno ▸ hb0, hno ▸ hmapped⟩, hno ▸ hblk⟩
  · intro e s' hno
    have hp : ∀ j, Pointed N s s' f j := by
      intro j
      by_cases hd : filebno.toNat < NDIRECT
      · exact .loads hok hu (hno.direct hd)
      · exact hno.reach.pointed_table hok hu fun h0 _ => hget.blank (Nat.le_of_not_lt hd) h0
    exact ⟨hno.none, hp, h.pointed hf hdir (hp 0)⟩

/-- The block of an offset. -/
def blockOf (offset : U32) : Nat := (offset / BitVec.ofNat 32 BY2BLK).toNat

/-- `file_dirty` writes a byte to itself. -/
theorem fileDirty_tree {offset : U32} (hget : GetOk s N f (blockOf offset)) :
    (fileDirty f offset).Ends s (fun _ s' => GotBlock N s s' f (blockOf offset))
      (fun _ s' => NoBlock N s s' f (blockOf offset)) AnyStop := by
  rw [fileDirty]
  refine Ends.bind (fileGetBlock_tree h hf hdir hc hget) ?_
  rintro blk s₁ ⟨hgot, rfl⟩
  have hmapped : s₁.mapped (blockPage (blockNo s₁.blocks f (blockOf offset))) = true := hgot.mapped
  have hblk : blockOf offset = (offset / BitVec.ofNat 32 BY2BLK).toNat := rfl
  rw [← hblk]
  generalize blockNo s₁.blocks f (blockOf offset) = b at hmapped ⊢
  have hm : s₁.MappedOn (blockAddr b) 1 := mappedOn_block hmapped (le_refl _) (by omega)
  apply Ends.bind_ret (load8_blocks hm)
  have hsame : s₁.mem.st8 (blockAddr b) (s₁.blocks (blockAddr b)) = s₁.mem := by
    funext x
    rw [ByteMem.st8]
    split
    · rename_i hx
      rw [hx, hm.blocks_eq _ (le_refl _) (by omega), hm.seen_eq _ (le_refl _) (by omega)]
    · rfl
  have hstore : store8 (blockAddr b) (s₁.blocks (blockAddr b)) s₁ = .ret () s₁ := by
    refine (bind_ret (access_of_mapped (by decide) hm)).trans ?_
    show Outcome.ret () { s₁ with mem := s₁.mem.st8 (blockAddr b) (s₁.blocks (blockAddr b)) } = _
    rw [hsame]
  exact Ends.of_ret hstore hgot

end File

end RpiMos
