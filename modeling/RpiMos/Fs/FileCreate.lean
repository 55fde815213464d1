/-
  RpiMos.Fs.FileCreate

  `file_create` when it fails: what is left of the tree, the block numbers and the
  bitmap.  A directory in which no entry is free is made larger before the block
  for it is allocated, and stays so when that fails.
-/

import RpiMos.Fs.WalkPath
import RpiMos.Fs.PathTree

namespace RpiMos

open Lib Prog

variable {s s' s₀ s₁ : Fs} {m : ByteMem} {N d e f b i j k n : Nat} {r err ftype : U32}
  {name path : List (BitVec 8)}

/-! ## Free entries -/

/-- The first free entry of block `b`. -/
def freeIn (m : ByteMem) (b : Nat) : Option Nat :=
  ((List.range FILE2BLK).map (dirEntryAt b)).find? fun e => m e == 0

/-- No entry of the directory is free. -/
def NoFree (m : ByteMem) (d : Nat) : Prop :=
  ∀ i, i < blockCount m d → freeIn m (blockNo m d i) = none

theorem dirAllocFiles_eq (h : s.mapped (blockPage b) = true) (hn : j + n ≤ FILE2BLK) :
    dirAllocFiles (blockAddr b) n j s =
      .ret (((List.range' j n).map (dirEntryAt b)).find? fun e => s.blocks e == 0) s := by
  induction n generalizing j with
  | zero => rfl
  | succ n ih =>
      have hc : Cached s (dirEntryAt b j) := cached_entry h (by omega)
      have hm : s.MappedOn (dirEntryAt b j) 1 := hc.mono (le_refl _) (by rw [BY2FILE]; omega)
      have hload : load8 (blockAddr b + BY2FILE * j) s = .ret (s.blocks (dirEntryAt b j)) s := by
        have hbyte : s.blocks (dirEntryAt b j) = s.seen.ld8 (dirEntryAt b j) := hm.blocks_eq.ld8
        rw [hbyte]
        exact load_of_mapped (by decide) (fun _ _ hs => hs.ld8) hm
      rw [dirAllocFiles, bind_ret hload, List.range'_succ, List.map_cons, List.find?_cons]
      by_cases hfree : s.blocks (dirEntryAt b j) = 0
      · rw [if_pos hfree, hfree]
        rfl
      · have hused : (s.blocks (dirEntryAt b j) == 0) = false := beq_eq_false_iff_ne.mpr hfree
        rw [if_neg hfree, hused]
        exact ih (by omega)

theorem dirAllocFiles_free (h : s.mapped (blockPage b) = true) :
    dirAllocFiles (blockAddr b) FILE2BLK 0 s = .ret (freeIn s.blocks b) s := by
  rw [dirAllocFiles_eq h (by omega), freeIn, List.range_eq_range']

theorem ButDir.freeIn_eq {m' : ByteMem} (hg : DirGraph m N) (h : ButDir m m') (b : Nat) :
    freeIn m' b = freeIn m b := by
  unfold freeIn
  rw [List.find?_map, List.find?_map]
  have hsame : ∀ j, m' (dirEntryAt b j) = m (dirEntryAt b j) :=
    fun j => h.entry hg b j _ (le_refl _) (by omega)
  simp only [Function.comp_def, hsame]

theorem freeIn_some (h : freeIn m b = some e) : ∃ j, j < FILE2BLK ∧ e = dirEntryAt b j := by
  unfold freeIn at h
  obtain ⟨j, hj, rfl⟩ := List.mem_map.mp (List.mem_of_find?_eq_some h)
  exact ⟨j, List.mem_range.mp hj, rfl⟩

/-! ## `dir_alloc_file` -/

/-- A program that may stop in any way. -/
def AnyStop (_ : String) : Prop := True

section Directory

variable (hg : DirGraph s₀.blocks N) (hd : InTree s₀.blocks d) (hdir : isDir s₀.blocks d = true)
  (hp : ∀ i, i < blockCount s₀.blocks d → Present s₀ d i)

include hg hd hdir hp

/-- One block of the directory. -/
theorem dirAllocBlock_ends (hi : i < blockCount s₀.blocks d) (hl : Looked s₀ s N) (hc : Cached s d) :
    (fileGetBlock d (BitVec.ofNat 32 i) >>= fun blk => dirAllocFiles blk FILE2BLK 0).Ends s
      (fun found s' => found = freeIn s₀.blocks (blockNo s₀.blocks d i) ∧ Looked s₀ s' N ∧
        Cached s' d ∧ ∀ e, found = some e → Cached s' e)
      (fun _ _ => False) AnyStop := by
  have hget := fileGetBlock_ends hg hd hdir hi hl hc (hp i hi)
  refine Ends.bind (hget.mono (fun _ _ h => h) (fun _ _ h => h) fun _ _ => trivial) fun blk s₁ hr => ?_
  have hl₁ := hl.loads hr.loads
  have hfiles := dirAllocFiles_free hr.mapped
  rw [hl₁.butDir.freeIn_eq hg, ← hr.addr] at hfiles
  refine Ends.of_ret hfiles ⟨rfl, hl₁, hc.steady hr.loads.steady, fun e he => ?_⟩
  obtain ⟨j, hj, rfl⟩ := freeIn_some he
  exact cached_entry hr.mapped hj

/-- An entry that is free is found; the induction is on the blocks left. -/
theorem dirAllocBlocks_found (hn : i + n = blockCount s₀.blocks d) (hl : Looked s₀ s N)
    (hc : Cached s d) (hfree : ∃ k, k < n ∧ freeIn s₀.blocks (blockNo s₀.blocks d (i + k)) ≠ none) :
    (dirAllocBlocks d n i).Ends s (fun e s' => Cached s' e) (fun _ _ => False) AnyStop := by
  induction n generalizing i s with
  | zero =>
      obtain ⟨k, hk, -⟩ := hfree
      exact absurd hk (Nat.not_lt_zero k)
  | succ n ih =>
      rw [dirAllocBlocks, ← bind_assoc]
      refine Ends.bind ((dirAllocBlock_ends hg hd hdir hp (by omega) hl hc).mono (fun _ _ h => h)
        (fun _ _ h => h.elim) fun _ h => h) ?_
      rintro found s₁ ⟨hfound, hl₁, hc₁, hin⟩
      cases found with
      | some e => exact Ends.of_ret rfl (hin e rfl)
      | none =>
          refine ih (by omega) hl₁ hc₁ ?_
          obtain ⟨k, hk, hne⟩ := hfree
          have hk0 : k ≠ 0 := by
            rintro rfl
            exact hne hfound.symm
          refine ⟨k - 1, by omega, ?_⟩
          rw [Nat.add_assoc, Nat.add_comm 1, Nat.sub_add_cancel (by omega)]
          exact hne

/-- Where no entry is free, what is left to do is making the directory larger. -/
theorem dirAllocBlocks_full (hn : i + n = blockCount s₀.blocks d) (hl : Looked s₀ s N)
    (hc : Cached s d) (hfull : NoFree s₀.blocks d) {E : U32 → Fs → Prop}
    (hgrow : ∀ s, Looked s₀ s N → Cached s d →
      (dirAllocBlocks d 0 (blockCount s₀.blocks d)).Ends s (fun _ _ => True) E AnyStop) :
    (dirAllocBlocks d n i).Ends s (fun _ _ => True) E AnyStop := by
  induction n generalizing i s with
  | zero =>
      rw [Nat.add_zero] at hn
      rw [hn]
      exact hgrow s hl hc
  | succ n ih =>
      have hi : i < blockCount s₀.blocks d := by omega
      rw [dirAllocBlocks, ← bind_assoc]
      refine Ends.bind ((dirAllocBlock_ends hg hd hdir hp hi hl hc).mono (fun _ _ h => h)
        (fun _ _ h => h.elim) fun _ h => h) ?_
      rintro found s₁ ⟨hfound, hl₁, hc₁, -⟩
      rw [hfull i hi] at hfound
      rw [hfound]
      exact ih (by omega) hl₁ hc₁

end Directory

/-! ## A block that cannot be had -/

theorem readBlock_never {s s' : Fs} {blockno err : U32} : readBlock blockno s ≠ .fail err s' := by
  intro h
  exact (gives_readBlock (F := fun _ => False) blockno s).2 err s' h

/-- What is outside the bitmap is left by `alloc_block` when it fails. -/
theorem mapPointer_fail {ptr : Nat} (h : Mounted s N) (hfail : mapPointer ptr true s = .fail err s') :
    Touched s s' := by
  rcases bind_eq_fail.mp hfail with hload | ⟨v, s₁, hload, hrest⟩
  · exact absurd hload load64_ne_fail
  · obtain ⟨-, ht, -⟩ := load64_ret hload
    by_cases h0 : v = 0
    · rw [if_pos h0] at hrest
      rcases bind_eq_fail.mp hrest with halloc | ⟨r, s₂, -, hstore⟩
      · rcases allocBlock_cases (h.touched ht) with ⟨r, s₂, hret⟩ | ⟨e, s₂, hno, ht₂, -, -⟩
        · rw [hret] at halloc
          cases halloc
        · rw [hno] at halloc
          cases halloc
          exact ht.trans ht₂
      · exact absurd hstore store64_ne_fail
    · rw [if_neg h0] at hrest
      cases hrest

theorem walkIndirect_fail (h : Mounted s N) (hfail : walkIndirect d true s = .fail err s') :
    Touched s s' := by
  rcases bind_eq_fail.mp hfail with hload | ⟨v, s₁, hload, hrest⟩
  · exact absurd hload load32_ne_fail
  · obtain ⟨-, ht, -⟩ := load32_ret hload
    by_cases h0 : v = 0
    · rw [if_pos h0] at hrest
      rcases bind_eq_fail.mp hrest with halloc | ⟨r, s₂, -, hstore⟩
      · rcases allocBlock_cases (h.touched ht) with ⟨r, s₂, hret⟩ | ⟨e, s₂, hno, ht₂, -, -⟩
        · rw [hret] at halloc
          cases halloc
        · rw [hno] at halloc
          cases halloc
          exact ht.trans ht₂
      · exact absurd hstore store32_ne_fail
    · rw [if_neg h0] at hrest
      cases hrest

/-- The size of the file is not among what a walk to one of its slots changes. -/
theorem Walked.size_same {fb t : Nat} (hw : Walked s s₁ N d fb t) :
    ByteMem.Same s.seen s₁.seen (fSize d) 4 := by
  have hlo := hw.apart.lo
  have hhi := hw.apart.hi
  have hout := hw.apart.file_table hw.ne (a := fSize d) (n := 4) (by rw [fSize]; omega)
    (by rw [fSize, BY2FILE]; omega)
  rcases hw.seen with ⟨-, hold⟩ | ⟨r, hr, -, hfirst, hnew⟩
  · rw [hold]
    exact loaded_same hout
  · rw [hnew]
    intro x hlo hhi
    have hbit := hw.apart.file_setBit (m := s.seen) (hr ▸ hfirst.hi) false (a := fSize d) (n := 4)
      (by rw [fSize]; omega) (by rw [fSize, BY2FILE]; omega)
    rw [ByteMem.same_st32 r (b := fSize d) (n := 4)
      (Or.inr (by rw [fSize, fIndirect_eq]; omega)) x hlo hhi, hbit x hlo hhi]

theorem fileGetBlock_fail {fb : Nat} {filebno : U32} (h : Mounted s N) (hf : FileAt s N d fb)
    (ht : TableAt s N d fb) (hk : KnownUsed s N fb)
    (hfail : fileGetBlock d filebno s = .fail err s') :
    ByteMem.Same s.seen s'.seen (fSize d) 4 := by
  rcases bind_eq_fail.mp hfail with hmap | ⟨diskbno, s₁, -, hread⟩
  · rcases bind_eq_fail.mp hmap with hwalk | ⟨ptr, s₁, hwalk, hrest⟩
    · -- No slot was found: nothing was written.
      suffices htouch : Touched s s' by
        rw [htouch.seen]
        exact fun _ _ _ => rfl
      unfold fileBlockWalk at hwalk
      split at hwalk
      · cases hwalk
      · split at hwalk
        · rcases bind_eq_fail.mp hwalk with hind | ⟨_, s₂, -, hrest⟩
          · exact walkIndirect_fail h hind
          · rcases bind_eq_fail.mp hrest with hload | ⟨ind, s₃, -, hrest⟩
            · exact absurd hload load32_ne_fail
            · rcases bind_eq_fail.mp hrest with hread | ⟨⟨_, _⟩, _, -, hpure⟩
              · exact absurd hread readBlock_never
              · cases hpure
        · cases hwalk
          exact .refl s
    · -- A slot was found, but no block for it.
      have hsame : ByteMem.Same s.seen s₁.seen (fSize d) 4 ∧ Mounted s₁ N := by
        by_cases hd : filebno.toNat < NDIRECT
        · rw [fileBlockWalk, if_pos hd] at hwalk
          cases hwalk
          exact ⟨fun _ _ _ => rfl, h⟩
        · obtain ⟨t, -, hw, -⟩ := fileBlockWalk_ret h hf ht (fun _ => hk) hd hwalk
          exact ⟨hw.size_same, hw.mounted⟩
      rcases bind_eq_fail.mp hrest with hmap | ⟨_, s₂, -, hrest⟩
      · rw [(mapPointer_fail hsame.2 hmap).seen]
        exact hsame.1
      · rcases bind_eq_fail.mp hrest with hload | ⟨_, _, -, hpure⟩
        · exact absurd hload load64_ne_fail
        · cases hpure
  · rcases bind_eq_fail.mp hread with hread | ⟨⟨_, _⟩, _, -, hpure⟩
    · exact absurd hread readBlock_never
    · cases hpure

/-! ## Making the directory larger -/

/-- A mounted file system in which the blocks up to the bitmap are marked as used and
    the directories are made of blocks in use. -/
structure SoundFs (s : Fs) (N : Nat) : Prop where
  mounted : Mounted s N
  graph : DirGraph s.blocks N
  fits : firstData N ≤ N
  low : ∀ b, b < firstData N → freeBit s.blocks b = false

section Sound

variable (hs : SoundFs s₀ N)

include hs

/-- The block that a file in the tree is in. -/
theorem SoundFs.fileBlock (hd : InTree s₀.blocks d) (hc : Cached s d) : ∃ fb, FileAt s N d fb ∧
    freeBit s₀.blocks fb = false ∧ (tableOf s₀.blocks d ≠ 0 → tableOf s₀.blocks d ≠ fb) := by
  have hfits := hs.fits
  rw [firstData_eq] at hfits
  have hpage : s.mapped (d / BY2PG) = true := hc d (le_refl d) (by rw [BY2FILE]; omega)
  have htable := hs.graph.table d hd
  cases hd with
  | root =>
      have hv : rootFile / BY2PG = blockPage 1 := by
        rw [rootFile_eq, blockAddr_eq, blockPage_eq, BY2PG]
      refine ⟨1, ⟨by omega, ?_, ?_, Or.inl ⟨rfl, rfl⟩, hv ▸ hpage⟩, hs.low 1 ?_, fun h0 => ?_⟩
      · rw [rootFile_eq]
        omega
      · rw [rootFile_eq, BY2FILE, BY2BLK]
        omega
      · rw [firstData_eq]
        omega
      · have hlo := (htable h0).lo
        rw [firstData_eq] at hlo
        omega
  | entry hd' hdir' he =>
      have hself : InTree s₀.blocks d := .entry hd' hdir' he
      obtain ⟨i, j, hi, h0, hj, rfl, -⟩ := he
      have hused := hs.graph.block _ i hd' hdir' hi h0
      have hapart := hs.graph.apart _ _ i hself hd' hdir' hi
      generalize blockNo s₀.blocks _ i = b at *
      rw [FILE2BLK] at hj
      have hv : dirEntryAt b j / BY2PG = blockPage b := by
        rw [entryAt_eq, blockPage_eq, BY2PG]
        omega
      refine ⟨b, ⟨hused.hi, ?_, ?_, Or.inr hused.lo, hv ▸ hpage⟩, hused.used, hapart⟩
      · rw [entryAt_eq, blockAddr_eq]
        omega
      · rw [entryAt_eq, blockAddr_eq, BY2FILE, BY2BLK]
        omega

theorem dirAlloc_grow (hd : InTree s₀.blocks d) (hl : Looked s₀ s N) (hc : Cached s d) :
    (dirAllocBlocks d 0 i).Ends s (fun _ _ => True)
      (fun _ s' => s'.blocks.ld32 (fSize d) = s₀.blocks.ld32 (fSize d) + BitVec.ofNat 32 BY2BLK)
      AnyStop := by
  have hg := hs.graph
  have hm : s.MappedOn (fSize d) 4 := hc.mono (by rw [fSize]; omega) (by rw [fSize, BY2FILE]; omega)
  have hsize : s.seen.ld32 (fSize d) = s₀.blocks.ld32 (fSize d) := by
    rw [← hm.blocks_eq.ld32, hl.butDir.size_eq hg hd]
  have hload := load32_of_mapped hm
  rw [hsize] at hload
  generalize hsz : s₀.blocks.ld32 (fSize d) + BitVec.ofNat 32 BY2BLK = size
  have hstore := store32_of_mapped (v := size) hm
  generalize hs₂ : ({ s with mem := s.mem.st32 (fSize d) size } : Fs) = s₂ at hstore
  have hw := store32_ret hstore
  -- Everything but the size is as it was.
  have hout : ∀ a k, a + k ≤ fSize d ∨ fSize d + 4 ≤ a → ByteMem.Same s.seen s₂.seen a k := by
    intro a k h
    rw [hw.seen]
    exact ByteMem.same_st32 size (by omega)
  obtain ⟨fb, hf, hused, hne⟩ := hs.fileBlock hd hc
  have hf₂ := hf.steady hw.steady
  have hsuper : ByteMem.Same s.seen s₂.seen (blockAddr 1 + 4) 4 := by
    apply hout
    have hap : Apart N d fb 0 := ⟨hf.lo, hf.hi, hf.place, fun h => absurd rfl h⟩
    have hlt := hap.super_lt
    rw [fSize]
    omega
  have hm₂ : Mounted s₂ N := hl.mounted.wrote hw (hw.seen ▸ hsuper)
  have hbits : ∀ b, b < N → freeBit s₂.seen b = freeBit s₀.blocks b := by
    intro b hb
    have hap : Apart N d fb 0 := ⟨hf.lo, hf.hi, hf.place, fun h => absurd rfl h⟩
    have hbit := hap.file_bits hb
    rw [freeBit_same (hout (bitWord b) 8 ?_), ← hl.mounted.freeBit_blocks hb, hl.butDir.bits hg hb]
    rw [BY2FILE] at hbit
    rw [fSize]
    omega
  have hind : fInd s₂ d = tableOf s₀.blocks d := by
    have hmi : s.MappedOn (fIndirect d) 4 :=
      hc.mono (by rw [fIndirect_eq]; omega) (by rw [fIndirect_eq, BY2FILE]; omega)
    have hsame := hout (fIndirect d) 4 (Or.inr (by rw [fSize, fIndirect_eq]; omega))
    rw [← hl.butDir.tableOf_eq hg hd, fInd, hsame.ld32, ← hmi.blocks_eq.ld32, tableOf]
  have ht₂ : TableAt s₂ N d fb := by
    refine ⟨fun h0 => ?_, fun h0 => ?_, fun h0 => ?_⟩
    · rw [hind] at h0 ⊢
      exact (hg.table d hd h0).lo
    · rw [hind] at h0 ⊢
      exact hne h0
    · rw [hind] at h0 ⊢
      have hu := hg.table d hd h0
      rw [hbits _ hu.hi]
      exact hu.used
  have hk₂ : KnownUsed s₂ N fb := by
    have hfits := hs.fits
    refine ⟨fun b hb => ?_, ?_⟩
    · rw [hbits b (by omega)]
      exact hs.low b hb
    · rw [hbits fb hf.lt]
      exact hused
  rw [dirAllocBlocks]
  apply Ends.bind_ret hload
  rw [hsz]
  apply Ends.bind_ret hstore
  cases hget : fileGetBlock d (BitVec.ofNat 32 i) s₂ with
  | ret blk s₃ => exact Ends.of_ret hget trivial
  | stop msg =>
      rw [Ends, hget]
      trivial
  | fail err s₃ =>
      refine Ends.of_fail hget ?_
      have hm₃ : s₃.MappedOn (fSize d) 4 :=
        (hm.steady hw.steady).steady ((quiet_fileGetBlock d _).fail hget)
      rw [hm₃.blocks_eq.ld32, (fileGetBlock_fail hm₂ hf₂ ht₂ hk₂ hget).ld32, hw.seen, ByteMem.ld32_st32]

end Sound

/-! ## `file_create` -/

theorem gives_strcpy {F : U32 → Prop} (p : Nat) (str : List (BitVec 8)) :
    Yields (fun _ => True) F (strcpy p str) := by
  have hstore : ∀ a v, Yields (fun _ => True) F (store8 a v) :=
    fun a v => (gives_access a 1).bind fun _ _ => gives_modify _
  induction str generalizing p with
  | nil => exact hstore _ _
  | cons c str ih => exact (hstore _ _).bind fun _ _ => ih _

/-- A program without errors meets any condition on them. -/
theorem ends_of_never {α : Type} {x : FsM α} {E : U32 → Fs → Prop}
    (h : Yields (fun _ => True) (fun _ => False) x) : x.Ends s (fun _ _ => True) E AnyStop := by
  cases hx : x s with
  | ret a s' => exact Ends.of_ret hx trivial
  | fail e s' => exact ((h s).2 e s' hx).elim
  | stop msg =>
      rw [Ends, hx]
      trivial

/-- The path leads to a directory where only its last name is missing. -/
def Misses (s : Fs) (path : List (BitVec 8)) (d : Nat) (name : List (BitVec 8)) : Prop :=
  (dirTree s.blocks).resolve none rootFile (components path) = .missing d name

/-- The last name of the path is missing in a directory without a free entry. -/
def FullParent (s : Fs) (path : List (BitVec 8)) : Prop :=
  ∃ d name, Misses s path d name ∧ NoFree s.blocks d

/-- The size of a directory is not what it was. -/
def FileGrown (s s' : Fs) : Prop := ∃ d, InTree s.blocks d ∧
  s'.blocks.ld32 (fSize d) = s.blocks.ld32 (fSize d) + BitVec.ofNat 32 BY2BLK

theorem inTree_ne_zero (hg : DirGraph m N) (h : InTree m f) : f ≠ 0 := by
  rcases hg.placed h with rfl | ⟨b, j, -, -, -, rfl⟩
  · rw [rootFile_eq, blockAddr_eq]
    omega
  · rw [entryAt_eq]
    omega

/-- Allocating an entry in a directory that was searched in vain. -/
theorem dirAllocFile_ends (hs : SoundFs s₀ N) (hl : Looked s₀ s N) (hd : Searched s₀ s d) :
    (dirAllocFile d).Ends s (fun _ _ => True)
      (fun _ s' => NoFree s₀.blocks d ∧ FileGrown s₀ s') AnyStop := by
  have hg := hs.graph
  have hm : s.MappedOn (fSize d) 4 :=
    hd.cached.mono (by rw [fSize]; omega) (by rw [fSize, BY2FILE]; omega)
  have hcount : fileBlocks d s = .ret (blockCount s₀.blocks d) s := by
    rw [fileBlocks, bind_ret (load32_of_mapped hm), ← hm.blocks_eq.ld32,
      hl.butDir.size_eq hg hd.inTree, blockCount]
    rfl
  rw [dirAllocFile]
  apply Ends.bind_ret hcount
  by_cases hfull : NoFree s₀.blocks d
  · refine dirAllocBlocks_full hg hd.inTree hd.dir hd.present (Nat.zero_add _) hl hd.cached hfull
      fun s₁ hl₁ hc₁ => ?_
    exact (dirAlloc_grow hs hd.inTree hl₁ hc₁).mono (fun _ _ h => h)
      (fun _ _ h => ⟨hfull, d, hd.inTree, h⟩) fun _ h => h
  · have hfree : ∃ k, k < blockCount s₀.blocks d ∧
        freeIn s₀.blocks (blockNo s₀.blocks d (0 + k)) ≠ none := by
      by_contra hno
      apply hfull
      intro i hi
      by_contra hne
      exact hno ⟨i, hi, by rwa [Nat.zero_add]⟩
    exact (dirAllocBlocks_found hg hd.inTree hd.dir hd.present (Nat.zero_add _) hl hd.cached hfree).mono
      (fun _ _ _ => trivial) (fun _ _ h => h.elim) fun _ h => h

/-- What a failed `file_create` has left, by why it failed. -/
theorem fileCreate_ends (hs : SoundFs s N) (h0 : (0 : BitVec 8) ∉ path)
    (hclean : CleanFrom s rootFile (components path)) :
    (fileCreate path ftype).Ends s (fun _ _ => True)
      (fun _ s' => (Looked s s' N ∧ ¬ FullParent s path) ∨ (FileGrown s s' ∧ FullParent s path))
      AnyStop := by
  have hg := hs.graph
  refine Ends.bind ((walkPath_ends hg (.refl hs.mounted) h0 hclean).mono (fun _ _ h => h)
    (fun _ _ h => h.elim) fun _ _ => trivial) ?_
  rintro w s₁ ⟨rfl, hl, hmissing⟩
  have hnot : (∀ d name, ¬ Misses s path d name) → ¬ FullParent s path :=
    fun hno ⟨d, name, hd, _⟩ => hno d name hd
  cases hres : (dirTree s.blocks).resolve none rootFile (components path) with
  | found par f =>
      refine Ends.of_fail rfl (Or.inl ⟨hl, hnot fun d name hd => ?_⟩)
      rw [Misses, hres] at hd
      cases hd
  | unfit =>
      refine Ends.of_fail rfl (Or.inl ⟨hl, hnot fun d name hd => ?_⟩)
      rw [Misses, hres] at hd
      cases hd
  | nowhere =>
      refine Ends.of_fail rfl (Or.inl ⟨hl, hnot fun d name hd => ?_⟩)
      rw [Misses, hres] at hd
      cases hd
  | missing d name =>
      have hd := hmissing d name hres
      have hok : ¬ ((answer (.missing d name)).r ≠ -E_NOT_FOUND ∨ (answer (.missing d name)).pdir = 0) := by
        rintro (hr | h0)
        · exact hr rfl
        · exact inTree_ne_zero hg hd.inTree h0
      have hne : ¬ (answer (.missing d name)).r = 0 := (by decide : ¬ (-E_NOT_FOUND : U32) = 0)
      rw [if_neg hne, if_neg hok]
      refine Ends.bind ((dirAllocFile_ends hs hl hd).attempt.mono (fun _ _ h => h)
        (fun _ _ h => h.elim) fun _ h => h) ?_
      rintro (e | f) s₂ h₂
      · exact Ends.of_fail rfl (Or.inr ⟨h₂.2, d, name, hres, h₂.1⟩)
      · exact ends_of_never ((gives_strcpy _ _).bind fun _ _ =>
          (gives_store32 _ _).bind fun _ _ => yields_pure trivial)

/-- Nothing that paths, files and the allocation of blocks depend on is different. -/
structure Unchanged (s s' : Fs) (N : Nat) : Prop where
  sizes : ∀ f, InTree s.blocks f → s'.blocks.ld32 (fSize f) = s.blocks.ld32 (fSize f)
  contents : ButDir s.blocks s'.blocks
  pointers : ∀ f i, InTree s.blocks f → blockNo s'.blocks f i = blockNo s.blocks f i
  tables : ∀ f, InTree s.blocks f → tableOf s'.blocks f = tableOf s.blocks f
  bits : ∀ b, b < N → freeBit s'.blocks b = freeBit s.blocks b
  lookups : ∀ path w w' t t', (0 : BitVec 8) ∉ path → CleanFrom s rootFile (components path) →
    walkPath path s = .ret w t → walkPath path s' = .ret w' t' → w' = w

theorem Looked.unchanged (hg : DirGraph s.blocks N) (hm : Mounted s N) (h : Looked s s' N) :
    Unchanged s s' N where
  sizes _ hf := h.butDir.size_eq hg hf
  contents := h.butDir
  pointers _ i hf := h.butDir.blockNo_eq hg hf i
  tables _ hf := h.butDir.tableOf_eq hg hf
  bits _ hb := h.butDir.bits hg hb
  lookups path w w' t t' h0 hclean hw hw' := by
    rw [((walkPath_ends hg h h0 hclean).ret_of hw').1,
      ((walkPath_ends hg (.refl hm) h0 hclean).ret_of hw).1]

theorem FileGrown.not_unchanged (h : FileGrown s s') : ¬ Unchanged s s' N := by
  obtain ⟨d, hd, hsize⟩ := h
  intro hsame
  rw [hsame.sizes d hd] at hsize
  have hnat := congrArg BitVec.toNat hsize
  have hblk : (BitVec.ofNat 32 BY2BLK).toNat = 4096 := rfl
  rw [BitVec.toNat_add, hblk] at hnat
  have hlt := (s.blocks.ld32 (fSize d)).isLt
  omega

/-- When `file_create` fails, the lookup having met no hole, everything is as before if
    and only if the directory for the new file has a free entry or is not there. -/
theorem file_create_unchanged_iff {e : U32} (hs : SoundFs s N) (hpath : (0 : BitVec 8) ∉ path)
    (hclean : CleanFrom s rootFile (components path)) (hfail : fileCreate path ftype s = .fail e s') :
    Unchanged s s' N ↔ ¬ FullParent s path := by
  rcases (fileCreate_ends hs hpath hclean).fail_of hfail with ⟨hl, hno⟩ | ⟨hgrown, hfull⟩
  · exact ⟨fun _ => hno, fun _ => hl.unchanged hs.graph hs.mounted⟩
  · exact ⟨fun hsame => absurd hsame hgrown.not_unchanged, fun hno => absurd hfull hno⟩

/-- Creating `"/a"`, which is there. -/
theorem treeFs_sound : SoundFs treeFs 64 where
  mounted := treeFs_mounted
  graph := treeMem_wellFormed.toDirGraph
  fits := by decide
  low b hb := by
    have hall : ∀ b, b < firstData 64 → freeBit treeMem b = false := by decide
    exact hall b hb

theorem treeFs_clean : CleanFrom treeFs rootFile (components [97]) := by
  have hw : WellFormedTree treeFs.blocks 64 := treeMem_wellFormed
  exact hw.clean .root fun _ hmem => components_proper (by decide) hmem

theorem treeFs_create : ∃ s', fileCreate [97] FTYPE_REG treeFs = .fail (-E_FILE_EXISTS) s' := by
  have hends := walkPath_ends treeFs_sound.graph (.refl treeFs_mounted) (by decide) treeFs_clean
  have hfound : (dirTree treeFs.blocks).resolve none rootFile (components [97]) =
      .found (some rootFile) (dirEntryAt 5 0) := by
    have hnames : components [97] = [[97]] := by decide
    have hstep : (dirTree treeMem).step rootFile [97] = some (dirEntryAt 5 0) := by decide
    rw [hnames]
    exact NameSpace.resolve_step hstep
  cases hw : walkPath [97] treeFs with
  | ret w s' =>
      have hr : w = answer (.found (some rootFile) (dirEntryAt 5 0)) := hfound ▸ (hends.ret_of hw).1
      refine ⟨s', ?_⟩
      rw [fileCreate, bind_ret hw, hr]
      rfl
  | fail e s' => exact (hends.fail_of hw).elim
  | stop msg =>
      obtain ⟨-, k, hk⟩ := hends.stop_of hw
      cases hk

theorem treeFs_create_unchanged : ∃ s', fileCreate [97] FTYPE_REG treeFs = .fail (-E_FILE_EXISTS) s' ∧
    (Unchanged treeFs s' 64 ↔ ¬ FullParent treeFs [97]) := by
  obtain ⟨s', hfail⟩ := treeFs_create
  exact ⟨s', hfail, file_create_unchanged_iff treeFs_sound (by decide) treeFs_clean hfail⟩

/-! ### A root without entries on a full disk -/

theorem allocBlock_full (h : Mounted s N) (hfull : ∀ b, 3 ≤ b → b < N → freeBit s.seen b = false) :
    allocBlock s = .fail (-E_NO_DISK) s := by
  rcases allocBlockNum_spec h with ⟨b, -, hfirst⟩ | ⟨hfail, -⟩
  · have hused := hfull _ hfirst.lo hfirst.hi
    rw [hfirst.free] at hused
    cases hused
  · exact bind_fail hfail

/-- A block that is not there cannot be had on a full disk. -/
theorem fileGetBlock_full {filebno : U32} (h : Mounted s N) (hc : Cached s d)
    (hi : filebno.toNat < NDIRECT) (hslot : s.seen.ld64 (fDirect d filebno.toNat) = 0)
    (hfull : ∀ b, 3 ≤ b → b < N → freeBit s.seen b = false) :
    fileGetBlock d filebno s = .fail (-E_NO_DISK) s := by
  have hload := load64_of_mapped (cached_fDirect hc hi)
  rw [hslot] at hload
  have hmap : mapPointer (fDirect d filebno.toNat) true s = .fail (-E_NO_DISK) s := by
    rw [mapPointer, bind_ret hload]
    exact bind_fail (allocBlock_full h hfull)
  have hwalk : fileBlockWalk d filebno true s = .ret (fDirect d filebno.toNat) s := by
    rw [fileBlockWalk, if_pos hi]
    rfl
  exact bind_fail ((bind_ret hwalk).trans (bind_fail hmap))

def emptyMem (size : U32) : ByteMem :=
  ((smallMem 0 0).st32 (fType rootFile) FTYPE_DIR).st32 (fSize rootFile) size

def emptyFs (size : U32) : Fs := { smallFs 0 0 with mem := emptyMem size }

/-- All blocks are in use. -/
theorem emptyFs_full (size : U32) (hb : b < 64) : freeBit (emptyMem size) b = false := by
  have hsame : ByteMem.Same (smallMem 0 0) (emptyMem size) (bitWord b) 8 := by
    intro x hlo hhi
    rw [bitWord, blockAddr_eq] at hlo
    rw [emptyMem, ByteMem.st32_of_out, ByteMem.st32_of_out]
    · rw [fType, rootFile_eq, blockAddr_eq]
      omega
    · rw [fSize, rootFile_eq, blockAddr_eq]
      omega
  rw [freeBit_same hsame, smallFs_bit 0 0 hb]

theorem emptyFs_mounted (size : U32) : Mounted (emptyFs size) 64 := by
  refine ⟨rfl, rfl, ?_, by decide, rfl, fun _ _ => rfl⟩
  have hsame : ByteMem.Same (smallMem 0 0) (emptyMem size) (blockAddr 1 + 4) 4 := by
    intro x hlo hhi
    rw [emptyMem, ByteMem.st32_of_out, ByteMem.st32_of_out]
    · rw [fType, rootFile_eq]
      omega
    · rw [fSize, rootFile_eq]
      omega
  show ((emptyMem size).ld32 (blockAddr 1 + 4)).toNat = 64
  rw [hsame.ld32]
  exact (smallFs_mounted 0 0).nblocks

theorem emptyFs_sound : SoundFs (emptyFs 0) 64 := by
  have hcount : blockCount (emptyMem 0) rootFile = 0 := by decide
  have htable : tableOf (emptyMem 0) rootFile = 0 := by decide
  have hroot : ∀ f, InTree (emptyMem 0) f → f = rootFile := by
    intro f hf
    induction hf with
    | root => rfl
    | entry _ _ he ih =>
        obtain ⟨i, _, hi, -⟩ := he
        rw [ih, hcount] at hi
        exact absurd hi (Nat.not_lt_zero i)
  refine ⟨emptyFs_mounted 0, ⟨?_, ?_, ?_⟩, by decide, fun b hb => emptyFs_full 0 ?_⟩
  · intro d i hd _ hi
    have hd' : InTree (emptyMem 0) d := hd
    rw [hroot d hd'] at hi
    exact absurd (hcount ▸ hi : i < 0) (Nat.not_lt_zero i)
  · intro f hf h0
    have hf' : InTree (emptyMem 0) f := hf
    rw [hroot f hf'] at h0
    exact absurd htable h0
  · intro f _ _ hf _ _ _ h0
    have hf' : InTree (emptyMem 0) f := hf
    rw [hroot f hf'] at h0
    exact absurd htable h0
  · exact Nat.lt_trans hb (by decide)

theorem emptyFs_size (size : U32) : load32 (fSize rootFile) (emptyFs size) = .ret size (emptyFs size) := by
  have hload := load32_of_mapped (s := emptyFs size) (a := fSize rootFile) fun _ _ _ => rfl
  have hsize : (emptyMem size).ld32 (fSize rootFile) = size := by rw [emptyMem, ByteMem.ld32_st32]
  exact hload.trans (congrArg (Outcome.ret · _) hsize)

theorem emptyFs_type (size : U32) :
    load32 (fType rootFile) (emptyFs size) = .ret FTYPE_DIR (emptyFs size) := by
  have hload := load32_of_mapped (s := emptyFs size) (a := fType rootFile) fun _ _ _ => rfl
  have htype : (emptyMem size).ld32 (fType rootFile) = FTYPE_DIR := by
    have hsame := ByteMem.same_st32 (m := (smallMem 0 0).st32 (fType rootFile) FTYPE_DIR)
      (a := fSize rootFile) (b := fType rootFile) (n := 4) size (Or.inl (by rw [fSize, fType]))
    rw [emptyMem, hsame.ld32, ByteMem.ld32_st32]
  exact hload.trans (congrArg (Outcome.ret · _) htype)

/-- Block 0 of the root. -/
theorem emptyFs_block (size : U32) :
    fileGetBlock rootFile 0 (emptyFs size) = .fail (-E_NO_DISK) (emptyFs size) := by
  have hslot : (emptyMem size).ld64 (fDirect rootFile 0) = 0 := by
    have hsame : ByteMem.Same (smallMem 0 0) (emptyMem size) (fDirect rootFile 0) 8 := by
      intro x hlo hhi
      rw [fDirect_eq] at hlo
      rw [emptyMem, ByteMem.st32_of_out, ByteMem.st32_of_out]
      · rw [fType]
        omega
      · rw [fSize]
        omega
    rw [hsame.ld64]
    decide
  exact fileGetBlock_full (emptyFs_mounted size) (fun _ _ _ => rfl) (by decide) hslot
    fun b _ hb => emptyFs_full size hb

/-- The path `"a"`, when looking it up in the root ends with `e`. -/
theorem emptyFs_walk {size : U32} {e : U32}
    (h : dirLookup rootFile [97] (emptyFs size) = .fail e (emptyFs size)) :
    walkPath [97] (emptyFs size) =
      .ret (if e = -E_NOT_FOUND then ⟨e, rootFile, 0, [97]⟩ else ⟨e, 0, 0, []⟩) (emptyFs size) := by
  have hname : [97].takeWhile (fun c : BitVec 8 => c != slash) = [97] := by decide
  have hrest : skipSlash ([97].dropWhile fun c : BitVec 8 => c != slash) = [] := by decide
  have hshort : ¬ MAXNAMELEN ≤ [(97 : BitVec 8)].length := by decide
  show walkLoop 1 [97] 0 rootFile (emptyFs size) = _
  rw [walkLoop, hname, hrest, if_neg hshort, bind_ret (emptyFs_type size), if_neg (by decide),
    bind_ret (attempt_fail h)]
  by_cases he : e = -E_NOT_FOUND
  · rw [if_pos he]
    exact congrFun (if_pos ⟨he, rfl⟩) _
  · rw [if_neg he]
    exact congrFun (if_neg fun hboth => he hboth.1) _

/-- The root has no entry. -/
theorem emptyFs_lookup : dirLookup rootFile [97] (emptyFs 0) = .fail (-E_NOT_FOUND) (emptyFs 0) := by
  have hcount : fileBlocks rootFile (emptyFs 0) = .ret 0 (emptyFs 0) := bind_ret (emptyFs_size 0)
  exact bind_ret hcount

/-- Once it has the size of a block, the block that is looked for cannot be had. -/
theorem grownFs_lookup : dirLookup rootFile [97] (emptyFs 4096) = .fail (-E_NO_DISK) (emptyFs 4096) := by
  have hcount : fileBlocks rootFile (emptyFs 4096) = .ret 1 (emptyFs 4096) :=
    bind_ret (emptyFs_size 4096)
  exact (bind_ret hcount).trans (bind_fail (emptyFs_block 4096))

theorem emptyFs_store : store32 (fSize rootFile) 4096 (emptyFs 0) = .ret () (emptyFs 4096) := by
  have hstore := store32_of_mapped (s := emptyFs 0) (a := fSize rootFile) (v := 4096) fun _ _ _ => rfl
  rw [hstore]
  have hmem : (emptyMem 0).st32 (fSize rootFile) 4096 = emptyMem 4096 := by
    funext x
    simp only [emptyMem, ByteMem.st32]
    split <;> rfl
  show Outcome.ret () ({ smallFs 0 0 with mem := (emptyMem 0).st32 (fSize rootFile) 4096 } : Fs) = _
  rw [hmem]
  rfl

/-- Creating `"a"` there fails, the root keeps the size of one block, and looking
    `"a"` up fails with another error from then on. -/
theorem emptyFs_create_grows : SoundFs (emptyFs 0) 64 ∧
    fileCreate [97] FTYPE_REG (emptyFs 0) = .fail (-E_NOT_FOUND) (emptyFs 4096) ∧
      ¬ Unchanged (emptyFs 0) (emptyFs 4096) 64 ∧
      walkPath [97] (emptyFs 0) = .ret ⟨-E_NOT_FOUND, rootFile, 0, [97]⟩ (emptyFs 0) ∧
      walkPath [97] (emptyFs 4096) = .ret ⟨-E_NO_DISK, 0, 0, []⟩ (emptyFs 4096) := by
  have hwalk : walkPath [97] (emptyFs 0) = .ret ⟨-E_NOT_FOUND, rootFile, 0, [97]⟩ (emptyFs 0) :=
    emptyFs_walk emptyFs_lookup
  have hcount : fileBlocks rootFile (emptyFs 0) = .ret 0 (emptyFs 0) := bind_ret (emptyFs_size 0)
  have halloc : dirAllocFile rootFile (emptyFs 0) = .fail (-E_NO_DISK) (emptyFs 4096) :=
    (bind_ret hcount).trans ((bind_ret (emptyFs_size 0)).trans
      ((bind_ret emptyFs_store).trans (emptyFs_block 4096)))
  refine ⟨emptyFs_sound, ?_, ?_, hwalk, emptyFs_walk grownFs_lookup⟩
  · rw [fileCreate, bind_ret hwalk, if_neg (by decide), if_neg (by decide)]
    exact bind_ret (attempt_fail halloc)
  · intro hsame
    have hsize := hsame.sizes rootFile .root
    have hold : (emptyMem 0).ld32 (fSize rootFile) = 0 := by rw [emptyMem, ByteMem.ld32_st32]
    have hnew : (emptyMem 4096).ld32 (fSize rootFile) = 4096 := by rw [emptyMem, ByteMem.ld32_st32]
    have heq : (emptyMem 4096).ld32 (fSize rootFile) = (emptyMem 0).ld32 (fSize rootFile) := hsize
    rw [hold, hnew] at heq
    cases heq

end RpiMos
