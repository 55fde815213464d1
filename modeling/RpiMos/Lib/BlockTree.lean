/-
  RpiMos.Lib.BlockTree

  A tree of files over blocks: every file has direct pointers to blocks, and more
  of them in a table block; the blocks of a directory hold the files in it.  A
  tree is in order when no two pointers name one block and directories are as
  large as they have blocks.  What is done to a tree is put together from few
  edits, each of which keeps that.
-/

import Mathlib.Tactic.Common

namespace RpiMos.Lib

/-- Where a pointer stands: the table pointer of a file, or one of its slots. -/
inductive Ptr where
  | ind (f : Nat)
  | slot (f k : Nat)

def Ptr.file : Ptr → Nat
  | .ind f => f
  | .slot f _ => f

/-- What stands in the blocks, by file, and which blocks are in use. -/
structure BlockTree where
  isDir : Nat → Prop
  named : Nat → Prop
  nblk : Nat → Nat
  ind : Nat → Nat
  slot : Nat → Nat → Nat
  up : Nat → Nat
  used : Nat → Prop

/-- Where files stand: the root, and file `j` of block `b`.  Blocks `lo`, …,
    `hi - 1` belong to files; a file has `nslots` slots, those from `ndirect` on
    in its table. -/
structure TreeShape where
  root : Nat
  entry : Nat → Nat → Nat
  perBlock : Nat
  ndirect : Nat
  nslots : Nat
  lo : Nat
  hi : Nat
  lo_pos : 0 < lo
  entry_inj : ∀ {b b' j j'}, j < perBlock → j' < perBlock → entry b j = entry b' j' →
    b = b' ∧ j = j'
  root_ne : ∀ {b j}, lo ≤ b → j < perBlock → root ≠ entry b j

namespace BlockTree

variable {S : TreeShape} {T T' : BlockTree} {f g d e b c k j : Nat} {p q : Ptr}

def val (T : BlockTree) : Ptr → Nat
  | .ind f => T.ind f
  | .slot f k => T.slot f k

/-- The files that can be reached from the root. -/
inductive Live (S : TreeShape) (T : BlockTree) : Nat → Prop
  | root : Live S T S.root
  | entry {d k j : Nat} (hd : Live S T d) (hdir : T.isDir d) (hk : k < T.nblk d)
      (hj : j < S.perBlock) (hname : T.named (S.entry (T.slot d k) j)) :
      Live S T (S.entry (T.slot d k) j)

/-- File `e` stands in a block of directory `d`, whether it is named or not. -/
def Entry (S : TreeShape) (T : BlockTree) (d e : Nat) : Prop :=
  Live S T d ∧ T.isDir d ∧ ∃ k j, k < T.nblk d ∧ j < S.perBlock ∧ e = S.entry (T.slot d k) j

/-- The files whose pointers matter. -/
def Known (S : TreeShape) (T : BlockTree) (f : Nat) : Prop := f = S.root ∨ ∃ d, Entry S T d f

/-- Pointers that are not null name blocks in use, no two of them the same one. -/
structure PtrsOk (S : TreeShape) (T : BlockTree) : Prop where
  low : ∀ b, b < S.lo → b < S.hi → T.used b
  range : ∀ p, Known S T p.file → T.val p ≠ 0 → S.lo ≤ T.val p ∧ T.val p < S.hi ∧ T.used (T.val p)
  inj : ∀ p q, Known S T p.file → Known S T q.file → T.val p ≠ 0 → T.val p = T.val q → p = q

/-- Directories have the blocks that their sizes tell, and no others; a file without
    a name is empty. -/
structure DirsOk (S : TreeShape) (T : BlockTree) : Prop where
  rootDir : T.isDir S.root
  rootUp : T.up S.root = 0
  dense : ∀ d k, Live S T d → T.isDir d → k < T.nblk d → T.slot d k ≠ 0
  tight : ∀ d k, Live S T d → T.isDir d → T.nblk d ≤ k → T.slot d k = 0
  short : ∀ d, Live S T d → T.isDir d → T.nblk d + 1 < S.nslots
  table : ∀ d, Live S T d → T.isDir d → T.ind d ≠ 0 → S.ndirect < T.nblk d
  hollow : ∀ d e, Entry S T d e → ¬ T.named e → T.nblk e = 0
  up : ∀ d e, Entry S T d e → T.up e = 0 ∨ T.up e = d

structure Wf (S : TreeShape) (T : BlockTree) : Prop where
  ptrs : PtrsOk S T
  dirs : DirsOk S T

/-! ## Files and where they stand -/

theorem Live.known (h : Live S T f) : Known S T f := by
  cases h with
  | root => exact Or.inl rfl
  | entry hd hdir hk hj _ => exact Or.inr ⟨_, hd, hdir, _, _, hk, hj, rfl⟩

theorem Entry.live (h : Entry S T d e) (hname : T.named e) : Live S T e := by
  obtain ⟨hd, hdir, k, j, hk, hj, rfl⟩ := h
  exact .entry hd hdir hk hj hname

theorem Live.named_or_root (h : Live S T f) : T.named f ∨ f = S.root := by
  cases h with
  | root => exact Or.inr rfl
  | entry _ _ _ _ hname => exact Or.inl hname

theorem Entry.known (h : Entry S T d e) : Known S T e := Or.inr ⟨d, h⟩

section Wf

variable (h : Wf S T)

include h

/-- The block that a file stands in is one of the directory's. -/
theorem Wf.place (he : Entry S T d e) : ∃ k j, k < T.nblk d ∧ j < S.perBlock ∧
    e = S.entry (T.slot d k) j ∧ T.slot d k ≠ 0 ∧ S.lo ≤ T.slot d k ∧ T.slot d k < S.hi := by
  obtain ⟨hd, hdir, k, j, hk, hj, rfl⟩ := he
  have h0 := h.dirs.dense d k hd hdir hk
  obtain ⟨hlo, hhi, -⟩ := h.ptrs.range (.slot d k) hd.known h0
  exact ⟨k, j, hk, hj, rfl, h0, hlo, hhi⟩

theorem Wf.entry_ne_root (he : Entry S T d e) : e ≠ S.root := by
  obtain ⟨k, j, -, hj, rfl, -, hlo, -⟩ := h.place he
  exact (S.root_ne hlo hj).symm

/-- A file is in one directory only. -/
theorem Wf.entry_unique {d' : Nat} (he : Entry S T d e) (he' : Entry S T d' e) : d = d' := by
  obtain ⟨k, j, -, hj, rfl, h0, -, -⟩ := h.place he
  obtain ⟨k', j', -, hj', heq, -, -, -⟩ := h.place he'
  obtain ⟨hslot, -⟩ := S.entry_inj hj hj' heq
  have hptr : Ptr.slot d k = .slot d' k' :=
    h.ptrs.inj _ _ he.1.known he'.1.known h0 hslot
  cases hptr
  rfl

/-- A block with files in it is no table. -/
theorem Wf.ind_ne_place (hf : Known S T f) (h0 : T.ind f ≠ 0) (hd : Live S T d) (hk : T.slot d k ≠ 0) :
    T.ind f ≠ T.slot d k := by
  intro heq
  have hptr : Ptr.ind f = .slot d k := h.ptrs.inj _ _ hf hd.known h0 heq
  cases hptr

theorem Wf.ind_inj (hf : Known S T f) (hg : Known S T g) (h0 : T.ind f ≠ 0) (heq : T.ind f = T.ind g) :
    f = g := by
  have hptr : Ptr.ind f = .ind g := h.ptrs.inj _ _ hf hg h0 heq
  cases hptr
  rfl

theorem Wf.not_live (he : Entry S T d e) (hname : ¬ T.named e) : ¬ Live S T e := fun hlive =>
  hlive.named_or_root.elim hname (h.entry_ne_root he)

end Wf

/-! ## Trees with the same files -/

/-- What makes the files in directory `d` what they are. -/
structure DirSame (S : TreeShape) (T T' : BlockTree) (d : Nat) : Prop where
  isDir : T'.isDir d ↔ T.isDir d
  nblk : T.isDir d → T'.nblk d = T.nblk d
  slot : T.isDir d → ∀ k, k < T.nblk d → T'.slot d k = T.slot d k
  named : T.isDir d → ∀ k j, k < T.nblk d → j < S.perBlock →
    (T'.named (S.entry (T.slot d k) j) ↔ T.named (S.entry (T.slot d k) j))

theorem live_congr (h : ∀ d, Live S T d → DirSame S T T' d) : Live S T' f ↔ Live S T f := by
  constructor
  · intro hf
    induction hf with
    | root => exact .root
    | @entry d k j hd' hdir' hk' hj hname' hd =>
        have hsame := h d hd
        have hdir := hsame.isDir.mp hdir'
        have hk : k < T.nblk d := hsame.nblk hdir ▸ hk'
        rw [hsame.slot hdir k hk] at hname' ⊢
        exact .entry hd hdir hk hj ((hsame.named hdir k j hk hj).mp hname')
  · intro hf
    induction hf with
    | root => exact .root
    | @entry d k j hd hdir hk hj hname hd' =>
        have hsame := h d hd
        have hk' : k < T'.nblk d := by rwa [hsame.nblk hdir]
        have hname' := (hsame.named hdir k j hk hj).mpr hname
        rw [← hsame.slot hdir k hk] at hname' ⊢
        exact .entry hd' (hsame.isDir.mpr hdir) hk' hj hname'

theorem entry_congr (h : ∀ d, Live S T d → DirSame S T T' d) : Entry S T' d e ↔ Entry S T d e := by
  have hlive : Live S T' d ↔ Live S T d := live_congr h
  constructor
  · rintro ⟨hd, hdir, k, j, hk, hj, rfl⟩
    have hsame := h d (hlive.mp hd)
    have hdir' := hsame.isDir.mp hdir
    have hk' : k < T.nblk d := hsame.nblk hdir' ▸ hk
    exact ⟨hlive.mp hd, hdir', k, j, hk', hj, by rw [hsame.slot hdir' k hk']⟩
  · rintro ⟨hd, hdir, k, j, hk, hj, rfl⟩
    have hsame := h d hd
    exact ⟨hlive.mpr hd, hsame.isDir.mpr hdir, k, j, by rwa [hsame.nblk hdir], hj,
      by rw [hsame.slot hdir k hk]⟩

/-- File `g` is what it was. -/
structure FileSame (T T' : BlockTree) (g : Nat) : Prop where
  isDir : T'.isDir g ↔ T.isDir g
  named : T'.named g ↔ T.named g
  nblk : T'.nblk g = T.nblk g
  ind : T'.ind g = T.ind g
  slot : ∀ k, T'.slot g k = T.slot g k
  up : T'.up g = T.up g

theorem FileSame.val (h : FileSame T T' g) (hp : p.file = g) : T'.val p = T.val p := by
  subst hp
  cases p with
  | ind g => exact h.ind
  | slot g k => exact h.slot k

/-- Every file but `f` is what it was. -/
def Rest (S : TreeShape) (T T' : BlockTree) (f : Nat) : Prop :=
  ∀ g, Known S T g → g ≠ f → FileSame T T' g

theorem Rest.val (h : Rest S T T' f) (hp : Known S T p.file) (hne : p.file ≠ f) : T'.val p = T.val p :=
  (h p.file hp hne).val rfl

/-! ## Pointers -/

/-- A pointer that names a block which was free. -/
structure Fresh (S : TreeShape) (T T' : BlockTree) (p : Ptr) : Prop where
  lo : S.lo ≤ T'.val p
  hi : T'.val p < S.hi
  free : ¬ T.used (T'.val p)

/-- Every pointer that is not null is as before, or names a block that was free. -/
theorem PtrsOk.of_ptrs (h : PtrsOk S T) (hlow : ∀ b, b < S.lo → b < S.hi → T'.used b)
    (hused : ∀ p, Known S T' p.file → T'.val p ≠ 0 → T'.used (T'.val p))
    (hptr : ∀ p, Known S T' p.file → T'.val p ≠ 0 →
      (Known S T p.file ∧ T'.val p = T.val p) ∨ (p.file = f ∧ Fresh S T T' p))
    (hfresh : ∀ p q, p.file = f → q.file = f → Fresh S T T' p → Fresh S T T' q →
      T'.val p = T'.val q → p = q) : PtrsOk S T' := by
  refine ⟨hlow, fun p hp h0 => ?_, fun p q hp hq h0 heq => ?_⟩
  · rcases hptr p hp h0 with ⟨hold, hval⟩ | ⟨-, hnew⟩
    · rw [hval] at h0
      obtain ⟨hlo, hhi, -⟩ := h.range p hold h0
      rw [← hval] at hlo hhi
      exact ⟨hlo, hhi, hused p hp (hval ▸ h0)⟩
    · exact ⟨hnew.lo, hnew.hi, hused p hp h0⟩
  · have h0' : T'.val q ≠ 0 := heq ▸ h0
    have hclash : ∀ p q, Known S T p.file → T'.val p ≠ 0 → T'.val p = T.val p →
        T'.val p = T'.val q → ¬ Fresh S T T' q := by
      intro p q hp h0 hval heq hnew
      have hin := (h.range p hp (hval ▸ h0)).2.2
      rw [← hval, heq] at hin
      exact hnew.free hin
    rcases hptr p hp h0 with ⟨hold, hval⟩ | ⟨hpf, hnew⟩
    · rcases hptr q hq h0' with ⟨hold', hval'⟩ | ⟨-, hnew'⟩
      · rw [hval, hval'] at heq
        exact h.inj p q hold hold' (hval ▸ h0) heq
      · exact absurd hnew' (hclash p q hold h0 hval heq)
    · rcases hptr q hq h0' with ⟨hold', hval'⟩ | ⟨hqf, hnew'⟩
      · exact absurd hnew (hclash q p hold' h0' hval' heq.symm)
      · exact hfresh p q hpf hqf hnew hnew' heq

/-- The pointers of file `f` are edited: blocks that were free are taken for some of
    them, and blocks whose pointers become null may be given back. -/
structure PtrEdit (S : TreeShape) (T T' : BlockTree) (f : Nat) : Prop where
  old : ∀ p, p.file = f → T'.val p ≠ 0 → T'.val p = T.val p ∨ Fresh S T T' p
  inj : ∀ p q, p.file = f → q.file = f → Fresh S T T' p → Fresh S T T' q →
    T'.val p = T'.val q → p = q
  taken : ∀ p, p.file = f → Fresh S T T' p → T'.used (T'.val p)
  freed : ∀ b, b < S.hi → T.used b → T'.used b ∨ ∃ p, p.file = f ∧ b ≠ 0 ∧ T.val p = b ∧ T'.val p = 0

theorem PtrsOk.edit (h : PtrsOk S T) (hedit : PtrEdit S T T' f) (hf : Known S T f)
    (hrest : ∀ p, Known S T' p.file → p.file ≠ f → T'.val p ≠ 0 →
      Known S T p.file ∧ T'.val p = T.val p) : PtrsOk S T' := by
  have hcases : ∀ p, Known S T' p.file → T'.val p ≠ 0 →
      (Known S T p.file ∧ T'.val p = T.val p) ∨ (p.file = f ∧ Fresh S T T' p) := by
    intro p hp h0
    by_cases hpf : p.file = f
    · rcases hedit.old p hpf h0 with hval | hnew
      · exact Or.inl ⟨hpf ▸ hf, hval⟩
      · exact Or.inr ⟨hpf, hnew⟩
    · exact Or.inl (hrest p hp hpf h0)
  refine h.of_ptrs ?_ ?_ hcases hedit.inj
  · intro b hlo hhi
    rcases hedit.freed b hhi (h.low b hlo hhi) with hu | ⟨p, hpf, h0, hval, -⟩
    · exact hu
    · have hge := (h.range p (hpf ▸ hf) (hval ▸ h0)).1
      omega
  · intro p hp h0
    rcases hcases p hp h0 with ⟨hold, hval⟩ | ⟨hpf, hnew⟩
    · obtain ⟨-, hhi, hu⟩ := h.range p hold (hval ▸ h0)
      rw [hval]
      rcases hedit.freed _ hhi hu with hu' | ⟨q, hqf, hq0, hqv, hq'⟩
      · exact hu'
      · -- Only the pointer itself named the block that was freed.
        have hqp : q = p := h.inj q p (hqf ▸ hf) hold (hqv ▸ hq0) hqv
        exact absurd (hqp ▸ hq') h0
    · exact hedit.taken p hpf hnew

/-- Pointers that are kept or become null name nothing new. -/
theorem PtrEdit.of_sub (h : PtrsOk S T) (hf : Known S T f)
    (hsub : ∀ p, p.file = f → T'.val p = T.val p ∨ T'.val p = 0)
    (hfreed : ∀ b, b < S.hi → T.used b →
      T'.used b ∨ ∃ p, p.file = f ∧ b ≠ 0 ∧ T.val p = b ∧ T'.val p = 0) : PtrEdit S T T' f := by
  have hno : ∀ p, p.file = f → ¬ Fresh S T T' p := by
    intro p hpf hnew
    have hlo := hnew.lo
    have hpos := S.lo_pos
    rcases hsub p hpf with hval | h0
    · have hin := (h.range p (hpf ▸ hf) (by omega)).2.2
      exact hnew.free (hval ▸ hin)
    · omega
  exact ⟨fun p hpf h0 => Or.inl ((hsub p hpf).resolve_right h0),
    fun p _ hpf _ hnew => absurd hnew (hno p hpf), fun p hpf hnew => absurd hnew (hno p hpf), hfreed⟩

/-- The pointer `p` gets block `b`, which was free. -/
structure PtrGot (S : TreeShape) (T T' : BlockTree) (p : Ptr) (b : Nat) : Prop where
  val : T'.val p = b
  others : ∀ q, q.file = p.file → q ≠ p → T'.val q = T.val q
  lo : S.lo ≤ b
  hi : b < S.hi
  free : ¬ T.used b
  taken : T'.used b
  used : ∀ c, c < S.hi → T.used c → T'.used c

/-- The pointers of file `f` name blocks in use. -/
def Owns (S : TreeShape) (T : BlockTree) (f : Nat) : Prop :=
  ∀ p : Ptr, p.file = f → T.val p ≠ 0 → T.val p < S.hi ∧ T.used (T.val p)

theorem PtrsOk.owns (h : PtrsOk S T) (hf : Known S T f) : Owns S T f := fun p hpf h0 =>
  (h.range p (hpf ▸ hf) h0).2

theorem PtrGot.ptrEdit (h : PtrGot S T T' p b) (hold : Owns S T p.file) : PtrEdit S T T' p.file := by
  -- No other pointer names a block that was free.
  have hno : ∀ q, q.file = p.file → q ≠ p → ¬ Fresh S T T' q := by
    intro q hqf hne hnew
    have hval := h.others q hqf hne
    have hlo := hnew.lo
    have hpos := S.lo_pos
    have hin := (hold q hqf (by omega)).2
    exact hnew.free (hval ▸ hin)
  have honly : ∀ q, q.file = p.file → Fresh S T T' q → q = p := by
    intro q hqf hnew
    by_contra hne
    exact hno q hqf hne hnew
  refine ⟨fun q hqf _ => ?_, fun q q' hqf hqf' hnew hnew' _ => ?_, fun q hqf hnew => ?_,
    fun c hc hu => Or.inl (h.used c hc hu)⟩
  · by_cases hqp : q = p
    · rw [hqp]
      exact Or.inr ⟨h.val ▸ h.lo, h.val ▸ h.hi, h.val ▸ h.free⟩
    · exact Or.inl (h.others q hqf hqp)
  · rw [honly q hqf hnew, honly q' hqf' hnew']
  · rw [honly q hqf hnew, h.val]
    exact h.taken

/-- What is taken is in use, and what is kept stays so. -/
theorem PtrEdit.owns (h : PtrEdit S T T' f) (hold : Owns S T f)
    (hused : ∀ c, c < S.hi → T.used c → T'.used c) : Owns S T' f := by
  intro p hpf h0
  rcases h.old p hpf h0 with hval | hnew
  · rw [hval] at h0 ⊢
    obtain ⟨hhi, hu⟩ := hold p hpf h0
    exact ⟨hhi, hused _ hhi hu⟩
  · exact ⟨hnew.hi, h.taken p hpf hnew⟩

/-- Afterwards neither the pointers nor the blocks in use have changed. -/
theorem PtrEdit.congr {T₁ : BlockTree} (h : PtrEdit S T T₁ f) (hval : ∀ p : Ptr, p.file = f → T'.val p = T₁.val p)
    (hused : ∀ b, b < S.hi → (T'.used b ↔ T₁.used b)) : PtrEdit S T T' f := by
  have hback : ∀ p : Ptr, p.file = f → Fresh S T T' p → Fresh S T T₁ p := by
    intro p hp hnew
    have hv := hval p hp
    exact ⟨hv ▸ hnew.lo, hv ▸ hnew.hi, hv ▸ hnew.free⟩
  refine ⟨fun p hp h0 => ?_, fun p q hp hq hnew hnew' heq => ?_, fun p hp hnew => ?_, fun b hb hu => ?_⟩
  · rw [hval p hp] at h0 ⊢
    rcases h.old p hp h0 with hold | hnew
    · exact Or.inl hold
    · have hv := hval p hp
      exact Or.inr ⟨hv ▸ hnew.lo, hv ▸ hnew.hi, hv ▸ hnew.free⟩
  · rw [hval p hp, hval q hq] at heq
    exact h.inj p q hp hq (hback p hp hnew) (hback q hq hnew') heq
  · have htaken := h.taken p hp (hback p hp hnew)
    rw [← hval p hp] at htaken
    exact (hused _ hnew.hi).mpr htaken
  · rcases h.freed b hb hu with hu' | ⟨p, hp, hb0, hv, hnull⟩
    · exact Or.inl ((hused b hb).mpr hu')
    · exact Or.inr ⟨p, hp, hb0, hv, (hval p hp).trans hnull⟩

/-- Two edits of one file that give nothing back. -/
theorem PtrEdit.trans {T₁ : BlockTree} (h : PtrEdit S T T₁ f) (h' : PtrEdit S T₁ T' f)
    (hused : ∀ c, c < S.hi → T.used c → T₁.used c) (hused' : ∀ c, c < S.hi → T₁.used c → T'.used c) :
    PtrEdit S T T' f := by
  have hback : ∀ p, Fresh S T₁ T' p → Fresh S T T' p := fun p hnew =>
    ⟨hnew.lo, hnew.hi, fun hu => hnew.free (hused _ hnew.hi hu)⟩
  -- A pointer is what the second edit made it, or what the first one did.
  have hcases : ∀ p, p.file = f → T'.val p ≠ 0 → Fresh S T₁ T' p ∨ T'.val p = T₁.val p := fun p hpf h0 =>
    (h'.old p hpf h0).symm
  have hfirst : ∀ p, T'.val p = T₁.val p → Fresh S T T' p → Fresh S T T₁ p := fun p hval hnew =>
    ⟨hval ▸ hnew.lo, hval ▸ hnew.hi, hval ▸ hnew.free⟩
  have hne : ∀ {p}, Fresh S T T' p → T'.val p ≠ 0 := by
    intro p hnew h0
    have hlo := hnew.lo
    have hpos := S.lo_pos
    omega
  have hclash : ∀ p q, q.file = f → Fresh S T₁ T' p → T'.val q = T₁.val q → Fresh S T T' q →
      T'.val p ≠ T'.val q := by
    intro p q hqf hnew hval hnew' heq
    have htaken := h.taken q hqf (hfirst q hval hnew')
    rw [← hval, ← heq] at htaken
    exact hnew.free htaken
  refine ⟨fun p hpf h0 => ?_, fun p q hpf hqf hp hq heq => ?_, fun p hpf hp => ?_, fun c hc hu =>
    Or.inl (hused' c hc (hused c hc hu))⟩
  · rcases hcases p hpf h0 with hnew | hval
    · exact Or.inr (hback p hnew)
    · rcases h.old p hpf (hval ▸ h0) with hold | hnew
      · exact Or.inl (hval.trans hold)
      · exact Or.inr ⟨hval ▸ hnew.lo, hval ▸ hnew.hi, hval ▸ hnew.free⟩
  · rcases hcases p hpf (hne hp) with hnew | hval
    · rcases hcases q hqf (hne hq) with hnew' | hval'
      · exact h'.inj p q hpf hqf hnew hnew' heq
      · exact absurd heq (hclash p q hqf hnew hval' hq)
    · rcases hcases q hqf (hne hq) with hnew' | hval'
      · exact absurd heq.symm (hclash q p hpf hnew' hval hp)
      · exact h.inj p q hpf hqf (hfirst p hval hp) (hfirst q hval' hq) (by rw [← hval, ← hval', heq])
  · rcases hcases p hpf (hne hp) with hnew | hval
    · exact h'.taken p hpf hnew
    · have htaken := h.taken p hpf (hfirst p hval hp)
      rw [← hval] at htaken
      exact hused' _ hp.hi htaken

/-! ## Edits that leave alone which files there are -/

/-- What is left to show of the directories when the files in them stay. -/
theorem DirsOk.of_dirSame (h : DirsOk S T) (hsame : ∀ d, Live S T d → DirSame S T T' d)
    (hrootUp : T'.up S.root = 0)
    (htight : ∀ d k, Live S T d → T.isDir d → T.nblk d ≤ k → T'.slot d k = 0)
    (htable : ∀ d, Live S T d → T.isDir d → T'.ind d ≠ 0 → S.ndirect < T.nblk d)
    (hhollow : ∀ d e, Entry S T d e → ¬ T'.named e → T'.nblk e = 0)
    (hup : ∀ d e, Entry S T d e → T'.up e = 0 ∨ T'.up e = d) : DirsOk S T' := by
  have hlive : ∀ d, Live S T' d ↔ Live S T d := fun d => live_congr hsame
  have hentry : ∀ d e, Entry S T' d e ↔ Entry S T d e := fun d e => entry_congr hsame
  have hdir : ∀ d, Live S T' d → T'.isDir d → Live S T d ∧ T.isDir d ∧ T'.nblk d = T.nblk d := by
    intro d hd hdd
    have hd' := (hlive d).mp hd
    have hdd' := (hsame d hd').isDir.mp hdd
    exact ⟨hd', hdd', (hsame d hd').nblk hdd'⟩
  refine ⟨(hsame _ .root).isDir.mpr h.rootDir, hrootUp, fun d k hd hdd hk => ?_,
    fun d k hd hdd hk => ?_, fun d hd hdd => ?_, fun d hd hdd h0 => ?_, fun d e he => ?_, fun d e he => ?_⟩
  · obtain ⟨hd', hdd', hn⟩ := hdir d hd hdd
    rw [hn] at hk
    rw [(hsame d hd').slot hdd' k hk]
    exact h.dense d k hd' hdd' hk
  · obtain ⟨hd', hdd', hn⟩ := hdir d hd hdd
    exact htight d k hd' hdd' (hn ▸ hk)
  · obtain ⟨hd', hdd', hn⟩ := hdir d hd hdd
    rw [hn]
    exact h.short d hd' hdd'
  · obtain ⟨hd', hdd', hn⟩ := hdir d hd hdd
    rw [hn]
    exact htable d hd' hdd' h0
  · exact hhollow d e ((hentry d e).mp he)
  · exact hup d e ((hentry d e).mp he)

/-- All files are what they were, but for which directory they say they are in. -/
structure UpEdit (S : TreeShape) (T T' : BlockTree) : Prop where
  same : ∀ g, Known S T g → FileSame T { T' with up := T.up } g
  root : T'.up S.root = T.up S.root
  up : ∀ d e, Entry S T d e → T'.up e = T.up e ∨ T'.up e = d
  used : ∀ b, b < S.hi → (T'.used b ↔ T.used b)

theorem UpEdit.of_same (h : ∀ g, Known S T g → FileSame T T' g)
    (hused : ∀ b, b < S.hi → (T'.used b ↔ T.used b)) : UpEdit S T T' where
  same g hg :=
    have hs := h g hg
    ⟨hs.isDir, hs.named, hs.nblk, hs.ind, hs.slot, rfl⟩
  root := (h S.root (Or.inl rfl)).up
  up _ e he := Or.inl (h e he.known).up
  used := hused

theorem UpEdit.dirSame (h : UpEdit S T T') (hd : Live S T d) : DirSame S T T' d where
  isDir := (h.same d hd.known).isDir
  nblk _ := (h.same d hd.known).nblk
  slot _ k _ := (h.same d hd.known).slot k
  named hdir k j hk hj := (h.same _ (Or.inr ⟨d, hd, hdir, k, j, hk, hj, rfl⟩)).named

theorem UpEdit.live (h : UpEdit S T T') : Live S T' f ↔ Live S T f :=
  live_congr fun _ hd => h.dirSame hd

theorem UpEdit.entry (h : UpEdit S T T') : Entry S T' d e ↔ Entry S T d e :=
  entry_congr fun _ hd => h.dirSame hd

theorem UpEdit.known (h : UpEdit S T T') : Known S T' f ↔ Known S T f :=
  or_congr Iff.rfl (exists_congr fun _ => h.entry)

theorem UpEdit.val (h : UpEdit S T T') (hp : Known S T p.file) : T'.val p = T.val p := by
  cases p with
  | ind g => exact (h.same g hp).ind
  | slot g k => exact (h.same g hp).slot k

theorem UpEdit.refl (S : TreeShape) (T : BlockTree) : UpEdit S T T :=
  .of_same (fun _ _ => ⟨Iff.rfl, Iff.rfl, rfl, rfl, fun _ => rfl, rfl⟩) fun _ _ => Iff.rfl

theorem UpEdit.trans {T₁ : BlockTree} (h : UpEdit S T T₁) (h' : UpEdit S T₁ T') : UpEdit S T T' where
  same g hg :=
    have hs := h.same g hg
    have hs' := h'.same g (h.known.mpr hg)
    ⟨hs'.isDir.trans hs.isDir, hs'.named.trans hs.named, hs'.nblk.trans hs.nblk, hs'.ind.trans hs.ind,
      fun k => (hs'.slot k).trans (hs.slot k), rfl⟩
  root := h'.root.trans h.root
  up d e he := by
    rcases h'.up d e (h.entry.mpr he) with hup | hup
    · rw [hup]
      exact h.up d e he
    · exact Or.inr hup
  used b hb := (h'.used b hb).trans (h.used b hb)

theorem Wf.upEdit (h : Wf S T) (hedit : UpEdit S T T') : Wf S T' := by
  refine ⟨⟨fun b hlo hhi => (hedit.used b hhi).mpr (h.ptrs.low b hlo hhi), fun p hp h0 => ?_,
    fun p q hp hq h0 heq => ?_⟩, h.dirs.of_dirSame (fun _ hd => hedit.dirSame hd) ?_ ?_ ?_ ?_ ?_⟩
  · have hp' := hedit.known.mp hp
    rw [hedit.val hp'] at h0 ⊢
    obtain ⟨hlo, hhi, hu⟩ := h.ptrs.range p hp' h0
    exact ⟨hlo, hhi, (hedit.used _ hhi).mpr hu⟩
  · have hp' := hedit.known.mp hp
    have hq' := hedit.known.mp hq
    rw [hedit.val hp'] at h0 heq
    rw [hedit.val hq'] at heq
    exact h.ptrs.inj p q hp' hq' h0 heq
  · rw [hedit.root, h.dirs.rootUp]
  · intro d k hd hdir hk
    rw [(hedit.same d hd.known).slot]
    exact h.dirs.tight d k hd hdir hk
  · intro d hd hdir h0
    rw [(hedit.same d hd.known).ind] at h0
    exact h.dirs.table d hd hdir h0
  · intro d e he hname
    have hs := hedit.same e he.known
    rw [hs.nblk]
    exact h.dirs.hollow d e he fun hn => hname (hs.named.mpr hn)
  · intro d e he
    rcases hedit.up d e he with hup | hup
    · rw [hup]
      exact h.dirs.up d e he
    · exact Or.inr hup

/-- One file's size and pointers are edited. -/
structure FileEdit (S : TreeShape) (T T' : BlockTree) (f : Nat) : Prop where
  rest : Rest S T T' f
  isDir : T'.isDir f ↔ T.isDir f
  named : T'.named f ↔ T.named f
  up : T'.up f = T.up f

section FileEdit

variable (hedit : FileEdit S T T' f)

include hedit

theorem FileEdit.isDir_iff (hg : Known S T g) : T'.isDir g ↔ T.isDir g := by
  by_cases hgf : g = f
  · rw [hgf]
    exact hedit.isDir
  · exact (hedit.rest g hg hgf).isDir

theorem FileEdit.named_iff (hg : Known S T g) : T'.named g ↔ T.named g := by
  by_cases hgf : g = f
  · rw [hgf]
    exact hedit.named
  · exact (hedit.rest g hg hgf).named

theorem FileEdit.up_eq (hg : Known S T g) : T'.up g = T.up g := by
  by_cases hgf : g = f
  · rw [hgf]
    exact hedit.up
  · exact (hedit.rest g hg hgf).up

variable (hdir : ¬ T.isDir f)

include hdir

theorem FileEdit.dirSame (hd : Live S T d) : DirSame S T T' d := by
  have hne : T.isDir d → d ≠ f := by
    rintro hdd rfl
    exact hdir hdd
  exact ⟨hedit.isDir_iff hd.known, fun hdd => (hedit.rest d hd.known (hne hdd)).nblk,
    fun hdd k _ => (hedit.rest d hd.known (hne hdd)).slot k,
    fun hdd k j hk hj => hedit.named_iff (Or.inr ⟨d, hd, hdd, k, j, hk, hj, rfl⟩)⟩

theorem FileEdit.live : Live S T' g ↔ Live S T g := live_congr fun _ hd => hedit.dirSame hdir hd

theorem FileEdit.entry : Entry S T' d e ↔ Entry S T d e := entry_congr fun _ hd => hedit.dirSame hdir hd

theorem FileEdit.known : Known S T' g ↔ Known S T g :=
  or_congr Iff.rfl (exists_congr fun _ => hedit.entry hdir)

/-- A file that is no directory gets blocks or gives them back, or has its size set. -/
theorem Wf.fileEdit (h : Wf S T) (hf : Live S T f) (hptr : PtrEdit S T T' f) : Wf S T' := by
  have hne : ∀ {d}, T.isDir d → d ≠ f := by
    rintro d hdd rfl
    exact hdir hdd
  refine ⟨h.ptrs.edit hptr hf.known fun p hp hpf _ => ?_,
    h.dirs.of_dirSame (fun _ hd => hedit.dirSame hdir hd) ?_ ?_ ?_ ?_ ?_⟩
  · have hp' := (hedit.known hdir).mp hp
    exact ⟨hp', hedit.rest.val hp' hpf⟩
  · rw [hedit.up_eq (Or.inl rfl), h.dirs.rootUp]
  · intro d k hd hdd hk
    rw [(hedit.rest d hd.known (hne hdd)).slot]
    exact h.dirs.tight d k hd hdd hk
  · intro d hd hdd h0
    rw [(hedit.rest d hd.known (hne hdd)).ind] at h0
    exact h.dirs.table d hd hdd h0
  · intro d e he hname
    have hname' : ¬ T.named e := fun hn => hname ((hedit.named_iff he.known).mpr hn)
    have hef : e ≠ f := by
      rintro rfl
      exact h.not_live he hname' hf
    rw [(hedit.rest e he.known hef).nblk]
    exact h.dirs.hollow d e he hname'
  · intro d e he
    rw [hedit.up_eq he.known]
    exact h.dirs.up d e he

end FileEdit

/-! ## A file that gets a name -/

/-- Entry `e` gets a name and a type; nothing else of it is edited. -/
structure Naming (S : TreeShape) (T T' : BlockTree) (e : Nat) : Prop where
  rest : Rest S T T' e
  named : T'.named e
  nblk : T'.nblk e = 0
  ind : T'.ind e = T.ind e
  slot : ∀ k, T'.slot e k = T.slot e k
  up : T'.up e = T.up e
  used : ∀ b, b < S.hi → T.used b → T'.used b
  /-- A directory is made only where there are no pointers. -/
  clear : T'.isDir e → T.ind e = 0 ∧ ∀ k, T.slot e k = 0

section Naming

variable (h : Wf S T) (hn : Naming S T T' e) (he : Entry S T d e) (hfree : ¬ T.named e)

include h hn he hfree

/-- The file that got the name is the only one that is new. -/
theorem Naming.live : Live S T' g ↔ Live S T g ∨ g = e := by
  have hne : ∀ {d}, Live S T d → d ≠ e := by
    rintro d hd rfl
    exact h.not_live he hfree hd
  constructor
  · intro hg
    induction hg with
    | root => exact Or.inl .root
    | @entry d' k j hd' hdir hk hj hname ih =>
        have hd : Live S T d' := by
          refine ih.resolve_right ?_
          rintro rfl
          rw [hn.nblk] at hk
          exact absurd hk (Nat.not_lt_zero k)
        have hs := hn.rest d' hd.known (hne hd)
        rw [hs.slot] at hname ⊢
        have hdir' := hs.isDir.mp hdir
        have hk' : k < T.nblk d' := hs.nblk ▸ hk
        have hent : Entry S T d' (S.entry (T.slot d' k) j) := ⟨hd, hdir', k, j, hk', hj, rfl⟩
        by_cases heq : S.entry (T.slot d' k) j = e
        · exact Or.inr heq
        · exact Or.inl (hent.live ((hn.rest _ hent.known heq).named.mp hname))
  · have hup : ∀ {g}, Live S T g → Live S T' g := by
      intro g hg
      induction hg with
      | root => exact .root
      | @entry d' k j hd hdir hk hj hname ih =>
          have hs := hn.rest d' hd.known (hne hd)
          have hlive : Live S T (S.entry (T.slot d' k) j) := .entry hd hdir hk hj hname
          have hname' := (hn.rest _ hlive.known (hne hlive)).named.mpr hname
          rw [← hs.slot] at hname' ⊢
          exact .entry ih (hs.isDir.mpr hdir) (by rwa [hs.nblk]) hj hname'
    rintro (hg | rfl)
    · exact hup hg
    · obtain ⟨hd, hdir, k, j, hk, hj, rfl⟩ := he
      have hs := hn.rest d hd.known (hne hd)
      have hname' := hn.named
      rw [← hs.slot] at hname' ⊢
      exact .entry (hup hd) (hs.isDir.mpr hdir) (by rwa [hs.nblk]) hj hname'

theorem Naming.entry {d' g : Nat} : Entry S T' d' g ↔ Entry S T d' g := by
  constructor
  · rintro ⟨hd, hdir, k, j, hk, hj, rfl⟩
    have hd' : Live S T d' := by
      refine ((hn.live h he hfree).mp hd).resolve_right ?_
      rintro rfl
      rw [hn.nblk] at hk
      exact absurd hk (Nat.not_lt_zero k)
    have hs := hn.rest d' hd'.known fun heq => h.not_live he hfree (heq ▸ hd')
    exact ⟨hd', hs.isDir.mp hdir, k, j, hs.nblk ▸ hk, hj, by rw [hs.slot]⟩
  · rintro ⟨hd, hdir, k, j, hk, hj, rfl⟩
    have hs := hn.rest d' hd.known fun heq => h.not_live he hfree (heq ▸ hd)
    exact ⟨(hn.live h he hfree).mpr (Or.inl hd), hs.isDir.mpr hdir, k, j, by rwa [hs.nblk], hj,
      by rw [hs.slot]⟩

theorem Wf.naming (hslots : 1 < S.nslots) : Wf S T' := by
  have hent : ∀ {d g}, Entry S T' d g ↔ Entry S T d g := hn.entry h he hfree
  have hlive : ∀ {g}, Live S T' g ↔ Live S T g ∨ g = e := hn.live h he hfree
  have hknown : ∀ {g}, Known S T' g ↔ Known S T g :=
    or_congr Iff.rfl (exists_congr fun _ => hent)
  have hne : ∀ {d}, Live S T d → d ≠ e := by
    rintro d hd rfl
    exact h.not_live he hfree hd
  have hroot := hn.rest S.root (Or.inl rfl) (hne .root)
  have hsame : ∀ {p}, p.file = e → T'.val p = T.val p := by
    rintro (g | ⟨g, k⟩) rfl
    · exact hn.ind
    · exact hn.slot k
  refine ⟨h.ptrs.edit (.of_sub h.ptrs he.known (fun p hp => Or.inl (hsame hp))
    fun b hb hu => Or.inl (hn.used b hb hu)) he.known fun p hp hpe _ => ?_,
    ⟨hroot.isDir.mpr h.dirs.rootDir, hroot.up.trans h.dirs.rootUp, fun d k hd hdir hk => ?_,
      fun d k hd hdir hk => ?_, fun d hd hdir => ?_, fun d hd hdir h0 => ?_, fun d g hg hname => ?_,
      fun d g hg => ?_⟩⟩
  · exact ⟨hknown.mp hp, hn.rest.val (hknown.mp hp) hpe⟩
  · rcases hlive.mp hd with hd | rfl
    · have hs := hn.rest d hd.known (hne hd)
      rw [hs.slot]
      exact h.dirs.dense d k hd (hs.isDir.mp hdir) (hs.nblk ▸ hk)
    · rw [hn.nblk] at hk
      exact absurd hk (Nat.not_lt_zero k)
  · rcases hlive.mp hd with hd | rfl
    · have hs := hn.rest d hd.known (hne hd)
      rw [hs.slot]
      exact h.dirs.tight d k hd (hs.isDir.mp hdir) (hs.nblk ▸ hk)
    · rw [hn.slot]
      exact (hn.clear hdir).2 k
  · rcases hlive.mp hd with hd | rfl
    · have hs := hn.rest d hd.known (hne hd)
      rw [hs.nblk]
      exact h.dirs.short d hd (hs.isDir.mp hdir)
    · rw [hn.nblk]
      exact hslots
  · rcases hlive.mp hd with hd | rfl
    · have hs := hn.rest d hd.known (hne hd)
      rw [hs.ind] at h0
      rw [hs.nblk]
      exact h.dirs.table d hd (hs.isDir.mp hdir) h0
    · rw [hn.ind] at h0
      exact absurd (hn.clear hdir).1 h0
  · by_cases hge : g = e
    · rw [hge]
      exact hn.nblk
    · have hs := hn.rest g (hent.mp hg).known hge
      rw [hs.nblk]
      exact h.dirs.hollow d g (hent.mp hg) fun hnm => hname (hs.named.mpr hnm)
  · by_cases hge : g = e
    · rw [hge, hn.up]
      exact h.dirs.up d e (hge ▸ hent.mp hg)
    · rw [(hn.rest g (hent.mp hg).known hge).up]
      exact h.dirs.up d g (hent.mp hg)

end Naming

/-! ## A directory that gets a block -/

/-- Directory `d` gets block `b`, in which no file has a name. -/
structure Growth (S : TreeShape) (T T' : BlockTree) (d b : Nat) : Prop where
  rest : Rest S T T' d
  isDir : T'.isDir d ↔ T.isDir d
  named : T'.named d ↔ T.named d
  up : T'.up d = T.up d
  nblk : T'.nblk d = T.nblk d + 1
  old : ∀ k, k < T.nblk d → T'.slot d k = T.slot d k
  new : T'.slot d (T.nblk d) = b
  tight : ∀ k, T.nblk d < k → T'.slot d k = 0
  table : T'.ind d ≠ 0 → S.ndirect < T.nblk d + 1
  short : T.nblk d + 2 < S.nslots
  ne : b ≠ 0
  free : ¬ T.used b
  blank : ∀ j, j < S.perBlock → ¬ T'.named (S.entry b j) ∧ T'.nblk (S.entry b j) = 0 ∧
    (∀ p, p.file = S.entry b j → T'.val p = 0) ∧ T'.up (S.entry b j) = 0

section Growth

variable (h : Wf S T) (hgr : Growth S T T' d b) (hd : Live S T d) (hdir : T.isDir d)

include h hgr

/-- A file in the new block was not known before. -/
theorem Growth.entry_ne (hg : Known S T g) (hj : j < S.perBlock) : g = S.entry b j → g = S.root := by
  intro heq
  rcases hg with hroot | ⟨d', hent⟩
  · exact hroot
  · obtain ⟨k', j', -, hj', heq', h0, -, -⟩ := h.place hent
    obtain ⟨hslot, -⟩ := S.entry_inj hj' hj (heq'.symm.trans heq)
    have hu := (h.ptrs.range (.slot d' k') hent.1.known h0).2.2
    have hval : T.val (.slot d' k') = b := hslot
    rw [hval] at hu
    exact absurd hu hgr.free

include hd hdir

theorem Growth.live : Live S T' g ↔ Live S T g := by
  have hsame : ∀ {d'}, Live S T d' → (T'.isDir d' ↔ T.isDir d') := by
    intro d' hd'
    by_cases hdd : d' = d
    · rw [hdd]
      exact hgr.isDir
    · exact (hgr.rest d' hd'.known hdd).isDir
  have hname : ∀ {e}, Known S T e → (T'.named e ↔ T.named e) := by
    intro e he
    by_cases hed : e = d
    · rw [hed]
      exact hgr.named
    · exact (hgr.rest e he hed).named
  constructor
  · intro hg
    induction hg with
    | root => exact .root
    | @entry d' k j _ hdir' hk hj hnm hd' =>
        have hdir₀ := (hsame hd').mp hdir'
        by_cases hdd : d' = d
        · subst hdd
          rw [hgr.nblk] at hk
          by_cases hlast : k = T.nblk d'
          · rw [hlast, hgr.new] at hnm
            exact absurd hnm (hgr.blank j hj).1
          · have hk' : k < T.nblk d' := by omega
            rw [hgr.old k hk'] at hnm ⊢
            exact .entry hd' hdir₀ hk' hj
              ((hname (Or.inr ⟨d', hd', hdir₀, k, j, hk', hj, rfl⟩)).mp hnm)
        · have hs := hgr.rest d' hd'.known hdd
          have hk' : k < T.nblk d' := hs.nblk ▸ hk
          rw [hs.slot] at hnm ⊢
          exact .entry hd' hdir₀ hk' hj
            ((hname (Or.inr ⟨d', hd', hdir₀, k, j, hk', hj, rfl⟩)).mp hnm)
  · intro hg
    induction hg with
    | root => exact .root
    | @entry d' k j hd' hdir' hk hj hnm ih =>
        have hnm' := (hname (Or.inr ⟨d', hd', hdir', k, j, hk, hj, rfl⟩)).mpr hnm
        have hdir₁ := (hsame hd').mpr hdir'
        by_cases hdd : d' = d
        · subst hdd
          rw [← hgr.old k hk] at hnm' ⊢
          exact .entry ih hdir₁ (by rw [hgr.nblk]; omega) hj hnm'
        · have hs := hgr.rest d' hd'.known hdd
          rw [← hs.slot] at hnm' ⊢
          exact .entry ih hdir₁ (by rwa [hs.nblk]) hj hnm'

theorem Growth.entry {d' g : Nat} : Entry S T' d' g ↔
    Entry S T d' g ∨ (d' = d ∧ ∃ j, j < S.perBlock ∧ g = S.entry b j) := by
  have hlive : ∀ {g}, Live S T' g ↔ Live S T g := hgr.live h hd hdir
  constructor
  · rintro ⟨hd', hdir', k, j, hk, hj, rfl⟩
    have hd₀ := hlive.mp hd'
    by_cases hdd : d' = d
    · subst hdd
      rw [hgr.nblk] at hk
      by_cases hlast : k = T.nblk d'
      · rw [hlast, hgr.new]
        exact Or.inr ⟨rfl, j, hj, rfl⟩
      · have hk' : k < T.nblk d' := by omega
        exact Or.inl ⟨hd₀, hdir, k, j, hk', hj, by rw [hgr.old k hk']⟩
    · have hs := hgr.rest d' hd₀.known hdd
      exact Or.inl ⟨hd₀, hs.isDir.mp hdir', k, j, hs.nblk ▸ hk, hj, by rw [hs.slot]⟩
  · rintro (⟨hd', hdir', k, j, hk, hj, rfl⟩ | ⟨rfl, j, hj, rfl⟩)
    · by_cases hdd : d' = d
      · subst hdd
        exact ⟨hlive.mpr hd', hgr.isDir.mpr hdir', k, j, by rw [hgr.nblk]; omega, hj,
          by rw [hgr.old k hk]⟩
      · have hs := hgr.rest d' hd'.known hdd
        exact ⟨hlive.mpr hd', hs.isDir.mpr hdir', k, j, by rwa [hs.nblk], hj, by rw [hs.slot]⟩
    · exact ⟨hlive.mpr hd, hgr.isDir.mpr hdir, T.nblk d', j, by rw [hgr.nblk]; omega, hj,
        by rw [hgr.new]⟩

theorem Wf.growth (hptr : PtrEdit S T T' d) : Wf S T' := by
  have hlive : ∀ {g}, Live S T' g ↔ Live S T g := hgr.live h hd hdir
  have hent : ∀ {d' g}, Entry S T' d' g ↔ _ := fun {d' g} => hgr.entry h hd hdir
  have hsame : ∀ {d'}, Live S T' d' → T'.isDir d' → Live S T d' ∧ T.isDir d' := by
    intro d' hd' hdir'
    have hd₀ := hlive.mp hd'
    by_cases hdd : d' = d
    · exact ⟨hd₀, hdd ▸ hdir⟩
    · exact ⟨hd₀, (hgr.rest d' hd₀.known hdd).isDir.mp hdir'⟩
  have hroot : T'.isDir S.root ∧ T'.up S.root = T.up S.root := by
    by_cases hrd : S.root = d
    · rw [hrd]
      exact ⟨hgr.isDir.mpr hdir, hgr.up⟩
    · have hs := hgr.rest S.root (Or.inl rfl) hrd
      exact ⟨hs.isDir.mpr h.dirs.rootDir, hs.up⟩
  refine ⟨h.ptrs.edit hptr hd.known fun p hp hpd h0 => ?_,
    ⟨hroot.1, hroot.2.trans h.dirs.rootUp, fun d' k hd' hdir' hk => ?_, fun d' k hd' hdir' hk => ?_,
      fun d' hd' hdir' => ?_, fun d' hd' hdir' h0 => ?_, fun d' g hg hname => ?_, fun d' g hg => ?_⟩⟩
  · have hold : Known S T p.file := by
      rcases hp with hroot | ⟨d', hp⟩
      · exact Or.inl hroot
      · rcases hent.mp hp with hp | ⟨-, j, hj, heq⟩
        · exact hp.known
        · exact absurd ((hgr.blank j hj).2.2.1 p heq) h0
    exact ⟨hold, hgr.rest.val hold hpd⟩
  · obtain ⟨hd₀, hdir₀⟩ := hsame hd' hdir'
    by_cases hdd : d' = d
    · subst hdd
      rw [hgr.nblk] at hk
      by_cases hlast : k = T.nblk d'
      · rw [hlast, hgr.new]
        exact hgr.ne
      · rw [hgr.old k (by omega)]
        exact h.dirs.dense d' k hd₀ hdir₀ (by omega)
    · have hs := hgr.rest d' hd₀.known hdd
      rw [hs.slot]
      exact h.dirs.dense d' k hd₀ hdir₀ (hs.nblk ▸ hk)
  · obtain ⟨hd₀, hdir₀⟩ := hsame hd' hdir'
    by_cases hdd : d' = d
    · subst hdd
      rw [hgr.nblk] at hk
      exact hgr.tight k hk
    · have hs := hgr.rest d' hd₀.known hdd
      rw [hs.slot]
      exact h.dirs.tight d' k hd₀ hdir₀ (hs.nblk ▸ hk)
  · obtain ⟨hd₀, hdir₀⟩ := hsame hd' hdir'
    by_cases hdd : d' = d
    · rw [hdd, hgr.nblk]
      exact hgr.short
    · rw [(hgr.rest d' hd₀.known hdd).nblk]
      exact h.dirs.short d' hd₀ hdir₀
  · obtain ⟨hd₀, hdir₀⟩ := hsame hd' hdir'
    by_cases hdd : d' = d
    · subst hdd
      rw [hgr.nblk]
      exact hgr.table h0
    · have hs := hgr.rest d' hd₀.known hdd
      rw [hs.ind] at h0
      rw [hs.nblk]
      exact h.dirs.table d' hd₀ hdir₀ h0
  · rcases hent.mp hg with hg | ⟨-, j, hj, rfl⟩
    · have hgd : g ≠ d := by
        rintro rfl
        exact h.not_live hg (fun hn => hname (hgr.named.mpr hn)) hd
      have hs := hgr.rest g hg.known hgd
      rw [hs.nblk]
      exact h.dirs.hollow d' g hg fun hn => hname (hs.named.mpr hn)
    · exact (hgr.blank j hj).2.1
  · rcases hent.mp hg with hg | ⟨-, j, hj, rfl⟩
    · by_cases hgd : g = d
      · rw [hgd, hgr.up]
        exact h.dirs.up d' d (hgd ▸ hg)
      · rw [(hgr.rest g hg.known hgd).up]
        exact h.dirs.up d' g hg
    · exact Or.inl (hgr.blank j hj).2.2.2

end Growth

/-! ## A file that loses its name -/

/-- File `f` itself, and what is in it. -/
inductive Under (S : TreeShape) (T : BlockTree) (f : Nat) : Nat → Prop
  | refl : Under S T f f
  | entry {d e : Nat} (h : Under S T f d) (he : Entry S T d e) : Under S T f e

theorem Under.trans (h : Under S T f g) (h' : Under S T g e) : Under S T f e := by
  induction h' with
  | refl => exact h
  | entry _ he ih => exact .entry ih he

/-- File `f` loses its name and its blocks. -/
structure Removal (S : TreeShape) (T T' : BlockTree) (f : Nat) : Prop where
  rest : Rest S T T' f
  named : ¬ T'.named f
  nblk : T'.nblk f = 0
  up : T'.up f = T.up f

section Removal

variable (h : Wf S T) (hr : Removal S T T' f) (hf : Entry S T d f)

include h

/-- No directory is under a file that stands in it. -/
theorem Wf.not_under (hd : Live S T d) (he : Entry S T d e) : ¬ Under S T e d := by
  induction hd generalizing e with
  | root =>
      intro hu
      cases hu with
      | refl => exact h.entry_ne_root he rfl
      | entry _ hroot => exact h.entry_ne_root hroot rfl
  | @entry d' k j hd' hdir hk hj hname ih =>
      have hin : Entry S T d' (S.entry (T.slot d' k) j) := ⟨hd', hdir, k, j, hk, hj, rfl⟩
      intro hu
      -- Then the directory above would be under this one as well.
      refine ih hin ?_
      generalize hg : S.entry (T.slot d' k) j = g at *
      cases hu with
      | refl =>
          rw [h.entry_unique hin he]
          exact .refl
      | entry hu' hup =>
          rw [h.entry_unique hin hup]
          exact (Under.entry .refl he).trans hu'

theorem Wf.entry_irrefl (hd : Live S T d) : ¬ Entry S T d d := fun he => h.not_under hd he .refl

include hr hf

theorem Removal.not_live : ¬ Live S T' f := fun hlive =>
  hlive.named_or_root.elim hr.named (h.entry_ne_root hf)

/-- What is there afterwards was there before. -/
theorem Removal.live (hg : Live S T' g) : Live S T g ∧ g ≠ f := by
  refine ⟨?_, fun heq => hr.not_live h hf (heq ▸ hg)⟩
  induction hg with
  | root => exact .root
  | @entry d' k j hd' hdir hk hj hname ih =>
      have hs := hr.rest d' ih.known fun heq => hr.not_live h hf (heq ▸ hd')
      rw [hs.slot] at hname ⊢
      have hdir' := hs.isDir.mp hdir
      have hk' : k < T.nblk d' := hs.nblk ▸ hk
      have hent : Entry S T d' (S.entry (T.slot d' k) j) := ⟨ih, hdir', k, j, hk', hj, rfl⟩
      have hne : S.entry (T.slot d' k) j ≠ f := fun heq => hr.named (heq ▸ hname)
      exact hent.live ((hr.rest _ hent.known hne).named.mp hname)

/-- Gone are the file and all that is in it. -/
theorem Removal.live_iff : Live S T' g ↔ Live S T g ∧ ¬ Under S T f g := by
  constructor
  · intro hg
    refine ⟨(hr.live h hf hg).1, ?_⟩
    induction hg with
    | root =>
        intro hu
        cases hu with
        | refl => exact h.entry_ne_root hf rfl
        | entry _ hroot => exact h.entry_ne_root hroot rfl
    | @entry d' k j hd' hdir hk hj hname ih =>
        obtain ⟨hd₀, hne⟩ := hr.live h hf hd'
        obtain ⟨-, hne'⟩ := hr.live h hf (.entry hd' hdir hk hj hname)
        have hs := hr.rest d' hd₀.known hne
        rw [hs.slot] at hne' ⊢
        have hin : Entry S T d' (S.entry (T.slot d' k) j) :=
          ⟨hd₀, hs.isDir.mp hdir, k, j, hs.nblk ▸ hk, hj, rfl⟩
        intro hu
        generalize hge : S.entry (T.slot d' k) j = e at *
        cases hu with
        | refl => exact hne' rfl
        | entry hu' hup =>
            rw [← h.entry_unique hin hup] at hu'
            exact ih hu'
  · rintro ⟨hg, hout⟩
    induction hg with
    | root => exact .root
    | @entry d' k j hd hdir hk hj hname ih =>
        have hlive : Live S T (S.entry (T.slot d' k) j) := .entry hd hdir hk hj hname
        have hin : Entry S T d' (S.entry (T.slot d' k) j) := ⟨hd, hdir, k, j, hk, hj, rfl⟩
        have hd' := ih fun hu => hout (hu.entry hin)
        have hs := hr.rest d' hd.known fun heq => hout (heq ▸ Under.refl.entry hin)
        have hname' := (hr.rest _ hlive.known fun heq => hout (heq ▸ Under.refl)).named.mpr hname
        rw [← hs.slot] at hname' ⊢
        exact .entry hd' (hs.isDir.mpr hdir) (by rwa [hs.nblk]) hj hname'

theorem Removal.entry {d' : Nat} (hg : Entry S T' d' g) : Entry S T d' g := by
  obtain ⟨hd', hdir, k, j, hk, hj, rfl⟩ := hg
  obtain ⟨hd₀, hne⟩ := hr.live h hf hd'
  have hs := hr.rest d' hd₀.known hne
  exact ⟨hd₀, hs.isDir.mp hdir, k, j, hs.nblk ▸ hk, hj, by rw [hs.slot]⟩

theorem Wf.removal (hptr : PtrEdit S T T' f) : Wf S T' := by
  have hlive : ∀ {g}, Live S T' g → Live S T g ∧ FileSame T T' g := by
    intro g hg
    obtain ⟨hg₀, hne⟩ := hr.live h hf hg
    exact ⟨hg₀, hr.rest g hg₀.known hne⟩
  have hroot := hr.rest S.root (Or.inl rfl) (h.entry_ne_root hf).symm
  refine ⟨h.ptrs.edit hptr hf.known fun p hp hpf _ => ?_,
    ⟨hroot.isDir.mpr h.dirs.rootDir, hroot.up.trans h.dirs.rootUp, fun d' k hd' hdir hk => ?_,
      fun d' k hd' hdir hk => ?_, fun d' hd' hdir => ?_, fun d' hd' hdir h0 => ?_,
      fun d' g hg hname => ?_, fun d' g hg => ?_⟩⟩
  · have hold : Known S T p.file := hp.imp id fun ⟨d', he⟩ => ⟨d', hr.entry h hf he⟩
    exact ⟨hold, hr.rest.val hold hpf⟩
  · obtain ⟨hd₀, hs⟩ := hlive hd'
    rw [hs.slot]
    exact h.dirs.dense d' k hd₀ (hs.isDir.mp hdir) (hs.nblk ▸ hk)
  · obtain ⟨hd₀, hs⟩ := hlive hd'
    rw [hs.slot]
    exact h.dirs.tight d' k hd₀ (hs.isDir.mp hdir) (hs.nblk ▸ hk)
  · obtain ⟨hd₀, hs⟩ := hlive hd'
    rw [hs.nblk]
    exact h.dirs.short d' hd₀ (hs.isDir.mp hdir)
  · obtain ⟨hd₀, hs⟩ := hlive hd'
    rw [hs.ind] at h0
    rw [hs.nblk]
    exact h.dirs.table d' hd₀ (hs.isDir.mp hdir) h0
  · have hg₀ := hr.entry h hf hg
    by_cases hgf : g = f
    · rw [hgf]
      exact hr.nblk
    · have hs := hr.rest g hg₀.known hgf
      rw [hs.nblk]
      exact h.dirs.hollow d' g hg₀ fun hn => hname (hs.named.mpr hn)
  · have hg₀ := hr.entry h hf hg
    by_cases hgf : g = f
    · rw [hgf, hr.up]
      exact h.dirs.up d' f (hgf ▸ hg₀)
    · rw [(hr.rest g hg₀.known hgf).up]
      exact h.dirs.up d' g hg₀

end Removal

end BlockTree

end RpiMos.Lib
