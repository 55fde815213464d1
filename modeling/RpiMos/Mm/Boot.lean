/-
  RpiMos.Mm.Boot

  The allocator state after `init_boot_pt`, and `env_setup_vm`: which pages are
  in use, what the boot count of each is, and that a new page directory joins
  the forest of tables with exact counts.
-/

import RpiMos.Mm.PageOps

namespace RpiMos

open Lib RadixShape

variable {s s' s₁ : Pmap} {dirs : Finset Nat} {boot : Nat → Nat} {d pp : Nat} {va : Word}

/-! ## The loops of `init_boot_pt` -/

/-- A loop whose turn `i` rewrites only page `i`. -/
theorem foldl_pages {f : Pmap → Nat → Pmap} {g : Nat → Page → Page}
    (hf : ∀ s i q, (f s i).pages q = if q = i then g i (s.pages q) else s.pages q)
    (s : Pmap) (n q : Nat) :
    ((List.range n).foldl f s).pages q = if q < n then g q (s.pages q) else s.pages q := by
  induction n with
  | zero => simp
  | succ n ih =>
      rw [List.range_succ, List.foldl_append, List.foldl_cons, List.foldl_nil, hf, ih]
      by_cases hq : q = n
      · subst hq
        simp
      · have hiff : q < n + 1 ↔ q < n := by omega
        simp [hq, hiff]

/-- A loop whose turn `i` sets at most the bit of page `i`. -/
theorem foldl_visBit {f : Pmap → Nat → Pmap} {c : Nat → Bool}
    (hf : ∀ s i q, visBit (f s i) q = (visBit s q || (c i && decide (q = i))))
    (s : Pmap) (n q : Nat) :
    visBit ((List.range n).foldl f s) q = (visBit s q || (c q && decide (q < n))) := by
  induction n with
  | zero => simp
  | succ n ih =>
      rw [List.range_succ, List.foldl_append, List.foldl_cons, List.foldl_nil, hf, ih]
      by_cases hq : q = n
      · subst hq
        simp
      · have hiff : q < n + 1 ↔ q < n := by omega
        simp [hq, hiff]

theorem visBit_markUsed (s : Pmap) (i q : Nat) :
    visBit (markUsed s i) q = (visBit s q || decide (q = i)) := by
  have hmask : i &&& 63 = i % 64 := Nat.and_two_pow_sub_one_eq_mod i 6
  have hdiv : i >>> 6 = i / 64 := Nat.shiftRight_eq_div_pow i 6
  rw [visBit, markUsed, hdiv, hmask]
  simp only [Pmap.setVis]
  split
  case isTrue h =>
    rw [BitVec.getLsbD_or, ← h, ← visBit]
    congr 1
    have hlt : q % 64 < 64 := Nat.mod_lt _ (by decide)
    have hiff : q = i ↔ q % 64 = i % 64 := by omega
    have hdec : decide (q = i) = decide (q % 64 = i % 64) := decide_eq_decide.mpr hiff
    rw [BitVec.getLsbD_shiftLeft, hdec]
    by_cases heq : q % 64 = i % 64
    · simp [heq, Nat.mod_lt i (show 64 > 0 by decide)]
    · by_cases hlt' : q % 64 < i % 64
      · simp [heq, hlt']
      · have hne : q % 64 - i % 64 ≠ 0 := by omega
        simp [heq, hne]
  case isFalse h =>
    have hne : q ≠ i := by
      rintro rfl
      exact h rfl
    simp [hne, visBit]

theorem initBootCode_pages (s : Pmap) (i q : Nat) :
    (initBootCode s i).pages q =
      if q = i then
        (if i > 0 then ⟨(s.pages q).pa ||| UXN, (s.pages q).ref + 1⟩ else s.pages q)
      else s.pages q := by
  unfold initBootCode
  by_cases hi : i > 0 <;> by_cases hq : q = i <;>
    simp [hi, hq, markUsed, Pmap.incRef, Pmap.setRef]

theorem initImage_pages (initEnd imgEnd : Nat) (s : Pmap) (i q : Nat) :
    (initImage initEnd imgEnd s i).pages q =
      if q = i then
        (if (initEnd >>> 12 ≤ i ∧ i < imgEnd >>> 12) ∨ i ≥ PERIPHERAL_BASE >>> 12 then
          ⟨(s.pages q).pa, (s.pages q).ref + 1⟩ else s.pages q)
      else s.pages q := by
  unfold initImage
  split <;> by_cases hq : q = i <;> simp [hq, markUsed, Pmap.incRef, Pmap.setRef]

theorem initBootCode_visBit (s : Pmap) (i q : Nat) :
    visBit (initBootCode s i) q = (visBit s q || (true && decide (q = i))) := by
  rw [Bool.true_and, ← visBit_markUsed]
  unfold initBootCode
  split <;> rfl

theorem initImage_visBit (initEnd imgEnd : Nat) (s : Pmap) (i q : Nat) :
    visBit (initImage initEnd imgEnd s i) q = (visBit s q ||
      (decide ((initEnd >>> 12 ≤ i ∧ i < imgEnd >>> 12) ∨ i ≥ PERIPHERAL_BASE >>> 12) &&
        decide (q = i))) := by
  unfold initImage
  split
  case isTrue h =>
    rw [decide_eq_true h, Bool.true_and, ← visBit_markUsed]
    rfl
  case isFalse h => rw [decide_eq_false h, Bool.false_and, Bool.or_false]

/-! ## The state after boot -/

/-- The page belongs to the boot code. -/
def inBootCode (initEnd q : Nat) : Prop := q < initEnd / BY2PG

/-- The page belongs to the kernel image or to the peripherals. -/
def inImage (initEnd imgEnd q : Nat) : Prop :=
  q < NPAGE ∧ ((initEnd >>> 12 ≤ q ∧ q < imgEnd >>> 12) ∨ q ≥ PERIPHERAL_BASE >>> 12)

instance (initEnd q : Nat) : Decidable (inBootCode initEnd q) := by
  unfold inBootCode; infer_instance

instance (initEnd imgEnd q : Nat) : Decidable (inImage initEnd imgEnd q) := by
  unfold inImage; infer_instance

variable {initEnd imgEnd : Nat} {mem₀ : Nat → Nat → Word}

/-- The boot count of a page: its `ref` when `init_boot_pt` returns. -/
def bootCount (initEnd imgEnd : Nat) (mem₀ : Nat → Nat → Word) (p : Nat) : Nat :=
  ((initBootPt initEnd imgEnd mem₀).pages p).ref.toNat

theorem bootCodeLoop_pages (s : Pmap) (n q : Nat) :
    ((List.range n).foldl initBootCode s).pages q =
      if q < n ∧ q > 0 then ⟨(s.pages q).pa ||| UXN, (s.pages q).ref + 1⟩ else s.pages q := by
  rw [foldl_pages (g := fun i pg => if i > 0 then ⟨pg.pa ||| UXN, pg.ref + 1⟩ else pg)
    initBootCode_pages]
  by_cases h₁ : q < n <;> by_cases h₀ : q > 0 <;> simp [h₁, h₀]

theorem imageLoop_pages (initEnd imgEnd : Nat) (s : Pmap) (n q : Nat) :
    ((List.range n).foldl (initImage initEnd imgEnd) s).pages q =
      if q < n ∧ ((initEnd >>> 12 ≤ q ∧ q < imgEnd >>> 12) ∨ q ≥ PERIPHERAL_BASE >>> 12) then
        ⟨(s.pages q).pa, (s.pages q).ref + 1⟩ else s.pages q := by
  rw [foldl_pages (g := fun i pg => if (initEnd >>> 12 ≤ i ∧ i < imgEnd >>> 12) ∨
      i ≥ PERIPHERAL_BASE >>> 12 then ⟨pg.pa, pg.ref + 1⟩ else pg) (initImage_pages initEnd imgEnd)]
  by_cases h₁ : q < n <;>
    by_cases h₃ : (initEnd >>> 12 ≤ q ∧ q < imgEnd >>> 12) ∨ q ≥ PERIPHERAL_BASE >>> 12 <;>
    simp [h₁, h₃]

theorem initBootPt_eq : initBootPt initEnd imgEnd mem₀ =
    (List.range NPAGE).foldl (initImage initEnd imgEnd)
      ((List.range (initEnd / BY2PG)).foldl initBootCode
        { mem := mem₀, pages := fun i => ⟨initPa i, 0⟩, vis := fun _ => 0 }) := rfl

theorem initBootPt_pages (q : Nat) :
    (initBootPt initEnd imgEnd mem₀).pages q =
      ⟨initPa q ||| (if inBootCode initEnd q ∧ q > 0 then UXN else 0),
        (if inBootCode initEnd q ∧ q > 0 then 1 else 0) +
        (if inImage initEnd imgEnd q then 1 else 0)⟩ := by
  rw [initBootPt_eq, imageLoop_pages, bootCodeLoop_pages]
  unfold inBootCode inImage
  split <;> split <;> simp_all

theorem initBootPt_visBit (q : Nat) :
    visBit (initBootPt initEnd imgEnd mem₀) q =
      decide (inBootCode initEnd q ∨ inImage initEnd imgEnd q) := by
  rw [initBootPt_eq, foldl_visBit (c := fun i => decide ((initEnd >>> 12 ≤ i ∧ i < imgEnd >>> 12) ∨
    i ≥ PERIPHERAL_BASE >>> 12)) (initImage_visBit initEnd imgEnd),
    foldl_visBit (c := fun _ => true) initBootCode_visBit]
  have h0 : visBit { mem := mem₀, pages := fun i => ⟨initPa i, 0⟩, vis := fun _ => 0 } q = false := by
    simp [visBit]
  rw [h0, Bool.false_or, Bool.true_and]
  unfold inBootCode inImage
  by_cases h₁ : q < initEnd / BY2PG <;> by_cases h₂ : q < NPAGE <;> simp [h₁, h₂]

theorem bootCount_le (p : Nat) : bootCount initEnd imgEnd mem₀ p ≤ 2 := by
  unfold bootCount
  rw [initBootPt_pages]
  by_cases h₁ : inBootCode initEnd p ∧ p > 0 <;> by_cases h₂ : inImage initEnd imgEnd p <;>
    simp [h₁, h₂]

/-- The attribute bits that `init_boot_pt` gives page `i`. -/
def bootAttr (i : Nat) (uxn : Bool) : Word :=
  VALID ||| TABLE ||| ACCESSED ||| (if i <<< 12 ≥ PERIPHERAL_BASE
    then OUTER_SHARABLE ||| DEVICE_MEMORY else INNER_SHARABLE ||| NORMAL_MEMORY) |||
    (if uxn then UXN else 0)

/-- They lie outside the address, and `perm` is free to add its own. -/
theorem bootAttr_clear (i : Nat) (b : Bool) :
    PTE_ADDR (bootAttr i b) = 0 ∧ isValid (bootAttr i b) = true ∧
      bootAttr i b &&& highAddrBits = 0 ∧ bootAttr i b &&& permBits = 0 := by
  unfold bootAttr
  split <;> cases b <;> decide

theorem toNat_ofNat_shift {i : Nat} (hi : i < NPAGE) :
    (BitVec.ofNat 64 (i <<< 12)).toNat = i * 4096 := by
  rw [NPAGE] at hi
  rw [BitVec.toNat_ofNat, Nat.shiftLeft_eq]
  omega

/-- A frame address has none of the attribute bits. -/
theorem ofNat_shift_and_permBits {i : Nat} (hi : i < NPAGE) :
    BitVec.ofNat 64 (i <<< 12) &&& permBits = 0 := by
  have hval := toNat_ofNat_shift hi
  rw [NPAGE] at hi
  have hbit : ∀ k : Fin 64, permBits.getLsbD k = decide (k.val = 6 ∨ k.val = 7 ∨ k.val = 55) := by
    decide
  ext k hk
  rw [BitVec.getElem_and, ← BitVec.getLsbD_eq_getElem hk, ← BitVec.getLsbD_eq_getElem hk,
    hbit ⟨k, hk⟩]
  by_cases h : k = 6 ∨ k = 7 ∨ k = 55
  · have h0 : (BitVec.ofNat 64 (i <<< 12)).getLsbD k = false := by
      rw [BitVec.getLsbD, hval, Nat.testBit_eq_decide_div_mod_eq]
      simp only [decide_eq_false_iff_not]
      rcases h with rfl | rfl | rfl <;> omega
    simp [h0]
  · simp [h]

/-- Every entry of `pages` is its own address with valid attributes. -/
theorem initBootPt_paOk : PaOk (initBootPt initEnd imgEnd mem₀) := by
  intro p hp
  have hsplit : ((initBootPt initEnd imgEnd mem₀).pages p).pa =
      BitVec.ofNat 64 (p <<< 12) ||| bootAttr p (decide (inBootCode initEnd p ∧ p > 0)) := by
    rw [initBootPt_pages, initPa, bootAttr]
    simp only [BitVec.or_assoc, decide_eq_true_eq]
  obtain ⟨haddr, hvalid, hhigh, hperm⟩ := bootAttr_clear p (decide (inBootCode initEnd p ∧ p > 0))
  have hval := toNat_ofNat_shift hp
  rw [hsplit]
  refine ⟨?_, ?_, ?_, ?_⟩
  · rw [pteFrame_or_of_clear haddr, pteFrame_eq, hval]
    rw [NPAGE] at hp
    omega
  · rw [isValid_or, hvalid, Bool.or_true]
  · rw [BitVec.and_or_distrib_right, hhigh]
    have h0 : BitVec.ofNat 64 (p <<< 12) &&& highAddrBits = 0 := by
      rw [highAddrBits_clear_iff, hval]
      rw [NPAGE] at hp
      omega
    rw [h0]
    rfl
  · rw [BitVec.and_or_distrib_right, hperm, ofNat_shift_and_permBits hp]
    rfl

theorem PaOk.congr (h : PaOk s) (hpa : ∀ p < NPAGE, (s'.pages p).pa = (s.pages p).pa) :
    PaOk s' := fun p hp => by
  rw [hpa p hp]
  exact h p hp

/-- Without directories there are no tables. -/
theorem not_at_empty {n t : Nat} : ¬ (tableShape ∅).At (child s) n t := by
  induction n generalizing t with
  | zero => exact fun h => absurd h (Finset.notMem_empty _)
  | succ n ih =>
      rintro ⟨p, i, hp, -, -⟩
      exact ih hp

/-- Before the first environment there are no directories, and every count is
    the boot count. -/
theorem initBootPt_inv :
    PmapInv (bootCount initEnd imgEnd mem₀) ∅ (initBootPt initEnd imgEnd mem₀) where
  pa := initBootPt_paOk
  tables :=
    { dir_lt := fun d hd => absurd hd (Finset.notMem_empty d)
      dir_self := fun d hd => absurd hd (Finset.notMem_empty d)
      forest := ⟨fun _ hp => absurd hp not_at_empty, fun _ _ ht => absurd ht not_at_empty⟩ }
  refs p _ := by
    have hslots : tableSlots (initBootPt initEnd imgEnd mem₀) ∅ = ∅ := by
      refine Finset.eq_empty_of_forall_notMem fun x hx => ?_
      obtain ⟨n, -, hn⟩ := (mem_tableSlots.mp hx).2
      exact not_at_empty hn
    rw [entryCount, hslots, slotCount_empty, Nat.add_zero, bootCount]
  boot_le := bootCount_le
  alloc p _ hv := by
    rw [initBootPt_visBit, decide_eq_false_iff_not, not_or] at hv
    rw [initBootPt_pages]
    simp [hv.1, hv.2]

/-! ## Free pages after boot -/

/-- Words before the first clear one are skipped, and only that word changes. -/
theorem pageAlloc_of_zero {k : Nat} (hk : k < 2 ^ 12) (h0 : s.vis k = 0) :
    ∃ pp s₁, pageAlloc s = some (pp, s₁) ∧ ∀ m, k < m → s₁.vis m = s.vis m := by
  have hfound : pageAllocIn (s.vis k) k = some (k, 0) := by
    rw [h0]
    unfold pageAllocIn
    rw [if_pos (by decide)]
    refine scan_eq_some.mpr ⟨0, Nat.le_refl 0, by omega, by simp, fun m _ hm => by omega⟩
  unfold pageAlloc
  cases hscan : scan (fun i => pageAllocIn (s.vis i) i) 0 (2 ^ 12) with
  | none =>
      have := scan_eq_none.mp hscan k (Nat.zero_le k) (by omega)
      rw [hfound] at this
      cases this
  | some x =>
      obtain ⟨i, j⟩ := x
      refine ⟨_, _, rfl, fun m hm => ?_⟩
      obtain ⟨n, -, -, hn, hfirst⟩ := scan_eq_some.mp hscan
      obtain ⟨j', hij, -, -⟩ := pageAllocIn_spec hn
      obtain ⟨rfl, -⟩ := Prod.mk.inj hij
      have hle : ¬ k < i := fun hlt => by
        rw [hfirst k (Nat.zero_le k) hlt] at hfound
        cases hfound
      simp only [Pmap.setVis]
      rw [if_neg (by omega)]
      rfl

/-- With all earlier words full, the first page of a clear word is handed out. -/
theorem pageAlloc_first {k : Nat} (hk : k < 2 ^ 12) (hfull : ∀ m < k, s.vis m = BitVec.allOnes 64)
    (h0 : s.vis k = 0) : ∃ s₁, pageAlloc s = some (k * 64, s₁) := by
  have hscan : scan (fun i => pageAllocIn (s.vis i) i) 0 (2 ^ 12) = some (k, 0) := by
    refine scan_eq_some.mpr ⟨k, Nat.zero_le k, by omega, ?_, fun m _ hm => ?_⟩
    · rw [h0]
      unfold pageAllocIn
      rw [if_pos (by decide)]
      exact scan_eq_some.mpr ⟨0, Nat.le_refl 0, by omega, by simp, fun m _ hm => by omega⟩
    · rw [hfull m hm]
      unfold pageAllocIn
      rw [if_neg (by simp)]
  have hpage : k <<< 6 ||| 0 = k * 64 := by rw [shiftLeft_six_or (by omega), Nat.add_zero]
  rw [pageAlloc, hscan, ← hpage]
  exact ⟨_, rfl⟩

/-- `n` clear words in a row leave `n` pages to allocate. -/
theorem freePages_of_zero {n k : Nat} (hk : k + n ≤ 2 ^ 12)
    (h0 : ∀ m, k ≤ m → m < k + n → s.vis m = 0) : FreePages n s := by
  induction n generalizing s k with
  | zero => trivial
  | succ n ih =>
      obtain ⟨pp, s₁, halloc, hrest⟩ :=
        pageAlloc_of_zero (by omega) (h0 k (Nat.le_refl k) (by omega))
      refine ⟨pp, s₁, halloc, ih (k := k + 1) (by omega) fun m hm hm' => ?_⟩
      rw [hrest m (by omega)]
      exact h0 m (by omega) (by omega)

theorem vis_eq_zero {m : Nat} (h : ∀ q, q / 64 = m → visBit s q = false) : s.vis m = 0 := by
  refine BitVec.eq_of_getLsbD_eq fun j hj => ?_
  have hbit := h (m * 64 + j) (by omega)
  have hdiv : (m * 64 + j) / 64 = m := by omega
  have hmod : (m * 64 + j) % 64 = j := by omega
  rw [visBit, hdiv, hmod] at hbit
  simpa using hbit

theorem vis_eq_allOnes {m : Nat} (h : ∀ q, q / 64 = m → visBit s q = true) :
    s.vis m = BitVec.allOnes 64 := by
  refine BitVec.eq_of_getLsbD_eq fun j hj => ?_
  have hbit := h (m * 64 + j) (by omega)
  have hdiv : (m * 64 + j) / 64 = m := by omega
  have hmod : (m * 64 + j) % 64 = j := by omega
  rw [visBit, hdiv, hmod] at hbit
  rw [hbit, BitVec.getLsbD_allOnes, decide_eq_true hj]

/-- Between the kernel image and the peripherals every page is free. -/
theorem initBootPt_vis_zero {m : Nat} (himg : initEnd ≤ imgEnd) (hlo : imgEnd ≤ m * 64 * 4096)
    (hhi : (m + 1) * 64 ≤ PERIPHERAL_BASE >>> 12) :
    (initBootPt initEnd imgEnd mem₀).vis m = 0 := by
  refine vis_eq_zero fun q hq => ?_
  have hper : PERIPHERAL_BASE >>> 12 = 258048 := by decide
  have hshift : imgEnd >>> 12 = imgEnd / 4096 := Nat.shiftRight_eq_div_pow imgEnd 12
  rw [initBootPt_visBit, decide_eq_false_iff_not, inBootCode, inImage, BY2PG]
  omega

/-! ## `env_setup_vm` -/

/-- `env_setup_vm` up to its loop: a zeroed directory page with the self-map
    entry. -/
def envNewDir (s : Pmap) (pp : Nat) : Pmap :=
  ((s.incRef pp).bzeroPage pp).setPte pp uvptIndex ((s.pages pp).pa ||| PTE_RW ||| PTE_USER)

@[simp] theorem envNewDir_vis (s : Pmap) (pp : Nat) : (envNewDir s pp).vis = s.vis := rfl

theorem envNewDir_pages (s : Pmap) (pp : Nat) : (envNewDir s pp).pages = (s.incRef pp).pages := rfl

/-- One turn of the loop of `env_setup_vm` over the boot code. -/
def envMapBoot (pgdir : Nat) (s : Pmap) (i : Nat) : Pmap :=
  (pageInsert s pgdir i (BitVec.ofNat 64 (i <<< 12)) (PTE_RW ||| PTE_USER ||| PTE_LIBRARY)).2

/-- `env_setup_vm`: the frame of the new directory, or `none` for the panic. -/
def envSetupVm (initEnd : Nat) (s : Pmap) : Option (Nat × Pmap) :=
  match pageAlloc s with
  | none => none
  | some (pp, s₁) =>
      some (pp, (List.range (initEnd / 4096)).foldl (envMapBoot pp) (envNewDir s₁ pp))

section NewDir

variable (hI : PmapInv boot dirs s) (halloc : pageAlloc s = some (pp, s₁))

include halloc

theorem envNewDir_mem (t i : Nat) :
    (envNewDir s₁ pp).mem t i = if t = pp then
      (if i = uvptIndex then (s.pages pp).pa ||| PTE_RW ||| PTE_USER else 0) else s.mem t i := by
  obtain ⟨-, -, -, -, hpages, hmem⟩ := pageAlloc_spec halloc
  rw [envNewDir, Pmap.setPte_mem, hpages]
  simp only [Pmap.bzeroPage, Pmap.incRef_mem, hmem]
  by_cases ht : t = pp <;> by_cases hi : i = uvptIndex <;> simp [ht, hi]

include hI

theorem selfEntry_ok : isValid ((s.pages pp).pa ||| PTE_RW ||| PTE_USER) = true ∧
    pteFrame ((s.pages pp).pa ||| PTE_RW ||| PTE_USER) = pp := by
  obtain ⟨-, -, -, -, hpages, -⟩ := pageAlloc_spec halloc
  have h := tableEntry_ok hI halloc (b := PTE_RW ||| PTE_USER) (by decide)
  rwa [hpages, ← BitVec.or_assoc] at h

theorem child_envNewDir (t i : Nat) :
    child (envNewDir s₁ pp) t i =
      if t = pp then (if i = uvptIndex then some pp else none) else child s t i := by
  obtain ⟨hv, hf⟩ := selfEntry_ok hI halloc
  rw [child, envNewDir_mem halloc]
  by_cases ht : t = pp
  · by_cases hi : i = uvptIndex <;> simp [ht, hi, hv, hf]
  · simp [ht, child]

/-- The new directory adds one table and nothing below it. -/
theorem at_envNewDir {n t : Nat} (hn : n ≤ 2) :
    (tableShape (insert pp dirs)).At (child (envNewDir s₁ pp)) n t ↔
      (tableShape dirs).At (child s) n t ∨ (n = 0 ∧ t = pp) := by
  obtain ⟨hpp, hvis, -⟩ := pageAlloc_spec halloc
  have hfresh := (hI.unused hpp hvis).2.2
  induction n generalizing t with
  | zero =>
      show t ∈ insert pp dirs ↔ t ∈ dirs ∨ (0 = 0 ∧ t = pp)
      rw [Finset.mem_insert]
      simp [or_comm]
  | succ n ih =>
      constructor
      · rintro ⟨p, i, hp, hslot, hc⟩
        rw [child_envNewDir hI halloc] at hc
        rcases (ih (by omega)).mp hp with hp | ⟨rfl, rfl⟩
        · have hne : p ≠ pp := fun h => hfresh (h ▸ isTable_of_at (by omega) hp)
          rw [if_neg hne] at hc
          exact Or.inl ⟨p, i, hp, hslot, hc⟩
        · rw [if_pos rfl, if_neg (hslot.2 rfl)] at hc
          cases hc
      · rintro (⟨p, i, hp, hslot, hc⟩ | ⟨h, -⟩)
        · have hne : p ≠ pp := fun h => hfresh (h ▸ isTable_of_at (by omega) hp)
          refine ⟨p, i, (ih (by omega)).mpr (Or.inl hp), hslot, ?_⟩
          rw [child_envNewDir hI halloc, if_neg hne]
          exact hc
        · omega

theorem isTable_envNewDir (t : Nat) :
    IsTable (envNewDir s₁ pp) (insert pp dirs) t ↔ IsTable s dirs t ∨ t = pp := by
  constructor
  · rintro ⟨n, hn, ht⟩
    rcases (at_envNewDir hI halloc hn).mp ht with h | ⟨-, h⟩
    · exact Or.inl ⟨n, hn, h⟩
    · exact Or.inr h
  · rintro (⟨n, hn, ht⟩ | rfl)
    · exact ⟨n, hn, (at_envNewDir hI halloc hn).mpr (Or.inl ht)⟩
    · exact ⟨0, by omega, (at_envNewDir hI halloc (by omega)).mpr (Or.inr ⟨rfl, rfl⟩)⟩

theorem tablesOk_envNewDir : TablesOk (envNewDir s₁ pp) (insert pp dirs) := by
  obtain ⟨hpp, hvis, -⟩ := pageAlloc_spec halloc
  have hfresh := (hI.unused hpp hvis).2.2
  have hne : ∀ {n p}, n ≤ 2 → (tableShape dirs).At (child s) n p → p ≠ pp := by
    rintro n p hn hp rfl
    exact hfresh (isTable_of_at hn hp)
  -- A parent with a child below it is an old table.
  have hold : ∀ {n p i t}, n < 2 → (tableShape (insert pp dirs)).At (child (envNewDir s₁ pp)) n p →
      (tableShape (insert pp dirs)).slotOk n i → child (envNewDir s₁ pp) p i = some t →
      (tableShape dirs).At (child s) n p ∧ child s p i = some t := by
    intro n p i t hn hp hslot hc
    rw [child_envNewDir hI halloc] at hc
    rcases (at_envNewDir hI halloc (Nat.le_of_lt hn)).mp hp with hp | ⟨rfl, rfl⟩
    · rw [if_neg (hne (Nat.le_of_lt hn) hp)] at hc
      exact ⟨hp, hc⟩
    · rw [if_pos rfl, if_neg (hslot.2 rfl)] at hc
      cases hc
  refine ⟨fun d hd => ?_, fun d hd => ?_, ⟨?_, ?_⟩⟩
  · rcases Finset.mem_insert.mp hd with rfl | hd
    · exact hpp
    · exact hI.tables.dir_lt d hd
  · rw [child_envNewDir hI halloc]
    rcases Finset.mem_insert.mp hd with rfl | hd
    · simp
    · have hat0 : (tableShape dirs).At (child s) 0 d := hd
      rw [if_neg (hne (by omega) hat0)]
      exact hI.tables.dir_self d hd
  · intro n p p' i i' t hn hp hp' hs hs' hc hc'
    obtain ⟨hq, hcq⟩ := hold hn hp hs hc
    obtain ⟨hq', hcq'⟩ := hold hn hp' hs' hc'
    exact hI.tables.forest.inj hn hq hq' hs hs' hcq hcq'
  · intro m n t hm hn hat hat'
    rcases (at_envNewDir hI halloc hm).mp hat with h | ⟨rfl, rfl⟩
    · rcases (at_envNewDir hI halloc hn).mp hat' with h' | ⟨rfl, rfl⟩
      · exact hI.tables.forest.level_unique hm hn h h'
      · exact absurd rfl (hne hm h)
    · rcases (at_envNewDir hI halloc hn).mp hat' with h' | ⟨rfl, -⟩
      · exact absurd rfl (hne hn h')
      · rfl

/-- The self-map entry is the one new entry. -/
theorem entryCount_envNewDir (p : Nat) :
    entryCount (envNewDir s₁ pp) (insert pp dirs) p
      = entryCount s dirs p + if p = pp then 1 else 0 := by
  classical
  obtain ⟨hpp, hvis, -⟩ := pageAlloc_spec halloc
  have hfresh := (hI.unused hpp hvis).2.2
  have hself : (pp, uvptIndex) ∈ tableSlots (envNewDir s₁ pp) (insert pp dirs) :=
    (tablesOk_envNewDir hI halloc).mem_tableSlots
      ((isTable_envNewDir hI halloc pp).mpr (Or.inr rfl)) (GET_L1_INDEX_lt UVPT)
  -- The entries before, with the new directory counted as an empty table.
  have hbase : slotCount (tableSlots (envNewDir s₁ pp) (insert pp dirs))
      (fun x => if x.1 = pp then none else child s x.1 x.2) p = entryCount s dirs p := by
    have hsub : tableSlots s dirs ⊆ tableSlots (envNewDir s₁ pp) (insert pp dirs) := by
      intro x hx
      rw [mem_tableSlots] at hx ⊢
      exact ⟨hx.1, (isTable_envNewDir hI halloc x.1).mpr (Or.inl hx.2)⟩
    rw [slotCount_of_fresh hsub, entryCount]
    · refine slotCount_congr p fun x hx => ?_
      have hne : x.1 ≠ pp := fun h => hfresh (h ▸ (mem_tableSlots.mp hx).2)
      rw [if_neg hne]
    · intro x hx hxn
      rw [mem_tableSlots] at hx hxn
      rcases (isTable_envNewDir hI halloc x.1).mp hx.2 with h | h
      · exact absurd ⟨hx.1, h⟩ hxn
      · rw [if_pos h]
  have hwrite := slotCount_write hself (f := fun x => if x.1 = pp then none else child s x.1 x.2)
    (g := fun x => child (envNewDir s₁ pp) x.1 x.2) (fun y _ hy => ?_) p
  · have hshare : slotShare (fun x : Nat × Nat => if x.1 = pp then none else child s x.1 x.2)
        (pp, uvptIndex) p = 0 := by
      simp [slotShare]
    have hshare' : slotShare (fun x : Nat × Nat => child (envNewDir s₁ pp) x.1 x.2)
        (pp, uvptIndex) p = if p = pp then 1 else 0 := by
      simp [slotShare, child_envNewDir hI halloc, eq_comm]
    rw [entryCount]
    omega
  · rw [child_envNewDir hI halloc]
    by_cases hyp : y.1 = pp
    · have hyi : y.2 ≠ uvptIndex := fun h => hy (Prod.ext hyp h)
      simp [hyp, hyi]
    · simp [hyp]

/-- The new directory joins the forest, and every count stays exact. -/
theorem envNewDir_inv : PmapInv boot (insert pp dirs) (envNewDir s₁ pp) := by
  obtain ⟨hpp, hvis, hvis₁, hmono, hpages, -⟩ := pageAlloc_spec halloc
  obtain ⟨href, -, -⟩ := hI.unused hpp hvis
  have hpages' : (envNewDir s₁ pp).pages = (s.incRef pp).pages := by
    rw [envNewDir_pages]
    simp only [Pmap.incRef, Pmap.setRef, hpages]
  refine ⟨⟨hI.pa.congr fun p _ => ?_, tablesOk_envNewDir hI halloc, fun p hp => ?_, hI.boot_le⟩,
    fun p hp hv => ?_⟩
  · rw [hpages', incRef_pa]
  · rw [entryCount_envNewDir hI halloc, hpages', incRef_ref]
    have := hI.refs p hp
    by_cases hpp' : p = pp
    · subst hpp'
      rw [if_pos rfl, if_pos rfl, toNat_add_one (hI.ref_lt hp)]
      omega
    · rw [if_neg hpp', if_neg hpp', Nat.add_zero]
      exact this
  · have hv₁ : visBit s₁ p = false := by rwa [visBit, envNewDir_vis] at hv
    have hne : p ≠ pp := by
      rintro rfl
      rw [hvis₁] at hv₁
      cases hv₁
    rw [hpages', incRef_ref, if_neg hne]
    exact hI.alloc p hp (hmono p hv₁)

/-- No mapping of another directory changes, and the new one maps nothing. -/
theorem mapping_envNewDir (hd : d ∈ insert pp dirs) (hva : GET_L1_INDEX va ≠ uvptIndex) :
    mapping (envNewDir s₁ pp) d va = if d = pp then none else mapping s d va := by
  obtain ⟨hpp, hvis, -⟩ := pageAlloc_spec halloc
  have hfresh := (hI.unused hpp hvis).2.2
  by_cases hdp : d = pp
  · rw [if_pos hdp]
    refine mapping_of_leafSlot_none ?_
    simp [leafSlot, radixWalk, child_envNewDir hI halloc, hdp, hva]
  · have hd' : d ∈ dirs := (Finset.mem_insert.mp hd).resolve_left hdp
    have htab : ∀ t, IsTable s dirs t → (envNewDir s₁ pp).mem t = s.mem t := by
      intro t ht
      have hne : t ≠ pp := fun h => hfresh (h ▸ ht)
      funext k
      rw [envNewDir_mem halloc, if_neg hne]
    rw [if_neg hdp, mapping_of_tables htab hd' hva]

end NewDir

/-! ## Pages left after `env_setup_vm` -/

/-- The words of the bitmap from `k` up to `m` are clear. -/
def ClearFrom (k m : Nat) (s : Pmap) : Prop := ∀ j, k ≤ j → j < m → s.vis j = 0

section ClearFrom

variable {k m : Nat}

theorem ClearFrom.mono {k' : Nat} (h : ClearFrom k m s) (hk : k ≤ k') : ClearFrom k' m s :=
  fun j hj hjm => h j (by omega) hjm

theorem ClearFrom.alloc (h : ClearFrom k m s) (hk : k < m) (hm : m ≤ 2 ^ 12) :
    ∃ pp s₁, pageAlloc s = some (pp, s₁) ∧ ClearFrom (k + 1) m s₁ := by
  obtain ⟨pp, s₁, halloc, hrest⟩ := pageAlloc_of_zero (by omega) (h k (Nat.le_refl k) hk)
  exact ⟨pp, s₁, halloc, fun j hj hjm => by rw [hrest j (by omega)]; exact h j (by omega) hjm⟩

theorem ClearFrom.pageAlloc (h : ClearFrom k m s) (hk : k < m) (hm : m ≤ 2 ^ 12)
    (halloc : pageAlloc s = some (pp, s₁)) : ClearFrom (k + 1) m s₁ := by
  obtain ⟨pp', s₁', halloc', h'⟩ := h.alloc hk hm
  obtain ⟨-, rfl⟩ := Prod.mk.inj (Option.some.inj (halloc.symm.trans halloc'))
  exact h'

theorem ClearFrom.pageDecref (h : ClearFrom k m s) (pp : Nat) :
    ClearFrom k m (pageDecref s pp) := by
  intro j hj hjm
  unfold RpiMos.pageDecref pageFree
  split
  · exact h j hj hjm
  · simp only [Pmap.setVis, Pmap.decRef_vis]
    split
    · rename_i hdiv
      rw [← hdiv, h j hj hjm]
      simp
    · exact h j hj hjm

theorem ClearFrom.pageRemove (h : ClearFrom k m s) (d : Nat) (va : Word) :
    ClearFrom k m (pageRemove s d va) := by
  intro j hj hjm
  unfold RpiMos.pageRemove
  split
  · exact h j hj hjm
  · exact h.pageDecref _ j hj hjm

theorem ClearFrom.walkStep (h : ClearFrom k m s) (hk : k < m) (hm : m ≤ 2 ^ 12) (t i : Nat)
    (va : Word) (create : Bool) : ClearFrom (k + 1) m (pgdirWalkStep s t i va create).2 := by
  unfold pgdirWalkStep
  split
  · exact h.mono (by omega)
  · split
    · cases halloc : RpiMos.pageAlloc s with
      | none => exact h.mono (by omega)
      | some x =>
          obtain ⟨pp, s₁⟩ := x
          have h₁ : ClearFrom (k + 1) m s₁ := h.pageAlloc hk hm halloc
          exact h₁
    · exact h.mono (by omega)

theorem ClearFrom.walk (h : ClearFrom k m s) (hk : k + 1 < m) (hm : m ≤ 2 ^ 12) (d : Nat)
    (va : Word) (create : Bool) : ClearFrom (k + 2) m (pgdirWalk s d va create).2 := by
  have h₁ := h.walkStep (by omega) hm d (GET_L1_INDEX va) va create
  unfold pgdirWalk
  cases hstep₁ : pgdirWalkStep s d (GET_L1_INDEX va) va create with
  | mk r₁ s₁ =>
      rw [hstep₁] at h₁
      cases r₁ with
      | fail => exact h₁.mono (by omega)
      | null => exact h₁.mono (by omega)
      | «at» t₂ =>
          have h₂ := h₁.walkStep hk hm t₂ (GET_L2_INDEX va) va create
          cases hstep₂ : pgdirWalkStep s₁ t₂ (GET_L2_INDEX va) va create with
          | mk r₂ s₂ =>
              rw [hstep₂] at h₂
              cases r₂ <;> simpa [hstep₂] using h₂

theorem ClearFrom.insertNew (h : ClearFrom k m s) (hk : k + 1 < m) (hm : m ≤ 2 ^ 12) (d pp : Nat)
    (va perm : Word) : ClearFrom (k + 2) m (pageInsertNew s d pp va perm).2 := by
  have hw := h.walk hk hm d va true
  unfold pageInsertNew
  split
  · rename_i heq
    rw [heq] at hw
    exact hw
  · rename_i heq
    rw [heq] at hw
    exact hw

theorem ClearFrom.insert (h : ClearFrom k m s) (hk : k + 1 < m) (hm : m ≤ 2 ^ 12) (d pp : Nat)
    (va perm : Word) : ClearFrom (k + 2) m (pageInsert s d pp va perm).2 := by
  unfold pageInsert
  split
  · split
    · split
      · exact (h.pageRemove d va).insertNew hk hm d pp va perm
      · exact h.mono (by omega)
    · exact h.insertNew hk hm d pp va perm
  · exact h.insertNew hk hm d pp va perm

/-- A new address space over `n` pages of boot code takes at most `2 * n + 1`
    words of the bitmap out of the clear ones. -/
theorem ClearFrom.envSetupVm (initEnd : Nat) (h : ClearFrom k m s)
    (hk : k + 2 * (initEnd / 4096) + 1 < m) (hm : m ≤ 2 ^ 12) :
    ∃ d s', envSetupVm initEnd s = some (d, s') ∧
      ClearFrom (k + 1 + 2 * (initEnd / 4096)) m s' := by
  obtain ⟨pp, s₁, halloc, h₁⟩ := h.alloc (by omega) hm
  have hloop : ∀ n, k + 2 * n + 1 < m →
      ClearFrom (k + 1 + 2 * n) m ((List.range n).foldl (envMapBoot pp) (envNewDir s₁ pp)) := by
    intro n hn
    induction n with
    | zero => exact h₁
    | succ n ih =>
        rw [List.range_succ, List.foldl_append, List.foldl_cons, List.foldl_nil]
        exact (ih (by omega)).insert (by omega) hm pp n _ _
  exact ⟨pp, _, by rw [RpiMos.envSetupVm, halloc], hloop _ hk⟩

end ClearFrom

/-! ## A board -/

/-- A board whose boot code ends at 2 MiB and whose kernel image ends at 4 MiB. -/
def boardBoot : Pmap := initBootPt 0x200000 0x400000 fun _ _ => 0

def boardCount : Nat → Nat := bootCount 0x200000 0x400000 fun _ _ => 0

theorem boardBoot_eq : boardBoot = initBootPt 0x200000 0x400000 fun _ _ => 0 := rfl

theorem boardBoot_vis_zero {m : Nat} (hlo : 16 ≤ m) (hhi : m < 4000) : boardBoot.vis m = 0 := by
  have hper : PERIPHERAL_BASE >>> 12 = 258048 := by decide
  rw [boardBoot_eq]
  exact initBootPt_vis_zero (by decide) (by omega) (by omega)

theorem boardBoot_alloc : ∃ s₁, pageAlloc boardBoot = some (1024, s₁) := by
  have hper : PERIPHERAL_BASE >>> 12 = 258048 := by decide
  refine pageAlloc_first (k := 16) (by decide) (fun m hm => vis_eq_allOnes fun q hq => ?_)
    (boardBoot_vis_zero (by decide) (by decide))
  rw [boardBoot_eq, initBootPt_visBit, decide_eq_true_eq, inBootCode, inImage, BY2PG, NPAGE]
  omega

/-- The first environment's directory on that board: the invariant holds, the
    directory maps nothing, and pages are left. -/
theorem boardDir_ok (h : pageAlloc boardBoot = some (1024, s₁)) :
    PmapInv boardCount {1024} (envNewDir s₁ 1024) ∧
    (∀ {va}, GET_L1_INDEX va ≠ uvptIndex → mapping (envNewDir s₁ 1024) 1024 va = none) ∧
    FreePages 3 (envNewDir s₁ 1024) := by
  have hI : PmapInv boardCount ∅ boardBoot := initBootPt_inv
  have hdirs : insert 1024 (∅ : Finset Nat) = {1024} := rfl
  refine ⟨hdirs ▸ envNewDir_inv hI h, fun hva => ?_, ?_⟩
  · rw [mapping_envNewDir hI h (Finset.mem_insert_self _ _) hva, if_pos rfl]
  · obtain ⟨pp, s₂, halloc, hf⟩ := freePages_of_zero (s := boardBoot) (n := 4) (k := 16) (by decide)
      fun m hm hm' => boardBoot_vis_zero hm (by omega)
    obtain ⟨-, rfl⟩ := Prod.mk.inj (Option.some.inj (h.symm.trans halloc))
    exact hf.of_vis rfl

theorem boardDir_pa (h : pageAlloc boardBoot = some (1024, s₁)) (p : Nat) :
    ((envNewDir s₁ 1024).pages p).pa =
      ((initBootPt 0x200000 0x400000 fun _ _ => 0).pages p).pa := by
  obtain ⟨-, -, -, -, hpages, -⟩ := pageAlloc_spec h
  rw [envNewDir_pages, incRef_pa, hpages, boardBoot_eq]

end RpiMos
