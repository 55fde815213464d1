/-
  RpiMos.Kernel.LoadIcode

  `load_icode_mapper` of kernel/env.c: a segment of a binary goes into the pages of a new
  process, the file's bytes first and then zeros.  The four parts of the function hand the
  size of their last piece on to each other.
-/

import RpiMos.Mm.PageCost
import RpiMos.Mm.PageMap
import RpiMos.Mm.UserBytes

namespace RpiMos

open Lib

namespace LoadIcode

/-- A page is allocated and inserted, and gets `n` bytes from `offset` on.  The result of
    `page_insert` is not looked at. -/
def loadPage (s : Pmap) (d : Nat) (va : Word) (offset n : Nat) (src : Nat → BitVec 8) : Option Pmap :=
  match pageAlloc s with
  | none => none
  | some (p, s₁) => some ((pageInsert s₁ d p va (PTE_RW ||| PTE_USER)).2.storeBytes p offset n src)

/-- The same for a page that may be there already. -/
def loadPart (s : Pmap) (d : Nat) (va : Word) (offset n : Nat) (src : Nat → BitVec 8) : Option Pmap :=
  match pageLookup s d va with
  | some (p, _, _) => some (s.storeBytes p offset n src)
  | none => loadPage s d va offset n src

/-- The two loops, up to `size`: `i` and `r` as they are left. -/
def loadPages (d : Nat) (va : Word) (size : Nat) (src : Nat → BitVec 8) (s : Pmap) (i r : Nat) :
    Option (Nat × Nat × Pmap) :=
  if i < size then
    let r := min BY2PG (size - i)
    match loadPage s d (va + BitVec.ofNat 64 i) 0 r (fun k => src (i + k)) with
    | none => none
    | some s => loadPages d va size src s (i + r) r
  else some (i, r, s)
termination_by size - i
decreasing_by
  rw [BY2PG]
  omega

/-- The piece in front of a page boundary, when `a` is not at one itself. -/
def loadEdge (d : Nat) (a : Word) (size : Nat) (src : Nat → BitVec 8) (r : Nat) (s : Pmap) : Option (Nat × Pmap) :=
  let offset := (pageOffset a).toNat
  if 0 < offset then
    let r := min size (BY2PG - offset)
    (loadPart s d a offset r src).map fun s => (r, s)
  else some (r, s)

/-- `load_icode_mapper`; `none` is -1. -/
def loadIcodeMapper (s : Pmap) (d : Nat) (va : Word) (sgsize : U32) (bin : Nat → BitVec 8) (bin_size : U32) :
    Option Pmap :=
  match loadEdge d va bin_size.toNat bin 0 s with
  | none => none
  | some (r, s) =>
      match loadPages d va bin_size.toNat bin s r r with
      | none => none
      | some (i, r, s) =>
          -- At a page boundary `r` is still the size of the last piece of the file.
          match loadEdge d (va + BitVec.ofNat 64 i) (sgsize.setWidth 64 - BitVec.ofNat 64 i).toNat
              (fun _ => 0) r s with
          | none => none
          | some (r, s) => (loadPages d va sgsize.toNat (fun _ => 0) s (i + r) r).map fun x => x.2.2

variable {s s' s₀ s₁ : Pmap} {dirs : Finset Nat} {boot : Nat → Nat} {d off n c : Nat} {va a p : Word}
  {src : Nat → BitVec 8} {P prev : List Word}

/-! ## One page -/

/-- `s` has been reached from `s₀` by new pages at the addresses `prev`, which took `c` pages of
    memory; those at `P` are backed. -/
structure Loaded (boot : Nat → Nat) (dirs : Finset Nat) (d : Nat) (s₀ : Pmap) (P prev : List Word) (c : Nat)
    (s : Pmap) : Prop where
  backed : Backed boot dirs d P s
  tables : TablesAdded d prev s₀ s
  free : ∀ n, FreePages n s ↔ FreePages (n + c) s₀
  other : ∀ a, GET_L1_INDEX a ≠ uvptIndex → (∀ p ∈ prev, pageIdx p ≠ pageIdx a) → mapping s d a = mapping s₀ d a

/-- `page_insert` has failed: there is no page left, and none at `a`. -/
structure Spent (d : Nat) (a : Word) (s : Pmap) : Prop where
  free : ¬ FreePages 1 s
  unmapped : mapping s d a = none

theorem freePages_storeBytes {f m : Nat} : FreePages m (s.storeBytes f off n src) ↔ FreePages m s :=
  freePages_vis rfl

theorem tablesAdded_of_tables (hd : d ∈ dirs) (h : ∀ t, IsTable s dirs t → s'.mem t = s.mem t) :
    TablesAdded d [] s s' where
  dir a _ := by
    rw [child_congr (congrFun (h d (isTable_of_at (Nat.zero_le 2) hd)) _)]
    exact ⟨fun hc => ⟨hc, fun _ hp => absurd hp List.not_mem_nil⟩, And.left⟩
  leaf a ha := by
    rw [leafSlot_of_tables h hd ha]
    exact ⟨fun hc => ⟨hc, fun _ hp => absurd hp List.not_mem_nil⟩, And.left⟩

/-- The content of a page of which `n` bytes from `off` on have been written. -/
def pageByte (off n : Nat) (src : Nat → BitVec 8) (j : Nat) : BitVec 8 :=
  if off ≤ j ∧ j < off + n then src (j - off) else 0

/-- A page for `a`, with the tables that it takes. -/
structure PageLoaded (boot : Nat → Nat) (dirs : Finset Nat) (d : Nat) (s₀ : Pmap) (P prev : List Word) (c : Nat)
    (a : Word) (byte : Nat → BitVec 8) (s s' : Pmap) : Prop where
  loaded : Loaded boot dirs d s₀ (a :: P) (a :: prev) (1 + tablesFor s₀ d prev a + c) s'
  bytes : ∀ x, pageIdx x = pageIdx a → userByte s' d x = some (byte (x.toNat % 4096))
  kept : BytesKept d P a s s'

/-- `page_insert` succeeds when the tables can be made. -/
theorem pageInsert_iff (hs : PmapSound boot dirs s) (hd : d ∈ dirs) (ha : GET_L1_INDEX a ≠ uvptIndex)
    (hm : mapping s d a = none) {pp : Nat} {perm : Word} (hpp : pp < NPAGE) (hvis : visBit s pp = true)
    (hperm : perm &&& pageNumberBits = 0) :
    (pageInsert s d pp a perm).1 = true ↔ FreePages (missingTables s d a) s := by
  have hself : ¬ IsSelfPage a := fun h => ha (congrArg Prod.fst h)
  obtain ⟨-, -, hmade, hfailed⟩ := hs.pageInsert hd ha hpp hvis hperm
  rcases pageInsert_exact hs.toPmapInv hd hself pp perm with ⟨hroom, hmap⟩ | ⟨hroom, hmap, -⟩
  · refine iff_of_true ?_ hroom
    by_contra hfalse
    rw [hfailed (Bool.not_eq_true _ ▸ hfalse), hm] at hmap
    cases hmap
  · refine iff_of_false (fun htrue => ?_) hroom
    rw [(hmade htrue).1] at hmap
    cases hmap

theorem loadPage_none (hfree : ¬ FreePages 1 s) : loadPage s d a off n src = none := by
  rw [freePages_one, not_exists] at hfree
  rw [loadPage]
  cases halloc : pageAlloc s with
  | none => rfl
  | some x => exact absurd halloc (hfree x)

/-- A page for `a`, as far as the memory goes. -/
theorem loadPage_spec (off n : Nat) (src : Nat → BitVec 8) (h : Loaded boot dirs d s₀ P prev c s)
    (hd : d ∈ dirs) (ha : GET_L1_INDEX a ≠ uvptIndex)
    (hm : mapping s d a = none) (hfree : FreePages (1 + c) s₀) :
    ∃ s', loadPage s d a off n src = some s' ∧
      (FreePages (1 + tablesFor s₀ d prev a + c) s₀ →
        PageLoaded boot dirs d s₀ P prev c a (pageByte off n src) s s') ∧
      (¬ FreePages (1 + tablesFor s₀ d prev a + c) s₀ → Spent d a s') := by
  obtain ⟨⟨p, s₁⟩, halloc⟩ := freePages_one.mp ((h.free 1).mpr hfree)
  obtain ⟨hpp, hvis, hvis₁, -, -, hmem⟩ := pageAlloc_spec halloc
  obtain ⟨hs₁, hg⟩ := h.backed.sound.pageAlloc halloc
  have hperm : (PTE_RW ||| PTE_USER) &&& pageNumberBits = 0 := by decide
  have htables := pageAlloc_tables h.backed.sound halloc
  have hm₁ : mapping s₁ d a = none := (mapping_of_tables htables hd ha).trans hm
  have hadded := h.tables.append (tablesAdded_of_tables hd htables)
  have hcost : missingTables s₁ d a = tablesFor s₀ d prev a := hadded.missing ha
  -- The allocation has taken one page.
  have hfree₁ : ∀ k, FreePages k s₁ ↔ FreePages (k + 1 + c) s₀ := fun k =>
    (freePages_pageAlloc halloc rfl).trans (h.free (k + 1))
  have hnot : ¬ IsTable s₁ dirs p := fun ht =>
    (h.backed.sound.unused hpp hvis).2.2 ((pageAlloc_isTable h.backed.sound halloc p).mp ht)
  obtain ⟨htaken, hspent⟩ := pageInsert_takes hs₁.toPmapInv hd ha hm₁ p (PTE_RW ||| PTE_USER)
  have hins := pageInsert_iff hs₁ hd ha hm₁ hpp hvis₁ hperm
  rw [hcost, hfree₁, Nat.add_comm (tablesFor s₀ d prev a) 1] at hins
  obtain ⟨-, hed, -, hkeep⟩ := hs₁.pageInsert hd ha hpp hvis₁ hperm
  refine ⟨_, by rw [loadPage, halloc], fun hroom => ?_, fun hroom => ?_⟩
  · have htrue := hins.mpr hroom
    obtain ⟨hb, ⟨e, he, hframe⟩, hzero, hkept⟩ := h.backed.insert hd ha hperm halloc htrue
    obtain ⟨hadd, hfree₂⟩ := htaken htrue
    generalize (pageInsert s₁ d p a (PTE_RW ||| PTE_USER)).2 = s₂ at *
    have hdata : ¬ IsTable s₂ dirs p := fun ht => hnot ((hed.table hvis₁).mp ht)
    have hmem₂ : ∀ t, IsTable s₂ dirs t → (s₂.storeBytes p off n src).mem t = s₂.mem t := storeBytes_tables hdata
    obtain ⟨hb', hbytes, hkept'⟩ := hb.store hd List.mem_cons_self he off n src
    rw [hframe] at hb' hbytes hkept'
    refine ⟨⟨hb', (hadded.append hadd).append (tablesAdded_of_tables hd hmem₂), fun k => ?_, fun x hx hne => ?_⟩,
      fun x hx => ?_, fun q hq x hx hne => ?_⟩
    · rw [freePages_storeBytes, hfree₂, hfree₁, hcost]
      rw [show k + tablesFor s₀ d prev a + 1 + c = k + (1 + tablesFor s₀ d prev a + c) by omega]
    · have hxa : ¬ (d = d ∧ pageIdx x = pageIdx a) := fun hsame => hne a List.mem_cons_self hsame.2.symm
      rw [mapping_storeBytes hdata hd hx, hed.other hd hx hxa, mapping_of_tables htables hd hx,
        h.other x hx fun q hq => hne q (List.mem_cons_of_mem a hq)]
    · rw [hbytes x hx, hzero x hx, pageByte]
      split <;> rfl
    · rw [hkept' q (List.mem_cons_of_mem a hq) x hx hne, hkept q hq x hx hne]
  · have hfalse := Bool.eq_false_iff.mpr fun htrue => hroom (hins.mp htrue)
    refine ⟨fun hf => hspent hfalse (hf.of_vis rfl), ?_⟩
    rw [mapping_storeBytes (fun ht => hnot ((hed.table hvis₁).mp ht)) hd ha, hkeep hfalse, hm₁]

/-! ## The loops -/

/-- The values that `i` takes in a loop up to `size`. -/
def visits (size i : Nat) : List Nat :=
  if i < size then i :: visits size (i + min BY2PG (size - i)) else []
termination_by size - i
decreasing_by
  rw [BY2PG]
  omega

/-- The addresses of the pages. -/
def pagesFrom (va : Word) (size i : Nat) : List Word := (visits size i).map fun j => va + BitVec.ofNat 64 j

/-- The pages that it takes until each page at `vas` has been allocated: the tables of the last
    may be missing. -/
def allocCost (s : Pmap) (d : Nat) (prev : List Word) : List Word → Nat
  | [] => 0
  | [_] => 1
  | va :: vas => 1 + tablesFor s d prev va + allocCost s d (va :: prev) vas

/-- The size of the last piece, when there is one. -/
def lastPiece (size i r : Nat) : Nat := if i < size then (size - i - 1) % BY2PG + 1 else r

theorem lastPiece_next {size i : Nat} (hi : i < size) (r : Nat) :
    lastPiece size (i + min BY2PG (size - i)) (min BY2PG (size - i)) = lastPiece size i r := by
  rw [lastPiece, lastPiece, if_pos hi]
  split <;> rw [BY2PG] at * <;> omega

/-- The pages at the addresses `V`, made one by one from `i` on. -/
structure PagesLoaded (boot : Nat → Nat) (dirs : Finset Nat) (d : Nat) (s₀ : Pmap) (P prev : List Word) (c : Nat)
    (va : Word) (size : Nat) (src : Nat → BitVec 8) (i : Nat) (s s' : Pmap) : Prop where
  loaded : Loaded boot dirs d s₀ ((pagesFrom va size i).reverse ++ P) ((pagesFrom va size i).reverse ++ prev)
    (pagesCost s₀ d prev (pagesFrom va size i) + c) s'
  bytes : ∀ j ∈ visits size i, ∀ x, pageIdx x = pageIdx (va + BitVec.ofNat 64 j) →
    userByte s' d x = some (pageByte 0 (min BY2PG (size - j)) (fun k => src (j + k)) (x.toNat % 4096))
  kept : ∀ q ∈ P, ∀ x, pageIdx x = pageIdx q → (∀ a ∈ pagesFrom va size i, pageIdx x ≠ pageIdx a) →
    userByte s' d x = userByte s d x

/-- None of the pages is there. -/
structure NewPages (d : Nat) (s₀ : Pmap) (prev V : List Word) : Prop where
  user : ∀ a ∈ V, GET_L1_INDEX a ≠ uvptIndex
  unmapped : ∀ a ∈ V, mapping s₀ d a = none
  apart : ∀ a ∈ V, ∀ p ∈ prev, pageIdx p ≠ pageIdx a
  distinct : V.Pairwise fun a b => pageIdx a ≠ pageIdx b

theorem NewPages.tail {V : List Word} (h : NewPages d s₀ prev (a :: V)) : NewPages d s₀ (a :: prev) V where
  user b hb := h.user b (List.mem_cons_of_mem a hb)
  unmapped b hb := h.unmapped b (List.mem_cons_of_mem a hb)
  apart b hb p hp := by
    rcases List.mem_cons.mp hp with rfl | hp
    · exact (List.pairwise_cons.mp h.distinct).1 b hb
    · exact h.apart b (List.mem_cons_of_mem a hb) p hp
  distinct := (List.pairwise_cons.mp h.distinct).2

theorem NewPages.head {V : List Word} (hnew : NewPages d s₀ prev (a :: V)) (h : Loaded boot dirs d s₀ P prev c s) :
    mapping s d a = none := by
  rw [h.other a (hnew.user a List.mem_cons_self) (hnew.apart a List.mem_cons_self)]
  exact hnew.unmapped a List.mem_cons_self

theorem allocCost_cons {V : List Word} (hV : V ≠ []) :
    allocCost s₀ d prev (a :: V) = 1 + tablesFor s₀ d prev a + allocCost s₀ d (a :: prev) V := by
  cases V with
  | nil => exact absurd rfl hV
  | cons b V => rfl

theorem one_le_allocCost (V : List Word) : 1 ≤ allocCost s₀ d prev (a :: V) := by
  cases V with
  | nil => exact Nat.le_refl 1
  | cons b V => exact Nat.le_add_right_of_le (Nat.le_add_right 1 _)

theorem loadPages_stop {size i r : Nat} (hi : i < size)
    (h : loadPage s d (va + BitVec.ofNat 64 i) 0 (min BY2PG (size - i)) (fun k => src (i + k)) = none) :
    loadPages d va size src s i r = none := by
  rw [loadPages, if_pos hi]
  dsimp only
  rw [h]

theorem loadPages_next {size i r : Nat} (hi : i < size)
    (h : loadPage s d (va + BitVec.ofNat 64 i) 0 (min BY2PG (size - i)) (fun k => src (i + k)) = some s₁) :
    loadPages d va size src s i r =
      loadPages d va size src s₁ (i + min BY2PG (size - i)) (min BY2PG (size - i)) := by
  rw [loadPages, if_pos hi]
  dsimp only
  rw [h]

theorem visits_cons {size i : Nat} (hi : i < size) :
    visits size i = i :: visits size (i + min BY2PG (size - i)) := by
  rw [visits, if_pos hi]

theorem pagesFrom_cons (va : Word) {size i : Nat} (hi : i < size) : pagesFrom va size i =
    (va + BitVec.ofNat 64 i) :: pagesFrom va size (i + min BY2PG (size - i)) := by
  rw [pagesFrom, visits_cons hi]
  rfl

/-- The first page has been made: what holds after the others holds after all. -/
theorem PageLoaded.cons {size i : Nat} (hi : i < size) (hnew : NewPages d s₀ prev (pagesFrom va size i))
    (h : PageLoaded boot dirs d s₀ P prev c (va + BitVec.ofNat 64 i)
      (pageByte 0 (min BY2PG (size - i)) (fun k => src (i + k))) s s₁)
    (hrest : PagesLoaded boot dirs d s₀ ((va + BitVec.ofNat 64 i) :: P) ((va + BitVec.ofNat 64 i) :: prev)
      (1 + tablesFor s₀ d prev (va + BitVec.ofNat 64 i) + c) va size src (i + min BY2PG (size - i)) s₁ s') :
    PagesLoaded boot dirs d s₀ P prev c va size src i s s' := by
  have hcons := pagesFrom_cons va hi
  rw [hcons] at hnew
  refine ⟨?_, fun j hj x hx => ?_, fun q hq x hx hne => ?_⟩
  · have hl := hrest.loaded
    rw [hcons, List.reverse_cons, List.append_assoc, List.append_assoc, pagesCost]
    rw [show 1 + tablesFor s₀ d prev (va + BitVec.ofNat 64 i) + pagesCost s₀ d ((va + BitVec.ofNat 64 i) :: prev)
        (pagesFrom va size (i + min BY2PG (size - i))) + c = pagesCost s₀ d ((va + BitVec.ofNat 64 i) :: prev)
        (pagesFrom va size (i + min BY2PG (size - i))) + (1 + tablesFor s₀ d prev (va + BitVec.ofNat 64 i) + c) by
      omega]
    exact hl
  · rw [visits_cons hi] at hj
    rcases List.mem_cons.mp hj with rfl | hj
    · -- The first page is not touched again.
      rw [hrest.kept _ List.mem_cons_self x hx fun a ha heq => ?_, h.bytes x hx]
      exact (List.pairwise_cons.mp hnew.distinct).1 a ha (hx.symm.trans heq)
    · exact hrest.bytes j hj x hx
  · rw [hcons] at hne
    rw [hrest.kept q (List.mem_cons_of_mem _ hq) x hx fun a ha => hne a (List.mem_cons_of_mem _ ha)]
    exact h.kept q hq x hx (hne _ List.mem_cons_self)

/-- How the loop ends, as far as the memory goes. -/
structure PagesEnd (boot : Nat → Nat) (dirs : Finset Nat) (d : Nat) (s₀ : Pmap) (P prev : List Word) (c : Nat)
    (va : Word) (size : Nat) (src : Nat → BitVec 8) (i r : Nat) (s : Pmap) : Prop where
  none : ¬ FreePages (allocCost s₀ d prev (pagesFrom va size i) + c) s₀ → loadPages d va size src s i r = none
  spent : FreePages (allocCost s₀ d prev (pagesFrom va size i) + c) s₀ →
    ¬ FreePages (pagesCost s₀ d prev (pagesFrom va size i) + c) s₀ →
    ∃ a s', (pagesFrom va size i).getLast? = some a ∧
      loadPages d va size src s i r = some (max i size, lastPiece size i r, s') ∧ Spent d a s'
  made : FreePages (pagesCost s₀ d prev (pagesFrom va size i) + c) s₀ →
    ∃ s', loadPages d va size src s i r = some (max i size, lastPiece size i r, s') ∧
      PagesLoaded boot dirs d s₀ P prev c va size src i s s'

theorem loadPages_end {size i r : Nat} (hi : ¬ i < size) :
    loadPages d va size src s i r = some (max i size, lastPiece size i r, s) := by
  rw [loadPages, if_neg hi, lastPiece, if_neg hi, Nat.max_eq_left (Nat.le_of_not_lt hi)]

theorem pagesFrom_nil (va : Word) {size i : Nat} (hi : ¬ i < size) : pagesFrom va size i = [] := by
  rw [pagesFrom, visits, if_neg hi]
  rfl

theorem pagesFrom_ne_nil (va : Word) {size i : Nat} (hi : i < size) : pagesFrom va size i ≠ [] := by
  rw [pagesFrom_cons va hi]
  exact List.cons_ne_nil _ _

theorem loadPages_spec (src : Nat → BitVec 8) (r : Nat) (hd : d ∈ dirs) {size i : Nat}
    (h : Loaded boot dirs d s₀ P prev c s)
    (hnew : NewPages d s₀ prev (pagesFrom va size i)) :
    PagesEnd boot dirs d s₀ P prev c va size src i r s := by
  induction i using visits.induct size generalizing s P prev c r with
  | case2 i hi =>
      have hnil := pagesFrom_nil va hi
      have hfree : FreePages (0 + c) s₀ := (h.free 0).mp trivial
      refine ⟨fun hnone => ?_, fun _ hnone => ?_,
        fun _ => ⟨s, loadPages_end hi, ?_, fun j hj => ?_, fun _ _ _ _ _ => rfl⟩⟩
      · rw [hnil] at hnone
        exact absurd hfree hnone
      · rw [hnil] at hnone
        exact absurd hfree hnone
      · rw [hnil]
        simpa [pagesCost] using h
      · rw [visits, if_neg hi] at hj
        exact absurd hj List.not_mem_nil
  | case1 i hi ih =>
      have hcons := pagesFrom_cons va hi
      have hnew' := hcons ▸ hnew
      have ha := hnew'.user _ List.mem_cons_self
      have hmax : max (i + min BY2PG (size - i)) size = max i size := by omega
      have hcost : pagesCost s₀ d ((va + BitVec.ofNat 64 i) :: prev) (pagesFrom va size (i + min BY2PG (size - i))) +
          (1 + tablesFor s₀ d prev (va + BitVec.ofNat 64 i) + c) = pagesCost s₀ d prev (pagesFrom va size i) + c := by
        rw [hcons, pagesCost]
        omega
      -- Before the last page the tables of this one are counted.
      have hlast : i + min BY2PG (size - i) < size → allocCost s₀ d prev (pagesFrom va size i) + c =
          allocCost s₀ d ((va + BitVec.ofNat 64 i) :: prev) (pagesFrom va size (i + min BY2PG (size - i))) +
            (1 + tablesFor s₀ d prev (va + BitVec.ofNat 64 i) + c) := by
        intro hlt
        rw [hcons, allocCost_cons (pagesFrom_ne_nil _ hlt)]
        omega
      have hend : ¬ i + min BY2PG (size - i) < size → allocCost s₀ d prev (pagesFrom va size i) = 1 ∧
          pagesCost s₀ d prev (pagesFrom va size i) = 1 + tablesFor s₀ d prev (va + BitVec.ofNat 64 i) := by
        intro hlt
        rw [hcons, pagesFrom_nil _ hlt]
        exact ⟨rfl, rfl⟩
      by_cases hone : FreePages (1 + c) s₀
      case neg =>
        -- No page at all.
        have hless : ∀ n, 1 ≤ n → ¬ FreePages (n + c) s₀ := fun n hn hf => hone (hf.le (Nat.add_le_add_right hn c))
        rw [← h.free 1] at hone
        refine ⟨fun _ => loadPages_stop hi (loadPage_none hone), fun hf => ?_, fun hf => ?_⟩
        · rw [hcons] at hf
          exact absurd hf (hless _ (one_le_allocCost _))
        · rw [hcons, pagesCost, Nat.add_assoc 1] at hf
          exact absurd hf (hless _ (Nat.le_add_right 1 _))
      obtain ⟨s₁, hpage, hroom, hspent⟩ := loadPage_spec 0 (min BY2PG (size - i))
          (fun k => src (i + k)) h hd ha (hnew'.head h) hone
      have hloop := loadPages_next (r := r) hi hpage
      by_cases htables : FreePages (1 + tablesFor s₀ d prev (va + BitVec.ofNat 64 i) + c) s₀
      · have hfirst := hroom htables
        obtain ⟨hnone, hspent', hmade⟩ := ih (r := min BY2PG (size - i)) hfirst.loaded hnew'.tail
        rw [← hloop, hmax, lastPiece_next hi r, hcost] at hspent' hmade
        refine ⟨fun hf => ?_, fun hf hno => ?_, fun hf => ?_⟩
        · by_cases hlt : i + min BY2PG (size - i) < size
          · rw [hlast hlt] at hf
            rw [hloop]
            exact hnone hf
          · rw [(hend hlt).1] at hf
            exact absurd hone hf
        · by_cases hlt : i + min BY2PG (size - i) < size
          · rw [hlast hlt] at hf
            obtain ⟨b, s', hb, hs', hsp⟩ := hspent' hf hno
            exact ⟨b, s', by rw [hcons, List.getLast?_cons, hb, Option.getD_some], hs', hsp⟩
          · rw [(hend hlt).2] at hno
            exact absurd htables hno
        · obtain ⟨s', hs', hrest⟩ := hmade hf
          exact ⟨s', hs', hfirst.cons hi hnew hrest⟩
      · -- `page_insert` has failed, and another page cannot be allocated.
        have hsp := hspent htables
        have hmade : ¬ FreePages (pagesCost s₀ d prev (pagesFrom va size i) + c) s₀ := by
          intro hf
          rw [← hcost] at hf
          exact htables (hf.le (Nat.le_add_left _ _))
        refine ⟨fun hf => ?_, fun hf _ => ?_, fun hf => absurd hf hmade⟩
        · by_cases hlt : i + min BY2PG (size - i) < size
          · rw [hloop]
            exact loadPages_stop hlt (loadPage_none hsp.free)
          · rw [(hend hlt).1] at hf
            exact absurd hone hf
        · by_cases hlt : i + min BY2PG (size - i) < size
          · rw [hlast hlt] at hf
            exact absurd (hf.le (Nat.le_add_left _ _)) htables
          · refine ⟨_, s₁, ?_, ?_, hsp⟩
            · rw [hcons, pagesFrom_nil _ hlt]
              rfl
            · rw [hloop, loadPages_end hlt, hmax, lastPiece_next hi r]

theorem pagesCost_append (V W : List Word) :
    pagesCost s₀ d prev (V ++ W) = pagesCost s₀ d prev V + pagesCost s₀ d (V.reverse ++ prev) W := by
  induction V generalizing prev with
  | nil => exact (Nat.zero_add _).symm
  | cons a V ih =>
      rw [List.cons_append, pagesCost, pagesCost, ih, List.reverse_cons, List.append_assoc]
      exact (Nat.add_assoc _ _ _).symm

theorem allocCost_append {V W : List Word} (hW : W ≠ []) :
    allocCost s₀ d prev (V ++ W) = pagesCost s₀ d prev V + allocCost s₀ d (V.reverse ++ prev) W := by
  induction V generalizing prev with
  | nil => exact (Nat.zero_add _).symm
  | cons a V ih =>
      rw [List.cons_append, allocCost_cons (List.append_ne_nil_of_right_ne_nil V hW), pagesCost, ih,
        List.reverse_cons, List.append_assoc]
      exact (Nat.add_assoc _ _ _).symm

theorem allocCost_le (V : List Word) : allocCost s₀ d prev V ≤ pagesCost s₀ d prev V := by
  induction V generalizing prev with
  | nil => exact Nat.le_refl 0
  | cons a V ih =>
      by_cases hV : V = []
      · rw [hV, pagesCost]
        exact Nat.le_add_right_of_le (Nat.le_add_right 1 _)
      · rw [allocCost_cons hV, pagesCost]
        exact Nat.add_le_add_left ih _

/-! ## A segment -/

/-- The segment is to go into user pages of `d` that are not there yet; the page of an
    unaligned `va` may be there, with bytes of an earlier segment. -/
structure Segment (boot : Nat → Nat) (dirs : Finset Nat) (d : Nat) (va : Word) (S : Nat) (s : Pmap) : Prop where
  sound : PmapSound boot dirs s
  dir : d ∈ dirs
  low : va.toNat + S ≤ 2 ^ 39
  user : ∀ a : Word, va.toNat ≤ a.toNat → a.toNat < va.toNat + S ∨ a = va → UserVa a
  unmapped : ∀ k < S, va.toNat % BY2PG = 0 ∨ pageIdx (va + BitVec.ofNat 64 k) ≠ pageIdx va →
    mapping s d (va + BitVec.ofNat 64 k) = none
  own : ∀ e, mapping s d va = some e → ¬ IsTable s dirs (pteFrame e)

/-- The segment is in memory, after what was in front of it. -/
structure SegmentLoaded (d : Nat) (va : Word) (bin : Nat → BitVec 8) (B S : Nat) (s s' : Pmap) : Prop where
  mapped : ∀ k < S, mapping s' d (va + BitVec.ofNat 64 k) ≠ none
  data : ∀ k < B, userByte s' d (va + BitVec.ofNat 64 k) = some (bin k)
  zero : ∀ k, B ≤ k → k < S → userByte s' d (va + BitVec.ofNat 64 k) = some 0
  below : mapping s d va ≠ none → ∀ a : Word, pageIdx a = pageIdx va → a.toNat < va.toNat →
    userByte s' d a = userByte s d a

/-- The page of an unaligned `va`, when it is not there. -/
def firstPage (s : Pmap) (d : Nat) (va : Word) : List Word :=
  if 0 < va.toNat % BY2PG ∧ (mapping s d va).isNone then [va] else []

/-- How many bytes of the file go into that page. -/
def firstPiece (va : Word) (B : Nat) : Nat :=
  if 0 < va.toNat % BY2PG then min B (BY2PG - va.toNat % BY2PG) else 0

/-- The pages that are made for the bytes of the file. -/
def filePages (s : Pmap) (d : Nat) (va : Word) (B : Nat) : List Word :=
  firstPage s d va ++ pagesFrom va B (firstPiece va B)

/-- What is added to `i` before the last loop. -/
def zeroPiece (va : Word) (B S : Nat) : Nat :=
  if 0 < (va.toNat + B) % BY2PG then min (S - B) (BY2PG - (va.toNat + B) % BY2PG)
  else lastPiece B (firstPiece va B) (firstPiece va B)

/-- The pages that are made for the segment. -/
def newPages (s : Pmap) (d : Nat) (va : Word) (B S : Nat) : List Word :=
  filePages s d va B ++ pagesFrom va S (B + zeroPiece va B S)

variable {B S i j k r size : Nat} {bin : Nat → BitVec 8}

theorem toNat_at (va : Word) (k : Nat) (h : va.toNat + k < 2 ^ 64) :
    (va + BitVec.ofNat 64 k).toNat = va.toNat + k := by
  rw [BitVec.toNat_add, BitVec.toNat_ofNat]
  omega

theorem pageIdx_iff (ha : a.toNat < 2 ^ 39) (hp : p.toNat < 2 ^ 39) :
    pageIdx a = pageIdx p ↔ a.toNat / BY2PG = p.toNat / BY2PG := by
  rw [pageIdx, pageIdx, BY2PG, Prod.mk.injEq, Prod.mk.injEq]
  simp only [GET_L1_INDEX_eq, GET_L2_INDEX_eq, GET_L3_INDEX_eq]
  omega

/-- A loop visits every 4096th number; its last piece may be shorter. -/
theorem mem_visits : j ∈ visits size i ↔ j < size ∧ ∃ m, j = i + BY2PG * m := by
  induction i using visits.induct size with
  | case2 i hi =>
      rw [visits, if_neg hi]
      refine iff_of_false List.not_mem_nil ?_
      rintro ⟨hj, m, rfl⟩
      omega
  | case1 i hi ih =>
      rw [visits_cons hi, List.mem_cons, ih]
      rw [BY2PG] at *
      constructor
      · rintro (rfl | ⟨hj, m, rfl⟩)
        · exact ⟨hi, 0, rfl⟩
        · exact ⟨hj, m + 1, by omega⟩
      · rintro ⟨hj, m, rfl⟩
        cases m with
        | zero => exact .inl rfl
        | succ m => exact .inr ⟨hj, m, by omega⟩

theorem mem_pagesFrom : a ∈ pagesFrom va size i ↔
    ∃ m, i + BY2PG * m < size ∧ a = va + BitVec.ofNat 64 (i + BY2PG * m) := by
  rw [pagesFrom, List.mem_map]
  constructor
  · rintro ⟨j, hj, rfl⟩
    obtain ⟨hj, m, rfl⟩ := mem_visits.mp hj
    exact ⟨m, hj, rfl⟩
  · rintro ⟨m, hm, rfl⟩
    exact ⟨_, mem_visits.mpr ⟨hm, m, rfl⟩, rfl⟩

theorem pagesFrom_distinct (h : va.toNat + size ≤ 2 ^ 39) :
    (pagesFrom va size i).Pairwise fun a b => pageIdx a ≠ pageIdx b := by
  induction i using visits.induct size with
  | case2 i hi =>
      rw [pagesFrom_nil _ hi]
      exact List.Pairwise.nil
  | case1 i hi ih =>
      rw [pagesFrom_cons _ hi, List.pairwise_cons]
      refine ⟨fun b hb => ?_, ih⟩
      obtain ⟨m, hm, rfl⟩ := mem_pagesFrom.mp hb
      rw [BY2PG] at *
      have hi' := toNat_at va i (by omega)
      have hm' := toNat_at va (i + min 4096 (size - i) + 4096 * m) (by omega)
      rw [Ne, pageIdx_iff (by omega) (by omega), hi', hm', BY2PG]
      omega

/-- A loop finds new pages when those before it lie lower. -/
theorem pagesFrom_new (h : Segment boot dirs d va S s) (hsize : size ≤ S)
    (hfirst : 0 < va.toNat % BY2PG → ∀ j, i ≤ j → j < size → va.toNat / BY2PG < (va.toNat + j) / BY2PG)
    (hprev : ∀ p ∈ prev, p.toNat < 2 ^ 39 ∧ ∀ j, i ≤ j → j < size → p.toNat / BY2PG < (va.toNat + j) / BY2PG) :
    NewPages d s prev (pagesFrom va size i) := by
  have hlow := h.low
  refine ⟨fun a ha => ?_, fun a ha => ?_, fun a ha p hp => ?_, pagesFrom_distinct (by omega)⟩
  all_goals
    obtain ⟨m, hm, rfl⟩ := mem_pagesFrom.mp ha
    have hat := toNat_at va (i + BY2PG * m) (by omega)
  · exact (h.user _ (by omega) (.inl (by omega))).2
  · refine h.unmapped _ (by omega) ?_
    by_cases halign : 0 < va.toNat % BY2PG
    · refine .inr ?_
      have := hfirst halign (i + BY2PG * m) (Nat.le_add_right i _) hm
      rw [Ne, pageIdx_iff (by omega) (by omega), hat]
      omega
    · exact .inl (Nat.eq_zero_of_not_pos halign)
  · obtain ⟨hplow, hlt⟩ := hprev p hp
    have := hlt (i + BY2PG * m) (Nat.le_add_right i _) hm
    rw [Ne, pageIdx_iff hplow (by omega), hat]
    omega

/-- The pages of the first part, when the segment is as it should be. -/
theorem firstPage_new (h : Segment boot dirs d va S s) : NewPages d s [] (firstPage s d va) := by
  unfold firstPage
  split
  case isTrue hfirst =>
    refine ⟨fun a ha => ?_, fun a ha => ?_, fun _ _ p hp => absurd hp List.not_mem_nil, List.pairwise_singleton _ _⟩
    · rw [List.mem_singleton.mp ha]
      exact (h.user va (Nat.le_refl _) (.inr rfl)).2
    · rw [List.mem_singleton.mp ha]
      exact Option.isNone_iff_eq_none.mp hfirst.2
  case isFalse =>
    exact ⟨fun a ha => absurd ha List.not_mem_nil, fun a ha => absurd ha List.not_mem_nil,
      fun a ha => absurd ha List.not_mem_nil, List.Pairwise.nil⟩

/-! ## The file's bytes -/

/-- The page of an unaligned `va` is backed after the first part. -/
def edgePage (va : Word) : List Word := if 0 < va.toNat % BY2PG then [va] else []

/-- What the first part does to the page of `va`. -/
def edgeByte (s : Pmap) (d : Nat) (va : Word) (n : Nat) (src : Nat → BitVec 8) (x : Word) : Option (BitVec 8) :=
  if va.toNat % BY2PG ≤ x.toNat % 4096 ∧ x.toNat % 4096 < va.toNat % BY2PG + n then
    some (src (x.toNat % 4096 - va.toNat % BY2PG))
  else if (mapping s d va).isNone then some 0 else userByte s d x

theorem loadEdge_first (B : Nat) (bin : Nat → BitVec 8) (h : Segment boot dirs d va S s) :
    (¬ FreePages (allocCost s d [] (firstPage s d va)) s → loadEdge d va B bin 0 s = none) ∧
    (FreePages (allocCost s d [] (firstPage s d va)) s → ¬ FreePages (pagesCost s d [] (firstPage s d va)) s →
      ∃ s', loadEdge d va B bin 0 s = some (firstPiece va B, s') ∧ firstPage s d va = [va] ∧ Spent d va s') ∧
    (FreePages (pagesCost s d [] (firstPage s d va)) s →
      ∃ s', loadEdge d va B bin 0 s = some (firstPiece va B, s') ∧
        Loaded boot dirs d s (edgePage va) (firstPage s d va) (pagesCost s d [] (firstPage s d va)) s' ∧
        (0 < va.toNat % BY2PG → ∀ x, pageIdx x = pageIdx va →
            userByte s' d x = edgeByte s d va (firstPiece va B) bin x)) := by
  have hstart : Loaded boot dirs d s [] [] 0 s :=
    ⟨.nil h.sound, .refl d s, fun _ => Iff.rfl, fun _ _ _ => rfl⟩
  have hva := (h.user va (Nat.le_refl _) (.inr rfl)).2
  have hoff : (pageOffset va).toNat = va.toNat % BY2PG := toNat_pageOffset va
  unfold loadEdge
  dsimp only
  rw [hoff]
  by_cases halign : 0 < va.toNat % BY2PG
  case neg =>
    have hpage : firstPage s d va = [] := if_neg fun hf => halign hf.1
    rw [hpage, firstPiece, if_neg halign, if_neg halign, edgePage, if_neg halign]
    exact ⟨fun hf => absurd trivial hf, fun _ hf => absurd trivial hf,
      fun _ => ⟨s, rfl, hstart, fun hpos => absurd hpos halign⟩⟩
  rw [firstPiece, if_pos halign, if_pos halign, edgePage, if_pos halign]
  cases hm : mapping s d va with
  | none =>
      have hpage : firstPage s d va = [va] := if_pos ⟨halign, by rw [hm]; rfl⟩
      have hnew : NewPages d s [] [va] := hpage ▸ firstPage_new h
      have hlook : loadPart s d va (va.toNat % BY2PG) (min B (BY2PG - va.toNat % BY2PG)) bin =
          loadPage s d va (va.toNat % BY2PG) (min B (BY2PG - va.toNat % BY2PG)) bin := by
        rw [loadPart, (pageLookup_eq_none_iff s d va).mpr hm]
      rw [hpage, hlook]
      refine ⟨fun hf => ?_, fun hf hno => ?_, fun hf => ?_⟩
      · rw [loadPage_none hf]
        rfl
      · obtain ⟨s', hs', -, hspent⟩ := loadPage_spec (va.toNat % BY2PG)
          (min B (BY2PG - va.toNat % BY2PG)) bin hstart h.dir hva hm hf
        exact ⟨s', by rw [hs']; rfl, rfl, hspent hno⟩
      · obtain ⟨s', hs', hmade, -⟩ := loadPage_spec (va.toNat % BY2PG)
          (min B (BY2PG - va.toNat % BY2PG)) bin hstart h.dir hva hm
          (hf.le (Nat.le_add_right_of_le (Nat.le_add_right 1 _)))
        obtain ⟨hl, hbytes, -⟩ := hmade hf
        refine ⟨s', by rw [hs']; rfl, hl, fun _ x hx => ?_⟩
        rw [hbytes x hx, edgeByte, pageByte, hm, apply_ite some]
        rfl
  | some e =>
      have hpage : firstPage s d va = [] := if_neg fun hf => by rw [hm] at hf; exact Bool.false_ne_true hf.2
      have hb : Backed boot dirs d [va] s := by
        refine ⟨h.sound, fun p hp => ?_, fun p hp => ?_, fun p hp q hq _ _ _ _ _ => ?_⟩
        · rw [List.mem_singleton.mp hp]
          exact hva
        · rw [List.mem_singleton.mp hp]
          exact ⟨e, hm, h.own e hm⟩
        · rw [List.mem_singleton.mp hp, List.mem_singleton.mp hq]
      have hlook : loadPart s d va (va.toNat % BY2PG) (min B (BY2PG - va.toNat % BY2PG)) bin =
          some (s.storeBytes (pteFrame e) (va.toNat % BY2PG) (min B (BY2PG - va.toNat % BY2PG)) bin) := by
        rw [loadPart]
        cases hl : pageLookup s d va with
        | none =>
            rw [(pageLookup_eq_none_iff s d va).mp hl] at hm
            cases hm
        | some y =>
            obtain ⟨q, t, i⟩ := y
            obtain ⟨hm', hq⟩ := h.sound.lookup_eq h.dir hva hl
            rw [hm] at hm'
            cases hm'
            rw [hq]
      rw [hpage, hlook]
      have hdata := h.own e hm
      obtain ⟨hb', hbytes, -⟩ := hb.store h.dir List.mem_cons_self hm (va.toNat % BY2PG)
        (min B (BY2PG - va.toNat % BY2PG)) bin
      refine ⟨fun hf => absurd trivial hf, fun _ hf => absurd trivial hf, fun _ => ⟨_, rfl, ?_, fun _ x hx => ?_⟩⟩
      · exact ⟨hb', tablesAdded_of_tables h.dir (storeBytes_tables hdata), fun n => freePages_storeBytes,
          fun x hx _ => mapping_storeBytes hdata h.dir hx⟩
      · rw [hbytes x hx, edgeByte, hm]
        rfl

/-- The first two parts. -/
def loadFile (s : Pmap) (d : Nat) (va : Word) (bin : Nat → BitVec 8) (B : Nat) : Option (Nat × Nat × Pmap) :=
  (loadEdge d va B bin 0 s).bind fun x => loadPages d va B bin x.2 x.1 x.1

/-- The bytes of the file are in memory. -/
structure FileLoaded (boot : Nat → Nat) (dirs : Finset Nat) (d : Nat) (va : Word) (bin : Nat → BitVec 8) (B : Nat)
    (s s' : Pmap) : Prop where
  loaded : Loaded boot dirs d s ((pagesFrom va B (firstPiece va B)).reverse ++ edgePage va)
    (filePages s d va B).reverse (pagesCost s d [] (filePages s d va B)) s'
  edge : 0 < va.toNat % BY2PG → ∀ x, pageIdx x = pageIdx va →
    userByte s' d x = edgeByte s d va (firstPiece va B) bin x
  bytes : ∀ j ∈ visits B (firstPiece va B), ∀ x, pageIdx x = pageIdx (va + BitVec.ofNat 64 j) →
    userByte s' d x = some (pageByte 0 (min BY2PG (B - j)) (fun k => bin (j + k)) (x.toNat % 4096))

theorem firstPiece_le (va : Word) (B : Nat) : firstPiece va B ≤ B := by
  unfold firstPiece
  split
  · exact Nat.min_le_left _ _
  · exact Nat.zero_le B

theorem firstPage_reverse : (firstPage s d va).reverse = firstPage s d va := by
  unfold firstPage
  split <;> rfl

/-- After the first part the loop is at a page boundary, or at its end. -/
theorem firstPiece_boundary (hi : firstPiece va B < B) : (va.toNat + firstPiece va B) % BY2PG = 0 ∧
    (0 < va.toNat % BY2PG → va.toNat / BY2PG < (va.toNat + firstPiece va B) / BY2PG) := by
  unfold firstPiece at hi ⊢
  split at hi
  · rw [if_pos ‹_›]
    rw [BY2PG] at *
    omega
  · rw [if_neg ‹_›, Nat.add_zero]
    exact ⟨Nat.eq_zero_of_not_pos ‹_›, fun hpos => absurd hpos ‹_›⟩

theorem filePages_new (h : Segment boot dirs d va S s) (hle : B ≤ S) :
    NewPages d s (firstPage s d va) (pagesFrom va B (firstPiece va B)) := by
  have hlow := h.low
  have hfirst : 0 < va.toNat % BY2PG → ∀ j, firstPiece va B ≤ j → j < B →
      va.toNat / BY2PG < (va.toNat + j) / BY2PG := by
    intro hpos j hj hlt
    have hb := (firstPiece_boundary (Nat.lt_of_le_of_lt hj hlt)).2 hpos
    exact Nat.lt_of_lt_of_le hb (Nat.div_le_div_right (Nat.add_le_add_left hj _))
  refine pagesFrom_new h hle hfirst fun p hp => ?_
  unfold firstPage at hp
  split at hp
  case isTrue hpos =>
    rw [List.mem_singleton.mp hp]
    refine ⟨?_, hfirst hpos.1⟩
    have := hpos.1
    rw [BY2PG] at this
    omega
  case isFalse => exact absurd hp List.not_mem_nil

theorem filePages_reverse : (filePages s d va B).reverse =
    (pagesFrom va B (firstPiece va B)).reverse ++ firstPage s d va := by
  rw [filePages, List.reverse_append, firstPage_reverse]

/-- The other pages lie above that of `va`. -/
theorem edge_apart (h : Segment boot dirs d va S s) (hle : B ≤ S) (hpos : 0 < va.toNat % BY2PG)
    (ha : a ∈ pagesFrom va B (firstPiece va B)) : pageIdx va ≠ pageIdx a := by
  have hlow := h.low
  obtain ⟨m, hm, rfl⟩ := mem_pagesFrom.mp ha
  obtain ⟨-, hb⟩ := firstPiece_boundary (show firstPiece va B < B by omega)
  have hb := hb hpos
  have hat := toNat_at va (firstPiece va B + BY2PG * m) (by omega)
  rw [Ne, pageIdx_iff (by omega) (by omega), hat]
  rw [BY2PG] at *
  omega

theorem allocCost_append_le (V W : List Word) : allocCost s₀ d prev V ≤ allocCost s₀ d prev (V ++ W) := by
  by_cases hW : W = []
  · rw [hW, List.append_nil]
  · rw [allocCost_append hW]
    exact Nat.le_trans (allocCost_le V) (Nat.le_add_right _ _)

theorem loadFile_spec (bin : Nat → BitVec 8) (h : Segment boot dirs d va S s) (hle : B ≤ S) :
    (¬ FreePages (allocCost s d [] (filePages s d va B)) s → loadFile s d va bin B = none) ∧
    (FreePages (allocCost s d [] (filePages s d va B)) s → ¬ FreePages (pagesCost s d [] (filePages s d va B)) s →
      ∃ a s', (filePages s d va B).getLast? = some a ∧
        loadFile s d va bin B = some (B, lastPiece B (firstPiece va B) (firstPiece va B), s') ∧ Spent d a s') ∧
    (FreePages (pagesCost s d [] (filePages s d va B)) s →
      ∃ s', loadFile s d va bin B = some (B, lastPiece B (firstPiece va B) (firstPiece va B), s') ∧
        FileLoaded boot dirs d va bin B s s') := by
  obtain ⟨hnone₁, hspent₁, hmade₁⟩ := loadEdge_first B bin h
  have hmax : max (firstPiece va B) B = B := Nat.max_eq_right (firstPiece_le va B)
  have hcost : pagesCost s d [] (filePages s d va B) = pagesCost s d (firstPage s d va)
      (pagesFrom va B (firstPiece va B)) + pagesCost s d [] (firstPage s d va) := by
    rw [filePages, pagesCost_append, firstPage_reverse, List.append_nil, Nat.add_comm]
  by_cases hfirst : FreePages (pagesCost s d [] (firstPage s d va)) s
  · obtain ⟨s₁, hs₁, hl, hedge⟩ := hmade₁ hfirst
    have hloop : loadFile s d va bin B = loadPages d va B bin s₁ (firstPiece va B) (firstPiece va B) := by
      rw [loadFile, hs₁]
      rfl
    obtain ⟨hnone, hspent, hmade⟩ := loadPages_spec bin (firstPiece va B) h.dir hl (filePages_new h hle)
    rw [hmax, ← hcost] at hspent hmade
    refine ⟨fun hf => ?_, fun hf hno => ?_, fun hf => ?_⟩
    · by_cases hlt : firstPiece va B < B
      · rw [hloop]
        refine hnone fun hf' => hf ?_
        rw [filePages, allocCost_append (pagesFrom_ne_nil _ hlt), firstPage_reverse,
          List.append_nil, Nat.add_comm]
        exact hf'
      · rw [filePages, pagesFrom_nil _ hlt, List.append_nil] at hf
        exact absurd (hfirst.le (allocCost_le _)) hf
    · by_cases hlt : firstPiece va B < B
      · rw [filePages, allocCost_append (pagesFrom_ne_nil _ hlt), firstPage_reverse,
          List.append_nil, Nat.add_comm] at hf
        obtain ⟨a, s', ha, hs', hsp⟩ := hspent hf hno
        refine ⟨a, s', ?_, hloop.trans hs', hsp⟩
        rw [filePages, List.getLast?_append, ha]
        rfl
      · rw [hcost, pagesFrom_nil _ hlt] at hno
        exact absurd ((Nat.zero_add _).symm ▸ hfirst) hno
    · obtain ⟨s', hs', hrest⟩ := hmade hf
      refine ⟨s', hloop.trans hs', ⟨?_, fun hpos x hx => ?_, hrest.bytes⟩⟩
      · rw [filePages_reverse, hcost]
        exact hrest.loaded
      · have hmem : va ∈ edgePage va := by rw [edgePage, if_pos hpos]; exact List.mem_singleton_self va
        rw [hrest.kept va hmem x hx fun a ha => hx ▸ edge_apart h hle hpos ha, hedge hpos x hx]
  · have hcostle : pagesCost s d [] (firstPage s d va) ≤ pagesCost s d [] (filePages s d va B) := by
      rw [hcost]
      exact Nat.le_add_left _ _
    have hmade : ¬ FreePages (pagesCost s d [] (filePages s d va B)) s := fun hf => hfirst (hf.le hcostle)
    by_cases halloc : FreePages (allocCost s d [] (firstPage s d va)) s
    · -- The page of `va` could not be inserted.
      obtain ⟨s₁, hs₁, hpage, hsp⟩ := hspent₁ halloc hfirst
      have hloop : loadFile s d va bin B = loadPages d va B bin s₁ (firstPiece va B) (firstPiece va B) := by
        rw [loadFile, hs₁]
        rfl
      by_cases hlt : firstPiece va B < B
      · refine ⟨fun _ => ?_, fun hf _ => ?_, fun hf => absurd hf hmade⟩
        · rw [hloop]
          exact loadPages_stop hlt (loadPage_none hsp.free)
        · rw [filePages, allocCost_append (pagesFrom_ne_nil _ hlt)] at hf
          exact absurd (hf.le (Nat.le_add_right _ _)) hfirst
      · have hfile : filePages s d va B = [va] := by rw [filePages, pagesFrom_nil _ hlt, List.append_nil, hpage]
        refine ⟨fun hf => ?_, fun _ _ => ⟨va, s₁, ?_, ?_, hsp⟩, fun hf => absurd hf hmade⟩
        · rw [hfile, ← hpage] at hf
          exact absurd halloc hf
        · rw [hfile]
          rfl
        · rw [hloop, loadPages_end hlt, hmax]
    · refine ⟨fun _ => ?_, fun hf _ => ?_, fun hf => absurd hf hmade⟩
      · rw [loadFile, hnone₁ halloc]
        rfl
      · exact absurd (hf.le (allocCost_append_le _ _)) halloc

/-! ## The zeros -/

/-- The last two parts. -/
def loadZeros (s : Pmap) (d : Nat) (va : Word) (S i r : Nat) : Option Pmap :=
  (loadEdge d (va + BitVec.ofNat 64 i) (S - i) (fun _ => 0) r s).bind fun x =>
    (loadPages d va S (fun _ => 0) x.2 (i + x.1) x.1).map fun y => y.2.2

variable {sgsize bin_size : U32}

theorem loadIcodeMapper_none (h : loadFile s d va bin bin_size.toNat = none) :
    loadIcodeMapper s d va sgsize bin bin_size = none := by
  rw [loadFile, Option.bind_eq_none_iff] at h
  rw [loadIcodeMapper]
  cases hedge : loadEdge d va bin_size.toNat bin 0 s with
  | none => rfl
  | some x =>
      dsimp only
      rw [h x hedge]

theorem loadIcodeMapper_some (hle : bin_size.toNat ≤ sgsize.toNat)
    (h : loadFile s d va bin bin_size.toNat = some (bin_size.toNat, r, s')) :
    loadIcodeMapper s d va sgsize bin bin_size = loadZeros s' d va sgsize.toNat bin_size.toNat r := by
  rw [loadFile, Option.bind_eq_some_iff] at h
  obtain ⟨x, hedge, hloop⟩ := h
  have hsize : (sgsize.setWidth 64 - BitVec.ofNat 64 bin_size.toNat).toNat = sgsize.toNat - bin_size.toNat := by
    have h₁ := sgsize.isLt
    have h₂ := bin_size.isLt
    rw [BitVec.toNat_sub, BitVec.toNat_setWidth, BitVec.toNat_ofNat]
    omega
  rw [loadIcodeMapper, hedge]
  dsimp only
  rw [hloop]
  dsimp only
  rw [hsize, loadZeros]
  cases loadEdge d (va + BitVec.ofNat 64 bin_size.toNat) (sgsize.toNat - bin_size.toNat) (fun _ => 0) r s' <;> rfl

/-- The last turn of a loop goes up to its end. -/
theorem visits_last (h : (visits size i).getLast? = some j) : j < size ∧ size ≤ j + BY2PG ∧ i ≤ j := by
  induction i using visits.induct size with
  | case2 i hi =>
      rw [visits, if_neg hi] at h
      cases h
  | case1 i hi ih =>
      rw [visits_cons hi, List.getLast?_cons] at h
      cases hrest : (visits size (i + min BY2PG (size - i))).getLast? with
      | some k =>
          rw [hrest] at h
          cases h
          obtain ⟨h₁, h₂, h₃⟩ := ih hrest
          exact ⟨h₁, h₂, Nat.le_of_add_right_le h₃⟩
      | none =>
          rw [hrest, Option.getD_none] at h
          have hend : ¬ i + min BY2PG (size - i) < size := by
            intro hlt
            rw [visits_cons hlt, List.getLast?_cons] at hrest
            cases hrest
          cases h
          refine ⟨hi, ?_, Nat.le_refl _⟩
          rw [BY2PG] at *
          omega

/-- The last page of the file is the one in which its bytes end. -/
theorem fileEnd (h : Segment boot dirs d va S s) (hle : B ≤ S) :
    (0 < (va.toNat + B) % BY2PG → ∃ p ∈ (pagesFrom va B (firstPiece va B)).reverse ++ edgePage va,
      pageIdx p = pageIdx (va + BitVec.ofNat 64 B)) ∧
    (∀ a, (filePages s d va B).getLast? = some a →
      (0 < (va.toNat + B) % BY2PG → pageIdx a = pageIdx (va + BitVec.ofNat 64 B)) ∧
      (¬ 0 < (va.toNat + B) % BY2PG → ∃ k < B, a = va + BitVec.ofNat 64 k)) := by
  have hlow := h.low
  by_cases hlt : firstPiece va B < B
  · obtain ⟨hmod, -⟩ := firstPiece_boundary hlt
    obtain ⟨j, hj⟩ : ∃ j, (visits B (firstPiece va B)).getLast? = some j := by
      rw [visits_cons hlt, List.getLast?_cons]
      exact ⟨_, rfl⟩
    obtain ⟨h₁, h₂, -⟩ := visits_last hj
    obtain ⟨-, m, hm⟩ := mem_visits.mp (List.mem_of_getLast? hj)
    have hpage : 0 < (va.toNat + B) % BY2PG →
        pageIdx (va + BitVec.ofNat 64 j) = pageIdx (va + BitVec.ofNat 64 B) := by
      intro hpos
      rw [BY2PG] at *
      rw [pageIdx_iff (by rw [toNat_at _ _ (by omega)]; omega) (by rw [toNat_at _ _ (by omega)]; omega),
        toNat_at _ _ (by omega), toNat_at _ _ (by omega), BY2PG]
      omega
    refine ⟨fun hpos => ⟨_, ?_, hpage hpos⟩, fun a ha => ?_⟩
    · refine List.mem_append_left _ (List.mem_reverse.mpr ?_)
      exact List.mem_map.mpr ⟨j, List.mem_of_getLast? hj, rfl⟩
    · have ha' : a = va + BitVec.ofNat 64 j := by
        rw [filePages, List.getLast?_append, pagesFrom, List.getLast?_map, hj] at ha
        cases ha
        rfl
      rw [ha']
      exact ⟨hpage, fun _ => ⟨j, h₁, rfl⟩⟩
  · -- Nothing of the file lies behind the first part.
    have hpiece : firstPiece va B = B := Nat.le_antisymm (firstPiece_le va B) (Nat.le_of_not_lt hlt)
    rw [filePages, pagesFrom_nil _ hlt, List.append_nil]
    by_cases halign : 0 < va.toNat % BY2PG
    · rw [firstPiece, if_pos halign] at hpiece
      rw [edgePage, if_pos halign]
      have hpage : 0 < (va.toNat + B) % BY2PG → pageIdx va = pageIdx (va + BitVec.ofNat 64 B) := by
        intro hpos
        rw [BY2PG] at *
        rw [pageIdx_iff (by omega) (by rw [toNat_at _ _ (by omega)]; omega), toNat_at _ _ (by omega), BY2PG]
        omega
      refine ⟨fun hpos => ⟨va, List.mem_singleton_self va, hpage hpos⟩, fun a ha => ?_⟩
      have ha' : a = va := by
        unfold firstPage at ha
        split at ha
        · cases ha
          rfl
        · cases ha
      rw [ha']
      refine ⟨hpage, fun hzero => ⟨0, ?_, (BitVec.add_zero va).symm⟩⟩
      rw [BY2PG] at *
      omega
    · rw [firstPiece, if_neg halign] at hpiece
      rw [edgePage, if_neg halign, firstPage, if_neg fun hf => halign hf.1, ← hpiece, Nat.add_zero]
      exact ⟨fun hpos => absurd hpos halign, fun a ha => by cases ha⟩

/-- The page in which the bytes of the file end gets its zeros. -/
structure EdgeZeroed (boot : Nat → Nat) (dirs : Finset Nat) (d : Nat) (va : Word) (B S : Nat) (s s' s'' : Pmap) :
    Prop where
  loaded : Loaded boot dirs d s ((pagesFrom va B (firstPiece va B)).reverse ++ edgePage va)
    (filePages s d va B).reverse (pagesCost s d [] (filePages s d va B)) s''
  kept : ∀ q ∈ (pagesFrom va B (firstPiece va B)).reverse ++ edgePage va, ∀ x, pageIdx x = pageIdx q →
    x.toNat < va.toNat + B → userByte s'' d x = userByte s' d x
  zero : 0 < (va.toNat + B) % BY2PG → ∀ k, B ≤ k → k < B + zeroPiece va B S →
    userByte s'' d (va + BitVec.ofNat 64 k) = some 0

theorem loadEdge_zeros (h : Segment boot dirs d va S s) (hle : B ≤ S) (hfile : FileLoaded boot dirs d va bin B s s') :
    ∃ s'', loadEdge d (va + BitVec.ofNat 64 B) (S - B) (fun _ => 0)
        (lastPiece B (firstPiece va B) (firstPiece va B)) s' = some (zeroPiece va B S, s'') ∧
      EdgeZeroed boot dirs d va B S s s' s'' := by
  have hlow := h.low
  have hat := toNat_at va B (by omega)
  have hoff : (pageOffset (va + BitVec.ofNat 64 B)).toNat = (va.toNat + B) % BY2PG := by
    rw [toNat_pageOffset, hat, BY2PG]
  unfold loadEdge zeroPiece
  dsimp only
  rw [hoff]
  by_cases hpos : 0 < (va.toNat + B) % BY2PG
  case neg =>
    rw [if_neg hpos, if_neg hpos]
    exact ⟨s', rfl, hfile.loaded, fun _ _ _ _ _ => rfl, fun hf => absurd hf hpos⟩
  rw [if_pos hpos, if_pos hpos]
  have hend : va.toNat + B < 2 ^ 39 := by
    rw [BY2PG] at hpos
    omega
  obtain ⟨p, hp, hpage⟩ := (fileEnd h hle).1 hpos
  obtain ⟨e, he, hdata⟩ := hfile.loaded.backed.page p hp
  have hlook : loadPart s' d (va + BitVec.ofNat 64 B) ((va.toNat + B) % BY2PG)
      (min (S - B) (BY2PG - (va.toNat + B) % BY2PG)) (fun _ => 0) =
      some (s'.storeBytes (pteFrame e) ((va.toNat + B) % BY2PG) (min (S - B) (BY2PG - (va.toNat + B) % BY2PG))
        fun _ => 0) := by
    have hm : mapping s' d (va + BitVec.ofNat 64 B) = some e := (mapping_congr_page hpage.symm).trans he
    have huser : GET_L1_INDEX (va + BitVec.ofNat 64 B) ≠ uvptIndex := by
      rw [← pageIdx_L1 hpage]
      exact hfile.loaded.backed.user p hp
    rw [loadPart]
    cases hl : pageLookup s' d (va + BitVec.ofNat 64 B) with
    | none =>
        rw [(pageLookup_eq_none_iff _ d _).mp hl] at hm
        cases hm
    | some y =>
        obtain ⟨q, t, i⟩ := y
        obtain ⟨hm', hq⟩ := hfile.loaded.backed.sound.lookup_eq h.dir huser hl
        rw [hm] at hm'
        cases hm'
        rw [hq]
  rw [hlook]
  obtain ⟨hb', hbytes, hkept⟩ := hfile.loaded.backed.store h.dir hp he ((va.toNat + B) % BY2PG)
    (min (S - B) (BY2PG - (va.toNat + B) % BY2PG)) (fun _ => 0)
  refine ⟨_, rfl, ⟨hb', ?_, ?_, ?_⟩, fun q hq x hx hlt => ?_, fun _ k hk hlt => ?_⟩
  · exact hfile.loaded.tables.append (tablesAdded_of_tables h.dir (storeBytes_tables hdata))
  · exact fun n => freePages_storeBytes.trans (hfile.loaded.free n)
  · exact fun x hx hne => (mapping_storeBytes hdata h.dir hx).trans (hfile.loaded.other x hx hne)
  · by_cases hsame : pageIdx x = pageIdx p
    · -- What lies in front of the end of the file is not touched.
      have hx' := (pageIdx_iff (by omega) (by omega)).mp (hsame.trans hpage)
      rw [hat] at hx'
      rw [hbytes x hsame, if_neg]
      rw [BY2PG] at *
      omega
    · exact hkept q hq x hx hsame
  · rw [zeroPiece, if_pos hpos] at hlt
    have hatk := toNat_at va k (by omega)
    have hsame : pageIdx (va + BitVec.ofNat 64 k) = pageIdx (va + BitVec.ofNat 64 B) := by
      rw [pageIdx_iff (by omega) (by omega), hatk, hat]
      rw [BY2PG] at *
      omega
    rw [hbytes _ (hsame.trans hpage.symm), hatk, if_pos]
    rw [BY2PG] at *
    omega

/-- The last loop is above all that lies in front of it. -/
theorem zeros_above (hj : B + zeroPiece va B S ≤ j) (hlt : j < S)
    (hk : k < B ∨ k = 0 ∧ 0 < va.toNat % BY2PG) : (va.toNat + k) / BY2PG < (va.toNat + j) / BY2PG := by
  unfold zeroPiece at hj
  split at hj <;> rw [BY2PG] at * <;> omega

theorem zeros_new (h : Segment boot dirs d va S s) (hle : B ≤ S) :
    NewPages d s (filePages s d va B).reverse (pagesFrom va S (B + zeroPiece va B S)) := by
  have hlow := h.low
  refine pagesFrom_new h (Nat.le_refl S) (fun hpos j hj hlt => zeros_above hj hlt (.inr ⟨rfl, hpos⟩)) fun p hp => ?_
  rw [List.mem_reverse, filePages, List.mem_append] at hp
  rcases hp with hp | hp
  · unfold firstPage at hp
    split at hp
    case isTrue hpos =>
      rw [List.mem_singleton.mp hp]
      have hpos := hpos.1
      refine ⟨?_, fun j hj hlt => zeros_above hj hlt (.inr ⟨rfl, hpos⟩)⟩
      rw [BY2PG] at hpos
      omega
    case isFalse => exact absurd hp List.not_mem_nil
  · obtain ⟨m, hm, rfl⟩ := mem_pagesFrom.mp hp
    have hat := toNat_at va (firstPiece va B + BY2PG * m) (by omega)
    rw [hat]
    exact ⟨by omega, fun j hj hlt => zeros_above hj hlt (.inl hm)⟩

/-- The zeros do not start at a page boundary, or they end further in their last page
    than the bytes of the file do in theirs. -/
def ZerosFit (va : Word) (B S : Nat) : Prop :=
  (va.toNat + B) % BY2PG = 0 → 0 < B → B < S → min B BY2PG ≤ (S - B - 1) % BY2PG

/-- At a page boundary the size of the last piece of the file is left. -/
theorem lastPiece_boundary (hmod : (va.toNat + B) % BY2PG = 0) :
    lastPiece B (firstPiece va B) (firstPiece va B) = min B BY2PG := by
  unfold lastPiece
  split
  case isTrue hlt =>
    obtain ⟨hmod', -⟩ := firstPiece_boundary hlt
    rw [BY2PG] at *
    omega
  case isFalse hlt =>
    have hpiece : firstPiece va B = B := Nat.le_antisymm (firstPiece_le va B) (Nat.le_of_not_lt hlt)
    rw [hpiece]
    unfold firstPiece at hpiece
    split at hpiece <;> rw [BY2PG] at * <;> omega

/-- Every page of zeros is made. -/
theorem zeros_covered (hfit : ZerosFit va B S) (hB : B ≤ k) (hk : k < S)
    (hedge : ¬ (0 < (va.toNat + B) % BY2PG ∧ k < B + zeroPiece va B S)) :
    ∃ m, B + zeroPiece va B S + BY2PG * m < S ∧
      (va.toNat + k) / BY2PG = (va.toNat + (B + zeroPiece va B S + BY2PG * m)) / BY2PG := by
  unfold zeroPiece at hedge ⊢
  split at hedge
  case isTrue hpos =>
    rw [if_pos hpos]
    refine ⟨(va.toNat + k) / BY2PG - (va.toNat + B) / BY2PG - 1, ?_, ?_⟩ <;> rw [BY2PG] at * <;> omega
  case isFalse hpos =>
    rw [if_neg hpos, lastPiece_boundary (Nat.eq_zero_of_not_pos hpos)]
    have hfit := hfit (Nat.eq_zero_of_not_pos hpos)
    refine ⟨(k - B) / BY2PG, ?_, ?_⟩ <;> rw [BY2PG] at * <;> omega

/-- A page of zeros is left out: the first one, or the last. -/
theorem zeros_missed (hfit : ¬ ZerosFit va B S) : (va.toNat + B) % BY2PG = 0 ∧ 0 < B ∧ ∃ k, B ≤ k ∧ k < S ∧
    ∀ m, B + zeroPiece va B S + BY2PG * m < S →
      (va.toNat + k) / BY2PG ≠ (va.toNat + (B + zeroPiece va B S + BY2PG * m)) / BY2PG := by
  rw [ZerosFit, Classical.not_imp, Classical.not_imp, Classical.not_imp, Nat.not_le] at hfit
  obtain ⟨hmod, hpos, hlt, hshort⟩ := hfit
  refine ⟨hmod, hpos, ?_⟩
  rw [zeroPiece, if_neg (by rw [hmod]; exact Nat.lt_irrefl 0), lastPiece_boundary hmod]
  by_cases hpage : BY2PG ≤ B
  · refine ⟨B, Nat.le_refl B, hlt, fun m _ => ?_⟩
    rw [BY2PG] at *
    omega
  · refine ⟨S - 1, by omega, by omega, fun m hm => ?_⟩
    rw [BY2PG] at *
    omega

/-! ## The segment -/

theorem mapping_of_userByte {x : Word} {b : BitVec 8} (h : userByte s d x = some b) : mapping s d x ≠ none := by
  intro hm
  rw [userByte, hm] at h
  cases h

theorem mem_edgePage (hpos : 0 < va.toNat % BY2PG) : va ∈ edgePage va := by
  rw [edgePage, if_pos hpos]
  exact List.mem_singleton_self va

section Run

variable {s₂ s₃ : Pmap} (h : Segment boot dirs d va S s) (hle : B ≤ S)
  (hfile : FileLoaded boot dirs d va bin B s s') (hedge : EdgeZeroed boot dirs d va B S s s' s₂)
  (hrest : PagesLoaded boot dirs d s ((pagesFrom va B (firstPiece va B)).reverse ++ edgePage va)
    (filePages s d va B).reverse (pagesCost s d [] (filePages s d va B)) va S (fun _ => 0)
    (B + zeroPiece va B S) s₂ s₃)

include h hle hrest

/-- The last loop leaves the pages before. -/
theorem kept_to_end {q x : Word} (hq : q ∈ (pagesFrom va B (firstPiece va B)).reverse ++ edgePage va)
    (hpage : pageIdx x = pageIdx q) (hk : k < B ∨ k = 0 ∧ 0 < va.toNat % BY2PG)
    (hx : pageIdx x = pageIdx (va + BitVec.ofNat 64 k)) : userByte s₃ d x = userByte s₂ d x := by
  have hlow := h.low
  have hva := (h.user va (Nat.le_refl _) (.inr rfl)).1
  refine hrest.kept q hq x hpage fun a ha => ?_
  obtain ⟨m, hm, rfl⟩ := mem_pagesFrom.mp ha
  have hj := toNat_at va (B + zeroPiece va B S + BY2PG * m) (by omega)
  have habove := zeros_above (k := k) (Nat.le_add_right _ (BY2PG * m)) hm hk
  have hat := toNat_at va k (by omega)
  rw [hx, Ne, pageIdx_iff (by omega) (by omega), hj, hat]
  omega

/-- In the page of an unaligned `va`. -/
theorem kept_first {x : Word} (hpos : 0 < va.toNat % BY2PG) (hpage : pageIdx x = pageIdx va) :
    userByte s₃ d x = userByte s₂ d x := by
  have hzero : va + BitVec.ofNat 64 0 = va := BitVec.add_zero va
  exact kept_to_end h hle hrest (List.mem_append_right _ (mem_edgePage hpos)) hpage (.inr ⟨rfl, hpos⟩)
    (hpage.trans (congrArg pageIdx hzero.symm))

include hfile hedge

theorem data_at_end (hk : k < B) : userByte s₃ d (va + BitVec.ofNat 64 k) = some (bin k) := by
  have hlow := h.low
  have hat := toNat_at va k (by omega)
  by_cases hfirst : k < firstPiece va B
  · have hpos : 0 < va.toNat % BY2PG := by
      by_contra hn
      rw [firstPiece, if_neg hn] at hfirst
      omega
    have hlt := hfirst
    rw [firstPiece, if_pos hpos] at hlt
    have hmem := List.mem_append_right (pagesFrom va B (firstPiece va B)).reverse (mem_edgePage hpos)
    have hpage : pageIdx (va + BitVec.ofNat 64 k) = pageIdx va := by
      rw [pageIdx_iff (by omega) (by omega), hat]
      rw [BY2PG] at *
      omega
    rw [kept_first h hle hrest hpos hpage, hedge.kept va hmem _ hpage (by omega), hfile.edge hpos _ hpage,
      edgeByte, hat, if_pos]
    · congr 2
      rw [BY2PG] at *
      omega
    · rw [BY2PG] at *
      omega
  · obtain ⟨hmod, -⟩ := firstPiece_boundary (show firstPiece va B < B by omega)
    -- The turn in which byte `k` is copied.
    obtain ⟨j, hj⟩ : ∃ j, j = firstPiece va B + BY2PG * ((k - firstPiece va B) / BY2PG) := ⟨_, rfl⟩
    have hjk : j ≤ k ∧ k < j + BY2PG := by
      rw [BY2PG] at *
      omega
    have hvisit : j ∈ visits B (firstPiece va B) := mem_visits.mpr ⟨by omega, _, hj⟩
    have hatj := toNat_at va j (by omega)
    have hpage : pageIdx (va + BitVec.ofNat 64 k) = pageIdx (va + BitVec.ofNat 64 j) := by
      rw [pageIdx_iff (by omega) (by omega), hat, hatj]
      rw [BY2PG] at *
      omega
    have hmem : va + BitVec.ofNat 64 j ∈ (pagesFrom va B (firstPiece va B)).reverse ++ edgePage va :=
      List.mem_append_left _ (List.mem_reverse.mpr (List.mem_map.mpr ⟨j, hvisit, rfl⟩))
    have hoff : (va.toNat + k) % 4096 = k - j := by
      rw [BY2PG] at *
      omega
    rw [kept_to_end h hle hrest hmem hpage (.inl (by omega)) hpage, hedge.kept _ hmem _ hpage (by omega),
      hfile.bytes j hvisit _ hpage, hat, hoff, pageByte, if_pos]
    · congr 2
      omega
    · rw [BY2PG] at *
      omega

omit hfile in
theorem zero_at_end (hfit : ZerosFit va B S) (hB : B ≤ k) (hk : k < S) :
    userByte s₃ d (va + BitVec.ofNat 64 k) = some 0 := by
  have hlow := h.low
  have hat := toNat_at va k (by omega)
  by_cases hin : 0 < (va.toNat + B) % BY2PG ∧ k < B + zeroPiece va B S
  · obtain ⟨hpos, hlt⟩ := hin
    obtain ⟨p, hp, hpage⟩ := (fileEnd h hle).1 hpos
    have hatB := toNat_at va B (by omega)
    have hlt' := hlt
    rw [zeroPiece, if_pos hpos] at hlt'
    have hsame : (va.toNat + k) / BY2PG = (va.toNat + B) / BY2PG := by
      rw [BY2PG] at *
      omega
    -- The page has bytes of the file, or it is that of `va`.
    have hlast : B - 1 < B ∨ B - 1 = 0 ∧ 0 < va.toNat % BY2PG := by
      rw [BY2PG] at *
      omega
    have hatL := toNat_at va (B - 1) (by omega)
    rw [kept_to_end h hle hrest hp ?_ hlast ?_, hedge.zero hpos k hB hlt]
    · rw [hpage, pageIdx_iff (by omega) (by omega), hat, hatB, hsame]
    · rw [pageIdx_iff (by omega) (by omega), hat, hatL, hsame]
      rw [BY2PG] at *
      omega
  · obtain ⟨m, hm, hpage⟩ := zeros_covered hfit hB hk hin
    have hatj := toNat_at va (B + zeroPiece va B S + BY2PG * m) (by omega)
    rw [hrest.bytes _ (mem_visits.mpr ⟨hm, m, rfl⟩), pageByte, ite_self]
    rw [pageIdx_iff (by omega) (by omega), hat, hatj, hpage]

theorem below_at_end (hm : mapping s d va ≠ none) {a : Word} (hpage : pageIdx a = pageIdx va)
    (hlt : a.toNat < va.toNat) : userByte s₃ d a = userByte s d a := by
  have hva := (h.user va (Nat.le_refl _) (.inr rfl)).1
  have hnum := (pageIdx_iff (by omega) hva).mp hpage
  have hpos : 0 < va.toNat % BY2PG := by
    rw [BY2PG] at *
    omega
  have hmem := List.mem_append_right (pagesFrom va B (firstPiece va B)).reverse (mem_edgePage hpos)
  rw [kept_first h hle hrest hpos hpage, hedge.kept va hmem a hpage (by omega), hfile.edge hpos a hpage,
    edgeByte, if_neg, if_neg]
  · rw [Option.isNone_iff_eq_none]
    exact hm
  · rw [BY2PG] at *
    omega

theorem segmentLoaded (hfit : ZerosFit va B S) : SegmentLoaded d va bin B S s s₃ where
  mapped k hk := by
    by_cases hB : k < B
    · exact mapping_of_userByte (data_at_end h hle hfile hedge hrest hB)
    · exact mapping_of_userByte (zero_at_end h hle hedge hrest hfit (Nat.le_of_not_lt hB) hk)
  data k hk := data_at_end h hle hfile hedge hrest hk
  zero k hB hk := zero_at_end h hle hedge hrest hfit hB hk
  below hm _ hpage hlt := below_at_end h hle hfile hedge hrest hm hpage hlt

end Run

/-- The pages that are free when 0 is returned.  The last `page_insert` may have failed,
    unless its page is looked up again for the zeros. -/
def pagesNeeded (s : Pmap) (d : Nat) (va : Word) (B S : Nat) : Nat :=
  if 0 < (va.toNat + B) % BY2PG ∧ S ≤ B + zeroPiece va B S then pagesCost s d [] (newPages s d va B S)
  else allocCost s d [] (newPages s d va B S)

/-- Either there are not even the pages that it takes to return 0, or there are all pages
    with their tables, and no page of zeros is left out. -/
def SegmentFits (s : Pmap) (d : Nat) (va : Word) (B S : Nat) : Prop :=
  FreePages (pagesNeeded s d va B S) s → FreePages (pagesCost s d [] (newPages s d va B S)) s ∧ ZerosFit va B S

theorem pagesCost_newPages : pagesCost s d [] (newPages s d va B S) =
    pagesCost s d (filePages s d va B).reverse (pagesFrom va S (B + zeroPiece va B S)) +
      pagesCost s d [] (filePages s d va B) := by
  rw [newPages, pagesCost_append, List.append_nil, Nat.add_comm]

theorem pagesNeeded_le : pagesNeeded s d va B S ≤ pagesCost s d [] (newPages s d va B S) := by
  unfold pagesNeeded
  split
  · exact Nat.le_refl _
  · exact allocCost_le _

theorem allocCost_le_needed : allocCost s d [] (filePages s d va B) ≤ pagesNeeded s d va B S := by
  unfold pagesNeeded
  split
  · exact Nat.le_trans (allocCost_append_le _ _) (allocCost_le _)
  · exact allocCost_append_le _ _

/-- When there are pages of zeros. -/
theorem pagesNeeded_of_zeros (hlt : B + zeroPiece va B S < S) : pagesNeeded s d va B S =
    allocCost s d (filePages s d va B).reverse (pagesFrom va S (B + zeroPiece va B S)) +
      pagesCost s d [] (filePages s d va B) := by
  rw [pagesNeeded, if_neg fun hf => absurd hlt (Nat.not_lt.mpr hf.2), newPages,
    allocCost_append (pagesFrom_ne_nil _ hlt), List.append_nil, Nat.add_comm]

theorem newPages_of_none (hlt : ¬ B + zeroPiece va B S < S) : newPages s d va B S = filePages s d va B := by
  rw [newPages, pagesFrom_nil _ hlt, List.append_nil]

/-- The last two parts after a `page_insert` that has failed: 0 is returned when nothing is
    left to do. -/
theorem loadZeros_spent (h : Segment boot dirs d va S s) (hle : B ≤ S) (ha : (filePages s d va B).getLast? = some a)
    (hsp : Spent d a s') :
    ((0 < (va.toNat + B) % BY2PG ∨ B + zeroPiece va B S < S) →
      loadZeros s' d va S B (lastPiece B (firstPiece va B) (firstPiece va B)) = none) ∧
    (¬ 0 < (va.toNat + B) % BY2PG → ¬ B + zeroPiece va B S < S →
      loadZeros s' d va S B (lastPiece B (firstPiece va B) (firstPiece va B)) = some s') := by
  have hlow := h.low
  have hoff : (pageOffset (va + BitVec.ofNat 64 B)).toNat = (va.toNat + B) % BY2PG := by
    rw [toNat_pageOffset, toNat_at _ _ (by omega), BY2PG]
  rw [loadZeros, loadEdge, hoff]
  by_cases hpos : 0 < (va.toNat + B) % BY2PG
  · refine ⟨fun _ => ?_, fun hf => absurd hpos hf⟩
    have hpage := ((fileEnd h hle).2 a ha).1 hpos
    have hm : mapping s' d (va + BitVec.ofNat 64 B) = none := (mapping_congr_page hpage.symm).trans hsp.unmapped
    rw [if_pos hpos]
    dsimp only
    rw [loadPart, (pageLookup_eq_none_iff s' d _).mpr hm]
    dsimp only
    rw [loadPage_none hsp.free]
    rfl
  · rw [if_neg hpos, Option.bind_some, zeroPiece, if_neg hpos]
    refine ⟨fun hlt => ?_, fun _ hlt => ?_⟩
    · rw [loadPages_stop (hlt.resolve_left hpos) (loadPage_none hsp.free)]
      rfl
    · rw [loadPages_end hlt]
      rfl

/-- A page of zeros that is left out stays unmapped. -/
theorem missed_unmapped (h : Segment boot dirs d va S s) (hle : B ≤ S) {P : List Word} {c : Nat}
    (hl : Loaded boot dirs d s P ((pagesFrom va S (B + zeroPiece va B S)).reverse ++ (filePages s d va B).reverse) c s')
    (hfit : ¬ ZerosFit va B S) : ∃ k < S, mapping s' d (va + BitVec.ofNat 64 k) = none := by
  have hlow := h.low
  obtain ⟨hmod, hB, k, hBk, hk, hmiss⟩ := zeros_missed hfit
  have hat := toNat_at va k (by omega)
  have habove : ∀ j < B, (va.toNat + j) / BY2PG ≠ (va.toNat + k) / BY2PG := by
    intro j hj
    rw [BY2PG] at *
    omega
  refine ⟨k, hk, ?_⟩
  have huser := (h.user (va + BitVec.ofNat 64 k) (by omega) (.inl (by omega))).2
  rw [hl.other _ huser fun p hp => ?_]
  · refine h.unmapped k hk (.inr ?_)
    rw [Ne, pageIdx_iff (by omega) (by omega), hat]
    exact (habove 0 hB).symm
  · rw [List.mem_append, List.mem_reverse, List.mem_reverse, filePages, List.mem_append] at hp
    rcases hp with hp | hp | hp
    · obtain ⟨m, hm, rfl⟩ := mem_pagesFrom.mp hp
      have hatm := toNat_at va (B + zeroPiece va B S + BY2PG * m) (by omega)
      rw [Ne, pageIdx_iff (by omega) (by omega), hatm, hat]
      exact (hmiss m hm).symm
    · unfold firstPage at hp
      split at hp
      · rw [List.mem_singleton.mp hp, Ne, pageIdx_iff (by omega) (by omega), hat]
        exact habove 0 hB
      · exact absurd hp List.not_mem_nil
    · obtain ⟨m, hm, rfl⟩ := mem_pagesFrom.mp hp
      have hatm := toNat_at va (firstPiece va B + BY2PG * m) (by omega)
      rw [Ne, pageIdx_iff (by omega) (by omega), hatm, hat]
      exact habove _ hm

/-- With the pages that it takes 0 is returned, and the segment is in memory unless a page of
    zeros is left out. -/
theorem load_icode_mapper_run (bin : Nat → BitVec 8) (bin_size : U32)
    (h : Segment boot dirs d va sgsize.toNat s) (hle : bin_size.toNat ≤ sgsize.toNat)
    (hcost : FreePages (pagesCost s d [] (newPages s d va bin_size.toNat sgsize.toNat)) s) :
    ∃ s', loadIcodeMapper s d va sgsize bin bin_size = some s' ∧
      (ZerosFit va bin_size.toNat sgsize.toNat → SegmentLoaded d va bin bin_size.toNat sgsize.toNat s s') ∧
      (¬ ZerosFit va bin_size.toNat sgsize.toNat →
        ∃ k < sgsize.toNat, mapping s' d (va + BitVec.ofNat 64 k) = none) := by
  have hfilecost := hcost
  rw [pagesCost_newPages] at hfilecost
  obtain ⟨s₁, hs₁, hfile⟩ := (loadFile_spec bin h hle).2.2 (hfilecost.le (Nat.le_add_left _ _))
  obtain ⟨s₂, hs₂, hedge⟩ := loadEdge_zeros h hle hfile
  have hend := loadPages_spec (fun _ => 0) (zeroPiece va bin_size.toNat sgsize.toNat) h.dir hedge.loaded
    (zeros_new h hle)
  obtain ⟨s₃, hs₃, hrest⟩ := hend.made hfilecost
  refine ⟨s₃, ?_, fun hfit => segmentLoaded h hle hfile hedge hrest hfit,
    fun hfit => missed_unmapped h hle hrest.loaded hfit⟩
  rw [loadIcodeMapper_some hle hs₁, loadZeros, hs₂, Option.bind_some, hs₃]
  rfl

/-- `load_icode_mapper` does what it is for exactly when the segment fits. -/
theorem load_icode_mapper_iff (h : Segment boot dirs d va sgsize.toNat s) (hle : bin_size.toNat ≤ sgsize.toNat) :
    (∀ s', loadIcodeMapper s d va sgsize bin bin_size = some s' →
      SegmentLoaded d va bin bin_size.toNat sgsize.toNat s s') ↔
    SegmentFits s d va bin_size.toNat sgsize.toNat := by
  obtain ⟨hnone, hspent, hmade⟩ := loadFile_spec bin h hle
  by_cases hcost : FreePages (pagesCost s d [] (newPages s d va bin_size.toNat sgsize.toNat)) s
  · obtain ⟨s', hs', hfits, hmissed⟩ := load_icode_mapper_run bin bin_size h hle hcost
    rw [hs']
    refine ⟨fun hright _ => ⟨hcost, ?_⟩, fun hfit s'' hs'' => ?_⟩
    · by_contra hfit
      obtain ⟨k, hk, hm⟩ := hmissed hfit
      exact (hright s' rfl).mapped k hk hm
    · cases hs''
      exact hfits (hfit (hcost.le pagesNeeded_le)).2
  -- Some `page_alloc` fails, or the last `page_insert` does.
  generalize hB : bin_size.toNat = B at *
  generalize hS : sgsize.toNat = S at *
  by_cases hfilecost : FreePages (pagesCost s d [] (filePages s d va B)) s
  · obtain ⟨s₁, hs₁, hfile⟩ := hmade hfilecost
    obtain ⟨s₂, hs₂, hedge⟩ := loadEdge_zeros h hle hfile
    have hrun : loadIcodeMapper s d va sgsize bin bin_size =
        (loadPages d va S (fun _ => 0) s₂ (B + zeroPiece va B S) (zeroPiece va B S)).map fun y => y.2.2 := by
      rw [loadIcodeMapper_some (by rw [hB, hS]; exact hle) (hB.symm ▸ hs₁), hB, hS, loadZeros, hs₂]
      rfl
    obtain ⟨hnone', hspent', -⟩ := loadPages_spec (fun _ => 0) (zeroPiece va B S) h.dir hedge.loaded
      (zeros_new h hle)
    rw [← pagesCost_newPages] at hspent'
    have hlt : B + zeroPiece va B S < S := by
      by_contra hn
      rw [newPages_of_none hn] at hcost
      exact hcost hfilecost
    rw [← pagesNeeded_of_zeros hlt] at hnone' hspent'
    by_cases hneed : FreePages (pagesNeeded s d va B S) s
    · obtain ⟨a, s₃, ha, hs₃, hsp⟩ := hspent' hneed hcost
      obtain ⟨m, hm, rfl⟩ := mem_pagesFrom.mp (List.mem_of_getLast? ha)
      refine iff_of_false (fun hright => ?_) fun hfits => hcost (hfits hneed).1
      rw [hrun, hs₃] at hright
      exact (hright s₃ rfl).mapped _ hm hsp.unmapped
    · rw [hrun, hnone' hneed]
      exact iff_of_true nofun fun hf => absurd hf hneed
  · by_cases halloc : FreePages (allocCost s d [] (filePages s d va B)) s
    · obtain ⟨a, s₁, ha, hs₁, hsp⟩ := hspent halloc hfilecost
      obtain ⟨hstuck, hdone⟩ := loadZeros_spent h hle ha hsp
      have hrun : loadIcodeMapper s d va sgsize bin bin_size =
          loadZeros s₁ d va S B (lastPiece B (firstPiece va B) (firstPiece va B)) := by
        rw [loadIcodeMapper_some (by rw [hB, hS]; exact hle) (hB.symm ▸ hs₁), hB, hS]
      rw [hrun]
      by_cases hlt : B + zeroPiece va B S < S
      · have hneed : ¬ FreePages (pagesNeeded s d va B S) s := by
          rw [pagesNeeded_of_zeros hlt]
          exact fun hf => hfilecost (hf.le (Nat.le_add_left _ _))
        rw [hstuck (.inr hlt)]
        exact iff_of_true nofun fun hf => absurd hf hneed
      · by_cases hpos : 0 < (va.toNat + B) % BY2PG
        · rw [hstuck (.inl hpos)]
          refine iff_of_true nofun fun hf => ?_
          rw [pagesNeeded, if_pos ⟨hpos, Nat.le_of_not_lt hlt⟩] at hf
          exact absurd hf hcost
        · have hneed : FreePages (pagesNeeded s d va B S) s := by
            rw [pagesNeeded, if_neg fun hf => hpos hf.1, newPages_of_none hlt]
            exact halloc
          rw [hdone hpos hlt]
          obtain ⟨k, hk, rfl⟩ := ((fileEnd h hle).2 a ha).2 hpos
          exact iff_of_false (fun hright => (hright s₁ rfl).mapped k (Nat.lt_of_lt_of_le hk hle) hsp.unmapped)
            fun hfits => hcost (hfits hneed).1
    · have hneed : ¬ FreePages (pagesNeeded s d va B S) s := fun hf => halloc (hf.le allocCost_le_needed)
      rw [loadIcodeMapper_none (hB.symm ▸ hnone halloc)]
      exact iff_of_true nofun fun hf => absurd hf hneed

/-! ## A new directory -/

theorem boardDir_segment (halloc : pageAlloc boardBoot = some (1024, s₁)) (hS : S ≤ 8192) :
    Segment boardCount {1024} 1024 0x10000000 S (envNewDir s₁ 1024) := by
  obtain ⟨hI, hnone, -⟩ := boardDir_ok halloc
  have hnat : (0x10000000 : Word).toNat = 0x10000000 := by decide
  have huser : ∀ a : Word, 0x10000000 ≤ a.toNat → a.toNat ≤ 0x10002000 → UserVa a := by
    intro a hlo hhi
    refine ⟨by omega, ?_⟩
    rw [uvptIndex_eq, GET_L1_INDEX_eq]
    omega
  refine ⟨⟨hI, fun d hd va e hva he => ?_⟩, Finset.mem_singleton_self 1024, by omega, fun a hlo ha => ?_,
    fun k hk _ => ?_, fun e he => ?_⟩
  · rw [Finset.mem_singleton.mp hd, hnone hva] at he
    cases he
  · refine huser a (hnat ▸ hlo) ?_
    rcases ha with ha | rfl <;> omega
  · have hat := toNat_at 0x10000000 k (by omega)
    exact hnone (huser _ (by omega) (by omega)).2
  · rw [hnone (huser _ (by omega) (by omega)).2] at he
    cases he

theorem tablesFor_le (s : Pmap) (d : Nat) (prev : List Word) (va : Word) : tablesFor s d prev va ≤ 2 := by
  unfold tablesFor
  split <;> split <;> omega

/-- One page is made: for the bytes of the file. -/
theorem boardDir_cost (halloc : pageAlloc boardBoot = some (1024, s₁)) (hB : 0 < B) (hpage : B ≤ 4096)
    (hzeros : ¬ B + zeroPiece 0x10000000 B S < S) :
    FreePages (pagesCost (envNewDir s₁ 1024) 1024 [] (newPages (envNewDir s₁ 1024) 1024 0x10000000 B S))
      (envNewDir s₁ 1024) := by
  have halign : ¬ 0 < (0x10000000 : Word).toNat % BY2PG := by decide
  have hend : ¬ 0 + min BY2PG (B - 0) < B := by
    rw [BY2PG]
    omega
  have hnew : newPages (envNewDir s₁ 1024) 1024 0x10000000 B S = [0x10000000] := by
    rw [newPages_of_none hzeros, filePages, firstPage, if_neg fun hf => halign hf.1, firstPiece, if_neg halign,
      pagesFrom_cons _ hB, pagesFrom_nil _ hend]
    rfl
  have hle := tablesFor_le (envNewDir s₁ 1024) 1024 [] 0x10000000
  rw [hnew, pagesCost, pagesCost]
  exact (boardDir_ok halloc).2.2.le (by omega)

theorem load_icode_mapper_board : ∃ s₁ s', pageAlloc boardBoot = some (1024, s₁) ∧
    loadIcodeMapper (envNewDir s₁ 1024) 1024 0x10000000 200 (fun _ => 7) 100 = some s' ∧
    SegmentLoaded 1024 0x10000000 (fun _ => 7) 100 200 (envNewDir s₁ 1024) s' := by
  obtain ⟨s₁, halloc⟩ := boardBoot_alloc
  have hseg := boardDir_segment (S := (200 : U32).toNat) halloc (by decide)
  have hcost : FreePages (pagesCost (envNewDir s₁ 1024) 1024 []
      (newPages (envNewDir s₁ 1024) 1024 0x10000000 (100 : U32).toNat (200 : U32).toNat)) (envNewDir s₁ 1024) :=
    boardDir_cost halloc (by decide) (by decide) (by decide)
  obtain ⟨s', hs', -⟩ := load_icode_mapper_run (fun _ => 7) 100 hseg (by decide) hcost
  exact ⟨s₁, s', halloc, hs', (load_icode_mapper_iff hseg (by decide)).mpr
    (fun _ => ⟨hcost, fun hmod => absurd hmod (by decide)⟩) s' hs'⟩

/-- A file of one page and a page of zeros: there is no page for the zeros. -/
theorem page_of_zeros_missing : ∃ s₁ s', pageAlloc boardBoot = some (1024, s₁) ∧
    Segment boardCount {1024} 1024 0x10000000 8192 (envNewDir s₁ 1024) ∧
    loadIcodeMapper (envNewDir s₁ 1024) 1024 0x10000000 8192 (fun _ => 7) 4096 = some s' ∧
    ¬ SegmentLoaded 1024 0x10000000 (fun _ => 7) 4096 8192 (envNewDir s₁ 1024) s' := by
  obtain ⟨s₁, halloc⟩ := boardBoot_alloc
  have hseg := boardDir_segment (S := (8192 : U32).toNat) halloc (by decide)
  obtain ⟨s', hs', -, hmissed⟩ := load_icode_mapper_run (fun _ => 7) 4096 hseg (by decide)
    (boardDir_cost halloc (by decide) (by decide) (by decide))
  obtain ⟨k, hk, hm⟩ := hmissed (by rw [ZerosFit]; decide)
  exact ⟨s₁, s', halloc, hseg, hs', fun hright => hright.mapped k hk hm⟩

end LoadIcode

end RpiMos
