/-
  RpiMos.Lib.RadixTable

  Multi-level radix tables: nodes that hold, under each index, at most one
  child node.  `At n t` says that `t` stands at level `n` below the roots.  A
  `Forest` is a set of such tables in which no node is named twice and no node
  stands at two levels; in a forest a node is reached along one path only, and
  hanging a fresh empty node under a free slot adds that node and nothing else.
-/

import Mathlib.Data.List.Basic

namespace RpiMos.Lib

variable {ν ι : Type _}

/-- The child reached from `t` along a list of indices. -/
def radixWalk (child : ν → ι → Option ν) : ν → List ι → Option ν
  | t, [] => some t
  | t, i :: is => (child t i).bind fun u => radixWalk child u is

/-- Which slots of a level lead to nodes of the next one, and the roots. -/
structure RadixShape (ν ι : Type _) where
  root : ν → Prop
  slotOk : Nat → ι → Prop

namespace RadixShape

variable (R : RadixShape ν ι)

/-- `t` stands at level `n`. -/
def At (child : ν → ι → Option ν) : Nat → ν → Prop
  | 0, t => R.root t
  | n + 1, t => ∃ p i, At child n p ∧ R.slotOk n i ∧ child p i = some t

/-- `t` stands at a level up to `depth`. -/
def Node (child : ν → ι → Option ν) (depth : Nat) (t : ν) : Prop :=
  ∃ n, n ≤ depth ∧ R.At child n t

/-- Every step of a walk from level `n` uses a slot that its level allows. -/
def PathOk : Nat → List ι → Prop
  | _, [] => True
  | n, i :: is => R.slotOk n i ∧ PathOk (n + 1) is

/-- No node below level `depth` is named by two slots or stands at two levels. -/
structure Forest (child : ν → ι → Option ν) (depth : Nat) : Prop where
  inj : ∀ {n p p' i i' t}, n < depth → R.At child n p → R.At child n p' →
    R.slotOk n i → R.slotOk n i' → child p i = some t → child p' i' = some t → p = p' ∧ i = i'
  level_unique : ∀ {m n t}, m ≤ depth → n ≤ depth → R.At child m t → R.At child n t → m = n

variable {R} {child child' : ν → ι → Option ν} {depth : Nat}

theorem At.walk {n : Nat} {t u : ν} {is : List ι} (ht : R.At child n t) (hok : R.PathOk n is)
    (hw : radixWalk child t is = some u) : R.At child (n + is.length) u := by
  induction is generalizing n t with
  | nil =>
      simp only [radixWalk, Option.some.injEq] at hw
      simpa [hw] using ht
  | cons i is ih =>
      obtain ⟨hi, his⟩ := hok
      obtain ⟨v, hv, hvu⟩ := Option.bind_eq_some_iff.mp hw
      have hv' : R.At child (n + 1) v := ⟨t, i, ht, hi, hv⟩
      have := ih hv' his hvu
      rwa [List.length_cons, ← Nat.add_assoc, Nat.add_right_comm]

/-- In a forest two walks from one level that meet are the same walk. -/
theorem Forest.walk_inj (hF : R.Forest child depth) {n : Nat} {t t' u : ν} {is is' : List ι}
    (hlen : is.length = is'.length) (hdepth : n + is.length ≤ depth)
    (ht : R.At child n t) (ht' : R.At child n t') (hok : R.PathOk n is) (hok' : R.PathOk n is')
    (hw : radixWalk child t is = some u) (hw' : radixWalk child t' is' = some u) :
    t = t' ∧ is = is' := by
  induction is generalizing n t t' is' with
  | nil =>
      cases is' with
      | nil =>
          simp only [radixWalk, Option.some.injEq] at hw hw'
          exact ⟨hw.trans hw'.symm, rfl⟩
      | cons _ _ => simp at hlen
  | cons i is ih =>
      cases is' with
      | nil => simp at hlen
      | cons i' is' =>
          obtain ⟨v, hv, hvu⟩ := Option.bind_eq_some_iff.mp hw
          obtain ⟨v', hv', hvu'⟩ := Option.bind_eq_some_iff.mp hw'
          simp only [List.length_cons] at hlen hdepth
          have htv : R.At child (n + 1) v := ⟨t, i, ht, hok.1, hv⟩
          have htv' : R.At child (n + 1) v' := ⟨t', i', ht', hok'.1, hv'⟩
          obtain ⟨rfl, rfl⟩ := ih (by omega) (by omega) htv htv' hok.2 hok'.2 hvu hvu'
          obtain ⟨rfl, rfl⟩ := hF.inj (by omega) ht ht' hok.1 hok'.1 hv hv'
          exact ⟨rfl, rfl⟩

/-! ## Writing slots that hold no node of the forest -/

/-- Levels depend only on the slots of the nodes above them. -/
theorem At.congr {n : Nat} {t : ν}
    (h : ∀ m p i, m < n → R.At child m p → R.slotOk m i → child' p i = child p i)
    (ht : R.At child n t) : R.At child' n t := by
  induction n generalizing t with
  | zero => exact ht
  | succ n ih =>
      obtain ⟨p, i, hp, hi, hpi⟩ := ht
      exact ⟨p, i, ih (fun m q j hm => h m q j (by omega)) hp, hi,
        by rw [h n p i (by omega) hp hi, hpi]⟩

theorem At.congr_iff {n : Nat} {t : ν}
    (h : ∀ m p i, m < n → R.At child m p → R.slotOk m i → child' p i = child p i) :
    R.At child' n t ↔ R.At child n t := by
  refine ⟨fun ht => ?_, fun ht => ht.congr h⟩
  induction n generalizing t with
  | zero => exact ht
  | succ n ih =>
      obtain ⟨p, i, hp, hi, hpi⟩ := ht
      have hp' := ih (fun m q j hm => h m q j (by omega)) hp
      exact ⟨p, i, hp', hi, by rw [← h n p i (by omega) hp' hi, hpi]⟩

theorem Forest.congr (hF : R.Forest child depth)
    (h : ∀ m p i, m < depth → R.At child m p → R.slotOk m i → child' p i = child p i) :
    R.Forest child' depth := by
  have hat : ∀ {n t}, n ≤ depth → (R.At child' n t ↔ R.At child n t) := fun hn =>
    At.congr_iff fun m p i hm => h m p i (by omega)
  constructor
  · intro n p p' i i' t hn hp hp' hi hi' hc hc'
    rw [hat (by omega)] at hp hp'
    rw [h n p i hn hp hi] at hc
    rw [h n p' i' hn hp' hi'] at hc'
    exact hF.inj hn hp hp' hi hi' hc hc'
  · intro m n t hm hn htm htn
    exact hF.level_unique hm hn ((hat hm).mp htm) ((hat hn).mp htn)

/-- `child'` is `child` with the fresh, empty node `q` hung under slot `i` of `t`. -/
structure Graft (R : RadixShape ν ι) (child child' : ν → ι → Option ν) (depth n : Nat)
    (t : ν) (i : ι) (q : ν) : Prop where
  lt : n < depth
  parent : R.At child n t
  slot : R.slotOk n i
  free : child t i = none
  fresh : ¬ R.Node child depth q
  hung : child' t i = some q
  empty : ∀ k, child' q k = none
  same : ∀ {m p k}, m ≤ depth → R.At child m p → ¬ (p = t ∧ k = i) → child' p k = child p k

namespace Graft

variable {n : Nat} {t q : ν} {i : ι}

theorem at_iff (hF : R.Forest child depth) (g : R.Graft child child' depth n t i q)
    {m : Nat} (hm : m ≤ depth) (u : ν) :
    R.At child' m u ↔ R.At child m u ∨ (m = n + 1 ∧ u = q) := by
  induction m generalizing u with
  | zero => simp [At]
  | succ m ih =>
      constructor
      · rintro ⟨p, k, hp, hk, hpk⟩
        rcases (ih (by omega) p).mp hp with hp | ⟨_, rfl⟩
        · by_cases hti : p = t ∧ k = i
          · obtain ⟨rfl, rfl⟩ := hti
            have hmn : m = n :=
              hF.level_unique (by omega) (Nat.le_of_lt g.lt) hp g.parent
            rw [g.hung, Option.some.injEq] at hpk
            exact Or.inr ⟨by omega, hpk.symm⟩
          · rw [g.same (by omega) hp hti] at hpk
            exact Or.inl ⟨p, k, hp, hk, hpk⟩
        · rw [g.empty] at hpk
          cases hpk
      · rintro (⟨p, k, hp, hk, hpk⟩ | ⟨hmn, rfl⟩)
        · refine ⟨p, k, (ih (by omega) p).mpr (Or.inl hp), hk, ?_⟩
          rw [g.same (by omega) hp, hpk]
          rintro ⟨rfl, rfl⟩
          rw [g.free] at hpk
          cases hpk
        · obtain rfl : m = n := by omega
          exact ⟨t, i, (ih (by omega) t).mpr (Or.inl g.parent), g.slot, g.hung⟩

theorem node_iff (hF : R.Forest child depth) (g : R.Graft child child' depth n t i q) (u : ν) :
    R.Node child' depth u ↔ R.Node child depth u ∨ u = q := by
  constructor
  · rintro ⟨m, hm, hu⟩
    rcases (g.at_iff hF hm u).mp hu with hu | ⟨_, rfl⟩
    · exact Or.inl ⟨m, hm, hu⟩
    · exact Or.inr rfl
  · rintro (⟨m, hm, hu⟩ | rfl)
    · exact ⟨m, hm, (g.at_iff hF hm u).mpr (Or.inl hu)⟩
    · exact ⟨n + 1, g.lt, (g.at_iff hF g.lt _).mpr (Or.inr ⟨rfl, rfl⟩)⟩

/-- A slot of `child'` at a level above `depth` is the new one or an old one. -/
theorem child_cases (hF : R.Forest child depth) (g : R.Graft child child' depth n t i q)
    {m : Nat} {p u : ν} {k : ι} (hm : m < depth) (hp : R.At child' m p)
    (h : child' p k = some u) :
    (m = n ∧ p = t ∧ k = i ∧ u = q) ∨ (R.At child m p ∧ child p k = some u) := by
  rcases (g.at_iff hF (by omega) p).mp hp with hp | ⟨_, rfl⟩
  · by_cases hti : p = t ∧ k = i
    · obtain ⟨rfl, rfl⟩ := hti
      rw [g.hung, Option.some.injEq] at h
      exact Or.inl
        ⟨hF.level_unique (by omega) (Nat.le_of_lt g.lt) hp g.parent, rfl, rfl, h.symm⟩
    · rw [g.same (by omega) hp hti] at h
      exact Or.inr ⟨hp, h⟩
  · rw [g.empty] at h
    cases h

theorem forest (hF : R.Forest child depth) (g : R.Graft child child' depth n t i q) :
    R.Forest child' depth := by
  constructor
  · intro m p p' k k' u hm hp hp' hk hk' hc hc'
    have hold : ∀ {p k}, R.At child m p → R.slotOk m k → child p k = some q → False :=
      fun hp hk h => g.fresh ⟨m + 1, hm, _, _, hp, hk, h⟩
    rcases g.child_cases hF hm hp hc with ⟨_, rfl, rfl, rfl⟩ | ⟨hp, hc⟩
    · rcases g.child_cases hF hm hp' hc' with ⟨_, rfl, rfl, _⟩ | ⟨hp', hc'⟩
      · exact ⟨rfl, rfl⟩
      · exact (hold hp' hk' hc').elim
    · rcases g.child_cases hF hm hp' hc' with ⟨_, rfl, rfl, rfl⟩ | ⟨hp', hc'⟩
      · exact (hold hp hk hc).elim
      · exact hF.inj hm hp hp' hk hk' hc hc'
  · intro m m' u hm hm' hu hu'
    rcases (g.at_iff hF hm u).mp hu with hu | ⟨rfl, rfl⟩ <;>
      rcases (g.at_iff hF hm' u).mp hu' with hu' | ⟨rfl, hq⟩
    · exact hF.level_unique hm hm' hu hu'
    · exact (g.fresh ⟨m, hm, hq ▸ hu⟩).elim
    · exact (g.fresh ⟨m', hm', hu'⟩).elim
    · rfl

end Graft

/-! ## Clearing slots and dropping roots -/

/-- With fewer slots fewer nodes are reached. -/
theorem At.mono (h : ∀ p i u, child' p i = some u → child p i = some u) {n : Nat} {t : ν}
    (ht : R.At child' n t) : R.At child n t := by
  induction n generalizing t with
  | zero => exact ht
  | succ n ih =>
      obtain ⟨p, i, hp, hi, hpi⟩ := ht
      exact ⟨p, i, ih hp, hi, h p i t hpi⟩

theorem Forest.mono (hF : R.Forest child depth)
    (h : ∀ p i u, child' p i = some u → child p i = some u) : R.Forest child' depth where
  inj hn hp hp' hi hi' hc hc' := hF.inj hn (hp.mono h) (hp'.mono h) hi hi' (h _ _ _ hc) (h _ _ _ hc')
  level_unique hm hn ht ht' := hF.level_unique hm hn (ht.mono h) (ht'.mono h)

/-- `child'` is `child` with slot `i` of `t`, which led to the node `q`, cleared. -/
structure Prune (R : RadixShape ν ι) (child child' : ν → ι → Option ν) (depth n : Nat)
    (t : ν) (i : ι) (q : ν) : Prop where
  le : n ≤ depth
  parent : R.At child n t
  slot : R.slotOk n i
  named : child t i = some q
  clear : child' t i = none
  empty : n < depth → ∀ k, R.slotOk (n + 1) k → child q k = none
  same : ∀ p k, ¬ (p = t ∧ k = i) → child' p k = child p k

namespace Prune

variable {n : Nat} {t q : ν} {i : ι}

theorem sub (g : R.Prune child child' depth n t i q) (p : ν) (k : ι) (u : ν)
    (h : child' p k = some u) : child p k = some u := by
  rw [← g.same p k, h]
  rintro ⟨rfl, rfl⟩
  rw [g.clear] at h
  cases h

theorem forest (hF : R.Forest child depth) (g : R.Prune child child' depth n t i q) :
    R.Forest child' depth := hF.mono g.sub

/-- The path to the parent does not use the slot, which is one level further down. -/
theorem parent' (hF : R.Forest child depth) (g : R.Prune child child' depth n t i q) :
    R.At child' n t := by
  refine g.parent.congr fun m p k hm hp _ => g.same p k ?_
  rintro ⟨rfl, -⟩
  have := hF.level_unique (Nat.le_of_lt (Nat.lt_of_lt_of_le hm g.le)) g.le hp g.parent
  omega

/-- Only the node of the slot is lost, and a leaf slot has none. -/
theorem at_iff (hF : R.Forest child depth) (g : R.Prune child child' depth n t i q)
    {m : Nat} (hm : m ≤ depth) (u : ν) :
    R.At child m u ↔ R.At child' m u ∨ (m = n + 1 ∧ u = q) := by
  induction m generalizing u with
  | zero => simp [At]
  | succ m ih =>
      constructor
      · rintro ⟨p, k, hp, hk, hpk⟩
        rcases (ih (by omega) p).mp hp with hp' | ⟨rfl, rfl⟩
        · by_cases hti : p = t ∧ k = i
          · obtain ⟨rfl, rfl⟩ := hti
            have hmn : m = n := hF.level_unique (by omega) g.le hp g.parent
            rw [g.named, Option.some.injEq] at hpk
            exact Or.inr ⟨by omega, hpk.symm⟩
          · exact Or.inl ⟨p, k, hp', hk, (g.same p k hti).trans hpk⟩
        · rw [g.empty (by omega) k hk] at hpk
          cases hpk
      · rintro (hu | ⟨hmn, rfl⟩)
        · exact hu.mono g.sub
        · obtain rfl : m = n := by omega
          exact ⟨t, i, g.parent, g.slot, g.named⟩

end Prune

section Roots

variable {R' : RadixShape ν ι}

/-- With fewer roots fewer nodes are reached. -/
theorem At.of_roots (hroot : ∀ t, R'.root t → R.root t)
    (hslot : ∀ n i, R'.slotOk n i → R.slotOk n i) {n : Nat} {t : ν} (ht : R'.At child n t) :
    R.At child n t := by
  induction n generalizing t with
  | zero => exact hroot t ht
  | succ n ih =>
      obtain ⟨p, i, hp, hi, hpi⟩ := ht
      exact ⟨p, i, ih hp, hslot n i hi, hpi⟩

theorem Forest.of_roots (hF : R.Forest child depth) (hroot : ∀ t, R'.root t → R.root t)
    (hslot : ∀ n i, R'.slotOk n i → R.slotOk n i) : R'.Forest child depth where
  inj hn hp hp' hi hi' hc hc' := hF.inj hn (hp.of_roots hroot hslot) (hp'.of_roots hroot hslot)
    (hslot _ _ hi) (hslot _ _ hi') hc hc'
  level_unique hm hn ht ht' :=
    hF.level_unique hm hn (ht.of_roots hroot hslot) (ht'.of_roots hroot hslot)

/-- In a forest no node is below two roots. -/
theorem Forest.disjoint (hF : R.Forest child depth) {R₁ R₂ : RadixShape ν ι}
    (h₁ : ∀ t, R₁.root t → R.root t) (h₂ : ∀ t, R₂.root t → R.root t)
    (hs₁ : ∀ n i, R₁.slotOk n i → R.slotOk n i) (hs₂ : ∀ n i, R₂.slotOk n i → R.slotOk n i)
    (hne : ∀ t, R₁.root t → ¬ R₂.root t) {u : ν} (hu₁ : R₁.Node child depth u) :
    ¬ R₂.Node child depth u := by
  rintro ⟨n, hn, hu₂⟩
  obtain ⟨m, hm, hu₁⟩ := hu₁
  obtain rfl : m = n := hF.level_unique hm hn (hu₁.of_roots h₁ hs₁) (hu₂.of_roots h₂ hs₂)
  induction m generalizing u with
  | zero => exact hne u hu₁ hu₂
  | succ m ih =>
      obtain ⟨p, i, hp, hi, hpi⟩ := hu₁
      obtain ⟨p', i', hp', hi', hpi'⟩ := hu₂
      obtain ⟨rfl, rfl⟩ := hF.inj (by omega) (hp.of_roots h₁ hs₁) (hp'.of_roots h₂ hs₂)
        (hs₁ m i hi) (hs₂ m i' hi') hpi hpi'
      exact ih (by omega) hp (by omega) hp'

end Roots

end RadixShape

end RpiMos.Lib
