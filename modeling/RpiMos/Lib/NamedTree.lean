/-
  RpiMos.Lib.NamedTree

  Trees in which every node but the root is the child of one node by one name, and
  the map that such a tree is seen as from outside, from lists of names to what is
  there.  A node may be changed, a leaf may be added, and what is under a node may
  be cut off; each edit of the tree is one of the map.
-/

import Mathlib.Data.List.Infix

namespace RpiMos.Lib

variable {φ ν κ : Type _} {C C' : φ → ν → φ → Prop} {r d e f g : φ} {n : ν} {ns ns' p : List ν}

/-- The names lead down from the root `r`.  `C d n e`: node `e` is the child of `d` by
    the name `n`. -/
inductive Descent (C : φ → ν → φ → Prop) (r : φ) : List ν → φ → Prop
  | root : Descent C r [] r
  | child {ns : List ν} {n : ν} {d e : φ} (h : Descent C r ns d) (hc : C d n e) : Descent C r (ns ++ [n]) e

/-- Names tell children apart, and a child has one parent and one name. -/
structure IsTree (C : φ → ν → φ → Prop) (r : φ) : Prop where
  child : ∀ {d n e e'}, C d n e → C d n e' → e = e'
  parent : ∀ {d d' n n' e}, C d n e → C d' n' e → d = d' ∧ n = n'
  root : ∀ {d n}, ¬ C d n r

theorem Descent.of_nil (h : Descent C r [] f) : f = r := by
  generalize hl : ([] : List ν) = l at h
  cases h with
  | root => rfl
  | child _ _ => exact absurd hl.symm (List.append_ne_nil_of_right_ne_nil _ (List.cons_ne_nil _ _))

theorem Descent.of_snoc (h : Descent C r (ns ++ [n]) f) : ∃ d, Descent C r ns d ∧ C d n f := by
  generalize hl : ns ++ [n] = l at h
  cases h with
  | root => exact absurd hl (List.append_ne_nil_of_right_ne_nil _ (List.cons_ne_nil _ _))
  | child hd hc =>
      obtain ⟨rfl, hn⟩ := List.append_inj' hl rfl
      cases hn
      exact ⟨_, hd, hc⟩

section IsTree

variable (h : IsTree C r)

include h

/-- The same names lead to the same node. -/
theorem IsTree.node (hf : Descent C r ns f) (hg : Descent C r ns g) : f = g := by
  induction hf generalizing g with
  | root => exact hg.of_nil.symm
  | child _ hc ih =>
      obtain ⟨d', hd', hc'⟩ := hg.of_snoc
      rw [← ih hd'] at hc'
      exact h.child hc hc'

/-- To a node there is one path. -/
theorem IsTree.path (hf : Descent C r ns f) (hf' : Descent C r ns' f) : ns = ns' := by
  induction hf generalizing ns' with
  | root =>
      cases hf' with
      | root => rfl
      | child _ hc => exact absurd hc h.root
  | child _ hc ih =>
      cases hf' with
      | root => exact absurd hc h.root
      | child hd' hc' =>
          obtain ⟨rfl, rfl⟩ := h.parent hc hc'
          rw [ih hd']

end IsTree

/-! ## Edits -/

theorem Descent.mono (h : Descent C r ns f) (hC : ∀ ns d, Descent C r ns d → ∀ n e, C d n e → C' d n e) :
    Descent C' r ns f := by
  induction h with
  | root => exact .root
  | child hd hc ih => exact .child ih (hC _ _ hd _ _ hc)

/-- The children are what they were. -/
theorem descent_congr (hC : ∀ ns d, Descent C r ns d → ∀ n e, C' d n e ↔ C d n e) :
    Descent C' r ns f ↔ Descent C r ns f := by
  constructor
  · intro h
    induction h with
    | root => exact .root
    | child _ hc ih => exact .child ih ((hC _ _ ih _ _).mp hc)
  · exact fun h => h.mono fun ns d hd n e hc => (hC ns d hd n e).mpr hc

/-- Node `e` has become the child of `d` by the name `n`; it has no children. -/
theorem descent_leaf (h : IsTree C r) (hd : Descent C r p d)
    (hC : ∀ ns g, Descent C r ns g → ∀ n' e', C' g n' e' ↔ C g n' e' ∨ (g = d ∧ n' = n ∧ e' = e))
    (hleaf : ∀ n' e', ¬ C' e n' e') :
    Descent C' r ns f ↔ Descent C r ns f ∨ (ns = p ++ [n] ∧ f = e) := by
  constructor
  · intro hf
    induction hf with
    | root => exact Or.inl .root
    | child _ hc ih =>
        rcases ih with hold | ⟨-, rfl⟩
        · rcases (hC _ _ hold _ _).mp hc with hc | ⟨rfl, rfl, rfl⟩
          · exact Or.inl (.child hold hc)
          · rw [h.path hold hd]
            exact Or.inr ⟨rfl, rfl⟩
        · exact absurd hc (hleaf _ _)
  · have hup : ∀ {ns f}, Descent C r ns f → Descent C' r ns f := fun hf =>
      hf.mono fun ns g hg n' e' hc => (hC ns g hg n' e').mpr (Or.inl hc)
    rintro (hf | ⟨rfl, rfl⟩)
    · exact hup hf
    · exact .child (hup hd) ((hC p d hd n _).mpr (Or.inr ⟨rfl, rfl, rfl⟩))

/-- Node `f` is no child any more: what was under it cannot be reached. -/
theorem descent_cut (h : IsTree C r) (hf : Descent C r p f) (hne : f ≠ r)
    (hC : ∀ ns d, Descent C r ns d → Descent C' r ns d → ∀ n e, C' d n e ↔ C d n e ∧ e ≠ f) :
    Descent C' r ns g ↔ Descent C r ns g ∧ ¬ p <+: ns := by
  have hp : ∀ {ns d}, Descent C r ns d → ¬ p <+: ns → d ≠ f := by
    rintro ns d hd hpre rfl
    exact hpre (h.path hf hd ▸ List.prefix_refl _)
  have hp0 : p ≠ [] := by
    rintro rfl
    exact hne hf.of_nil
  constructor
  · intro hg
    induction hg with
    | root => exact ⟨.root, fun hpre => hp0 (List.prefix_nil.mp hpre)⟩
    | child hd' hc ih =>
        obtain ⟨hd, hpre⟩ := ih
        obtain ⟨hc, hef⟩ := (hC _ _ hd hd' _ _).mp hc
        refine ⟨.child hd hc, fun hlast => ?_⟩
        rcases List.prefix_concat_iff.mp hlast with heq | hin
        · rw [heq] at hf
          exact hef (h.node (.child hd hc) hf)
        · exact hpre hin
  · rintro ⟨hg, hpre⟩
    induction hg with
    | root => exact .root
    | child hd hc ih =>
        have hin := ih fun hin => hpre (hin.trans (List.prefix_append _ _))
        exact .child hin ((hC _ _ hd hin _ _).mpr ⟨hc, hp (.child hd hc) hpre⟩)

/-! ## The tree as a map -/

/-- What is at each path. -/
abbrev PathMap (ν κ : Type _) := List ν → Option κ

namespace PathMap

variable [DecidableEq ν] (v : PathMap ν κ)

def put (p : List ν) (k : κ) : PathMap ν κ := fun ns => if ns = p then some k else v ns

/-- Nothing is at the path and under it. -/
def cut (p : List ν) : PathMap ν κ := fun ns => if p <+: ns then none else v ns

end PathMap

/-- The map is what can be seen of the tree: `node f` at the path of `f`. -/
def Shows (C : φ → ν → φ → Prop) (r : φ) (node : φ → κ) (v : PathMap ν κ) : Prop :=
  ∀ ns k, v ns = some k ↔ ∃ f, Descent C r ns f ∧ node f = k

section Shows

variable {node node' : φ → κ} {v v' : PathMap ν κ}

theorem Shows.unique (h : Shows C r node v) (h' : Shows C r node v') : v = v' := by
  funext ns
  cases hv : v ns with
  | none =>
      cases hv' : v' ns with
      | none => rfl
      | some k =>
          rw [(h ns k).mpr ((h' ns k).mp hv')] at hv
          cases hv
  | some k => exact ((h' ns k).mpr ((h ns k).mp hv)).symm

theorem Shows.at_path (h : Shows C r node v) (hf : Descent C r ns f) : v ns = some (node f) :=
  (h ns _).mpr ⟨f, hf, rfl⟩

theorem Shows.eq_none (h : Shows C r node v) : v ns = none ↔ ∀ f, ¬ Descent C r ns f := by
  constructor
  · intro hv f hf
    rw [h.at_path hf] at hv
    cases hv
  · intro hno
    cases hv : v ns with
    | none => rfl
    | some k =>
        obtain ⟨f, hf, -⟩ := (h ns k).mp hv
        exact absurd hf (hno f)

theorem Shows.congr (h : Shows C r node v) (hpath : ∀ ns f, Descent C' r ns f ↔ Descent C r ns f)
    (hnode : ∀ ns f, Descent C r ns f → node' f = node f) : Shows C' r node' v := by
  intro ns k
  rw [h]
  constructor
  · rintro ⟨f, hf, rfl⟩
    exact ⟨f, (hpath ns f).mpr hf, hnode ns f hf⟩
  · rintro ⟨f, hf, rfl⟩
    have hf' := (hpath ns f).mp hf
    exact ⟨f, hf', (hnode ns f hf').symm⟩

variable [DecidableEq ν]

/-- One node is changed. -/
theorem Shows.put (h : Shows C r node v) (ht : IsTree C r) (hp : Descent C r p f)
    (hpath : ∀ ns g, Descent C' r ns g ↔ Descent C r ns g)
    (hnode : ∀ ns g, Descent C r ns g → g ≠ f → node' g = node g) : Shows C' r node' (v.put p (node' f)) := by
  intro ns k
  unfold PathMap.put
  by_cases hns : ns = p
  · rw [if_pos hns, hns]
    constructor
    · rintro ⟨⟩
      exact ⟨f, (hpath p f).mpr hp, rfl⟩
    · rintro ⟨g, hg, rfl⟩
      rw [ht.node hp ((hpath p g).mp hg)]
  · have hne : ∀ g, Descent C r ns g → g ≠ f := by
      rintro g hg rfl
      exact hns (ht.path hg hp)
    rw [if_neg hns, h]
    constructor
    · rintro ⟨g, hg, rfl⟩
      exact ⟨g, (hpath ns g).mpr hg, hnode ns g hg (hne g hg)⟩
    · rintro ⟨g, hg, rfl⟩
      have hg' := (hpath ns g).mp hg
      exact ⟨g, hg', (hnode ns g hg' (hne g hg')).symm⟩

/-- A leaf is added. -/
theorem Shows.leaf (h : Shows C r node v) (hnone : ∀ f, ¬ Descent C r p f)
    (hpath : ∀ ns f, Descent C' r ns f ↔ Descent C r ns f ∨ (ns = p ∧ f = e))
    (hnode : ∀ ns f, Descent C r ns f → node' f = node f) : Shows C' r node' (v.put p (node' e)) := by
  intro ns k
  unfold PathMap.put
  by_cases hns : ns = p
  · rw [if_pos hns, hns]
    constructor
    · rintro ⟨⟩
      exact ⟨e, (hpath p e).mpr (Or.inr ⟨rfl, rfl⟩), rfl⟩
    · rintro ⟨f, hf, rfl⟩
      rcases (hpath p f).mp hf with hf | ⟨-, rfl⟩
      · exact absurd hf (hnone f)
      · rfl
  · have hold : ∀ f, Descent C' r ns f ↔ Descent C r ns f := fun f =>
      (hpath ns f).trans (or_iff_left fun hp => hns hp.1)
    rw [if_neg hns, h]
    constructor
    · rintro ⟨f, hf, rfl⟩
      exact ⟨f, (hold f).mpr hf, hnode ns f hf⟩
    · rintro ⟨f, hf, rfl⟩
      have hf' := (hold f).mp hf
      exact ⟨f, hf', (hnode ns f hf').symm⟩

/-- A node is cut off, with what is under it. -/
theorem Shows.cut (h : Shows C r node v)
    (hpath : ∀ ns f, Descent C' r ns f ↔ Descent C r ns f ∧ ¬ p <+: ns)
    (hnode : ∀ ns f, Descent C' r ns f → node' f = node f) : Shows C' r node' (v.cut p) := by
  intro ns k
  unfold PathMap.cut
  by_cases hns : p <+: ns
  · rw [if_pos hns]
    constructor
    · rintro ⟨⟩
    · rintro ⟨f, hf, -⟩
      exact absurd hns ((hpath ns f).mp hf).2
  · rw [if_neg hns, h]
    constructor
    · rintro ⟨f, hf, rfl⟩
      have hf' := (hpath ns f).mpr ⟨hf, hns⟩
      exact ⟨f, hf', hnode ns f hf'⟩
    · rintro ⟨f, hf, rfl⟩
      exact ⟨f, ((hpath ns f).mp hf).1, (hnode ns f hf).symm⟩

end Shows

end RpiMos.Lib
