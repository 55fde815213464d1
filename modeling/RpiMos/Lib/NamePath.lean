/-
  RpiMos.Lib.NamePath

  Paths of names: a list cut into pieces at runs of separators, and the node that
  a list of names leads to, or the place where it ends.
-/

import Mathlib.Data.List.Basic

namespace RpiMos.Lib

variable {α φ ν : Type _}

/-! ## Cutting a list into pieces -/

/-- The pieces between separators; between two that are next to each other, before
    a first and behind a last one there is no piece. -/
def pieces (p : α → Bool) (l : List α) : List (List α) := (l.splitOnP p).filter fun x => !x.isEmpty

section Pieces

variable {p : α → Bool} {c : α} {l : List α}

theorem pieces_nil : pieces p [] = [] := rfl

theorem pieces_sep (h : p c = true) : pieces p (c :: l) = pieces p l := by
  rw [pieces, List.splitOnP_cons_eq_if_modifyHead, if_pos h]
  rfl

/-- Separators in front do not count. -/
theorem pieces_dropWhile : pieces p (l.dropWhile p) = pieces p l := by
  induction l with
  | nil => rfl
  | cons c l ih =>
      cases h : p c with
      | true => rw [List.dropWhile_cons_of_pos h, ih, pieces_sep h]
      | false => rw [List.dropWhile_cons_of_neg (by simp [h])]

/-- The first piece ends at the first separator. -/
theorem pieces_cons (h : p c = false) : pieces p (c :: l) =
    (c :: l).takeWhile (fun x => !p x) :: pieces p ((c :: l).dropWhile fun x => !p x) := by
  have hfirst : (c :: l).takeWhile (fun x => !p x) ≠ [] := by
    rw [List.takeWhile_cons_of_pos (by simp [h])]
    exact List.cons_ne_nil _ _
  have hsplit := List.takeWhile_append_dropWhile (p := fun x => !p x) (l := c :: l)
  have hno : ∀ x ∈ (c :: l).takeWhile (fun x => !p x), p x = false := by
    intro x hx
    simpa using List.all_eq_true.mp List.all_takeWhile x hx
  generalize (c :: l).takeWhile (fun x => !p x) = first at *
  cases hrest : (c :: l).dropWhile (fun x => !p x) with
  | nil =>
      rw [hrest, List.append_nil] at hsplit
      rw [pieces, ← hsplit, List.splitOnP_eq_singleton hno, pieces_nil]
      simp [hfirst]
  | cons sep rest =>
      have hsep : p sep = true := by
        have hhead := List.head?_dropWhile_not (fun x => !p x) (c :: l)
        simpa [hrest] using hhead
      rw [hrest] at hsplit
      rw [pieces, ← hsplit, List.splitOnP_append_cons_of_forall_mem hno sep hsep, pieces_sep hsep, pieces]
      simp [hfirst]

theorem mem_splitOnP {x : List α} (h : x ∈ l.splitOnP p) : x ⊆ l := by
  induction l generalizing x with
  | nil =>
      rw [List.splitOnP_nil, List.mem_singleton] at h
      rw [h]
      exact List.nil_subset _
  | cons c l ih =>
      rw [List.splitOnP_cons_eq_if_modifyHead] at h
      split at h
      · rcases List.mem_cons.mp h with rfl | hx
        · exact List.nil_subset _
        · exact List.subset_cons_of_subset _ (ih hx)
      · cases hsplit : l.splitOnP p with
        | nil =>
            rw [hsplit] at h
            cases h
        | cons first rest =>
            rw [hsplit] at h ih
            rcases List.mem_cons.mp h with rfl | hx
            · exact List.cons_subset_cons _ (ih List.mem_cons_self)
            · exact List.subset_cons_of_subset _ (ih (List.mem_cons_of_mem _ hx))

theorem mem_pieces {x : List α} (h : x ∈ pieces p l) : x ≠ [] ∧ x ⊆ l := by
  obtain ⟨hmem, hx⟩ := List.mem_filter.mp h
  exact ⟨by simpa using hx, mem_splitOnP hmem⟩

end Pieces

/-! ## Nodes with named children -/

structure NameSpace (φ ν : Type _) where
  isDir : φ → Bool
  child : φ → ν → Option φ
  /-- Names that are no name of any node are not looked up. -/
  fits : ν → Bool

inductive Resolution (φ ν : Type _) where
  | found (dir : Option φ) (f : φ)
  | unfit
  /-- Only the last name is missing in this directory. -/
  | missing (dir : φ) (name : ν)
  | nowhere

namespace NameSpace

variable (S : NameSpace φ ν) {d d' f : φ} {par : Option φ} {n : ν} {ns pre : List ν}

/-- The child of that name, if the node is a directory. -/
def step (d : φ) (n : ν) : Option φ := if S.fits n && S.isDir d then S.child d n else none

/-- The node that a list of names leads to. -/
def descend (d : φ) : List ν → Option φ
  | [] => some d
  | n :: ns => (S.step d n).bind fun f => descend f ns

/-- What comes of looking the names up one after another from `d`, a child of `par`. -/
def resolve (par : Option φ) (d : φ) : List ν → Resolution φ ν
  | [] => .found par d
  | n :: ns =>
      if S.fits n then
        if S.isDir d then
          match S.child d n with
          | some f => resolve (some d) f ns
          | none => if ns.isEmpty then .missing d n else .nowhere
        else .nowhere
      else .unfit

variable {S}

theorem step_eq_some : S.step d n = some f ↔
    S.fits n = true ∧ S.isDir d = true ∧ S.child d n = some f := by
  rw [step]
  split <;> simp_all

theorem descend_append : S.descend d (pre ++ ns) = (S.descend d pre).bind fun f => S.descend f ns := by
  induction pre generalizing d with
  | nil => rfl
  | cons n pre ih =>
      rw [List.cons_append, descend, descend, Option.bind_assoc]
      simp only [ih]

/-- The names lead to a node, or one of them is the first that does not. -/
theorem descend_total (S : NameSpace φ ν) (d : φ) (ns : List ν) : (∃ f, S.descend d ns = some f) ∨
    ∃ pre n rest d', ns = pre ++ n :: rest ∧ S.descend d pre = some d' ∧ S.step d' n = none := by
  induction ns generalizing d with
  | nil => exact Or.inl ⟨d, rfl⟩
  | cons n ns ih =>
      cases hstep : S.step d n with
      | none => exact Or.inr ⟨[], n, ns, d, rfl, rfl, hstep⟩
      | some f =>
          rw [descend, hstep]
          rcases ih f with hall | ⟨pre, n', rest, d', rfl, hpre, hend⟩
          · exact Or.inl hall
          · refine Or.inr ⟨n :: pre, n', rest, d', rfl, ?_, hend⟩
            rw [descend, hstep]
            exact hpre

theorem resolve_step (h : S.step d n = some f) :
    S.resolve par d (n :: ns) = S.resolve (some d) f ns := by
  obtain ⟨hfits, hdir, hchild⟩ := step_eq_some.mp h
  rw [resolve, if_pos hfits, if_pos hdir, hchild]

/-- Names that lead to a node leave the rest to be looked up from it. -/
theorem resolve_descend (h : S.descend d pre = some d') (ns : List ν) :
    ∃ par', S.resolve par d (pre ++ ns) = S.resolve par' d' ns := by
  induction pre generalizing par d with
  | nil =>
      cases h
      exact ⟨par, rfl⟩
  | cons n pre ih =>
      obtain ⟨f, hstep, hrest⟩ := Option.bind_eq_some_iff.mp h
      obtain ⟨par', hres⟩ := ih hrest
      exact ⟨par', by rw [List.cons_append, resolve_step hstep, hres]⟩

theorem resolve_found (h : S.descend d pre = some d') (hstep : S.step d' n = some f) :
    S.resolve par d (pre ++ [n]) = .found (some d') f := by
  obtain ⟨par', hres⟩ := resolve_descend h [n]
  rw [hres, resolve_step hstep, resolve]

theorem resolve_unfit (h : S.descend d pre = some d') (hfits : S.fits n = false) :
    S.resolve par d (pre ++ n :: ns) = .unfit := by
  obtain ⟨par', hres⟩ := resolve_descend h (n :: ns)
  rw [hres, resolve, hfits]
  rfl

theorem resolve_missing (h : S.descend d pre = some d') (hfits : S.fits n = true)
    (hdir : S.isDir d' = true) (hchild : S.child d' n = none) :
    S.resolve par d (pre ++ [n]) = .missing d' n := by
  obtain ⟨par', hres⟩ := resolve_descend h [n]
  rw [hres, resolve, if_pos hfits, if_pos hdir, hchild]
  rfl

theorem resolve_nowhere (h : S.descend d pre = some d') (hfits : S.fits n = true)
    (hend : S.isDir d' = false ∨ S.child d' n = none ∧ ns ≠ []) :
    S.resolve par d (pre ++ n :: ns) = .nowhere := by
  obtain ⟨par', hres⟩ := resolve_descend h (n :: ns)
  rw [hres, resolve, if_pos hfits]
  rcases hend with hfile | ⟨hchild, hns⟩
  · rw [hfile]
    rfl
  · split
    · rw [hchild]
      simp [hns]
    · rfl

/-- What comes of a name that leads nowhere. -/
theorem resolve_stuck (par : Option φ) (ns : List ν) (h : S.step d n = none) : S.resolve par d (n :: ns) = .unfit ∨
    S.resolve par d (n :: ns) = .nowhere ∨ (ns = [] ∧ S.fits n = true ∧ S.isDir d = true ∧
      S.child d n = none ∧ S.resolve par d (n :: ns) = .missing d n) := by
  rw [resolve]
  cases hfits : S.fits n with
  | false => exact Or.inl rfl
  | true =>
      cases hdir : S.isDir d with
      | false => exact Or.inr (Or.inl rfl)
      | true =>
          have hchild : S.child d n = none := by simpa [step, hfits, hdir] using h
          rw [hchild]
          cases ns with
          | nil => exact Or.inr (Or.inr ⟨rfl, rfl, rfl, rfl, rfl⟩)
          | cons => exact Or.inr (Or.inl rfl)

theorem descend_of_found {par' : Option φ} (h : S.resolve par d ns = .found par' f) :
    S.descend d ns = some f := by
  induction ns generalizing par d with
  | nil =>
      cases h
      rfl
  | cons n ns ih =>
      cases hstep : S.step d n with
      | some e =>
          rw [resolve_step hstep] at h
          rw [descend, hstep]
          exact ih h
      | none =>
          rcases resolve_stuck par ns hstep with hr | hr | ⟨-, -, -, -, hr⟩
          all_goals
            rw [hr] at h
            cases h

theorem of_missing (h : S.resolve par d ns = .missing d' n) : ∃ pre, ns = pre ++ [n] ∧
    S.descend d pre = some d' ∧ S.fits n = true ∧ S.isDir d' = true ∧ S.child d' n = none := by
  induction ns generalizing par d with
  | nil => cases h
  | cons m ns ih =>
      cases hstep : S.step d m with
      | some e =>
          rw [resolve_step hstep] at h
          obtain ⟨pre, rfl, hpre, hend⟩ := ih h
          refine ⟨m :: pre, rfl, ?_, hend⟩
          rw [descend, hstep]
          exact hpre
      | none =>
          rcases resolve_stuck par ns hstep with hr | hr | ⟨rfl, hfits, hdir, hchild, hr⟩
          · rw [hr] at h
            cases h
          · rw [hr] at h
            cases h
          · rw [hr] at h
            cases h
            exact ⟨[], rfl, rfl, hfits, hdir, hchild⟩

end NameSpace

end RpiMos.Lib
