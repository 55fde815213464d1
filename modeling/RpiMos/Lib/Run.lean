/-
  RpiMos.Lib.Run

  Runs of a labelled transition system and the rules that results over runs are
  proved with: an invariant that the initial states have and that each step
  keeps holds in every reachable state, the same when only the steps meeting a
  condition are known to keep it, and the simulation of one system by another.
-/

import Mathlib.Data.List.Basic

namespace RpiMos.Lib

variable {σ α : Type _}

/-- `Run step s tr s'`: the steps labelled `tr`, in order, lead from `s` to `s'`. -/
inductive Run (step : σ → α → σ → Prop) (s : σ) : List α → σ → Prop
  | nil : Run step s [] s
  | snoc {tr : List α} {s₁ s₂ : σ} {a : α} :
      Run step s tr s₁ → step s₁ a s₂ → Run step s (tr ++ [a]) s₂

/-- The system restricted to the steps that meet `ok` in the state they start in. -/
def restrict (step : σ → α → σ → Prop) (ok : σ → α → Prop) : σ → α → σ → Prop :=
  fun s a s' => step s a s' ∧ ok s a

namespace Run

variable {step : σ → α → σ → Prop} {s s' s'' : σ} {tr tr' : List α}

theorem single {a : α} (h : step s a s') : Run step s [a] s' :=
  .snoc .nil h

theorem of_nil (h : Run step s [] s') : s' = s := by
  generalize hl : [] = l at h
  cases h with
  | nil => rfl
  | snoc _ _ => exact absurd hl.symm (List.append_ne_nil_of_right_ne_nil _ (List.cons_ne_nil _ _))

theorem of_single {a : α} (h : Run step s [a] s') : step s a s' := by
  generalize hl : [a] = l at h
  cases h with
  | nil => cases hl
  | snoc hrun hstep =>
      rw [← List.nil_append [a]] at hl
      obtain ⟨hnil, ha⟩ := List.append_inj' hl rfl
      subst hnil
      cases ha
      rwa [hrun.of_nil] at hstep

/-- The last step of a run. -/
theorem of_snoc {a : α} (h : Run step s (tr ++ [a]) s'') : ∃ s', Run step s tr s' ∧ step s' a s'' := by
  generalize hl : tr ++ [a] = l at h
  cases h with
  | nil => exact absurd hl (List.append_ne_nil_of_right_ne_nil _ (List.cons_ne_nil _ _))
  | snoc hrun hstep =>
      obtain ⟨htr, ha⟩ := List.append_inj' hl rfl
      subst htr
      cases ha
      exact ⟨_, hrun, hstep⟩

/-- Steps that a label determines lead to one state only. -/
theorem unique (hdet : ∀ s a s₁ s₂, step s a s₁ → step s a s₂ → s₁ = s₂) (h : Run step s tr s')
    (h' : Run step s tr s'') : s' = s'' := by
  induction h generalizing s'' with
  | nil => exact h'.of_nil.symm
  | snoc _ hstep ih =>
      obtain ⟨s₁, hrun₁, hstep₁⟩ := h'.of_snoc
      rw [← ih hrun₁] at hstep₁
      exact hdet _ _ _ _ hstep hstep₁

/-- A run of allowed steps is a run. -/
theorem of_restrict {ok : σ → α → Prop} (h : Run (restrict step ok) s tr s') : Run step s tr s' := by
  induction h with
  | nil => exact .nil
  | snoc _ hstep ih => exact .snoc ih hstep.1

theorem append (h : Run step s tr s') (h' : Run step s' tr' s'') :
    Run step s (tr ++ tr') s'' := by
  induction h' with
  | nil => simpa using h
  | snoc _ hstep ih =>
      rw [← List.append_assoc]
      exact .snoc ih hstep

theorem cons {a : α} (h : step s a s') (h' : Run step s' tr s'') :
    Run step s (a :: tr) s'' :=
  (single h).append h'

/-- A run splits at any point of its trace. -/
theorem split (h : Run step s (tr ++ tr') s'') : ∃ s', Run step s tr s' ∧ Run step s' tr' s'' := by
  generalize hall : tr ++ tr' = all at h
  induction h generalizing tr' with
  | nil =>
      obtain ⟨rfl, rfl⟩ := List.append_eq_nil_iff.mp hall
      exact ⟨s, .nil, .nil⟩
  | @snoc tr₀ s₁ s₂ a hrun hstep ih =>
      rcases List.eq_nil_or_concat tr' with rfl | ⟨l, b, rfl⟩
      · rw [List.append_nil] at hall
        exact ⟨s₂, hall ▸ .snoc hrun hstep, .nil⟩
      · rw [List.concat_eq_append, ← List.append_assoc] at hall
        obtain ⟨htr, hb⟩ := List.append_inj' hall rfl
        cases hb
        obtain ⟨s', h₁, h₂⟩ := ih htr
        exact ⟨s', h₁, List.concat_eq_append ▸ .snoc h₂ hstep⟩

theorem mono {step' : σ → α → σ → Prop} (hm : ∀ s a s', step s a s' → step' s a s')
    (h : Run step s tr s') : Run step' s tr s' := by
  induction h with
  | nil => exact .nil
  | snoc _ hstep ih => exact .snoc ih (hm _ _ _ hstep)

/-- A run is one of the restricted system when every label of it is allowed. -/
theorem restrict_of_forall {ok : α → Prop} (h : Run step s tr s') (hok : ∀ a ∈ tr, ok a) :
    Run (restrict step fun _ a => ok a) s tr s' := by
  induction h with
  | nil => exact .nil
  | @snoc tr s₁ s₂ a _ hstep ih =>
      refine .snoc (ih fun b hb => hok b (List.mem_append_left _ hb)) ⟨hstep, hok a ?_⟩
      exact List.mem_append_right _ (List.mem_singleton_self a)

/-- Executing a list of actions one by one is a run. -/
theorem of_foldlM {exec : σ → α → Option σ} (h : tr.foldlM exec s = some s') :
    Run (fun s a s' => exec s a = some s') s tr s' := by
  induction tr generalizing s with
  | nil =>
      cases h
      exact .nil
  | cons a tr ih =>
      rw [List.foldlM_cons] at h
      obtain ⟨s₁, hstep, hrest⟩ := Option.bind_eq_some_iff.mp h
      exact .cons hstep (ih hrest)

/-- The invariant rule: what the first state has and each step keeps, every
    state of the run has. -/
theorem invariant {P : σ → Prop} (hinit : P s)
    (hstep : ∀ s a s', P s → step s a s' → P s') (h : Run step s tr s') : P s' := by
  induction h with
  | nil => exact hinit
  | snoc _ hs ih => exact hstep _ _ _ ih hs

/-- The invariant rule with the history: the invariant may speak of the labels
    of the steps taken so far. -/
theorem invariant_trace {P : List α → σ → Prop} (hinit : P [] s)
    (hstep : ∀ tr s a s', P tr s → step s a s' → P (tr ++ [a]) s')
    (h : Run step s tr s') : P tr s' := by
  induction h with
  | nil => exact hinit
  | snoc _ hs ih => exact hstep _ _ _ _ ih hs

/-- The invariant rule for the runs whose steps all meet `ok`. -/
theorem invariant_of_restrict {P : σ → Prop} {ok : σ → α → Prop} (hinit : P s)
    (hstep : ∀ s a s', P s → ok s a → step s a s' → P s')
    (h : Run (restrict step ok) s tr s') : P s' :=
  h.invariant hinit fun s a s' hi ha => hstep s a s' hi ha.2 ha.1

/-- The rule for runs that last while `busy` holds: as long as they do, `J` holds and
    the steps are allowed; and the step that ends one is allowed exactly if what it
    leaves has `T`.  Then a run that has ended left `T` exactly if all its steps were
    allowed. -/
theorem ended_iff (busy J T : σ → Prop) (ok : σ → α → Prop)
    (hdet : ∀ s a s₁ s₂, step s a s₁ → step s a s₂ → s₁ = s₂)
    (hbusy : ∀ s a s', step s a s' → busy s) (hJ : ∀ s, J s → busy s)
    (hstep : ∀ s a s', J s → step s a s' →
      (J s' ∧ ok s a) ∨ (¬ busy s' ∧ (T s' ↔ ok s a)))
    (hinit : J s) (h : Run step s tr s') (hend : ¬ busy s') :
    T s' ↔ Run (restrict step ok) s tr s' := by
  have hinv : ∀ tr s₁, Run step s tr s₁ → busy s₁ → J s₁ ∧ Run (restrict step ok) s tr s₁ := by
    intro tr s₁ hrun
    induction hrun with
    | nil => exact fun _ => ⟨hinit, .nil⟩
    | snoc _ ha ih =>
        intro hb
        obtain ⟨hj, hok⟩ := ih (hbusy _ _ _ ha)
        rcases hstep _ _ _ hj ha with ⟨hj', hallowed⟩ | ⟨hnot, -⟩
        · exact ⟨hj', .snoc hok ⟨ha, hallowed⟩⟩
        · exact absurd hb hnot
  cases h with
  | nil => exact absurd (hJ s hinit) hend
  | @snoc tr₁ s₁ _ a hrun ha =>
      obtain ⟨hj, hok⟩ := hinv tr₁ s₁ hrun (hbusy _ _ _ ha)
      rcases hstep _ _ _ hj ha with ⟨hj', -⟩ | ⟨-, hiff⟩
      · exact absurd (hJ _ hj') hend
      · rw [hiff]
        constructor
        · exact fun hlast => .snoc hok ⟨ha, hlast⟩
        · intro hall
          obtain ⟨s₂, hrun₂, hlast⟩ := hall.of_snoc
          rw [hrun₂.of_restrict.unique hdet hrun] at hlast
          exact hlast.2

/-- The simulation rule: a run of `step` is matched by a run of the system it
    refines, whose labels are the images of its own. -/
theorem simulation {τ β : Type _} {step' : τ → β → τ → Prop} {R : σ → τ → Prop} {t : τ}
    (f : α → β) (hstep : ∀ s a s' t, R s t → step s a s' → ∃ t', step' t (f a) t' ∧ R s' t')
    (h : Run step s tr s') (hinit : R s t) : ∃ t', Run step' t (tr.map f) t' ∧ R s' t' := by
  induction h with
  | nil => exact ⟨t, .nil, hinit⟩
  | snoc _ hs ih =>
      obtain ⟨t₁, hrun, hR⟩ := ih
      obtain ⟨t₂, hs', hR'⟩ := hstep _ _ _ _ hR hs
      exact ⟨t₂, by rw [List.map_append]; exact .snoc hrun hs', hR'⟩

end Run

end RpiMos.Lib
