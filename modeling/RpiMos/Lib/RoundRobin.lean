/-
  RpiMos.Lib.RoundRobin

  Taking turns from a queue: the party whose turn ends goes to the back and the
  one at the front is next.  Parties may join anywhere in the queue and the one
  whose turn it is may leave.  Between two turns of one party every other that
  was waiting at the first has exactly one.
-/

import RpiMos.Lib.Run

namespace RpiMos.Lib

variable {ε : Type _}

inductive RrEvent (ε : Type _) where
  | turn (e : ε)
  | insert (e : ε)
  | drop (e : ε)
  | skip

/-- The party whose turn it is, if any, and the queue of the others. -/
abbrev RrState (ε : Type _) := Option ε × List ε

inductive RrStep : RrState ε → RrEvent ε → RrState ε → Prop
  | turn {hand : Option ε} {q rest : List ε} {e : ε} (h : q ++ hand.toList = e :: rest) :
      RrStep (hand, q) (.turn e) (some e, rest)
  | insert {hand : Option ε} {xs ys : List ε} {e : ε} (hnew : e ∉ xs ++ ys) (hhand : hand ≠ some e) :
      RrStep (hand, xs ++ ys) (.insert e) (hand, xs ++ e :: ys)
  | drop {q : List ε} {e : ε} : RrStep (some e, q) (.drop e) (none, q)
  | skip {s : RrState ε} : RrStep s .skip s

def RrEvent.turnOf : RrEvent ε → Option ε
  | .turn e => some e
  | _ => none

/-- Whose turns there were, in order. -/
def rrTurns (tr : List (RrEvent ε)) : List ε := tr.filterMap RrEvent.turnOf

theorem rrTurns_snoc (tr : List (RrEvent ε)) (l : RrEvent ε) :
    rrTurns (tr ++ [l]) = rrTurns tr ++ l.turnOf.toList := by
  rw [rrTurns, List.filterMap_append, ← rrTurns]
  cases l <;> rfl

/-- No party waits twice, or waits while it has its turn. -/
def RrState.Distinct (s : RrState ε) : Prop := (s.2 ++ s.1.toList).Nodup

theorem RrStep.distinct {s s' : RrState ε} {l : RrEvent ε} (h : RrStep s l s') (hd : s.Distinct) :
    s'.Distinct := by
  cases h with
  | @turn hand q rest e h =>
      unfold RrState.Distinct at hd ⊢
      rw [h] at hd
      obtain ⟨hnew, hrest⟩ := List.nodup_cons.mp hd
      show (rest ++ [e]).Nodup
      rw [List.nodup_append]
      refine ⟨hrest, by simp, fun x hx y hy => ?_⟩
      rw [List.mem_singleton.mp hy]
      rintro rfl
      exact hnew hx
  | @insert hand xs ys e hnew hhand =>
      unfold RrState.Distinct at hd ⊢
      have hperm : ((xs ++ e :: ys) ++ hand.toList).Perm (e :: ((xs ++ ys) ++ hand.toList)) := by
        rw [List.append_assoc, List.cons_append, List.append_assoc]
        exact List.perm_middle
      rw [hperm.nodup_iff, List.nodup_cons]
      refine ⟨fun hmem => ?_, hd⟩
      rcases List.mem_append.mp hmem with hmem | hmem
      · exact hnew hmem
      · cases hand with
        | none => cases hmem
        | some x => exact hhand (by rw [Option.toList_some, List.mem_singleton] at hmem; rw [hmem])
  | @drop q e =>
      unfold RrState.Distinct at hd ⊢
      show (q ++ []).Nodup
      rw [List.append_nil]
      exact (List.nodup_append.mp hd).1
  | skip => exact hd

section NoOvertaking

variable [DecidableEq ε] {a : ε} {q₀ : List ε} {s s' : RrState ε} {tr : List (RrEvent ε)}

/-- `b` stands before `a` and has had no turn since, or behind it and had one. -/
def Standing (s : RrState ε) (before after : List ε) (turns : List ε) (b : ε) : Prop :=
  (b ∈ before ∧ turns.count b = 0) ∨ ((b ∈ after ∨ s.1 = some b) ∧ turns.count b = 1)

/-- Since a turn of `a`, at which `q₀` were waiting. -/
def RrSince (a : ε) (q₀ : List ε) (tr : List (RrEvent ε)) (s : RrState ε) : Prop :=
  s.Distinct ∧
  ((s.1 = some a ∧ rrTurns tr = [] ∧ ∀ b ∈ q₀, .drop b ∉ tr → b ∈ s.2) ∨
   ∃ before after, s.2 = before ++ a :: after ∧
    ∀ b ∈ q₀, .drop b ∉ tr → Standing s before after (rrTurns tr) b)

omit [DecidableEq ε] in
theorem not_mem_of_snoc {l : RrEvent ε} {b : ε} (h : .drop b ∉ tr ++ [l]) : .drop b ∉ tr :=
  fun hmem => h (List.mem_append_left _ hmem)

/-- The turn of another: the front is taken and the old hand goes to the back. -/
theorem RrSince.turn {hand : Option ε} {q rest : List ε} {e : ε} (h : RrSince a q₀ tr (hand, q))
    (hq : q ++ hand.toList = e :: rest) (hea : e ≠ a) :
    RrSince a q₀ (tr ++ [.turn e]) (some e, rest) := by
  obtain ⟨hd, h⟩ := h
  have hd' : RrState.Distinct (some e, rest) := (RrStep.turn hq).distinct hd
  have hturns : rrTurns (tr ++ [.turn e]) = rrTurns tr ++ [e] := rrTurns_snoc _ _
  refine ⟨hd', Or.inr ?_⟩
  have hnodup : (e :: rest).Nodup := hq ▸ hd
  obtain ⟨hnew, -⟩ := List.nodup_cons.mp hnodup
  rcases h with ⟨hhand, htr, hwait⟩ | ⟨before, after, hqs, hstand⟩
  · -- `a` itself goes to the back, behind all others.
    have hhand' : hand = some a := hhand
    subst hhand'
    cases q with
    | nil =>
        rw [List.nil_append, Option.toList_some] at hq
        exact absurd (List.cons.inj hq).1.symm hea
    | cons x q =>
        obtain ⟨rfl, hrest⟩ := List.cons.inj hq
        refine ⟨q, [], hrest.symm, fun b hb hdrop => ?_⟩
        have hbq : b ∈ x :: q := hwait b hb (not_mem_of_snoc hdrop)
        rw [hturns, htr]
        rcases List.mem_cons.mp hbq with rfl | hmem
        · exact Or.inr ⟨Or.inr rfl, by simp⟩
        · refine Or.inl ⟨hmem, ?_⟩
          have hbx : b ≠ x := by
            rintro rfl
            exact hnew (hrest ▸ List.mem_append_left _ hmem)
          simp [Ne.symm hbx]
  · have hqs' : q = before ++ a :: after := hqs
    subst hqs'
    cases before with
    | nil =>
        obtain ⟨rfl, -⟩ := List.cons.inj hq
        exact absurd rfl hea
    | cons x before =>
        obtain ⟨rfl, hrest⟩ : x = e ∧ (before ++ a :: after) ++ hand.toList = rest := List.cons.inj hq
        refine ⟨before, after ++ hand.toList, ?_, fun b hb hdrop => ?_⟩
        · show rest = before ++ a :: (after ++ hand.toList)
          rw [← hrest]
          simp
        · rw [hturns, Standing, List.count_append]
          rcases hstand b hb (not_mem_of_snoc hdrop) with ⟨hbq, hcount⟩ | ⟨hbq, hcount⟩
          · rcases List.mem_cons.mp hbq with rfl | hmem
            · exact Or.inr ⟨Or.inr rfl, by simp [hcount]⟩
            · refine Or.inl ⟨hmem, ?_⟩
              have hbx : b ≠ x := by
                rintro rfl
                exact hnew (hrest ▸ List.mem_append_left _ (List.mem_append_left _ hmem))
              simp [hcount, Ne.symm hbx]
          · -- Behind `a` before, and so still.
            have hmem : b ∈ after ++ hand.toList := by
              rcases hbq with hbq | hbq
              · exact List.mem_append_left _ hbq
              · have hbq' : hand = some b := hbq
                rw [hbq']
                simp
            have hbx : b ≠ x := by
              rintro rfl
              refine hnew (hrest ▸ ?_)
              rw [List.append_assoc, List.cons_append]
              exact List.mem_append_right _ (List.mem_cons_of_mem _ hmem)
            refine Or.inr ⟨Or.inl hmem, ?_⟩
            simp [hcount, Ne.symm hbx]

theorem RrSince.step {l : RrEvent ε} (h : RrSince a q₀ tr s) (hstep : RrStep s l s')
    (hturn : l ≠ .turn a) (hdrop : l ≠ .drop a) : RrSince a q₀ (tr ++ [l]) s' := by
  have hd' := hstep.distinct h.1
  cases hstep with
  | turn hq =>
      refine h.turn hq ?_
      rintro rfl
      exact hturn rfl
  | @insert hand xs ys e hnew hhand =>
      have hturns : rrTurns (tr ++ [.insert e]) = rrTurns tr := by
        rw [rrTurns_snoc]
        exact List.append_nil _
      obtain ⟨-, ⟨hha, htr, hwait⟩ | ⟨before, after, hqs, hstand⟩⟩ := h
      · refine ⟨hd', Or.inl ⟨hha, hturns.trans htr, fun b hb hn => ?_⟩⟩
        have hbq : b ∈ xs ++ ys := hwait b hb (not_mem_of_snoc hn)
        show b ∈ xs ++ e :: ys
        rw [List.mem_append] at hbq ⊢
        exact hbq.imp id (List.mem_cons_of_mem _)
      · refine ⟨hd', Or.inr ?_⟩
        have hqs' : xs ++ ys = before ++ a :: after := hqs
        -- The newcomer stands before `a` or behind it.
        have hsplit : ∃ before' after', xs ++ e :: ys = before' ++ a :: after' ∧
            (∀ b ∈ before, b ∈ before') ∧ ∀ b ∈ after, b ∈ after' := by
          rcases List.append_eq_append_iff.mp hqs' with ⟨zs, hb, hy⟩ | ⟨zs, hx, ha⟩
          · refine ⟨xs ++ e :: zs, after, ?_, fun b hb' => ?_, fun b hb' => hb'⟩
            · rw [hy, List.append_assoc, List.cons_append]
            · rw [hb, List.mem_append] at hb'
              rw [List.mem_append]
              exact hb'.imp id (List.mem_cons_of_mem _)
          · cases zs with
            | nil =>
                rw [List.nil_append] at ha
                refine ⟨before ++ [e], after, ?_, fun b hb' => List.mem_append_left _ hb',
                  fun b hb' => hb'⟩
                rw [hx, ← ha]
                simp
            | cons z zs =>
                obtain ⟨rfl, hzs⟩ : a = z ∧ after = zs ++ ys := List.cons.inj ha
                refine ⟨before, zs ++ e :: ys, ?_, fun b hb' => hb', fun b hb' => ?_⟩
                · rw [hx, List.append_assoc, List.cons_append]
                · rw [hzs, List.mem_append] at hb'
                  rw [List.mem_append]
                  exact hb'.imp id (List.mem_cons_of_mem _)
        obtain ⟨before', after', hq, hbef, haft⟩ := hsplit
        refine ⟨before', after', hq, fun b hb hn => ?_⟩
        rw [hturns]
        rcases hstand b hb (not_mem_of_snoc hn) with ⟨hbq, hcount⟩ | ⟨hbq, hcount⟩
        · exact Or.inl ⟨hbef b hbq, hcount⟩
        · exact Or.inr ⟨hbq.imp (haft b) id, hcount⟩
  | @drop q e =>
      have hturns : rrTurns (tr ++ [.drop e]) = rrTurns tr := by
        rw [rrTurns_snoc]
        exact List.append_nil _
      obtain ⟨-, ⟨hha, -⟩ | ⟨before, after, hqs, hstand⟩⟩ := h
      · refine absurd ?_ hdrop
        rw [Option.some.inj hha]
      · refine ⟨hd', Or.inr ⟨before, after, hqs, fun b hb hn => ?_⟩⟩
        have hbe : b ≠ e := by
          rintro rfl
          exact hn (List.mem_append_right _ (List.mem_singleton_self _))
        rw [hturns]
        rcases hstand b hb (not_mem_of_snoc hn) with h | ⟨hbq | hbq, hcount⟩
        · exact Or.inl h
        · exact Or.inr ⟨Or.inl hbq, hcount⟩
        · exact absurd (Option.some.inj hbq).symm hbe
  | skip =>
      have hturns : rrTurns (tr ++ [.skip]) = rrTurns tr := by
        rw [rrTurns_snoc]
        exact List.append_nil _
      unfold RrSince
      rw [hturns]
      refine ⟨hd', h.2.imp (fun h => ⟨h.1, h.2.1, fun b hb hn => h.2.2 b hb (not_mem_of_snoc hn)⟩) ?_⟩
      rintro ⟨before, after, hqs, hstand⟩
      exact ⟨before, after, hqs, fun b hb hn => hstand b hb (not_mem_of_snoc hn)⟩

/-- From one turn of `a` to its next, each other that was waiting and did not
    leave has exactly one turn. -/
theorem rr_no_overtaking (hd : RrState.Distinct (some a, q₀))
    (hrun : Run (restrict RrStep fun _ l => l ≠ .turn a ∧ l ≠ .drop a) (some a, q₀) tr s)
    (hnext : RrStep s (.turn a) s') {b : ε} (hb : b ∈ q₀) (hdrop : .drop b ∉ tr) :
    (rrTurns tr).count b = 1 := by
  have h : RrSince a q₀ tr s := by
    refine hrun.invariant_trace (P := RrSince a q₀)
      ⟨hd, Or.inl ⟨rfl, rfl, fun b hb _ => hb⟩⟩ fun tr s l s' h hstep => ?_
    exact h.step hstep.1 hstep.2.1 hstep.2.2
  cases hnext with
  | @turn hand q rest e hq =>
      obtain ⟨hds, ⟨hhand, -, hwait⟩ | ⟨before, after, hqs, hstand⟩⟩ := h
      · -- Still in hand: nobody else was waiting.
        have hhand' : hand = some a := hhand
        subst hhand'
        cases q with
        | nil => exact absurd (hwait b hb hdrop) List.not_mem_nil
        | cons x q =>
            obtain ⟨rfl, -⟩ := List.cons.inj hq
            have hnd : (x :: (q ++ [x])).Nodup := hds
            exact absurd (List.mem_append_right _ (List.mem_singleton_self x))
              (List.nodup_cons.mp hnd).1
      · have hqs' : q = before ++ a :: after := hqs
        subst hqs'
        cases before with
        | nil =>
            rcases hstand b hb hdrop with ⟨hmem, -⟩ | ⟨-, hcount⟩
            · exact absurd hmem List.not_mem_nil
            · exact hcount
        | cons x before =>
            obtain ⟨rfl, -⟩ := List.cons.inj hq
            have hnd : ((x :: before ++ x :: after) ++ hand.toList).Nodup := hds
            rw [List.append_assoc, List.cons_append, List.nodup_cons] at hnd
            exact absurd (by simp) hnd.1

end NoOvertaking

end RpiMos.Lib
