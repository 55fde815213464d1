/-
  RpiMos.Lib.Prog

  Imperative programs over a state: a program returns a value, fails with an
  error code, or stops for good.  A failing program leaves the state it has
  reached, and its caller may go on.  What a program does is reasoned about by
  the rules for `Sat`, one for each way of putting programs together.
-/

namespace RpiMos.Lib

universe u

inductive Outcome (σ ε α : Type u) where
  | ret (a : α) (s : σ)
  | fail (e : ε) (s : σ)
  | stop (msg : String)

def Prog (σ ε α : Type u) := σ → Outcome σ ε α

namespace Prog

variable {σ ε α β : Type u}

protected def pure (a : α) : Prog σ ε α := fun s => .ret a s

protected def bind (x : Prog σ ε α) (f : α → Prog σ ε β) : Prog σ ε β := fun s =>
  match x s with
  | .ret a s => f a s
  | .fail e s => .fail e s
  | .stop m => .stop m

instance : Monad (Prog σ ε) where
  pure := Prog.pure
  bind := Prog.bind

def get : Prog σ ε σ := fun s => .ret s s

def modify (f : σ → σ) : Prog σ ε PUnit := fun s => .ret ⟨⟩ (f s)

def throw (e : ε) : Prog σ ε α := fun s => .fail e s

def stop (m : String) : Prog σ ε α := fun _ => .stop m

/-- The result of a call whose error code the caller looks at. -/
def attempt (x : Prog σ ε α) : Prog σ ε (Except ε α) := fun s =>
  match x s with
  | .ret a s => .ret (.ok a) s
  | .fail e s => .ret (.error e) s
  | .stop m => .stop m

/-- `for (j = i; j < i + n; j++)`. -/
def forRange (i : Nat) : Nat → (Nat → Prog σ ε PUnit) → Prog σ ε PUnit
  | 0, _ => pure ⟨⟩
  | n + 1, body => do
      body i
      forRange (i + 1) n body

/-! ## One step at a time -/

variable {x : Prog σ ε α} {f : α → Prog σ ε β} {s s' : σ} {a : α} {b : β} {e : ε} {m : String}

@[simp] theorem pure_apply (a : α) (s : σ) : (pure a : Prog σ ε α) s = .ret a s := rfl
@[simp] theorem get_apply (s : σ) : (get : Prog σ ε σ) s = .ret s s := rfl
@[simp] theorem modify_apply (f : σ → σ) (s : σ) : (modify f : Prog σ ε PUnit) s = .ret ⟨⟩ (f s) := rfl
@[simp] theorem throw_apply (e : ε) (s : σ) : (throw e : Prog σ ε α) s = .fail e s := rfl
@[simp] theorem stop_apply (m : String) (s : σ) : (stop m : Prog σ ε α) s = .stop m := rfl

theorem bind_ret (h : x s = .ret a s') : (x >>= f) s = f a s' := by
  show Prog.bind x f s = f a s'
  rw [Prog.bind, h]

theorem bind_fail (h : x s = .fail e s') : (x >>= f) s = .fail e s' := by
  show Prog.bind x f s = .fail e s'
  rw [Prog.bind, h]

theorem bind_stop (h : x s = .stop m) : (x >>= f) s = .stop m := by
  show Prog.bind x f s = .stop m
  rw [Prog.bind, h]

theorem bind_assoc {γ : Type u} (x : Prog σ ε α) (f : α → Prog σ ε β) (g : β → Prog σ ε γ) :
    x >>= f >>= g = x >>= fun a => f a >>= g := by
  funext s
  cases hx : x s with
  | ret a s₁ =>
      rw [bind_ret hx]
      cases hf : f a s₁ with
      | ret b s₂ => rw [bind_ret ((bind_ret hx).trans hf), bind_ret hf]
      | fail e s₂ => rw [bind_fail ((bind_ret hx).trans hf), bind_fail hf]
      | stop m => rw [bind_stop ((bind_ret hx).trans hf), bind_stop hf]
  | fail e s₁ => rw [bind_fail hx, bind_fail (bind_fail hx)]
  | stop m => rw [bind_stop hx, bind_stop (bind_stop hx)]

theorem attempt_ret (h : x s = .ret a s') : attempt x s = .ret (.ok a) s' := by
  rw [attempt, h]

theorem attempt_fail (h : x s = .fail e s') : attempt x s = .ret (.error e) s' := by
  rw [attempt, h]

theorem bind_eq_ret : (x >>= f) s = .ret b s' ↔ ∃ a s₁, x s = .ret a s₁ ∧ f a s₁ = .ret b s' := by
  show Prog.bind x f s = .ret b s' ↔ _
  unfold Prog.bind
  cases h : x s with
  | ret a s₁ =>
      constructor
      · intro hf
        exact ⟨a, s₁, rfl, hf⟩
      · rintro ⟨_, _, ⟨⟩, hf⟩
        exact hf
  | fail e s₁ => simp
  | stop m => simp

theorem bind_eq_fail : (x >>= f) s = .fail e s' ↔
    x s = .fail e s' ∨ ∃ a s₁, x s = .ret a s₁ ∧ f a s₁ = .fail e s' := by
  show Prog.bind x f s = .fail e s' ↔ _
  unfold Prog.bind
  cases h : x s with
  | ret a s₁ =>
      constructor
      · intro hf
        exact Or.inr ⟨a, s₁, rfl, hf⟩
      · rintro (⟨⟨⟩⟩ | ⟨_, _, ⟨⟩, hf⟩)
        exact hf
  | fail e s₁ => simp
  | stop m => simp

/-! ## What a program promises -/

/-- From `s` the program does not stop; a value returned meets `Q` and an error
    meets `E`, each together with the state that is left. -/
def Sat (x : Prog σ ε α) (s : σ) (Q : α → σ → Prop) (E : ε → σ → Prop) : Prop :=
  match x s with
  | .ret a s => Q a s
  | .fail e s => E e s
  | .stop _ => False

variable {Q Q' : α → σ → Prop} {R : β → σ → Prop} {E E' : ε → σ → Prop}

theorem Sat.of_ret (h : x s = .ret a s') (hQ : Q a s') : x.Sat s Q E := by
  rw [Sat, h]
  exact hQ

theorem Sat.of_fail (h : x s = .fail e s') (hE : E e s') : x.Sat s Q E := by
  rw [Sat, h]
  exact hE

theorem Sat.bind (h : x.Sat s Q E) (hf : ∀ a s, Q a s → (f a).Sat s R E) : (x >>= f).Sat s R E := by
  show (Prog.bind x f).Sat s R E
  unfold Sat Prog.bind at *
  cases hx : x s with
  | ret a s₁ =>
      rw [hx] at h
      exact hf a s₁ h
  | fail e s₁ =>
      rw [hx] at h
      exact h
  | stop m =>
      rw [hx] at h
      exact h

/-- What comes first returns, and what follows goes on from there. -/
theorem Sat.bind_ret (hx : x s = .ret a s') (h : (f a).Sat s' R E) : (x >>= f).Sat s R E := by
  rw [Sat, Prog.bind_ret hx]
  exact h

theorem Sat.mono (h : x.Sat s Q E) (hQ : ∀ a s, Q a s → Q' a s) (hE : ∀ e s, E e s → E' e s) :
    x.Sat s Q' E' := by
  unfold Sat at *
  cases hx : x s with
  | ret a s₁ =>
      rw [hx] at h
      exact hQ a s₁ h
  | fail e s₁ =>
      rw [hx] at h
      exact hE e s₁ h
  | stop m =>
      rw [hx] at h
      exact h

/-- A call whose error the caller looks at never fails itself. -/
theorem Sat.attempt (h : x.Sat s Q E) :
    (attempt x).Sat s (fun r s => (∀ a, r = .ok a → Q a s) ∧ ∀ e, r = .error e → E e s)
      (fun _ _ => False) := by
  unfold Sat Prog.attempt at *
  cases hx : x s with
  | ret a s₁ =>
      rw [hx] at h
      exact ⟨by rintro b ⟨⟩; exact h, by rintro e ⟨⟩⟩
  | fail e s₁ =>
      rw [hx] at h
      exact ⟨by rintro b ⟨⟩, by rintro e ⟨⟩; exact h⟩
  | stop m =>
      rw [hx] at h
      exact h

theorem Sat.ret_of (h : x.Sat s Q E) (hx : x s = .ret a s') : Q a s' := by
  rw [Sat, hx] at h
  exact h

theorem Sat.fail_of (h : x.Sat s Q E) (hx : x s = .fail e s') : E e s' := by
  rw [Sat, hx] at h
  exact h

/-- A program that promises no error returns. -/
theorem Sat.exists_ret (h : x.Sat s Q fun _ _ => False) : ∃ a s', x s = .ret a s' ∧ Q a s' := by
  unfold Sat at h
  cases hx : x s with
  | ret a s₁ =>
      rw [hx] at h
      exact ⟨a, s₁, rfl, h⟩
  | fail e s₁ =>
      rw [hx] at h
      exact h.elim
  | stop m =>
      rw [hx] at h
      exact h.elim

/-- The invariant `I j` holds before turn `j`; the induction is on the turns left. -/
theorem Sat.forRange {I : Nat → σ → Prop} {body : Nat → Prog σ ε PUnit} {i n : Nat}
    (h : I i s) (hbody : ∀ j, i ≤ j → j < i + n → ∀ s, I j s →
      (body j).Sat s (fun _ s' => I (j + 1) s') E) :
    (Prog.forRange i n body).Sat s (fun _ s' => I (i + n) s') E := by
  induction n generalizing i s with
  | zero => exact h
  | succ n ih =>
      refine Sat.bind (hbody i (Nat.le_refl i) (by omega) s h) fun _ s₁ h₁ => ?_
      have hrest := ih h₁ fun j hj hjn => hbody j (by omega) (by omega)
      have hn : i + 1 + n = i + (n + 1) := by omega
      rw [hn] at hrest
      exact hrest

/-! ## Programs that may stop -/

/-- As `Sat`, but the program may also stop, with a message that has `B`. -/
def Ends (x : Prog σ ε α) (s : σ) (Q : α → σ → Prop) (E : ε → σ → Prop) (B : String → Prop) : Prop :=
  match x s with
  | .ret a s => Q a s
  | .fail e s => E e s
  | .stop m => B m

section Ends

variable {B : String → Prop}

theorem Ends.of_ret (h : x s = .ret a s') (hQ : Q a s') : x.Ends s Q E B := by
  rw [Ends, h]
  exact hQ

theorem Ends.of_fail (h : x s = .fail e s') (hE : E e s') : x.Ends s Q E B := by
  rw [Ends, h]
  exact hE

theorem Ends.of_stop (h : x s = .stop m) (hB : B m) : x.Ends s Q E B := by
  rw [Ends, h]
  exact hB

theorem Ends.bind (h : x.Ends s Q E B) (hf : ∀ a s, Q a s → (f a).Ends s R E B) :
    (x >>= f).Ends s R E B := by
  show (Prog.bind x f).Ends s R E B
  unfold Ends Prog.bind at *
  cases hx : x s with
  | ret a s₁ =>
      rw [hx] at h
      exact hf a s₁ h
  | fail e s₁ =>
      rw [hx] at h
      exact h
  | stop m =>
      rw [hx] at h
      exact h

theorem Ends.bind_ret (hx : x s = .ret a s') (h : (f a).Ends s' R E B) : (x >>= f).Ends s R E B := by
  rw [Ends, Prog.bind_ret hx]
  exact h

theorem Ends.mono {B' : String → Prop} (h : x.Ends s Q E B) (hQ : ∀ a s, Q a s → Q' a s)
    (hE : ∀ e s, E e s → E' e s) (hB : ∀ m, B m → B' m) : x.Ends s Q' E' B' := by
  unfold Ends at *
  cases hx : x s with
  | ret a s₁ =>
      rw [hx] at h
      exact hQ a s₁ h
  | fail e s₁ =>
      rw [hx] at h
      exact hE e s₁ h
  | stop m =>
      rw [hx] at h
      exact hB m h

theorem Ends.attempt (h : x.Ends s Q E B) :
    (Prog.attempt x).Ends s
      (fun r s => match r with | .ok a => Q a s | .error e => E e s) (fun _ _ => False) B := by
  unfold Ends Prog.attempt at *
  cases hx : x s with
  | ret a s₁ =>
      rw [hx] at h
      exact h
  | fail e s₁ =>
      rw [hx] at h
      exact h
  | stop m =>
      rw [hx] at h
      exact h

theorem Ends.and {B' : String → Prop} (h : x.Ends s Q E B) (h' : x.Ends s Q' E' B') :
    x.Ends s (fun a s => Q a s ∧ Q' a s) (fun e s => E e s ∧ E' e s) fun m => B m ∧ B' m := by
  unfold Ends at *
  cases hx : x s with
  | ret a s₁ =>
      rw [hx] at h h'
      exact ⟨h, h'⟩
  | fail e s₁ =>
      rw [hx] at h h'
      exact ⟨h, h'⟩
  | stop m =>
      rw [hx] at h h'
      exact ⟨h, h'⟩

theorem Ends.ret_of (h : x.Ends s Q E B) (hx : x s = .ret a s') : Q a s' := by
  rw [Ends, hx] at h
  exact h

theorem Ends.fail_of (h : x.Ends s Q E B) (hx : x s = .fail e s') : E e s' := by
  rw [Ends, hx] at h
  exact h

theorem Ends.stop_of (h : x.Ends s Q E B) (hx : x s = .stop m) : B m := by
  rw [Ends, hx] at h
  exact h

end Ends

/-! ## Where a program can get -/

/-- Wherever the program ends, `R` leads there from where it started. -/
def Moves (R : σ → σ → Prop) (x : Prog σ ε α) : Prop := ∀ s,
  (∀ a s', x s = .ret a s' → R s s') ∧ ∀ e s', x s = .fail e s' → R s s'

section Moves

variable {T : σ → σ → Prop}

theorem Moves.ret (h : Moves T x) (hx : x s = .ret a s') : T s s' := (h s).1 a s' hx

theorem Moves.fail (h : Moves T x) (hx : x s = .fail e s') : T s s' := (h s).2 e s' hx

theorem Moves.mono {T' : σ → σ → Prop} (h : Moves T x) (hT : ∀ s s', T s s' → T' s s') :
    Moves T' x :=
  fun s => ⟨fun _ s' hx => hT s s' (h.ret hx), fun _ s' hx => hT s s' (h.fail hx)⟩

variable (hrefl : ∀ s, T s s) (htrans : ∀ s s' s'', T s s' → T s' s'' → T s s'')

include hrefl

theorem moves_pure (a : α) : Moves T (pure a : Prog σ ε α) := by
  refine fun s => ⟨?_, ?_⟩
  · rintro b s' ⟨⟩
    exact hrefl s
  · rintro e s' ⟨⟩

theorem moves_get : Moves T (get : Prog σ ε σ) := by
  refine fun s => ⟨?_, ?_⟩
  · rintro b s' ⟨⟩
    exact hrefl s
  · rintro e s' ⟨⟩

theorem moves_throw (e : ε) : Moves T (throw e : Prog σ ε α) := by
  refine fun s => ⟨?_, ?_⟩
  · rintro b s' ⟨⟩
  · rintro e s' ⟨⟩
    exact hrefl s

omit hrefl in
theorem moves_stop (m : String) : Moves T (stop m : Prog σ ε α) := by
  refine fun s => ⟨?_, ?_⟩
  · rintro b s' ⟨⟩
  · rintro e s' ⟨⟩

omit hrefl in
theorem moves_modify {g : σ → σ} (h : ∀ s, T s (g s)) : Moves T (modify g : Prog σ ε PUnit) := by
  refine fun s => ⟨?_, ?_⟩
  · rintro b s' ⟨⟩
    exact h s
  · rintro e s' ⟨⟩

omit hrefl in
include htrans in
theorem Moves.bind (h : Moves T x) (hf : ∀ a, Moves T (f a)) : Moves T (x >>= f) := by
  intro s
  cases hx : x s with
  | ret a s₁ =>
      rw [bind_ret hx]
      have h₁ := h.ret hx
      exact ⟨fun b s' hb => htrans _ _ _ h₁ ((hf a).ret hb),
        fun e s' he => htrans _ _ _ h₁ ((hf a).fail he)⟩
  | fail e s₁ =>
      rw [bind_fail hx]
      refine ⟨?_, ?_⟩
      · rintro b s' ⟨⟩
      · rintro e' s' ⟨⟩
        exact h.fail hx
  | stop m =>
      rw [bind_stop hx]
      refine ⟨?_, ?_⟩
      · rintro b s' ⟨⟩
      · rintro e' s' ⟨⟩

omit hrefl in
theorem Moves.attempt (h : Moves T x) : Moves T (attempt x) := by
  intro s
  unfold Prog.attempt
  cases hx : x s with
  | ret a s₁ =>
      refine ⟨?_, ?_⟩
      · rintro r s' ⟨⟩
        exact h.ret hx
      · rintro e s' ⟨⟩
  | fail e s₁ =>
      refine ⟨?_, ?_⟩
      · rintro r s' ⟨⟩
        exact h.fail hx
      · rintro e' s' ⟨⟩
  | stop m =>
      refine ⟨?_, ?_⟩
      · rintro r s' ⟨⟩
      · rintro e' s' ⟨⟩

include htrans in
theorem Moves.forRange {body : Nat → Prog σ ε PUnit} (hbody : ∀ i, Moves T (body i)) (i n : Nat) :
    Moves T (Prog.forRange i n body) := by
  induction n generalizing i with
  | zero => exact moves_pure hrefl _
  | succ n ih => exact (hbody i).bind htrans fun _ => ih (i + 1)

omit hrefl in
theorem Moves.ite {c : Prop} [Decidable c] {y : Prog σ ε α} (hx : Moves T x) (hy : Moves T y) :
    Moves T (if c then x else y) := by
  split
  · exact hx
  · exact hy

end Moves

/-! ## What a program returns -/

/-- Every value that the program returns has `P`, and every error has `F`. -/
def Yields (P : α → Prop) (F : ε → Prop) (x : Prog σ ε α) : Prop := ∀ s,
  (∀ a s', x s = .ret a s' → P a) ∧ ∀ e s', x s = .fail e s' → F e

section Yields

variable {P : α → Prop} {P' : β → Prop} {F : ε → Prop}

theorem yields_pure (h : P a) : Yields P F (pure a : Prog σ ε α) := by
  refine fun s => ⟨?_, ?_⟩
  · rintro b s' ⟨⟩
    exact h
  · rintro e s' ⟨⟩

theorem yields_throw (h : F e) : Yields P F (throw e : Prog σ ε α) := by
  refine fun s => ⟨?_, ?_⟩
  · rintro b s' ⟨⟩
  · rintro e s' ⟨⟩
    exact h

theorem yields_stop (m : String) : Yields P F (stop m : Prog σ ε α) := by
  refine fun s => ⟨?_, ?_⟩
  · rintro b s' ⟨⟩
  · rintro e s' ⟨⟩

/-- A program without errors. -/
theorem yields_of_never (h : ∀ s e s', x s ≠ .fail e s') : Yields (fun _ => True) F x :=
  fun s => ⟨fun _ _ _ => trivial, fun e s' hx => absurd hx (h s e s')⟩

theorem Yields.bind (h : Yields P F x) (hf : ∀ a, P a → Yields P' F (f a)) :
    Yields P' F (x >>= f) := by
  intro s
  cases hx : x s with
  | ret a s₁ =>
      rw [bind_ret hx]
      exact hf a ((h s).1 a s₁ hx) s₁
  | fail e s₁ =>
      rw [bind_fail hx]
      refine ⟨?_, ?_⟩
      · rintro b s' ⟨⟩
      · rintro e' s' ⟨⟩
        exact (h s).2 e s₁ hx
  | stop m =>
      rw [bind_stop hx]
      exact yields_stop m s

theorem Yields.ite {c : Prop} [Decidable c] {y : Prog σ ε α} (hx : Yields P F x)
    (hy : Yields P F y) : Yields P F (if c then x else y) := by
  split
  · exact hx
  · exact hy

theorem Yields.mono {Q : α → Prop} (h : Yields P F x) (hPQ : ∀ a, P a → Q a) : Yields Q F x :=
  fun s => ⟨fun a s' hx => hPQ a ((h s).1 a s' hx), (h s).2⟩

theorem Yields.attempt {F' : ε → Prop} (h : Yields P F x) :
    Yields (fun r => (∀ a, r = .ok a → P a) ∧ ∀ e, r = .error e → F e) F' (Prog.attempt x) := by
  intro s
  unfold Prog.attempt
  cases hx : x s with
  | ret a s₁ =>
      refine ⟨?_, ?_⟩
      · rintro r s' ⟨⟩
        exact ⟨by rintro b ⟨⟩; exact (h s).1 a s₁ hx, by rintro e ⟨⟩⟩
      · rintro e s' ⟨⟩
  | fail e s₁ =>
      refine ⟨?_, ?_⟩
      · rintro r s' ⟨⟩
        exact ⟨by rintro b ⟨⟩, by rintro e' ⟨⟩; exact (h s).2 e s₁ hx⟩
      · rintro e' s' ⟨⟩
  | stop m => exact yields_stop m s

end Yields

end Prog

end RpiMos.Lib
