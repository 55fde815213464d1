/-
  RpiMos.Lib.IntrusiveList

  Doubly linked intrusive lists in the BSD style: a head is one pointer, an
  element carries the pointer to the next element and the address of the
  pointer that points at it.  `Represents l L` says that the links `l` store
  one list `L h` under each head `h`, all of them acyclic, well linked and
  disjoint; each operation is then an operation on these lists.
-/

import Mathlib.Logic.Function.Basic
import Mathlib.Data.List.Nodup

namespace RpiMos.Lib

/-- A place that holds a pointer to an element. -/
inductive Cell (H E : Type) where
  | head (h : H)
  | next (e : E)
deriving DecidableEq

/-- The link fields of every head and every element. -/
structure Links (H E : Type) where
  first : H → Option E
  next : E → Option E
  prev : E → Option (Cell H E)

namespace Links

variable {H E : Type}

def get (l : Links H E) : Cell H E → Option E
  | .head h => l.first h
  | .next e => l.next e

/-! ## Chains -/

/-- The pointer after the elements `es` that are reached from cell `c`. -/
def endCell : Cell H E → List E → Cell H E
  | c, [] => c
  | _, e :: es => endCell (.next e) es

/-- From cell `c` on, the elements `es` follow one another and point back. -/
def Seg (l : Links H E) : Cell H E → List E → Prop
  | _, [] => True
  | c, e :: es => l.get c = some e ∧ l.prev e = some c ∧ Seg l (.next e) es

/-- The list at cell `c` is `es`. -/
def Linked (l : Links H E) (c : Cell H E) (es : List E) : Prop :=
  l.Seg c es ∧ l.get (endCell c es) = none

variable {l l' : Links H E} {c : Cell H E} {e : E} {es xs ys : List E} {h : H}

theorem endCell_append (c : Cell H E) (xs ys : List E) :
    endCell c (xs ++ ys) = endCell (endCell c xs) ys := by
  induction xs generalizing c with
  | nil => rfl
  | cons x xs ih => exact ih (.next x)

theorem seg_append : l.Seg c (xs ++ ys) ↔ l.Seg c xs ∧ l.Seg (endCell c xs) ys := by
  induction xs generalizing c with
  | nil => simp [Seg, endCell]
  | cons x xs ih =>
      simp only [List.cons_append, Seg, ih, endCell]
      tauto

theorem endCell_cases (c : Cell H E) (xs : List E) :
    (xs = [] ∧ endCell c xs = c) ∨ ∃ x, x ∈ xs ∧ endCell c xs = .next x := by
  induction xs generalizing c with
  | nil => exact Or.inl ⟨rfl, rfl⟩
  | cons x xs ih =>
      right
      rcases ih (.next x) with ⟨rfl, -⟩ | ⟨y, hy, heq⟩
      · exact ⟨x, by simp, rfl⟩
      · exact ⟨y, by simp [hy], heq⟩

/-- A segment reads the cells before its end and the back pointers of its
    elements; a write to its end cell leaves it alone. -/
theorem Seg.congr (hs : l.Seg c es) (hnd : es.Nodup) (hc : ∀ e ∈ es, c ≠ .next e)
    (hget : ∀ d, d = c ∨ (∃ e ∈ es, d = .next e) → d ≠ endCell c es → l'.get d = l.get d)
    (hprev : ∀ e ∈ es, l'.prev e = l.prev e) : l'.Seg c es := by
  induction es generalizing c with
  | nil => trivial
  | cons e es ih =>
      obtain ⟨h₁, h₂, h₃⟩ := hs
      rw [List.nodup_cons] at hnd
      have hend : c ≠ endCell c (e :: es) := by
        intro heq
        rcases endCell_cases (Cell.next e) es with ⟨-, h⟩ | ⟨x, hx, h⟩
        · exact hc e (by simp) (heq.trans h)
        · exact hc x (by simp [hx]) (heq.trans h)
      refine ⟨(hget c (Or.inl rfl) hend).trans h₁, (hprev e (by simp)).trans h₂, ?_⟩
      refine ih h₃ hnd.2 (fun x hx heq => ?_) (fun d hd hne => hget d ?_ hne)
        (fun x hx => hprev x (by simp [hx]))
      · cases heq
        exact hnd.1 hx
      · rcases hd with rfl | ⟨x, hx, rfl⟩
        · exact Or.inr ⟨e, by simp, rfl⟩
        · exact Or.inr ⟨x, by simp [hx], rfl⟩

theorem Linked.congr (hl : l.Linked c es)
    (hget : ∀ d, d = c ∨ (∃ e ∈ es, d = .next e) → l'.get d = l.get d)
    (hprev : ∀ e ∈ es, l'.prev e = l.prev e) : l'.Linked c es := by
  have hend : endCell c es = c ∨ ∃ e ∈ es, endCell c es = .next e := by
    rcases endCell_cases c es with ⟨-, h⟩ | ⟨x, hx, h⟩
    · exact Or.inl h
    · exact Or.inr ⟨x, hx, h⟩
  refine ⟨?_, (hget _ hend).trans hl.2⟩
  have hs := hl.1
  clear hend hl
  induction es generalizing c with
  | nil => trivial
  | cons e es ih =>
      obtain ⟨h₁, h₂, h₃⟩ := hs
      refine ⟨(hget c (Or.inl rfl)).trans h₁, (hprev e (by simp)).trans h₂,
        ih (fun d hd => hget d ?_) (fun x hx => hprev x (by simp [hx])) h₃⟩
      rcases hd with rfl | ⟨x, hx, rfl⟩
      · exact Or.inr ⟨e, by simp, rfl⟩
      · exact Or.inr ⟨x, by simp [hx], rfl⟩

/-! ## The operations -/

variable [DecidableEq H] [DecidableEq E]

def set (l : Links H E) : Cell H E → Option E → Links H E
  | .head h, v => { l with first := fun h' => if h' = h then v else l.first h' }
  | .next e, v => { l with next := fun e' => if e' = e then v else l.next e' }

def setPrev (l : Links H E) (e : E) (c : Option (Cell H E)) : Links H E :=
  { l with prev := fun e' => if e' = e then c else l.prev e' }

/-- `LIST_INSERT_HEAD`. -/
def insertHead (l : Links H E) (h : H) (e : E) : Links H E :=
  let l₁ := l.set (.next e) (l.first h)
  let l₂ := match l.first h with
    | some f => l₁.setPrev f (some (.next e))
    | none => l₁
  (l₂.set (.head h) (some e)).setPrev e (some (.head h))

/-- The `while` of `LIST_INSERT_TAIL`, for at most `n` tests of its condition:
    `none` when it has not ended by then. -/
def tailLoop (e : E) : Nat → Links H E → Option (Links H E)
  | 0, _ => none
  | n + 1, l =>
      match l.next e with
      | none => none
      | some x =>
          match l.next x with
          | none => some l
          | some y => tailLoop e n (l.set (.next e) (some y))

/-- `LIST_INSERT_TAIL`. -/
def insertTail (n : Nat) (l : Links H E) (h : H) (e : E) : Option (Links H E) :=
  match l.first h with
  | none => some (l.insertHead h e)
  | some f =>
      (tailLoop e n (l.set (.next e) (some f))).bind fun l₁ =>
        (l₁.next e).bind fun x =>
          let l₂ := l₁.set (.next x) (some e)
          (l₂.next e).map fun y => (l₂.setPrev e (some (.next y))).set (.next e) none

/-- `LIST_REMOVE`: `none` when `le_prev` is null. -/
def remove (l : Links H E) (e : E) : Option (Links H E) :=
  let l₁ := match l.next e with
    | some n => l.setPrev n (l.prev e)
    | none => l
  (l₁.prev e).map fun c => l₁.set c (l₁.next e)

/-! ## Reading back -/

@[simp] theorem set_prev (l : Links H E) (c : Cell H E) (v : Option E) : (l.set c v).prev = l.prev := by
  cases c <;> rfl

omit [DecidableEq H] in
@[simp] theorem setPrev_get (l : Links H E) (e : E) (v : Option (Cell H E)) (c : Cell H E) :
    (l.setPrev e v).get c = l.get c := by
  cases c <;> rfl

theorem set_get (l : Links H E) (c : Cell H E) (v : Option E) (d : Cell H E) :
    (l.set c v).get d = if d = c then v else l.get d := by
  cases c <;> cases d <;> simp [set, get]

omit [DecidableEq H] in
theorem setPrev_prev (l : Links H E) (e : E) (v : Option (Cell H E)) (e' : E) :
    (l.setPrev e v).prev e' = if e' = e then v else l.prev e' := rfl

theorem set_set (l : Links H E) (c : Cell H E) (v w : Option E) : (l.set c v).set c w = l.set c w := by
  cases c <;>
    · simp only [set, Links.mk.injEq, and_true, true_and]
      funext x
      split <;> simp_all

/-! ## Each operation on one list -/

theorem linked_insertHead (hl : l.Linked (.head h) es) (hnd : es.Nodup) (he : e ∉ es) :
    (l.insertHead h e).Linked (.head h) (e :: es) := by
  cases es with
  | nil =>
      have hnone : l.first h = none := hl.2
      refine ⟨⟨?_, ?_, trivial⟩, ?_⟩ <;>
        simp [insertHead, hnone, endCell, set_get, setPrev_prev]
  | cons f es =>
      obtain ⟨⟨hf, hpf, hs⟩, hend⟩ := hl
      have hfirst : l.first h = some f := hf
      rw [List.nodup_cons] at hnd
      rw [List.mem_cons, not_or] at he
      have hget : ∀ d, d ≠ .head h → d ≠ .next e → (l.insertHead h e).get d = l.get d := by
        intro d h₁ h₂
        simp [insertHead, hfirst, set_get, h₁, h₂]
      have hprev : ∀ x, x ≠ f → x ≠ e → (l.insertHead h e).prev x = l.prev x := by
        intro x h₁ h₂
        simp [insertHead, hfirst, setPrev_prev, h₁, h₂]
      have htail : (l.insertHead h e).Linked (.next f) es := by
        refine Linked.congr ⟨hs, hend⟩ (fun d hd => hget d ?_ ?_) fun x hx => hprev x ?_ ?_
        · rcases hd with rfl | ⟨x, -, rfl⟩ <;> simp
        · rcases hd with rfl | ⟨x, hx, rfl⟩
          · simpa using Ne.symm he.1
          · rintro heq
            cases heq
            exact he.2 hx
        · rintro rfl
          exact hnd.1 hx
        · rintro rfl
          exact he.2 hx
      refine ⟨⟨?_, ?_, ?_, ?_, htail.1⟩, htail.2⟩
      · simp [insertHead, set_get]
      · simp [insertHead, setPrev_prev]
      · simp [insertHead, hfirst, set_get]
      · simp [insertHead, hfirst, setPrev_prev, Ne.symm he.1]

/-- The loop stops at the last element, with the new element's next pointer on it. -/
theorem tailLoop_eq {x : E} {n : Nat} (hx : l.next e = some x) (hl : l.Linked (.next x) es)
    (he : e ∉ x :: es) (hn : es.length < n) :
    ∃ z, endCell (Cell.next (H := H) x) es = .next z ∧ z ∈ x :: es ∧
      tailLoop e n l = some (l.set (.next e) (some z)) := by
  induction es generalizing l x n with
  | nil =>
      obtain ⟨m, rfl⟩ : ∃ m, n = m + 1 := ⟨n - 1, by omega⟩
      have hnone : l.next x = none := hl.2
      refine ⟨x, rfl, by simp, ?_⟩
      rw [tailLoop, hx]
      simp only [hnone, Option.some.injEq]
      -- The pointer is already there.
      cases l with
      | mk first next prev =>
          simp only [set, Links.mk.injEq, true_and, and_true]
          funext e'
          split
          · subst e'
            exact hx
          · rfl
  | cons y es ih =>
      obtain ⟨m, rfl⟩ : ∃ m, n = m + 1 := ⟨n - 1, by omega⟩
      obtain ⟨⟨hy, hpy, hs⟩, hend⟩ := hl
      have hnext : l.next x = some y := hy
      rw [List.mem_cons, not_or] at he
      have hl' : (l.set (.next e) (some y)).Linked (.next y) es := by
        refine Linked.congr ⟨hs, hend⟩ (fun d hd => ?_) fun _ _ => by rw [set_prev]
        rw [set_get, if_neg]
        rcases hd with rfl | ⟨z, hz, rfl⟩
        · rintro heq
          cases heq
          exact he.2 (by simp)
        · rintro heq
          cases heq
          exact he.2 (by simp [hz])
      have hxe : (l.set (.next e) (some y)).next e = some y := by simp [set]
      obtain ⟨z, hz, hmem, hloop⟩ := ih hxe hl' he.2 (by simpa using hn)
      refine ⟨z, hz, by simp [hmem], ?_⟩
      rw [tailLoop, hx]
      simp only [hnext]
      rw [hloop, set_set]

/-- On a well-linked list the traversal ends, and the element stands at the end. -/
theorem insertTail_eq {n : Nat} (hl : l.Linked (.head h) es) (hnd : es.Nodup) (he : e ∉ es)
    (hn : es.length ≤ n) :
    ∃ l', l.insertTail n h e = some l' ∧ l'.Linked (.head h) (es ++ [e]) ∧
      (∀ d, d ≠ .next e → d ≠ endCell (.head h) es → l'.get d = l.get d) ∧
      (∀ x, x ≠ e → l'.prev x = l.prev x) := by
  cases es with
  | nil =>
      have hnone : l.first h = none := hl.2
      refine ⟨l.insertHead h e, by rw [insertTail, hnone], linked_insertHead hl hnd he, ?_, ?_⟩
      · intro d h₁ h₂
        have h₂' : d ≠ .head h := h₂
        simp [insertHead, hnone, set_get, h₁, h₂']
      · intro x hx
        simp [insertHead, hnone, setPrev_prev, hx]
  | cons f es =>
      obtain ⟨⟨hf, hpf, hs⟩, hend⟩ := hl
      have hfirst : l.first h = some f := hf
      have hl₀ : (l.set (.next e) (some f)).Linked (.next f) es := by
        refine Linked.congr ⟨hs, hend⟩ (fun d hd => ?_) fun _ _ => by rw [set_prev]
        rw [set_get, if_neg]
        rcases hd with rfl | ⟨z, hz, rfl⟩
        · rintro heq
          cases heq
          exact he (by simp)
        · rintro heq
          cases heq
          exact he (by simp [hz])
      have hfe : (l.set (.next e) (some f)).next e = some f := by simp [set]
      have hlen : es.length < n := by
        rw [List.length_cons] at hn
        omega
      obtain ⟨z, hz, hmem, hloop⟩ := tailLoop_eq hfe hl₀ he hlen
      have hze : z ≠ e := by
        rintro rfl
        exact he hmem
      have hendz : endCell (.head h) (f :: es) = .next z := hz
      refine ⟨(((l.set (.next e) (some z)).set (.next z) (some e)).setPrev e
        (some (.next z))).set (.next e) none, ?_, ⟨?_, ?_⟩, ?_, ?_⟩
      · have hlast : (l.set (.next e) (some z)).next e = some z := by simp [set]
        have hback : ((l.set (.next e) (some z)).set (.next z) (some e)).next e = some z := by
          simp [set, Ne.symm hze]
        rw [insertTail, hfirst]
        simp only [hloop, set_set, Option.bind_some, hlast, hback, Option.map_some]
      · rw [seg_append, hendz]
        refine ⟨Seg.congr (l := l) ⟨hf, hpf, hs⟩ hnd (by simp) ?_ ?_, ?_, ?_, trivial⟩
        · intro d hd hne
          rw [hendz] at hne
          have hde : d ≠ .next e := by
            rcases hd with rfl | ⟨x, hx, rfl⟩
            · simp
            · rintro heq
              cases heq
              exact he hx
          simp [set_get, hde, hne]
        · intro x hx
          have hxe : x ≠ e := fun heq => he (heq ▸ hx)
          simp [setPrev_prev, hxe]
        · simp [set_get, hze]
        · simp [setPrev_prev]
      · rw [endCell_append, hendz]
        simp [endCell, set_get]
      · intro d h₁ h₂
        rw [hendz] at h₂
        simp [set_get, h₁, h₂]
      · intro x hx
        simp [setPrev_prev, hx]

/-- `LIST_INSERT_TAIL` walks over `next` fields only. -/
theorem tailLoop_first {n : Nat} (h : tailLoop e n l = some l') : l'.first = l.first := by
  induction n generalizing l with
  | zero => cases h
  | succ n ih =>
      unfold tailLoop at h
      cases hx : l.next e with
      | none =>
          rw [hx] at h
          cases h
      | some x =>
          simp only [hx] at h
          split at h
          · cases h
            rfl
          · have hset := ih h
            exact hset

/-- After `LIST_INSERT_TAIL` the list is not empty, whatever the links were. -/
theorem insertTail_first {n : Nat} (hins : l.insertTail n h e = some l') : l'.first h ≠ none := by
  unfold insertTail at hins
  cases hf : l.first h with
  | none =>
      simp only [hf, Option.some.injEq] at hins
      subst hins
      simp [insertHead, setPrev, set]
  | some f =>
      simp only [hf] at hins
      obtain ⟨l₁, hloop, hrest⟩ := Option.bind_eq_some_iff.mp hins
      obtain ⟨x, -, hlast⟩ := Option.bind_eq_some_iff.mp hrest
      obtain ⟨y, -, rfl⟩ := Option.map_eq_some_iff.mp hlast
      have hfirst := tailLoop_first hloop
      have hkeep : l₁.first h = some f := by
        rw [hfirst]
        exact hf
      simp [setPrev, set, hkeep]

/-- Removing an element of a well-linked list. -/
theorem remove_eq (hl : l.Linked (.head h) (xs ++ e :: ys)) (hnd : (xs ++ e :: ys).Nodup) :
    ∃ l', l.remove e = some l' ∧ l'.Linked (.head h) (xs ++ ys) ∧
      (∀ d, d ≠ endCell (.head h) xs → l'.get d = l.get d) ∧
      (∀ x, x ∉ ys → l'.prev x = l.prev x) := by
  obtain ⟨hs, hend⟩ := hl
  rw [seg_append] at hs
  obtain ⟨hsx, hce, hpe, hsy⟩ := hs
  rw [endCell_append] at hend
  have hndx : xs.Nodup := (List.nodup_append.mp hnd).1
  have hndy : (e :: ys).Nodup := (List.nodup_append.mp hnd).2.1
  rw [List.nodup_cons] at hndy
  have hdisj : ∀ x ∈ xs, x ≠ e ∧ x ∉ ys := by
    intro x hx
    have := (List.nodup_append.mp hnd).2.2 x hx
    refine ⟨fun heq => this e (by simp) heq, fun hy => this x (by simp [hy]) rfl⟩
  -- The cell before the element is no cell of the rest.
  have hcell : ∀ y, y ∈ ys → endCell (Cell.head h) xs ≠ .next y := by
    intro y hy
    rcases endCell_cases (Cell.head h) xs with ⟨-, heq⟩ | ⟨x, hx, heq⟩
    · rw [heq]; simp
    · rw [heq]
      intro hxy
      exact (hdisj x hx).2 (Cell.next.inj hxy ▸ hy)
  have hcellx : ∀ d, d = Cell.head h ∨ (∃ x ∈ xs, d = .next x) → d ≠ endCell (.head h) xs →
      ∀ v, (l.set (endCell (.head h) xs) v).get d = l.get d := by
    intro d _ hne v
    rw [set_get, if_neg hne]
  cases ys with
  | nil =>
      have hnone : l.next e = none := hend
      refine ⟨l.set (endCell (.head h) xs) none, by simp [remove, hnone, hpe], ⟨?_, ?_⟩, ?_, ?_⟩
      · rw [List.append_nil]
        exact hsx.congr hndx (by simp) (fun d hd hne => hcellx d hd hne none)
          fun x _ => by rw [set_prev]
      · rw [List.append_nil, set_get, if_pos rfl]
      · intro d hne
        rw [set_get, if_neg hne]
      · intro x _
        rw [set_prev]
  | cons n ys =>
      obtain ⟨hn, hpn, hs⟩ := hsy
      have hnext : l.next e = some n := hn
      rw [List.nodup_cons] at hndy
      have hne : n ≠ e := fun heq => hndy.1 (by simp [heq])
      refine ⟨(l.setPrev n (some (endCell (.head h) xs))).set (endCell (.head h) xs) (some n),
        ?_, ⟨?_, ?_⟩, ?_, ?_⟩
      · have hback : (l.setPrev n (some (endCell (.head h) xs))).prev e = l.prev e := by
          rw [setPrev_prev, if_neg (Ne.symm hne)]
        have hkeep : (l.setPrev n (some (endCell (.head h) xs))).next e = some n := hnext
        rw [remove, hnext, hpe]
        simp only [hback, hpe, hkeep, Option.map_some]
      · rw [seg_append]
        refine ⟨hsx.congr hndx (by simp) ?_ ?_, ?_, ?_, ?_⟩
        · intro d hd hne'
          rw [set_get, if_neg hne', setPrev_get]
        · intro x hx
          have : x ≠ n := fun heq => (hdisj x hx).2 (by simp [heq])
          simp [setPrev_prev, this]
        · simp [set_get]
        · simp [setPrev_prev]
        · refine Seg.congr hs hndy.2.2 (by simpa using fun x hx (heq : n = x) => hndy.2.1 (heq ▸ hx)) ?_ ?_
          · intro d hd _
            rw [set_get, if_neg, setPrev_get]
            rcases hd with rfl | ⟨x, hx, rfl⟩
            · exact (hcell n (by simp)).symm
            · exact (hcell x (by simp [hx])).symm
          · intro x hx
            have : x ≠ n := fun heq => hndy.2.1 (heq ▸ hx)
            simp [setPrev_prev, this]
      · rw [endCell_append]
        show (((l.setPrev n _).set _ _).get (endCell (.next n) ys)) = none
        rw [set_get, if_neg, setPrev_get]
        · exact hend
        · rcases endCell_cases (Cell.next n) ys with ⟨-, heq⟩ | ⟨x, hx, heq⟩
          · rw [heq]; exact (hcell n (by simp)).symm
          · rw [heq]; exact (hcell x (by simp [hx])).symm
      · intro d hne'
        rw [set_get, if_neg hne', setPrev_get]
      · intro x hx
        have : x ≠ n := fun heq => hx (by simp [heq])
        simp [setPrev_prev, this]

/-! ## All lists at once -/

/-- The links store exactly the lists `L`: acyclic, well linked, no element twice. -/
structure Represents (l : Links H E) (L : H → List E) : Prop where
  linked : ∀ h, l.Linked (.head h) (L h)
  nodup : ∀ h, (L h).Nodup
  disjoint : ∀ {h h' e}, e ∈ L h → e ∈ L h' → h = h'

variable {L : H → List E} {h' : H} {n : Nat}

omit [DecidableEq H] [DecidableEq E] in
theorem Linked.unique (h₁ : l.Linked c xs) (h₂ : l.Linked c ys) : xs = ys := by
  induction xs generalizing c ys with
  | nil =>
      cases ys with
      | nil => rfl
      | cons y ys => exact absurd (h₁.2.symm.trans h₂.1.1) (by simp)
  | cons x xs ih =>
      obtain ⟨⟨hx, -, hsx⟩, hex⟩ := h₁
      cases ys with
      | nil => exact absurd (h₂.2.symm.trans hx) (by simp)
      | cons y ys =>
          obtain ⟨⟨hy, -, hsy⟩, hey⟩ := h₂
          obtain rfl : x = y := Option.some.inj (hx.symm.trans hy)
          rw [ih ⟨hsx, hex⟩ ⟨hsy, hey⟩]

omit [DecidableEq H] [DecidableEq E] in
/-- The links determine the lists. -/
theorem Represents.unique {L' : H → List E} (h₁ : l.Represents L) (h₂ : l.Represents L') : L = L' :=
  funext fun h => (h₁.linked h).unique (h₂.linked h)

omit [DecidableEq H] [DecidableEq E] in
/-- The head pointer is null exactly when the list is empty. -/
theorem Represents.first_eq (hr : l.Represents L) (h : H) : l.first h = (L h).head? := by
  have hl := hr.linked h
  cases hL : L h with
  | nil =>
      rw [hL] at hl
      exact hl.2
  | cons x xs =>
      rw [hL] at hl
      exact hl.1.1

omit [DecidableEq E] in
/-- Elements after an update of one list. -/
theorem mem_update {xs : List E} : e ∈ Function.update L h xs h' ↔
    (h' = h ∧ e ∈ xs) ∨ (h' ≠ h ∧ e ∈ L h') := by
  by_cases heq : h' = h
  · subst heq
    simp
  · simp [heq]

omit [DecidableEq E] in
/-- The lists other than `h` survive a change that touches only the cells and
    back pointers of `h` and of an element in no other list. -/
theorem Represents.update (hr : l.Represents L) {xs : List E}
    (hlinked : l'.Linked (.head h) xs) (hnd : xs.Nodup)
    (hother : ∀ h', h' ≠ h → ∀ x ∈ L h', x ∉ xs)
    (hget : ∀ h', h' ≠ h → ∀ d, d = .head h' ∨ (∃ x ∈ L h', d = .next x) → l'.get d = l.get d)
    (hprev : ∀ h', h' ≠ h → ∀ x ∈ L h', l'.prev x = l.prev x) :
    l'.Represents (Function.update L h xs) where
  linked h' := by
    by_cases heq : h' = h
    · subst heq
      simpa using hlinked
    · rw [Function.update_of_ne heq]
      exact (hr.linked h').congr (hget h' heq) (hprev h' heq)
  nodup h' := by
    by_cases heq : h' = h
    · subst heq
      simpa using hnd
    · rw [Function.update_of_ne heq]
      exact hr.nodup h'
  disjoint := by
    intro h₁ h₂ x hx₁ hx₂
    rw [mem_update] at hx₁ hx₂
    rcases hx₁ with ⟨rfl, hx₁⟩ | ⟨hne₁, hx₁⟩
    · rcases hx₂ with ⟨rfl, -⟩ | ⟨hne₂, hx₂⟩
      · rfl
      · exact absurd hx₁ (hother h₂ hne₂ x hx₂)
    · rcases hx₂ with ⟨rfl, hx₂⟩ | ⟨-, hx₂⟩
      · exact absurd hx₂ (hother h₁ hne₁ x hx₁)
      · exact hr.disjoint hx₁ hx₂

theorem Represents.insertHead (hr : l.Represents L) (he : ∀ h', e ∉ L h') (h : H) :
    (l.insertHead h e).Represents (Function.update L h (e :: L h)) := by
  refine hr.update (linked_insertHead (hr.linked h) (hr.nodup h) (he h))
    (List.nodup_cons.mpr ⟨he h, hr.nodup h⟩) ?_ ?_ ?_
  · intro h' hne x hx hxe
    rcases List.mem_cons.mp hxe with rfl | hxh
    · exact he h' hx
    · exact hne (hr.disjoint hx hxh)
  · intro h' hne d hd
    have h₁ : d ≠ .head h := by
      rcases hd with rfl | ⟨x, -, rfl⟩ <;> simp [hne]
    have h₂ : d ≠ .next e := by
      rcases hd with rfl | ⟨x, hx, rfl⟩
      · simp
      · simp only [ne_eq, Cell.next.injEq]
        rintro rfl
        exact he h' hx
    cases hf : l.first h <;> simp [Links.insertHead, hf, set_get, h₁, h₂]
  · intro h' hne x hx
    have hxe : x ≠ e := by
      rintro rfl
      exact he h' hx
    cases hf : l.first h with
    | none => simp [Links.insertHead, hf, setPrev_prev, hxe]
    | some f =>
        have hxf : x ≠ f := by
          rintro rfl
          rw [hr.first_eq] at hf
          exact hne (hr.disjoint hx (List.mem_of_mem_head? hf))
        simp [Links.insertHead, hf, setPrev_prev, hxe, hxf]

omit [DecidableEq H] [DecidableEq E] in
/-- The last cell of a list belongs to no other list. -/
theorem Represents.endCell_ne (hr : l.Represents L) (hne : h' ≠ h) (hsub : ∀ x ∈ xs, x ∈ L h)
    {d : Cell H E} (hd : d = .head h' ∨ ∃ x ∈ L h', d = .next x) : d ≠ endCell (.head h) xs := by
  rcases endCell_cases (Cell.head h) xs with ⟨-, heq⟩ | ⟨y, hy, heq⟩
  · rw [heq]
    rcases hd with rfl | ⟨x, -, rfl⟩ <;> simp [hne]
  · rw [heq]
    rcases hd with rfl | ⟨x, hx, rfl⟩
    · simp
    · simp only [ne_eq, Cell.next.injEq]
      rintro rfl
      exact hne (hr.disjoint hx (hsub x hy))

/-- Enough fuel is the length of the list. -/
theorem Represents.insertTail (hr : l.Represents L) (he : ∀ h', e ∉ L h') (h : H)
    (hn : (L h).length ≤ n) :
    ∃ l', l.insertTail n h e = some l' ∧ l'.Represents (Function.update L h (L h ++ [e])) := by
  obtain ⟨l', hins, hlinked, hget, hprev⟩ :=
    insertTail_eq (hr.linked h) (hr.nodup h) (he h) hn
  refine ⟨l', hins, hr.update hlinked ?_ ?_ ?_ ?_⟩
  · rw [List.nodup_append]
    refine ⟨hr.nodup h, by simp, fun x hx y hy => ?_⟩
    rw [List.mem_singleton] at hy
    rintro rfl
    exact he h (hy ▸ hx)
  · intro h' hne x hx hxe
    rcases List.mem_append.mp hxe with hxh | hxe
    · exact hne (hr.disjoint hx hxh)
    · exact he h' (List.mem_singleton.mp hxe ▸ hx)
  · intro h' hne d hd
    refine hget d ?_ (hr.endCell_ne hne (fun _ hx => hx) hd)
    rcases hd with rfl | ⟨x, hx, rfl⟩
    · simp
    · simp only [ne_eq, Cell.next.injEq]
      rintro rfl
      exact he h' hx
  · intro h' _ x hx
    exact hprev x fun heq => he h' (heq ▸ hx)

theorem Represents.remove (hr : l.Represents L) (he : e ∈ L h) :
    ∃ l', l.remove e = some l' ∧ l'.Represents (Function.update L h ((L h).erase e)) := by
  obtain ⟨xs, ys, hL⟩ := List.append_of_mem he
  have hnd := hr.nodup h
  have hlinked := hr.linked h
  rw [hL] at hnd hlinked
  obtain ⟨l', hrem, hlinked', hget, hprev⟩ := remove_eq hlinked hnd
  have hxs : e ∉ xs := fun hx => (List.nodup_append.mp hnd).2.2 e hx e (by simp) rfl
  have herase : (L h).erase e = xs ++ ys := by
    rw [hL, List.erase_append_right _ hxs, List.erase_cons_head]
  have hsub : ∀ x, x ∈ xs ++ ys → x ∈ L h := by
    intro x hx
    rw [hL]
    rcases List.mem_append.mp hx with h | h <;> simp [h]
  rw [herase]
  refine ⟨l', hrem, hr.update hlinked' ?_ ?_ ?_ ?_⟩
  · rw [List.nodup_append] at hnd ⊢
    exact ⟨hnd.1, (List.nodup_cons.mp hnd.2.1).2, fun x hx y hy => hnd.2.2 x hx y (by simp [hy])⟩
  · intro h' hne x hx hxe
    exact hne (hr.disjoint hx (hsub x hxe))
  · intro h' hne d hd
    exact hget d (hr.endCell_ne hne (fun x hx => hsub x (by simp [hx])) hd)
  · intro h' hne x hx
    exact hprev x fun hy => hne (hr.disjoint hx (hsub x (by simp [hy])))

end Links

end RpiMos.Lib
