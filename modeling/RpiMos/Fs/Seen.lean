/-
  RpiMos.Fs.Seen

  The file server's memory as its own accesses see it: a page that is not mapped
  reads as zeros, since `page_out` maps it so when it is touched.  An access
  changes nothing in this view, and a store the bytes it is for.
-/

import RpiMos.Fs.Steady

namespace RpiMos

open Lib Prog

variable {s s' : Fs} {a n v : Nat} {u : Unit}

def Fs.seen (s : Fs) : ByteMem := fun x => if s.mapped (x / BY2PG) then s.mem x else 0

/-- From `s` to `s'` pages may have been touched. -/
structure Touched (s s' : Fs) : Prop where
  seen : s'.seen = s.seen
  disk : s'.disk = s.disk
  steady : Steady s s'

theorem Touched.refl (s : Fs) : Touched s s := ⟨rfl, rfl, .refl s⟩

theorem Touched.trans {s₁ s₂ s₃ : Fs} (h : Touched s₁ s₂) (h' : Touched s₂ s₃) : Touched s₁ s₃ :=
  ⟨h'.seen.trans h.seen, h'.disk.trans h.disk, h.steady.trans _ _ _ h'.steady⟩

/-- All bytes from `a` on are in pages that are mapped. -/
def Fs.MappedOn (s : Fs) (a n : Nat) : Prop := ∀ x, a ≤ x → x < a + n → s.mapped (x / BY2PG) = true

theorem Fs.MappedOn.seen_eq (h : s.MappedOn a n) : ByteMem.Same s.mem s.seen a n := by
  intro x hlo hhi
  rw [Fs.seen, h x hlo hhi, if_pos rfl]

theorem Fs.MappedOn.mono (h : s.MappedOn a n) {b k : Nat} (hlo : a ≤ b) (hhi : b + k ≤ a + n) :
    s.MappedOn b k := fun x hx hx' => h x (by omega) (by omega)

/-! ## Touching a page -/

theorem seen_mapZero (h : s.mapped v = false) : (s.mapZero v).seen = s.seen := by
  funext x
  unfold Fs.seen Fs.mapZero ByteMem.zero
  by_cases hx : x / BY2PG = v
  · have hpage : v * BY2PG ≤ x ∧ x < v * BY2PG + BY2PG := by
      rw [BY2PG] at hx ⊢
      omega
    simp [hx, h, hpage]
  · have hpage : ¬ (v * BY2PG ≤ x ∧ x < v * BY2PG + BY2PG) := by
      rw [BY2PG] at hx ⊢
      omega
    simp [hx, hpage]

theorem touch_of_mapped (h : s.mapped v = true) : touch v s = .ret () s := by
  rw [touch, if_pos h]

theorem touch_ret (h : touch v s = .ret u s') : Touched s s' ∧ s'.mapped v = true := by
  have hsteady := (quiet_touch v).ret h
  unfold touch at h
  by_cases hv : s.mapped v = true
  · rw [if_pos hv] at h
    cases h
    exact ⟨.refl s, hv⟩
  · rw [if_neg hv] at h
    split at h
    · cases h
    · split at h
      · cases h
        refine ⟨⟨seen_mapZero (Bool.eq_false_of_not_eq_true hv), rfl, hsteady⟩, ?_⟩
        simp [Fs.mapZero]
      · cases h

theorem touch_ne_fail {e : U32} : touch v s ≠ .fail e s' := by
  unfold touch
  split
  · rintro ⟨⟩
  · split
    · rintro ⟨⟩
    · split <;> rintro ⟨⟩

theorem access_of_mapped (hn : 0 < n) (h : s.MappedOn a n) : access a n s = .ret () s := by
  have hfirst := h a (le_refl a) (by omega)
  have hlast := h (a + n - 1) (by omega) (by omega)
  exact (bind_ret (touch_of_mapped hfirst)).trans (touch_of_mapped hlast)

/-- At most a page is accessed, so the first and the last byte tell. -/
theorem access_ret (hn : n ≤ BY2PG) (h : access a n s = .ret u s') :
    Touched s s' ∧ s'.MappedOn a n := by
  obtain ⟨u₁, s₁, h₁, h₂⟩ := bind_eq_ret.mp h
  obtain ⟨ht₁, hm₁⟩ := touch_ret h₁
  obtain ⟨ht₂, hm₂⟩ := touch_ret h₂
  refine ⟨ht₁.trans ht₂, fun x hlo hhi => ?_⟩
  have hpage : x / BY2PG = a / BY2PG ∨ x / BY2PG = (a + n - 1) / BY2PG := by
    rw [BY2PG] at hn ⊢
    omega
  rcases hpage with hx | hx
  · rw [hx]
    exact ht₂.steady.mapped _ hm₁
  · rw [hx]
    exact hm₂

theorem access_ne_fail {e : U32} : access a n s ≠ .fail e s' := by
  intro h
  cases h₁ : touch (a / BY2PG) s with
  | ret u₁ s₁ =>
      rw [access, bind_ret h₁] at h
      exact touch_ne_fail h
  | fail e₁ s₁ => exact touch_ne_fail h₁
  | stop m =>
      rw [access, bind_stop h₁] at h
      cases h

/-! ## Loads -/

/-- A load is an access and what stands there then. -/
theorem load_ret {α : Type} {g : ByteMem → α} {w : α} (hn : n ≤ BY2PG)
    (hg : ∀ m m' : ByteMem, ByteMem.Same m m' a n → g m' = g m)
    (h : (access a n >>= fun _ => Prog.get >>= fun s : Fs => pure (g s.mem)) s = .ret w s') :
    w = g s.seen ∧ Touched s s' ∧ s'.MappedOn a n := by
  obtain ⟨u₁, s₁, h₁, h₂⟩ := bind_eq_ret.mp h
  obtain ⟨ht, hm⟩ := access_ret hn h₁
  cases h₂
  exact ⟨by rw [← ht.seen, hg _ _ hm.seen_eq], ht, hm⟩

theorem load_of_mapped {α : Type} {g : ByteMem → α} (hn : 0 < n)
    (hg : ∀ m m' : ByteMem, ByteMem.Same m m' a n → g m' = g m) (h : s.MappedOn a n) :
    (access a n >>= fun _ => Prog.get >>= fun s : Fs => pure (g s.mem)) s = .ret (g s.seen) s := by
  rw [bind_ret (access_of_mapped hn h), hg _ _ h.seen_eq]
  rfl

theorem load32_ret {w : U32} (h : load32 a s = .ret w s') :
    w = s.seen.ld32 a ∧ Touched s s' ∧ s'.MappedOn a 4 :=
  load_ret (by decide) (fun _ _ hm => hm.ld32) h

theorem load64_ret {w : Word} (h : load64 a s = .ret w s') :
    w = s.seen.ld64 a ∧ Touched s s' ∧ s'.MappedOn a 8 :=
  load_ret (by decide) (fun _ _ hm => hm.ld64) h

/-- A load from pages that are mapped leaves the state. -/
theorem load64_same {w : Word} (h : load64 a s = .ret w s') (hm : s.MappedOn a 8) : s' = s := by
  have heq := load_of_mapped (g := fun m => m.ld64 a) (by decide) (fun _ _ hs => hs.ld64) hm
  rw [load64, heq] at h
  cases h
  rfl

theorem load32_of_mapped (h : s.MappedOn a 4) : load32 a s = .ret (s.seen.ld32 a) s :=
  load_of_mapped (by decide) (fun _ _ hm => hm.ld32) h

theorem load64_of_mapped (h : s.MappedOn a 8) : load64 a s = .ret (s.seen.ld64 a) s :=
  load_of_mapped (by decide) (fun _ _ hm => hm.ld64) h

theorem load32_ne_fail {e : U32} : load32 a s ≠ .fail e s' := by
  intro h
  rcases bind_eq_fail.mp h with h | ⟨_, _, -, h⟩
  · exact access_ne_fail h
  · cases h

theorem load64_ne_fail {e : U32} : load64 a s ≠ .fail e s' := by
  intro h
  rcases bind_eq_fail.mp h with h | ⟨_, _, -, h⟩
  · exact access_ne_fail h
  · cases h

/-! ## Stores -/

/-- What a store to bytes that are mapped does to the view. -/
theorem seen_store {g : ByteMem → ByteMem} (h : s.MappedOn a n)
    (hin : ∀ (m m' : ByteMem) x, a ≤ x → x < a + n → g m x = g m' x)
    (hout : ∀ (m : ByteMem) x, ¬ (a ≤ x ∧ x < a + n) → g m x = m x) :
    ({ s with mem := g s.mem } : Fs).seen = g s.seen := by
  funext x
  by_cases hx : a ≤ x ∧ x < a + n
  · show (if s.mapped (x / BY2PG) then g s.mem x else 0) = g s.seen x
    rw [h x hx.1 hx.2, if_pos rfl]
    exact hin _ _ x hx.1 hx.2
  · show (if s.mapped (x / BY2PG) then g s.mem x else 0) = g s.seen x
    rw [hout _ x hx, hout _ x hx]
    rfl

theorem seen_st32 (v : U32) (h : s.MappedOn a 4) :
    ({ s with mem := s.mem.st32 a v } : Fs).seen = s.seen.st32 a v := by
  refine seen_store (g := fun m => m.st32 a v) h (fun m m' x hlo hhi => ?_) fun m x hx => ?_
  · simp only [ByteMem.st32, if_pos (And.intro hlo hhi)]
  · simp only [ByteMem.st32, if_neg hx]

theorem seen_st64 (v : Word) (h : s.MappedOn a 8) :
    ({ s with mem := s.mem.st64 a v } : Fs).seen = s.seen.st64 a v := by
  refine seen_store (g := fun m => m.st64 a v) h (fun m m' x hlo hhi => ?_) fun m x hx => ?_
  · simp only [ByteMem.st64, ByteMem.st32]
    split
    · rfl
    · rw [if_pos (by omega), if_pos (by omega)]
  · simp only [ByteMem.st64, ByteMem.st32]
    rw [if_neg (by omega), if_neg (by omega)]

/-- From `s` to `s'` the view becomes `m`. -/
structure Wrote (s s' : Fs) (m : ByteMem) : Prop where
  seen : s'.seen = m
  disk : s'.disk = s.disk
  steady : Steady s s'

theorem Touched.wrote (h : Touched s s') : Wrote s s' s.seen := ⟨h.seen, h.disk, h.steady⟩

theorem Touched.wrote_trans {s₁ s₂ s₃ : Fs} {m : ByteMem} (h : Touched s₁ s₂) (h' : Wrote s₂ s₃ m) :
    Wrote s₁ s₃ m :=
  ⟨h'.seen, h'.disk.trans h.disk, h.steady.trans _ _ _ h'.steady⟩

theorem Wrote.trans {s₁ s₂ s₃ : Fs} {m m' : ByteMem} (h : Wrote s₁ s₂ m) (h' : Wrote s₂ s₃ m') :
    Wrote s₁ s₃ m' :=
  ⟨h'.seen, h'.disk.trans h.disk, h.steady.trans _ _ _ h'.steady⟩

theorem Wrote.touched {s₁ s₂ s₃ : Fs} {m : ByteMem} (h : Wrote s₁ s₂ m) (h' : Touched s₂ s₃) :
    Wrote s₁ s₃ m :=
  ⟨h'.seen.trans h.seen, h'.disk.trans h.disk, h.steady.trans _ _ _ h'.steady⟩

theorem store32_ret {v : U32} (h : store32 a v s = .ret u s') : Wrote s s' (s.seen.st32 a v) := by
  have hsteady := (quiet_store32 a v).ret h
  obtain ⟨u₁, s₁, h₁, h₂⟩ := bind_eq_ret.mp h
  obtain ⟨ht, hm⟩ := access_ret (by decide) h₁
  cases h₂
  exact ⟨by rw [seen_st32 v hm, ht.seen], ht.disk, hsteady⟩

theorem store64_ret {v : Word} (h : store64 a v s = .ret u s') : Wrote s s' (s.seen.st64 a v) := by
  have hsteady := (quiet_store64 a v).ret h
  obtain ⟨u₁, s₁, h₁, h₂⟩ := bind_eq_ret.mp h
  obtain ⟨ht, hm⟩ := access_ret (by decide) h₁
  cases h₂
  exact ⟨by rw [seen_st64 v hm, ht.seen], ht.disk, hsteady⟩

theorem store32_ne_fail {v : U32} {e : U32} : store32 a v s ≠ .fail e s' := by
  intro h
  rcases bind_eq_fail.mp h with h | ⟨_, _, -, h⟩
  · exact access_ne_fail h
  · cases h

theorem store64_ne_fail {v : Word} {e : U32} : store64 a v s ≠ .fail e s' := by
  intro h
  rcases bind_eq_fail.mp h with h | ⟨_, _, -, h⟩
  · exact access_ne_fail h
  · cases h

theorem store32_of_mapped {v : U32} (h : s.MappedOn a 4) :
    store32 a v s = .ret () { s with mem := s.mem.st32 a v } :=
  bind_ret (access_of_mapped (by decide) h)

theorem store64_of_mapped {v : Word} (h : s.MappedOn a 8) :
    store64 a v s = .ret () { s with mem := s.mem.st64 a v } :=
  bind_ret (access_of_mapped (by decide) h)

end RpiMos
