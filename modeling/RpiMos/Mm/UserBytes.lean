/-
  RpiMos.Mm.UserBytes

  The bytes that a user finds at an address.  Pages that are backed by frames of
  their own keep their bytes when another page is mapped, and when bytes are
  stored into the frame of another page.
-/

import RpiMos.Mm.PageEdit
import RpiMos.Lib.ByteMem

namespace RpiMos

open Lib RadixShape

variable {s s' s₁ : Pmap} {dirs : Finset Nat} {boot : Nat → Nat} {d f pp off n : Nat}
  {va a p perm e : Word} {src : Nat → BitVec 8} {P : List Word}

/-! ## Bytes of a frame -/

/-- Byte `j` of a frame of words. -/
def frameByte (w : Nat → Word) (j : Nat) : BitVec 8 := (w (j / 8) >>> (8 * (j % 8))).setWidth 8

/-- The bytes of a frame after `n` of them have been stored from `off` on. -/
def storedFrame (w : Nat → Word) (off n : Nat) (src : Nat → BitVec 8) : ByteMem := fun j =>
  if off ≤ j ∧ j < off + n then src (j - off) else frameByte w j

/-- `n` bytes stored into frame `f` from `off` on. -/
def Pmap.storeBytes (s : Pmap) (f off n : Nat) (src : Nat → BitVec 8) : Pmap :=
  { s with mem := fun t i =>
      if t = f ∧ i < 512 then (storedFrame (s.mem f) off n src).ld64 (8 * i) else s.mem t i }

theorem storeBytes_mem_of_ne {t : Nat} (h : t ≠ f) : (s.storeBytes f off n src).mem t = s.mem t := by
  funext i
  exact if_neg fun hf => h hf.1

theorem frameByte_storeBytes {j : Nat} (hj : j < 4096) :
    frameByte ((s.storeBytes f off n src).mem f) j =
      if off ≤ j ∧ j < off + n then src (j - off) else frameByte (s.mem f) j := by
  have hword : (s.storeBytes f off n src).mem f (j / 8) =
      (storedFrame (s.mem f) off n src).ld64 (8 * (j / 8)) := if_pos ⟨rfl, by omega⟩
  rw [frameByte, hword, ByteMem.byte_ld64 (by omega), Nat.div_add_mod, storedFrame]

theorem frameByte_zero (j : Nat) : frameByte (fun _ => 0) j = 0 := by
  have hzero : (0 : Word) >>> (8 * (j % 8)) = 0 := BitVec.zero_ushiftRight
  rw [frameByte, hzero]
  rfl

/-! ## Bytes of a user -/

/-- The byte that is read at `a` through the page tables below `d`. -/
def userByte (s : Pmap) (d : Nat) (a : Word) : Option (BitVec 8) :=
  (mapping s d a).map fun e => frameByte (s.mem (pteFrame e)) (a.toNat % 4096)

theorem userByte_of_mapping (h : mapping s d a = some e) :
    userByte s d a = some (frameByte (s.mem (pteFrame e)) (a.toNat % 4096)) := by
  rw [userByte, h]
  rfl

theorem userByte_congr (hmap : mapping s' d a = mapping s d a)
    (hmem : ∀ e, mapping s d a = some e → s'.mem (pteFrame e) = s.mem (pteFrame e)) :
    userByte s' d a = userByte s d a := by
  cases hm : mapping s d a with
  | none => rw [userByte, userByte, hmap, hm]; rfl
  | some e => rw [userByte_of_mapping (hmap.trans hm), userByte_of_mapping hm, hmem e hm]

theorem pageIdx_L1 (h : pageIdx a = pageIdx p) : GET_L1_INDEX a = GET_L1_INDEX p :=
  congrArg Prod.fst h

/-- The pages at the addresses `P` below `d` are mapped, each to a frame of its own
    that is no page table. -/
structure Backed (boot : Nat → Nat) (dirs : Finset Nat) (d : Nat) (P : List Word) (s : Pmap) :
    Prop where
  sound : PmapSound boot dirs s
  user : ∀ p ∈ P, GET_L1_INDEX p ≠ uvptIndex
  page : ∀ p ∈ P, ∃ e, mapping s d p = some e ∧ ¬ IsTable s dirs (pteFrame e)
  inj : ∀ p ∈ P, ∀ q ∈ P, ∀ e e', mapping s d p = some e → mapping s d q = some e' →
    pteFrame e = pteFrame e' → pageIdx p = pageIdx q

/-- The bytes of the pages of `P` are the same, but perhaps in the page of `va`. -/
def BytesKept (d : Nat) (P : List Word) (va : Word) (s s' : Pmap) : Prop :=
  ∀ p ∈ P, ∀ a, pageIdx a = pageIdx p → pageIdx a ≠ pageIdx va → userByte s' d a = userByte s d a

theorem Backed.nil (h : PmapSound boot dirs s) : Backed boot dirs d [] s :=
  ⟨h, fun _ hp => absurd hp List.not_mem_nil, fun _ hp => absurd hp List.not_mem_nil,
    fun _ hp => absurd hp List.not_mem_nil⟩

/-- An allocation leaves the tables. -/
theorem pageAlloc_tables (hs : PmapSound boot dirs s) (halloc : pageAlloc s = some (pp, s₁)) (t : Nat)
    (ht : IsTable s dirs t) : s₁.mem t = s.mem t := by
  obtain ⟨hpp, hvis, -, -, -, hmem⟩ := pageAlloc_spec halloc
  have hne : t ≠ pp := fun h => (hs.unused hpp hvis).2.2 (h ▸ ht)
  rw [hmem]
  funext i
  exact if_neg hne

theorem pageAlloc_isTable (hs : PmapSound boot dirs s) (halloc : pageAlloc s = some (pp, s₁))
    (u : Nat) : IsTable s₁ dirs u ↔ IsTable s dirs u :=
  isTable_of_tables (pageAlloc_tables hs halloc) u

/-- A new page at `va`, whatever was there before. -/
theorem Backed.insert (h : Backed boot dirs d P s) (hd : d ∈ dirs)
    (hva : GET_L1_INDEX va ≠ uvptIndex) (hperm : perm &&& pageNumberBits = 0)
    (halloc : pageAlloc s = some (pp, s₁)) (hins : (pageInsert s₁ d pp va perm).1 = true) :
    Backed boot dirs d (va :: P) (pageInsert s₁ d pp va perm).2 ∧
    (∃ e, mapping (pageInsert s₁ d pp va perm).2 d va = some e ∧ pteFrame e = pp) ∧
    (∀ a, pageIdx a = pageIdx va → userByte (pageInsert s₁ d pp va perm).2 d a = some 0) ∧
    BytesKept d P va s (pageInsert s₁ d pp va perm).2 := by
  obtain ⟨hpp, hvis, hvis₁, -, -, hmem⟩ := pageAlloc_spec halloc
  obtain ⟨hs₁, hg⟩ := h.sound.pageAlloc halloc
  obtain ⟨hs', hed, hnew, -⟩ := hs₁.pageInsert hd hva hpp hvis₁ hperm
  obtain ⟨hmap, hframe⟩ := hnew hins
  have hnot : ¬ IsTable s₁ dirs pp := fun ht =>
    (h.sound.unused hpp hvis).2.2 ((pageAlloc_isTable h.sound halloc pp).mp ht)
  generalize (pageInsert s₁ d pp va perm).2 = s' at *
  have hzero : s'.mem pp = fun _ => 0 := by
    rw [hed.data hvis₁ hnot, hmem]
    funext i
    exact if_pos rfl
  -- What is known of an old page.
  have hold : ∀ q, GET_L1_INDEX q ≠ uvptIndex → pageIdx q ≠ pageIdx va → ∀ e,
      mapping s d q = some e → ¬ IsTable s dirs (pteFrame e) → mapping s' d q = some e ∧
        s'.mem (pteFrame e) = s.mem (pteFrame e) ∧ ¬ IsTable s' dirs (pteFrame e) ∧
        pteFrame e ≠ pp := by
    intro q hq hne e he hdata
    have hused := h.sound.mapped_used hd he
    have hdata₁ : ¬ IsTable s₁ dirs (pteFrame e) := fun ht =>
      hdata ((pageAlloc_isTable h.sound halloc _).mp ht)
    refine ⟨?_, ?_, fun ht => hdata₁ ((hed.table (hg.vis hused)).mp ht), fun heq => ?_⟩
    · rw [hed.other hd hq fun hx => hne hx.2, hg.map_eq hd hq, he]
    · rw [hed.data (hg.vis hused) hdata₁, hg.data hused hdata]
    · rw [heq, hvis] at hused
      cases hused
  refine ⟨⟨hs', ?_, ?_, ?_⟩, ⟨_, hmap, hframe⟩, fun a ha => ?_, fun q hq a ha hne => ?_⟩
  · intro q hq
    rcases List.mem_cons.mp hq with rfl | hq
    · exact hva
    · exact h.user q hq
  · intro q hq
    by_cases hsame : pageIdx q = pageIdx va
    · refine ⟨_, (mapping_congr_page hsame).trans hmap, ?_⟩
      rw [hframe]
      exact fun ht => hnot ((hed.table hvis₁).mp ht)
    · rcases List.mem_cons.mp hq with rfl | hq
      · exact absurd rfl hsame
      · obtain ⟨e, he, hdata⟩ := h.page q hq
        obtain ⟨he', -, hdata', -⟩ := hold q (h.user q hq) hsame e he hdata
        exact ⟨e, he', hdata'⟩
  · -- The new frame was not in use, so that no old page has it.
    have hcase : ∀ q ∈ va :: P, pageIdx q = pageIdx va ∨
        (q ∈ P ∧ pageIdx q ≠ pageIdx va ∧ ∃ e, mapping s d q = some e ∧
          mapping s' d q = some e ∧ pteFrame e ≠ pp) := by
      intro q hq
      by_cases hsame : pageIdx q = pageIdx va
      · exact .inl hsame
      · rcases List.mem_cons.mp hq with rfl | hq
        · exact absurd rfl hsame
        · obtain ⟨e, he, hdata⟩ := h.page q hq
          obtain ⟨he', -, -, hne⟩ := hold q (h.user q hq) hsame e he hdata
          exact .inr ⟨hq, hsame, e, he, he', hne⟩
    have hnewPage : ∀ q, pageIdx q = pageIdx va → ∀ e, mapping s' d q = some e →
        pteFrame e = pp := by
      intro q hq e he
      rw [mapping_congr_page hq, hmap] at he
      cases he
      exact hframe
    intro q hq r hr e e' he he' heq
    rcases hcase q hq with hqva | ⟨hqP, -, eq, hqs, hqs', hqne⟩
    · rcases hcase r hr with hrva | ⟨-, -, er, -, hrs', hrne⟩
      · rw [hqva, hrva]
      · rw [hrs'] at he'
        cases he'
        rw [← heq] at hrne
        exact absurd (hnewPage q hqva e he) hrne
    · rw [hqs'] at he
      cases he
      rcases hcase r hr with hrva | ⟨hrP, -, er, hrs, hrs', -⟩
      · exact absurd (heq.trans (hnewPage r hrva e' he')) hqne
      · rw [hrs'] at he'
        cases he'
        exact h.inj q hqP r hrP _ _ hqs hrs heq
  · rw [userByte_of_mapping ((mapping_congr_page ha).trans hmap), hframe, hzero, frameByte_zero]
  · obtain ⟨e, he, hdata⟩ := h.page q hq
    rw [← mapping_congr_page ha] at he
    have hq' : GET_L1_INDEX a ≠ uvptIndex := by
      rw [pageIdx_L1 ha]
      exact h.user q hq
    obtain ⟨he', hmem', -, -⟩ := hold a hq' hne e he hdata
    rw [userByte_of_mapping he', userByte_of_mapping he, hmem']

theorem storeBytes_tables (hf : ¬ IsTable s dirs f) (t : Nat) (ht : IsTable s dirs t) :
    (s.storeBytes f off n src).mem t = s.mem t :=
  storeBytes_mem_of_ne fun heq => hf (heq ▸ ht)

/-- Bytes stored into a frame that is no table. -/
theorem PmapSound.storeBytes (h : PmapSound boot dirs s) (hf : ¬ IsTable s dirs f) :
    PmapSound boot dirs (s.storeBytes f off n src) :=
  h.of_tables (storeBytes_tables hf) rfl rfl

theorem mapping_storeBytes (hf : ¬ IsTable s dirs f) (hd : d ∈ dirs)
    (ha : GET_L1_INDEX a ≠ uvptIndex) : mapping (s.storeBytes f off n src) d a = mapping s d a :=
  mapping_of_tables (storeBytes_tables hf) hd ha

theorem isTable_storeBytes (hf : ¬ IsTable s dirs f) (u : Nat) :
    IsTable (s.storeBytes f off n src) dirs u ↔ IsTable s dirs u :=
  isTable_of_tables (storeBytes_tables hf) u

/-- Bytes stored into the page of `p`. -/
theorem Backed.store (h : Backed boot dirs d P s) (hd : d ∈ dirs) (hp : p ∈ P)
    (he : mapping s d p = some e) (off n : Nat) (src : Nat → BitVec 8) :
    Backed boot dirs d P (s.storeBytes (pteFrame e) off n src) ∧
    (∀ a, pageIdx a = pageIdx p → userByte (s.storeBytes (pteFrame e) off n src) d a =
      if off ≤ a.toNat % 4096 ∧ a.toNat % 4096 < off + n then some (src (a.toNat % 4096 - off))
      else userByte s d a) ∧
    BytesKept d P p s (s.storeBytes (pteFrame e) off n src) := by
  have hf : ¬ IsTable s dirs (pteFrame e) := by
    obtain ⟨e', he', hdata⟩ := h.page p hp
    rw [he] at he'
    cases he'
    exact hdata
  have hmap : ∀ a, GET_L1_INDEX a ≠ uvptIndex →
      mapping (s.storeBytes (pteFrame e) off n src) d a = mapping s d a :=
    fun a ha => mapping_storeBytes hf hd ha
  refine ⟨⟨h.sound.storeBytes hf, h.user, fun q hq => ?_, fun q hq r hr e₁ e₂ h₁ h₂ heq => ?_⟩,
    fun a ha => ?_, fun q hq a ha hne => ?_⟩
  · obtain ⟨e', he', hdata⟩ := h.page q hq
    refine ⟨e', (hmap q (h.user q hq)).trans he', fun ht => hdata ?_⟩
    exact (isTable_storeBytes hf _).mp ht
  · rw [hmap q (h.user q hq)] at h₁
    rw [hmap r (h.user r hr)] at h₂
    exact h.inj q hq r hr e₁ e₂ h₁ h₂ heq
  · have hva : GET_L1_INDEX a ≠ uvptIndex := by
      rw [pageIdx_L1 ha]
      exact h.user p hp
    have hea : mapping s d a = some e := (mapping_congr_page ha).trans he
    rw [userByte_of_mapping ((hmap a hva).trans hea), userByte_of_mapping hea,
      frameByte_storeBytes (Nat.mod_lt _ (by omega))]
    split <;> rfl
  · have hva : GET_L1_INDEX a ≠ uvptIndex := by
      rw [pageIdx_L1 ha]
      exact h.user q hq
    refine userByte_congr (hmap a hva) fun e' he' => storeBytes_mem_of_ne fun heq => hne ?_
    rw [mapping_congr_page ha] at he'
    rw [ha]
    exact h.inj q hq p hp e' e he' he heq

end RpiMos
