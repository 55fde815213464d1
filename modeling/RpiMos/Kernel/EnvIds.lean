/-
  RpiMos.Kernel.EnvIds

  The ids of environments over runs of `env_alloc` and `env_free`.  An id is a
  32-bit generation count shifted over the slot index: the first `2 ^ 20 - 1`
  ids are positive and pairwise different, and the next one is negative when it
  is read as an int.
-/

import RpiMos.Kernel.EnvMemory

namespace RpiMos

open Lib

variable {k k' : Kernel} {img : Image} {e x : EnvPtr} {n : Nat} {id : U32}

/-! ## `mkenvid` -/

theorem toNat_mkenvid (hn : n < 2 ^ 21) (e : EnvPtr) :
    (mkenvid (BitVec.ofNat 32 n) e).toNat = n * 2048 + e.val := by
  have he := e.isLt
  have hshift : (BitVec.ofNat 32 n <<< (1 + LOG2NENV)).toNat = n * 2048 := by
    have hlog : 1 + LOG2NENV = 11 := rfl
    rw [hlog, BitVec.toNat_shiftLeft, BitVec.toNat_ofNat, Nat.shiftLeft_eq]
    omega
  have hidx : (BitVec.ofNat 32 e.val).toNat = e.val := by
    rw [BitVec.toNat_ofNat]
    omega
  rw [mkenvid, BitVec.toNat_or, hshift, hidx, Nat.mul_comm n,
    ← Nat.two_pow_add_eq_or_of_lt (i := 11) (by omega)]

/-- The low bits of an id are the index of its environment. -/
theorem ENVX_mkenvid (hn : n < 2 ^ 21) (e : EnvPtr) : ENVX (mkenvid (BitVec.ofNat 32 n) e) = e := by
  apply Fin.ext
  show (mkenvid (BitVec.ofNat 32 n) e).toNat % 1024 = e.val
  rw [toNat_mkenvid hn]
  have := e.isLt
  omega

/-- An id is non-negative as an int as long as the count has 20 bits. -/
theorem mkenvid_nonneg_iff (hn : n < 2 ^ 21) (e : EnvPtr) :
    0 ≤ (mkenvid (BitVec.ofNat 32 n) e).toInt ↔ n < 2 ^ 20 := by
  have he := e.isLt
  rw [BitVec.toInt_eq_toNat_cond, toNat_mkenvid hn]
  split <;> omega

/-! ## Runs -/

/-- A call of `env_alloc`, with the id it issued, or of `env_free`, with the id
    of the environment destroyed. -/
inductive IdEvent where
  | env_alloc (parent_id : U32) (id : Option U32)
  | env_free (e : EnvPtr) (id : U32)

def idStep (img : Image) (k : Kernel) (a : IdEvent) (k' : Kernel) : Prop :=
  match a with
  | .env_alloc parent_id id =>
      ∃ r, envAlloc img k parent_id = .ok (r, k') ∧ id = r.map fun e => (k'.envs e).id
  | .env_free e id => k.Live e ∧ id = (k.envs e).id ∧ envFree k e = .ok k'

def IdEvent.issued : IdEvent → Option U32
  | .env_alloc _ id => id
  | .env_free _ _ => none

def IdEvent.destroyed : IdEvent → Option U32
  | .env_alloc _ _ => none
  | .env_free _ id => some id

/-- The ids that `mkenvid` issued, in order. -/
def issued (tr : List IdEvent) : List U32 := tr.filterMap IdEvent.issued

/-- The ids of the environments destroyed. -/
def destroyed (tr : List IdEvent) : List U32 := tr.filterMap IdEvent.destroyed

theorem issued_snoc (tr : List IdEvent) (a : IdEvent) :
    issued (tr ++ [a]) = issued tr ++ a.issued.toList := by
  rw [issued, List.filterMap_append, ← issued]
  cases a with
  | env_alloc p id => cases id <;> rfl
  | env_free e id => rfl

theorem destroyed_snoc (tr : List IdEvent) (a : IdEvent) :
    destroyed (tr ++ [a]) = destroyed tr ++ a.destroyed.toList := by
  rw [destroyed, List.filterMap_append, ← destroyed]
  cases a <;> rfl

/-- Ids are positive ints and differ; the id of an environment in use resolves to
    it, and that of a destroyed one to nothing. -/
structure IdsUnique (tr : List IdEvent) (k : Kernel) : Prop where
  sign : ∀ id ∈ issued tr, id ≠ 0 ∧ 0 ≤ id.toInt
  distinct : (issued tr).Nodup
  live : ∀ e, k.Live e → envid2env k (k.envs e).id false = some e
  gone : ∀ id ∈ destroyed tr, ∀ b, envid2env k id b = none

/-! ## The invariant -/

/-- The ids issued are those of the first counts, and until the count leaves 20
    bits the ids in use and the destroyed ones are told apart by it. -/
structure IdInv (tr : List IdEvent) (k : Kernel) : Prop where
  acc : Acc k k.Live
  next : k.next_env_id = BitVec.ofNat 32 (issued tr).length
  form : ∀ m id, (issued tr)[m]? = some id → ∃ e, id = mkenvid (BitVec.ofNat 32 (m + 1)) e
  live : (issued tr).length < 2 ^ 20 → ∀ e, k.Live e →
    (k.envs e).id ∈ issued tr ∧ ENVX (k.envs e).id = e
  gone : (issued tr).length < 2 ^ 20 → ∀ id ∈ destroyed tr,
    id ∈ issued tr ∧ ∀ e, k.Live e → (k.envs e).id ≠ id

/-- The next id is larger than all before. -/
theorem IdInv.lt_next {tr : List IdEvent} (h : IdInv tr k) (hn : (issued tr).length + 1 < 2 ^ 20)
    (hid : id ∈ issued tr) (e : EnvPtr) : id ≠ mkenvid (k.next_env_id + 1) e := by
  obtain ⟨m, hm, hmid⟩ := List.mem_iff_getElem.mp hid
  obtain ⟨x, hx⟩ := h.form m id (by rw [List.getElem?_eq_getElem hm, hmid])
  have hnext : k.next_env_id + 1 = BitVec.ofNat 32 ((issued tr).length + 1) := by
    rw [h.next, BitVec.ofNat_add]
    rfl
  intro heq
  have hnat := congrArg BitVec.toNat heq
  rw [hx, hnext, toNat_mkenvid (by omega), toNat_mkenvid (by omega)] at hnat
  have := x.isLt
  have := e.isLt
  omega

theorem idInv_init (hnext : k.next_env_id = 0) : IdInv [] (envInit k) where
  acc := ⟨_, _, envInit_free k _ fun _ he => he⟩
  next := by
    obtain ⟨-, -, hn, -⟩ := envInit_rest k
    rw [hn, hnext]
    rfl
  form m id h := by cases h
  live _ e he := (not_live_envInit k e he).elim
  gone _ id hid := by cases hid

theorem idStep_inv {tr : List IdEvent} {a : IdEvent} (h : IdInv tr k) (hstep : idStep img k a k') :
    IdInv (tr ++ [a]) k' := by
  cases a with
  | env_alloc p id =>
      obtain ⟨r, hexec, rfl⟩ := hstep
      have hgone : destroyed (tr ++ [IdEvent.env_alloc p (r.map fun e => (k'.envs e).id)]) =
          destroyed tr := by
        rw [destroyed_snoc]
        exact List.append_nil _
      rcases envAlloc_cases hexec with ⟨rfl, rfl⟩ | ⟨e, d, rfl, ha⟩
      · -- No environment was free, and nothing changed.
        have hsame : issued (tr ++ [IdEvent.env_alloc p none]) = issued tr := by
          rw [issued_snoc]
          exact List.append_nil _
        have hsame' : destroyed (tr ++ [IdEvent.env_alloc p none]) = destroyed tr := hgone
        refine ⟨h.acc, ?_, ?_, ?_, ?_⟩
        · rw [Option.map_none, hsame]
          exact h.next
        · rw [Option.map_none, hsame]
          exact h.form
        · rw [Option.map_none, hsame]
          exact h.live
        · rw [Option.map_none, hsame, hsame']
          exact h.gone
      · obtain ⟨hfree, hacc⟩ := envAlloc_acc h.acc hexec
        have hissued : issued (tr ++ [IdEvent.env_alloc p ((some e).map fun e => (k'.envs e).id)]) =
            issued tr ++ [(k'.envs e).id] := issued_snoc _ _
        have hcount : k.next_env_id + 1 = BitVec.ofNat 32 ((issued tr).length + 1) := by
          rw [h.next, BitVec.ofNat_add]
          rfl
        have hmem : ∀ {id}, id ∈ issued tr → id ∈ issued tr ++ [(k'.envs e).id] :=
          fun h => List.mem_append_left _ h
        have hne : ∀ {x}, k.Live x → x ≠ e := by
          rintro x hx rfl
          exact hfree hx
        refine ⟨hacc, ?_, ?_, ?_, ?_⟩
        · rw [hissued, ha.next, hcount, List.length_append, List.length_singleton]
        · intro m id hm
          rw [hissued] at hm
          rcases Nat.lt_or_ge m (issued tr).length with hlt | hge
          · rw [List.getElem?_append_left hlt] at hm
            exact h.form m id hm
          · rw [List.getElem?_append_right hge] at hm
            obtain ⟨hm0, hid⟩ := List.getElem?_eq_some_iff.mp hm
            have hm' : m = (issued tr).length := by
              rw [List.length_singleton] at hm0
              omega
            refine ⟨e, ?_⟩
            rw [hm', ← hcount, ← ha.id, ← hid]
            simp
        · intro hn x hx
          rw [hissued, List.length_append, List.length_singleton] at hn
          rw [hissued]
          rcases (ha.live x).mp hx with hx | rfl
          · obtain ⟨hid, hslot⟩ := h.live (by omega) x hx
            rw [ha.others x (hne hx)]
            exact ⟨hmem hid, hslot⟩
          · refine ⟨List.mem_append_right _ (List.mem_singleton_self _), ?_⟩
            rw [ha.id, hcount]
            exact ENVX_mkenvid (by omega) x
        · intro hn id hid
          rw [hissued, List.length_append, List.length_singleton] at hn
          rw [hgone] at hid
          obtain ⟨hold, hdead⟩ := h.gone (by omega) id hid
          rw [hissued]
          refine ⟨hmem hold, fun x hx => ?_⟩
          rcases (ha.live x).mp hx with hx | rfl
          · rw [ha.others x (hne hx)]
            exact hdead x hx
          · rw [ha.id]
            exact (h.lt_next hn hold x).symm
  | env_free e id =>
      obtain ⟨he, rfl, hexec⟩ := hstep
      obtain ⟨d, hf⟩ := envFree_cases hexec
      have hsame : issued (tr ++ [IdEvent.env_free e (k.envs e).id]) = issued tr := by
        rw [issued_snoc]
        exact List.append_nil _
      have hgone : destroyed (tr ++ [IdEvent.env_free e (k.envs e).id]) =
          destroyed tr ++ [(k.envs e).id] := destroyed_snoc _ _
      refine ⟨envFree_acc h.acc he hexec, ?_, ?_, ?_, ?_⟩
      · rw [hsame, hf.next]
        exact h.next
      · rw [hsame]
        exact h.form
      · rw [hsame]
        intro hn x hx
        obtain ⟨hx, hne⟩ := (hf.live x).mp hx
        rw [hf.others x hne]
        exact h.live hn x hx
      · rw [hsame, hgone]
        intro hn id hid
        rcases List.mem_append.mp hid with hid | hid
        · obtain ⟨hold, hdead⟩ := h.gone hn id hid
          refine ⟨hold, fun x hx => ?_⟩
          obtain ⟨hx, hne⟩ := (hf.live x).mp hx
          rw [hf.others x hne]
          exact hdead x hx
        · -- The ids of two environments in use differ in their slot.
          rw [List.mem_singleton.mp hid]
          obtain ⟨hold, hslot⟩ := h.live hn e he
          refine ⟨hold, fun x hx heq => ?_⟩
          obtain ⟨hx, hne⟩ := (hf.live x).mp hx
          rw [hf.others x hne] at heq
          refine hne ?_
          rw [← (h.live hn x hx).2, heq, hslot]

/-- In every run the first `2 ^ 20 - 1` ids are in order. -/
theorem IdInv.unique {tr : List IdEvent} (h : IdInv tr k) (hn : (issued tr).length < 2 ^ 20) :
    IdsUnique tr k := by
  have hsign : ∀ id ∈ issued tr, id ≠ 0 ∧ 0 ≤ id.toInt := by
    intro id hid
    obtain ⟨m, hm, hmid⟩ := List.mem_iff_getElem.mp hid
    obtain ⟨x, rfl⟩ := h.form m id (by rw [List.getElem?_eq_getElem hm, hmid])
    refine ⟨fun h0 => ?_, (mkenvid_nonneg_iff (by omega) x).mpr (by omega)⟩
    have hnat := congrArg BitVec.toNat h0
    rw [toNat_mkenvid (by omega)] at hnat
    have hz : (0 : U32).toNat = 0 := rfl
    omega
  refine ⟨hsign, ?_, fun e he => ?_, fun id hid b => ?_⟩
  · rw [List.nodup_iff_getElem?_ne_getElem?]
    intro i j hij hj heq
    obtain ⟨x, hx⟩ := h.form i _ (List.getElem?_eq_getElem (by omega))
    obtain ⟨y, hy⟩ := h.form j _ (List.getElem?_eq_getElem hj)
    rw [List.getElem?_eq_getElem (by omega), List.getElem?_eq_getElem hj, Option.some.injEq, hx,
      hy] at heq
    have hnat := congrArg BitVec.toNat heq
    rw [toNat_mkenvid (by omega), toNat_mkenvid (by omega)] at hnat
    have := x.isLt
    have := y.isLt
    omega
  · obtain ⟨hid, hslot⟩ := h.live hn e he
    unfold envid2env
    rw [if_neg (hsign _ hid).1]
    simp only [hslot]
    rw [if_neg (not_or.mpr ⟨he, not_not.mpr rfl⟩)]
    cases k.curenv with
    | none => simp
    | some c => simp
  · obtain ⟨hid, hdead⟩ := h.gone hn id hid
    unfold envid2env
    rw [if_neg (hsign _ hid).1]
    by_cases hx : k.Live (ENVX id)
    · simp only
      rw [if_pos (Or.inr (hdead _ hx))]
    · simp only
      rw [if_pos (Or.inl (not_not.mp hx))]

/-- The `2 ^ 20`th id is negative. -/
theorem IdInv.negative {tr : List IdEvent} (h : IdInv tr k) (hn : 2 ^ 20 ≤ (issued tr).length) :
    ∃ id ∈ issued tr, id.toInt < 0 := by
  have hlt : 2 ^ 20 - 1 < (issued tr).length := by omega
  obtain ⟨x, hx⟩ := h.form (2 ^ 20 - 1) _ (List.getElem?_eq_getElem hlt)
  refine ⟨_, List.getElem_mem hlt, ?_⟩
  have hneg := mt (mkenvid_nonneg_iff (n := 2 ^ 20 - 1 + 1) (by decide) x).mp (by decide)
  rw [hx]
  omega

theorem idInv_of_run (hnext : k.next_env_id = 0) {tr : List IdEvent}
    (hrun : Run (idStep img) (envInit k) tr k') : IdInv tr k' :=
  hrun.invariant_trace (P := IdInv) (idInv_init hnext) fun _ _ _ _ h hstep => idStep_inv h hstep

/-- In every run from `env_init` on, however long, ids identify one incarnation
    each exactly as long as fewer than `2 ^ 20` of them were issued. -/
theorem ids_unique_iff (hnext : k.next_env_id = 0) {tr : List IdEvent}
    (hrun : Run (idStep img) (envInit k) tr k') :
    IdsUnique tr k' ↔ (issued tr).length < 2 ^ 20 := by
  have hinv := idInv_of_run hnext hrun
  constructor
  · intro h
    by_contra hn
    obtain ⟨id, hid, hneg⟩ := hinv.negative (by omega)
    have := (h.sign id hid).2
    omega
  · exact hinv.unique

/-! ## Pages that come back -/

/-- A page is left that `page_alloc` can hand out again and again. -/
def Spare (s : Pmap) : Prop := ∃ p < NPAGE, p % 64 < 31 ∧ p ≠ 0 ∧ (s.pages p).ref = 0

theorem pageAlloc_of_spare {s : Pmap} (hl : NoLeak s) (h : Spare s) :
    ∃ pp s₁, pageAlloc s = some (pp, s₁) := by
  obtain ⟨p, hp, hlow, hp0, href⟩ := h
  have hbit : (s.vis (p / 64)).getLsbD (p % 64) = false := by
    by_contra hv
    exact hl p hp (by omega) hp0 ((Bool.not_eq_false _).mp hv) href
  have hclear : s.vis (p / 64) &&& shiftedInt (p % 64) = 0 := by
    -- Below bit 31 the mask is the one bit.
    have hmask : ∀ (j : Fin 31) (i : Fin 64), (shiftedInt j).getLsbD i = decide (i.val = j.val) := by
      decide
    ext i hi
    rw [BitVec.getElem_and, ← BitVec.getLsbD_eq_getElem hi, ← BitVec.getLsbD_eq_getElem hi,
      hmask ⟨p % 64, hlow⟩ ⟨i, hi⟩]
    by_cases hip : i = p % 64
    · simp [hip, hbit]
    · simp [hip]
  have hword : pageAllocIn (s.vis (p / 64)) (p / 64) ≠ none := by
    intro hnone
    unfold pageAllocIn at hnone
    rw [if_pos] at hnone
    · have h := scan_eq_none.mp hnone (p % 64) (Nat.zero_le _) (by omega)
      rw [if_pos hclear] at h
      cases h
    · intro hall
      rw [hall, BitVec.getLsbD_allOnes, decide_eq_true (by omega)] at hbit
      cases hbit
  unfold pageAlloc
  cases hscan : scan (fun i => pageAllocIn (s.vis i) i) 0 (2 ^ 12) with
  | none =>
      rw [NPAGE] at hp
      exact absurd (scan_eq_none.mp hscan (p / 64) (Nat.zero_le _) (by omega)) hword
  | some x => exact ⟨_, _, rfl⟩

/-- Environment `e` is the only one in use; what it does not refer to is free,
    but for what boot keeps. -/
structure Alone (boot : Nat → Nat) (marked : Nat → Prop) (e : EnvPtr) (k : Kernel) : Prop where
  mem : EnvMem boot marked k
  only : ∀ x, k.Live x ↔ x = e
  page0 : (k.pm.pages 0).ref ≠ 0
  noLeak : NoLeak k.pm
  spare : Spare k.pm

section Alone

variable {boot : Nat → Nat} {marked : Nat → Prop} {d : Nat}

theorem Alone.liveDirs_eq (hlive : ∀ x, k.Live x ↔ x = e) : liveDirs k = {k.pgdir e} := by
  ext u
  rw [Finset.mem_singleton, mem_liveDirs]
  constructor
  · rintro ⟨x, hx, rfl⟩
    rw [(hlive x).mp hx]
  · rintro rfl
    exact ⟨e, (hlive e).mpr rfl, rfl⟩

/-- `env_alloc` finds an environment and a page. -/
theorem Alone.alloc (h : Alone boot marked e k) (img : Image) :
    ∃ x k', x ≠ e ∧ envAlloc img k 0 = .ok (some x, k') := by
  obtain ⟨F, S, ha⟩ := h.mem.acc
  have hother : ∃ x, x ≠ e ∧ x ∈ F := by
    by_cases he : e = 0
    · refine ⟨1, by rw [he]; decide, (ha.free_iff 1).mpr (not_not.mp fun hl => ?_)⟩
      have h1 := (h.only 1).mp hl
      rw [he] at h1
      exact absurd h1 (by decide)
    · exact ⟨0, Ne.symm he, (ha.free_iff 0).mpr (not_not.mp fun hl => he ((h.only 0).mp hl).symm)⟩
  cases F with
  | nil =>
      obtain ⟨x, -, hx⟩ := hother
      cases hx
  | cons x F =>
      obtain ⟨pp, s₁, halloc⟩ := pageAlloc_of_spare h.noLeak h.spare
      obtain ⟨k', hexec, -⟩ := envAlloc_some img ha
        (show envSetupVm img.init_end k.pm = some (pp, _) by rw [envSetupVm, halloc]) 0
      refine ⟨x, k', ?_, hexec⟩
      rintro rfl
      exact (h.only x).mpr rfl ((ha.free_iff x).mp List.mem_cons_self)

/-- After another environment was made and freed everything is as before. -/
theorem Alone.cycle (h : Alone boot marked e k) (hb : BootRefs boot marked)
    (hend : img.init_end / 4096 ≤ NPAGE) (hmark : ∀ p < img.init_end / 4096, marked p) :
    ∃ x id k₁ k₂, idStep img k (.env_alloc 0 (some id)) k₁ ∧ idStep img k₁ (.env_free x id) k₂ ∧
      Alone boot marked e k₂ := by
  obtain ⟨x, k₁, hxe, hexec⟩ := h.alloc img
  have hmem₁ := envAlloc_mem h.mem hend hmark hexec
  rcases envAlloc_cases hexec with ⟨hr, -⟩ | ⟨x', d, hr, ha⟩
  · cases hr
  cases hr
  have hx₁ : k₁.Live x := (ha.live x).mpr (Or.inr rfl)
  have he₁ : k₁.Live e := (ha.live e).mpr (Or.inl ((h.only e).mpr rfl))
  obtain ⟨k₂, hfree⟩ : ∃ k₂, envFree k₁ x = .ok k₂ := by
    unfold envFree
    rw [(hmem₁.dir x hx₁).1]
    exact ⟨_, rfl⟩
  obtain ⟨d', hf⟩ := envFree_cases hfree
  have hvm := envFree_vm hmem₁ hx₁ hfree
  -- The tables of `e` are left alone by both calls.
  have hdir : k₁.pgdir x = d := by rw [Kernel.pgdir, ha.pgdir]; rfl
  have hdir₁ : k₁.pgdir e = k.pgdir e := by rw [Kernel.pgdir, ha.others e (Ne.symm hxe), Kernel.pgdir]
  have hdir₂ : k₂.pgdir e = k.pgdir e := by
    rw [Kernel.pgdir, hf.others e (Ne.symm hxe), ← Kernel.pgdir, hdir₁]
  have hdirs := Alone.liveDirs_eq h.only
  have honly₂ : ∀ y, k₂.Live y ↔ y = e := by
    intro y
    rw [hf.live, ha.live, h.only]
    constructor
    · rintro ⟨hy | hy, hne⟩
      · exact hy
      · exact absurd hy hne
    · rintro rfl
      exact ⟨Or.inl rfl, Ne.symm hxe⟩
  have hdirs₂ := Alone.liveDirs_eq honly₂
  have hdirs₁ : (liveDirs k₁).erase d = {k.pgdir e} := by
    ext u
    rw [Finset.mem_erase, Finset.mem_singleton, mem_liveDirs]
    constructor
    · rintro ⟨hne, y, hy, rfl⟩
      rcases (ha.live y).mp hy with hy | rfl
      · rw [(h.only y).mp hy, hdir₁]
      · exact absurd hdir hne
    · rintro rfl
      refine ⟨fun heq => hxe (hmem₁.inj x e hx₁ he₁ ?_), e, he₁, hdir₁⟩
      rw [hdir, hdir₁, heq]
  obtain ⟨hd, -, s₁, halloc, hmap⟩ := envSetupVm_spec h.mem.sound hend
    (fun p hp => h.mem.kept p (by omega) (hmark p hp)) ha.vm
  obtain ⟨hkept₁, hleak₁⟩ := hmap.others h.mem.sound halloc hd
  have hkept : ∀ t, IsTable k.pm {k.pgdir e} t → k₂.pm.mem t = k.pm.mem t := by
    intro t ht
    have hkept₁' : ∀ u, IsTable k.pm {k.pgdir e} u → k₁.pm.mem u = k.pm.mem u :=
      fun u hu => hkept₁ u (hdirs ▸ hu)
    rw [hvm.kept t, hkept₁' t ht]
    rw [hdir, hdirs₁, isTable_of_tables hkept₁']
    exact ht
  have hrefs : ∀ sound : PmapSound boot (liveDirs k₂) k₂.pm, ∀ p < NPAGE,
      (k₂.pm.pages p).ref = (k.pm.pages p).ref := by
    intro hsound p hp
    have h₀ := h.mem.sound.refs p hp
    have h₂ := hsound.refs p hp
    rw [hdirs] at h₀
    rw [hdirs₂, hdir₂, entryCount_of_tables hkept, ← h₀] at h₂
    exact BitVec.eq_of_toNat_eq h₂
  have h0 : 0 < NPAGE := by
    rw [NPAGE]
    decide
  -- Page 0 has the reference that `e` holds, or that of boot.
  have htame : EnvOp.Tame k₁ (.env_free x) := by
    intro _
    have hsound : PmapSound boot ((liveDirs k₁).erase d) k₂.pm := hdir ▸ hvm.sound
    rw [hdirs₁] at hsound
    have h₀ := h.mem.sound.refs 0 h0
    have h₂ := hsound.refs 0 h0
    have hcount := hvm.refs 0 h0
    rw [hdirs] at h₀
    rw [entryCount_of_tables hkept, ← h₀] at h₂
    have hpos : (k.pm.pages 0).ref.toNat ≠ 0 := by
      intro hz
      exact h.page0 (BitVec.eq_of_toNat_eq hz)
    omega
  have hmem₂ := envFree_mem hb hmem₁ hx₁ htame hfree
  have hsame := hrefs hmem₂.sound
  refine ⟨x, (k₁.envs x).id, k₁, k₂, ⟨_, hexec, rfl⟩, ⟨hx₁, rfl, hfree⟩, hmem₂, honly₂, ?_,
    fun p hp hlow hp0 hv => ?_, ?_⟩
  · rw [hsame 0 h0]
    exact h.page0
  · rw [hvm.freed.vis, Bool.and_eq_true, Bool.not_eq_true', decide_eq_false_iff_not] at hv
    have hne := hleak₁ h.noLeak p hp hlow hp0 hv.1
    exact fun hz => hv.2 ⟨hz, hne⟩
  · obtain ⟨p, hp, hlow, hp0, href⟩ := h.spare
    exact ⟨p, hp, hlow, hp0, (hsame p hp).trans href⟩

end Alone

/-! ## On a board -/

/-- At boot every page in use but page 0 has a reference. -/
theorem boardBoot_noLeak : NoLeak boardBoot := by
  intro p _ _ hp0 hv href
  rw [boardBoot_eq, initBootPt_visBit, decide_eq_true_eq] at hv
  have hpos := bootRefs 0x200000 0x400000 (fun _ _ => 0) p hv hp0
  rw [bootCount, ← boardBoot_eq, href] at hpos
  exact absurd hpos (by decide)

/-- The first environment alone. -/
theorem board_alone : ∃ id k₁, idStep boardImage (envInit boardKernel) (.env_alloc 0 (some id)) k₁ ∧
    Alone boardCount (bootMarked 0x200000 0x400000) 0 k₁ := by
  obtain ⟨k₁, hexec, hmem, hlive, -, hne⟩ := board_first_env
  have hmem₀ := envInit_mem (k := boardKernel) boardBoot_eq
  have hpm : (envInit boardKernel).pm = boardBoot := (envInit_rest boardKernel).1
  have hend : boardImage.init_end / 4096 ≤ NPAGE := by
    rw [NPAGE]
    decide
  rcases envAlloc_cases hexec with ⟨hr, -⟩ | ⟨x, d, hr, ha⟩
  · cases hr
  cases hr
  obtain ⟨hd, -, s₁, halloc, hmap⟩ := envSetupVm_spec hmem₀.sound hend
    (fun p hp => hmem₀.kept p (by omega) (Or.inl hp)) ha.vm
  obtain ⟨-, hleak⟩ := hmap.others hmem₀.sound halloc hd
  refine ⟨_, k₁, ⟨_, hexec, rfl⟩, hmem, fun x => ?_, hne, hleak (hpm ▸ boardBoot_noLeak), ?_⟩
  · rw [ha.live]
    constructor
    · rintro (hx | hx)
      · exact (not_live_envInit boardKernel x hx).elim
      · exact hx
    · exact Or.inr
  · -- Word 2000 of the bitmap is clear, so its first page is free.
    obtain ⟨d', s', hvm, hclear⟩ := boardBoot_clear.envSetupVm 0x200000 (by decide) (by decide)
    have hvm' : envSetupVm 0x200000 boardBoot = some (d, k₁.pm) := hpm ▸ ha.vm
    obtain ⟨-, rfl⟩ := Prod.mk.inj (Option.some.inj (hvm.symm.trans hvm'))
    have hp : 128000 < NPAGE := by
      rw [NPAGE]
      decide
    refine ⟨128000, hp, by decide, by decide, hmem.sound.alloc 128000 hp ?_⟩
    rw [visBit, hclear (128000 / 64) (by decide) (by decide)]
    rfl

/-- However many ids are asked for, a run issues them. -/
theorem board_issues (n : Nat) : ∃ tr k', Run (idStep boardImage) (envInit boardKernel) tr k' ∧
    (issued tr).length = n + 1 ∧ Alone boardCount (bootMarked 0x200000 0x400000) 0 k' := by
  induction n with
  | zero =>
      obtain ⟨id, k₁, hstep, halone⟩ := board_alone
      exact ⟨[_], k₁, .single hstep, rfl, halone⟩
  | succ n ih =>
      obtain ⟨tr, k', hrun, hlen, halone⟩ := ih
      have hend : boardImage.init_end / 4096 ≤ NPAGE := by
        rw [NPAGE]
        decide
      obtain ⟨x, id, k₁, k₂, hstep₁, hstep₂, halone₂⟩ :=
        halone.cycle (bootRefs _ _ _) hend fun p hp => Or.inl hp
      refine ⟨_, k₂, (hrun.snoc hstep₁).snoc hstep₂, ?_, halone₂⟩
      rw [issued_snoc, issued_snoc]
      simp [IdEvent.issued, hlen]

/-- One environment made. -/
theorem board_first_id : ∃ id k₁, Run (idStep boardImage) (envInit boardKernel)
    [.env_alloc 0 (some id)] k₁ ∧ IdsUnique [.env_alloc 0 (some id)] k₁ := by
  obtain ⟨id, k₁, hstep, -⟩ := board_alone
  have hnext : boardKernel.next_env_id = 0 := rfl
  have hrun : Run (idStep boardImage) (envInit boardKernel) [.env_alloc 0 (some id)] k₁ :=
    .single hstep
  have hone : (issued [.env_alloc 0 (some id)]).length < 2 ^ 20 := by
    show 1 < 2 ^ 20
    decide
  exact ⟨id, k₁, hrun, (ids_unique_iff hnext hrun).mpr hone⟩

/-- A second environment made and freed a million times: its last id is negative. -/
theorem board_negative_id : ∃ tr k', Run (idStep boardImage) (envInit boardKernel) tr k' ∧
    ∃ id ∈ issued tr, id.toInt < 0 := by
  obtain ⟨tr, k', hrun, hlen, -⟩ := board_issues (2 ^ 20 - 1)
  have hnext : boardKernel.next_env_id = 0 := rfl
  exact ⟨tr, k', hrun, (idInv_of_run hnext hrun).negative (by omega)⟩

end RpiMos
