/-
  RpiMos.Kernel.EnvMemory

  Memory over whole runs of `env_alloc`, `page_insert`, `page_remove` and
  `env_free`, from the state that `init_boot_pt` and `env_init` leave.  `EnvMem`
  is kept by every step that does not take the last reference of page 0 away:
  that page is marked as used but, unlike the rest of the boot code, is given
  no reference of its own.
-/

import RpiMos.Kernel.EnvFree
import RpiMos.Kernel.EnvSetup
import RpiMos.Kernel.SchedLists

namespace RpiMos

open Lib RadixShape

variable {boot : Nat → Nat} {k k' : Kernel} {img : Image} {e x : EnvPtr} {d p pp imgEnd : Nat}
  {va perm : Word} {mem₀ : Nat → Nat → Word}

/-! ## What the two functions do to the table -/

def Kernel.Live (k : Kernel) (e : EnvPtr) : Prop := (k.envs e).status ≠ .ENV_FREE

/-- `env_alloc` returned 0 with environment `e` over directory `d`. -/
structure EnvAllocated (img : Image) (k : Kernel) (e : EnvPtr) (d : Nat) (k' : Kernel) : Prop where
  first : k.link.first () = some e
  vm : envSetupVm img.init_end k.pm = some (d, k'.pm)
  pgdir : (k'.envs e).pgdir = some d
  pgdir_pa : (k'.envs e).pgdir_pa = BitVec.ofNat 64 (d <<< 12)
  id : (k'.envs e).id = mkenvid (k.next_env_id + 1) e
  status : (k'.envs e).status = .ENV_RUNNABLE
  next : k'.next_env_id = k.next_env_id + 1
  others : ∀ x, x ≠ e → k'.envs x = k.envs x

theorem envAlloc_cases {r : Option EnvPtr} {p : U32} (h : envAlloc img k p = .ok (r, k')) :
    (r = none ∧ k' = k) ∨ ∃ e d, r = some e ∧ EnvAllocated img k e d k' := by
  unfold envAlloc at h
  cases hfirst : k.link.first () with
  | none =>
      rw [hfirst] at h
      cases h
      exact Or.inl ⟨rfl, rfl⟩
  | some e =>
      simp only [hfirst] at h
      split at h
      · cases h
      · split at h
        · cases h
        · rename_i l _ d pm hvm
          cases h
          refine Or.inr ⟨e, d, rfl, hfirst, hvm, ?_, ?_, ?_, ?_, rfl, fun x hx => ?_⟩
          · simp [Kernel.updEnv_envs]
          · simp [Kernel.updEnv_envs]
          · simp [Kernel.updEnv_envs]
          · simp [Kernel.updEnv_envs]
          · simp [Kernel.updEnv_envs, hx]

theorem EnvAllocated.live (h : EnvAllocated img k e d k') (x : EnvPtr) :
    k'.Live x ↔ k.Live x ∨ x = e := by
  by_cases hx : x = e
  · rw [hx, Kernel.Live, h.status]
    simp
  · rw [Kernel.Live, h.others x hx]
    simp [hx, Kernel.Live]

/-- `env_free` returned. -/
structure EnvFreed (k : Kernel) (e : EnvPtr) (d : Nat) (k' : Kernel) : Prop where
  pgdir : (k.envs e).pgdir = some d
  vm : k'.pm = envFreeVm d (k.envs e).pgdir_pa k.pm
  id : (k'.envs e).id = (k.envs e).id
  status : (k'.envs e).status = .ENV_FREE
  next : k'.next_env_id = k.next_env_id
  others : ∀ x, x ≠ e → k'.envs x = k.envs x

theorem envFree_cases (h : envFree k e = .ok k') : ∃ d, EnvFreed k e d k' := by
  unfold envFree at h
  cases hd : (k.envs e).pgdir with
  | none =>
      rw [hd] at h
      cases h
  | some d =>
      simp only [hd] at h
      cases h
      refine ⟨d, hd, rfl, ?_, ?_, rfl, fun x hx => ?_⟩
      · simp [Kernel.updEnv_envs]
      · simp [Kernel.updEnv_envs]
      · simp [Kernel.updEnv_envs, hx]

theorem EnvFreed.live (h : EnvFreed k e d k') (x : EnvPtr) : k'.Live x ↔ k.Live x ∧ x ≠ e := by
  by_cases hx : x = e
  · rw [hx, Kernel.Live, h.status]
    simp
  · rw [Kernel.Live, h.others x hx]
    simp [hx, Kernel.Live]

/-- The free list goes on holding exactly the environments not in use. -/
theorem envAlloc_acc {q : U32} (ha : Acc k k.Live) (hexec : envAlloc img k q = .ok (some e, k')) :
    ¬ k.Live e ∧ Acc k' k'.Live := by
  rcases (envAlloc_spec ha q).of_eq_ok hexec with ⟨hr, -⟩ | ⟨e', hr, -, hfree, hacc⟩
  · cases hr
  cases hr
  rcases envAlloc_cases hexec with ⟨h, -⟩ | ⟨e', d, hr, h⟩
  · cases h
  cases hr
  exact ⟨hfree, hacc.congr rfl rfl (fun _ => rfl) h.live⟩

theorem envFree_acc (ha : Acc k k.Live) (he : k.Live e) (hexec : envFree k e = .ok k') :
    Acc k' k'.Live := by
  obtain ⟨d, h⟩ := envFree_cases hexec
  obtain ⟨-, hacc⟩ := (envFree_spec ha he).of_eq_ok hexec
  exact hacc.congr rfl rfl (fun _ => rfl) h.live

/-! ## Operations and runs -/

inductive EnvOp where
  | env_alloc (parent_id : U32)
  | page_insert (e : EnvPtr) (pp : Nat) (va perm : Word)
  | page_remove (e : EnvPtr) (va : Word)
  | env_free (e : EnvPtr)

/-- An operation that returns, on an environment in use. -/
def envOpStep (img : Image) (k : Kernel) (op : EnvOp) (k' : Kernel) : Prop :=
  match op with
  | .env_alloc parent_id => ∃ r, envAlloc img k parent_id = .ok (r, k')
  | .page_insert e pp va perm =>
      k.Live e ∧ pp < NPAGE ∧ k' = k.setPm (pageInsert k.pm (k.pgdir e) pp va perm).2
  | .page_remove e va => k.Live e ∧ k' = k.setPm (pageRemove k.pm (k.pgdir e) va)
  | .env_free e => k.Live e ∧ envFree k e = .ok k'

/-- The operation leaves page 0 a reference, if it has one; an insertion is of a
    page in use, without page-number bits in `perm`; and neither edit goes
    through the self-map entry. -/
def EnvOp.Tame (k : Kernel) : EnvOp → Prop
  | .env_alloc _ => True
  | .page_insert e pp va perm =>
      perm &&& pageNumberBits = 0 ∧ GET_L1_INDEX va ≠ uvptIndex ∧ visBit k.pm pp = true ∧
        ¬ (LastRef k.pm (k.pgdir e) va 0 ∧ 0 ≠ pp)
  | .page_remove e va => GET_L1_INDEX va ≠ uvptIndex ∧ ¬ LastRef k.pm (k.pgdir e) va 0
  | .env_free e => 0 < entryCount k.pm {k.pgdir e} 0 →
      entryCount k.pm {k.pgdir e} 0 < (k.pm.pages 0).ref.toNat

/-- What `env_free` of `e` has to do: each page loses one reference for every
    entry of the tables of `e` that names it, and exactly those that lose their
    last one become allocatable. -/
def ReturnsPages (k : Kernel) (e : EnvPtr) (k' : Kernel) : Prop :=
  (∀ p < NPAGE,
    (k'.pm.pages p).ref.toNat + entryCount k.pm {k.pgdir e} p = (k.pm.pages p).ref.toNat) ∧
  ∀ p, visBit k'.pm p =
    (visBit k.pm p && !decide ((k'.pm.pages p).ref = 0 ∧ (k.pm.pages p).ref ≠ 0))

/-! ## The invariant -/

open Classical in
/-- The directories of the environments in use. -/
noncomputable def liveDirs (k : Kernel) : Finset Nat :=
  (Finset.univ.filter fun e => k.Live e).image k.pgdir

theorem mem_liveDirs : d ∈ liveDirs k ↔ ∃ e, k.Live e ∧ k.pgdir e = d := by
  classical
  simp [liveDirs]

theorem pgdir_mem_liveDirs (he : k.Live e) : k.pgdir e ∈ liveDirs k :=
  mem_liveDirs.mpr ⟨e, he, rfl⟩

/-- Memory is sound over the directories in use, each environment in use has one
    of its own, the free list holds the others, and the pages `marked` at boot
    are in use. -/
structure EnvMem (boot : Nat → Nat) (marked : Nat → Prop) (k : Kernel) : Prop where
  acc : Acc k k.Live
  sound : PmapSound boot (liveDirs k) k.pm
  dir : ∀ e, k.Live e → (k.envs e).pgdir = some (k.pgdir e) ∧
    (k.envs e).pgdir_pa = BitVec.ofNat 64 (k.pgdir e <<< 12)
  inj : ∀ e e', k.Live e → k.Live e' → k.pgdir e = k.pgdir e' → e = e'
  kept : ∀ p < NPAGE, marked p → visBit k.pm p = true

/-- Only page 0 has no reference from boot. -/
def BootRefs (boot : Nat → Nat) (marked : Nat → Prop) : Prop := ∀ p, marked p → p ≠ 0 → 0 < boot p

/-- A page with a reference from boot is in use. -/
theorem PmapSound.visBit_boot {dirs : Finset Nat} {s : Pmap} (hs : PmapSound boot dirs s)
    (hp : p < NPAGE) (hb : 0 < boot p) : visBit s p = true := by
  by_contra hv
  have hr := hs.alloc p hp ((Bool.not_eq_true _).mp hv)
  have h := hs.refs p hp
  have hz : (0 : U32).toNat = 0 := rfl
  rw [hr] at h
  omega

theorem kept_of_page0 {marked : Nat → Prop} {dirs : Finset Nat} {s : Pmap}
    (hb : BootRefs boot marked) (hs : PmapSound boot dirs s)
    (h0 : marked 0 → visBit s 0 = true) : ∀ p < NPAGE, marked p → visBit s p = true := by
  intro p hp hm
  by_cases hz : p = 0
  · rw [hz] at hm ⊢
    exact h0 hm
  · exact hs.visBit_boot hp (hb p hm hz)

section Steps

variable {marked : Nat → Prop}

/-- An edit below the directory of an environment in use. -/
theorem EnvMem.setPm (h : EnvMem boot marked k) {s : Pmap} (hs : PmapSound boot (liveDirs k) s)
    (hkept : ∀ p < NPAGE, marked p → visBit s p = true) : EnvMem boot marked (k.setPm s) :=
  ⟨h.acc.congr rfl rfl (fun _ => rfl) fun _ => Iff.rfl, hs, h.dir, h.inj, hkept⟩

variable (hb : BootRefs boot marked) (h : EnvMem boot marked k)

include h

theorem envAlloc_mem {r : Option EnvPtr} {q : U32} (hend : img.init_end / 4096 ≤ NPAGE)
    (hmark : ∀ p < img.init_end / 4096, marked p) (hexec : envAlloc img k q = .ok (r, k')) :
    EnvMem boot marked k' := by
  rcases envAlloc_cases hexec with ⟨rfl, rfl⟩ | ⟨e, d, rfl, ha⟩
  · exact h
  · obtain ⟨hfree, hacc⟩ := envAlloc_acc h.acc hexec
    obtain ⟨hd, -, s₁, halloc, hmap⟩ := envSetupVm_spec h.sound hend
      (fun p hp => h.kept p (by omega) (hmark p hp)) ha.vm
    have hlive := ha.live
    have hdir : k'.pgdir e = d := by rw [Kernel.pgdir, ha.pgdir]; rfl
    have hother : ∀ x, x ≠ e → k'.pgdir x = k.pgdir x := by
      intro x hx
      rw [Kernel.pgdir, ha.others x hx, Kernel.pgdir]
    have hne : ∀ x, k.Live x → x ≠ e := by
      rintro x hx rfl
      exact hfree hx
    have hdirs : liveDirs k' = insert d (liveDirs k) := by
      ext u
      rw [Finset.mem_insert, mem_liveDirs, mem_liveDirs]
      constructor
      · rintro ⟨x, hx, rfl⟩
        rcases (hlive x).mp hx with hx | rfl
        · exact Or.inr ⟨x, hx, (hother x (hne x hx)).symm⟩
        · exact Or.inl hdir
      · rintro (rfl | ⟨x, hx, rfl⟩)
        · exact ⟨e, (hlive e).mpr (Or.inr rfl), hdir⟩
        · exact ⟨x, (hlive x).mpr (Or.inl hx), hother x (hne x hx)⟩
    -- The new directory is none of those in use.
    have hfresh : ∀ x, k.Live x → k.pgdir x ≠ d := by
      rintro x hx rfl
      exact hd (pgdir_mem_liveDirs hx)
    refine ⟨hacc, hdirs ▸ hmap.sound, fun x hx => ?_,
      fun x y hx hy hxy => ?_, fun p hp hm => ?_⟩
    · rcases (hlive x).mp hx with hx | rfl
      · rw [hother x (hne x hx), ha.others x (hne x hx)]
        exact h.dir x hx
      · rw [hdir]
        exact ⟨ha.pgdir, ha.pgdir_pa⟩
    · rcases (hlive x).mp hx with hx | rfl
      · rcases (hlive y).mp hy with hy | rfl
        · rw [hother x (hne x hx), hother y (hne y hy)] at hxy
          exact h.inj x y hx hy hxy
        · rw [hother x (hne x hx), hdir] at hxy
          exact absurd hxy (hfresh x hx)
      · rcases (hlive y).mp hy with hy | rfl
        · rw [hother y (hne y hy), hdir] at hxy
          exact absurd hxy.symm (hfresh y hy)
        · rfl
    · have hp₁ : visBit s₁ p = true := visBit_pageAlloc halloc (h.kept p hp hm)
      exact hmap.vis p hp₁

/-- What `env_free` gives back, whatever the pages are. -/
theorem envFree_vm (he : k.Live e) (hexec : envFree k e = .ok k') :
    VmFreed boot (liveDirs k) (k.pgdir e) k.pm k'.pm := by
  obtain ⟨d, hf⟩ := envFree_cases hexec
  obtain ⟨hpg, hpa⟩ := h.dir e he
  have hd : d = k.pgdir e := Option.some.inj (hf.pgdir.symm.trans hpg)
  have hlt := h.sound.tables.dir_lt _ (pgdir_mem_liveDirs he)
  have hpage : pa2page (k.envs e).pgdir_pa = k.pgdir e := by
    rw [hpa, pa2page_eq, toNat_ofNat_shift hlt]
    rw [NPAGE] at hlt
    omega
  rw [hf.vm, hd]
  exact envFreeVm_spec (pgdir_mem_liveDirs he) h.sound hpage

theorem envFree_returnsPages (he : k.Live e) (hexec : envFree k e = .ok k') :
    ReturnsPages k e k' :=
  ⟨(envFree_vm h he hexec).refs, (envFree_vm h he hexec).freed.vis⟩

include hb

theorem envFree_mem (he : k.Live e) (htame : EnvOp.Tame k (.env_free e))
    (hexec : envFree k e = .ok k') : EnvMem boot marked k' := by
  obtain ⟨d, hf⟩ := envFree_cases hexec
  have hvm := envFree_vm h he hexec
  have hlive := hf.live
  have hother : ∀ x, x ≠ e → k'.pgdir x = k.pgdir x := by
    intro x hx
    rw [Kernel.pgdir, hf.others x hx, Kernel.pgdir]
  have hdirs : liveDirs k' = (liveDirs k).erase (k.pgdir e) := by
    ext u
    rw [Finset.mem_erase, mem_liveDirs, mem_liveDirs]
    constructor
    · rintro ⟨x, hx, rfl⟩
      obtain ⟨hx, hne⟩ := (hlive x).mp hx
      rw [hother x hne]
      exact ⟨fun heq => hne (h.inj x e hx he heq), x, hx, rfl⟩
    · rintro ⟨hne, x, hx, rfl⟩
      have hxe : x ≠ e := by
        rintro rfl
        exact hne rfl
      exact ⟨x, (hlive x).mpr ⟨hx, hxe⟩, hother x hxe⟩
  have hsound : PmapSound boot (liveDirs k') k'.pm := hdirs ▸ hvm.sound
  refine ⟨envFree_acc h.acc he hexec, hsound, fun x hx => ?_,
    fun x y hx hy hxy => ?_, kept_of_page0 hb hsound fun hm => ?_⟩
  · obtain ⟨hx, hne⟩ := (hlive x).mp hx
    rw [hother x hne, hf.others x hne]
    exact h.dir x hx
  · obtain ⟨hx, hxe⟩ := (hlive x).mp hx
    obtain ⟨hy, hye⟩ := (hlive y).mp hy
    rw [hother x hxe, hother y hye] at hxy
    exact h.inj x y hx hy hxy
  · -- Page 0 keeps its bit, because it keeps a reference.
    have h0 : 0 < NPAGE := by
      rw [NPAGE]
      decide
    have hrefs := hvm.refs 0 h0
    rw [hvm.freed.vis, h.kept 0 h0 hm, Bool.true_and, Bool.not_eq_true', decide_eq_false_iff_not]
    rintro ⟨hzero, hne⟩
    rw [hzero] at hrefs
    have hz : (0 : U32).toNat = 0 := rfl
    have hpos : 0 < (k.pm.pages 0).ref.toNat := by
      refine Nat.pos_of_ne_zero fun h' => hne (BitVec.eq_of_toNat_eq ?_)
      rw [h', hz]
    have := htame (by omega)
    omega

/-- A tame operation keeps memory in order. -/
theorem envOpStep_mem {op : EnvOp} (hend : img.init_end / 4096 ≤ NPAGE)
    (hmark : ∀ p < img.init_end / 4096, marked p) (htame : op.Tame k)
    (hstep : envOpStep img k op k') : EnvMem boot marked k' := by
  cases op with
  | env_alloc q =>
      obtain ⟨r, hexec⟩ := hstep
      exact envAlloc_mem h hend hmark hexec
  | page_insert e pp va perm =>
      obtain ⟨he, hpp, rfl⟩ := hstep
      obtain ⟨hperm, hva, hvis, hlast⟩ := htame
      obtain ⟨hs, -⟩ := h.sound.pageInsert (pgdir_mem_liveDirs he) hva hpp hvis hperm
      refine h.setPm hs (kept_of_page0 hb hs fun hm => ?_)
      have h0 : 0 < NPAGE := by omega
      exact h.sound.visBit_pageInsert (pgdir_mem_liveDirs he) hva (h.kept 0 h0 hm) hlast
  | page_remove e va =>
      obtain ⟨he, rfl⟩ := hstep
      obtain ⟨hva, hlast⟩ := htame
      obtain ⟨hs, -⟩ := h.sound.pageRemove (pgdir_mem_liveDirs he) hva
      refine h.setPm hs (kept_of_page0 hb hs fun hm => ?_)
      have h0 : 0 < NPAGE := by
        rw [NPAGE]
        decide
      exact h.sound.visBit_pageRemove (pgdir_mem_liveDirs he) hva (h.kept 0 h0 hm) hlast
  | env_free e =>
      obtain ⟨he, hexec⟩ := hstep
      exact envFree_mem hb h he htame hexec

end Steps

/-! ## Runs -/

/-- The pages that `init_boot_pt` marks as used. -/
def bootMarked (initEnd imgEnd p : Nat) : Prop := inBootCode initEnd p ∨ inImage initEnd imgEnd p

theorem bootRefs (initEnd imgEnd : Nat) (mem₀ : Nat → Nat → Word) :
    BootRefs (bootCount initEnd imgEnd mem₀) (bootMarked initEnd imgEnd) := by
  intro p hm hp
  rw [bootCount, initBootPt_pages]
  have hpos : p > 0 := Nat.pos_of_ne_zero hp
  rcases hm with hm | hm
  · by_cases h₂ : inImage initEnd imgEnd p <;> simp [hm, hpos, h₂]
  · by_cases h₁ : inBootCode initEnd p ∧ p > 0 <;> simp [h₁, hm]

theorem not_live_envInit (k : Kernel) (e : EnvPtr) : ¬ (envInit k).Live e := by
  intro h
  have ha := envInit_free k (fun _ => False) (fun _ h => h.elim)
  exact h ((ha.free_iff e).mp (List.mem_finRange e))

/-- After `env_init` no directory is in use. -/
theorem liveDirs_envInit (k : Kernel) : liveDirs (envInit k) = ∅ := by
  refine Finset.eq_empty_of_forall_notMem fun d hd => ?_
  obtain ⟨e, he, -⟩ := mem_liveDirs.mp hd
  exact not_live_envInit k e he

theorem envInit_mem {initEnd : Nat} (hpm : k.pm = initBootPt initEnd imgEnd mem₀) :
    EnvMem (bootCount initEnd imgEnd mem₀) (bootMarked initEnd imgEnd) (envInit k) := by
  have hpm' : (envInit k).pm = initBootPt initEnd imgEnd mem₀ := (envInit_rest k).1.trans hpm
  refine ⟨⟨_, _, envInit_free k _ fun e he => he⟩, ?_, fun e he => (not_live_envInit k e he).elim,
    fun e _ he => (not_live_envInit k e he).elim, fun p _ hm => ?_⟩
  · rw [liveDirs_envInit, hpm']
    exact ⟨initBootPt_inv, fun d hd => by cases hd⟩
  · rw [hpm', initBootPt_visBit, decide_eq_true_eq]
    exact hm

/-- In every run of tame operations from boot on no page marked at boot is
    allocatable, and `env_free` of any environment in use takes from each page
    the references that the tables of the environment hold and frees exactly
    the pages that have none left. -/
theorem teardown_conserves (hend : img.init_end / 4096 ≤ NPAGE)
    (hpm : k.pm = initBootPt img.init_end imgEnd mem₀) {tr : List EnvOp}
    (hrun : Run (restrict (envOpStep img) fun k op => op.Tame k) (envInit k) tr k') :
    (∀ p < NPAGE, bootMarked img.init_end imgEnd p → visBit k'.pm p = true) ∧
    ∀ e k'', k'.Live e → envFree k' e = .ok k'' → ReturnsPages k' e k'' := by
  have hmem : EnvMem (bootCount img.init_end imgEnd mem₀) (bootMarked img.init_end imgEnd) k' := by
    refine hrun.invariant_of_restrict (envInit_mem hpm) fun k₁ op k₂ h₁ htame hstep => ?_
    exact envOpStep_mem (bootRefs _ _ _) h₁ hend (fun p hp => Or.inl hp) htame hstep
  exact ⟨hmem.kept, fun e k'' he hexec => envFree_returnsPages hmem he hexec⟩

/-! ## On a board -/

/-- The first environment: its directory maps page 0, which has no other reference. -/
theorem board_first_env : ∃ k₁, envAlloc boardImage (envInit boardKernel) 0 = .ok (some 0, k₁) ∧
    EnvMem boardCount (bootMarked 0x200000 0x400000) k₁ ∧ k₁.Live 0 ∧
    entryCount k₁.pm {k₁.pgdir 0} 0 = (k₁.pm.pages 0).ref.toNat ∧ (k₁.pm.pages 0).ref ≠ 0 := by
  have hmem := envInit_mem (k := boardKernel) boardBoot_eq
  have hF : List.finRange 1024 = (0 : Fin 1024) :: (List.finRange 1023).map Fin.succ :=
    List.finRange_succ
  have ha := envInit_free boardKernel (fun _ => False) fun _ h => h.elim
  rw [hF] at ha
  have hpm : (envInit boardKernel).pm = boardBoot := (envInit_rest boardKernel).1
  obtain ⟨d, pm, hvm, -⟩ : ∃ d pm, envSetupVm boardImage.init_end (envInit boardKernel).pm
      = some (d, pm) ∧ ClearFrom 1041 4000 pm := by
    rw [hpm]
    exact boardBoot_clear.envSetupVm 0x200000 (by decide) (by decide)
  obtain ⟨k₁, hexec, -⟩ := envAlloc_some boardImage ha hvm 0
  have hend : boardImage.init_end / 4096 ≤ NPAGE := by
    rw [NPAGE]
    decide
  have hmem₁ := envAlloc_mem hmem hend
    (fun p hp => Or.inl hp) hexec
  rcases envAlloc_cases hexec with ⟨h, -⟩ | ⟨e, d', hr, halloc⟩
  · cases h
  cases hr
  have hlive : k₁.Live 0 := by
    rw [Kernel.Live, halloc.status]
    decide
  have hdir : k₁.pgdir 0 = d' := by rw [Kernel.pgdir, halloc.pgdir]; rfl
  have honly : ∀ x, k₁.Live x → x = 0 := by
    intro x hx
    by_contra hne
    rw [Kernel.Live, halloc.others x hne] at hx
    exact not_live_envInit boardKernel x hx
  have hdirs : liveDirs k₁ = {d'} := by
    ext u
    rw [Finset.mem_singleton, mem_liveDirs, ← hdir]
    constructor
    · rintro ⟨x, hx, rfl⟩
      rw [honly x hx]
    · rintro rfl
      exact ⟨0, hlive, rfl⟩
  have h0 : 0 < NPAGE := by
    rw [NPAGE]
    decide
  have hboot : boardCount 0 = 0 := by
    have himg : ¬ inImage 0x200000 0x400000 0 := by
      rintro ⟨-, hlo⟩
      revert hlo
      decide
    rw [boardCount, bootCount, initBootPt_pages, if_neg (fun h => absurd h.2 (Nat.lt_irrefl 0)),
      if_neg himg]
    rfl
  have href := hmem₁.sound.refs 0 h0
  rw [hdirs] at href
  -- Its first turn maps page 0, while there is memory for the tables.
  obtain ⟨-, -, s₁, hpage, hmap⟩ := envSetupVm_spec hmem.sound hend
    (fun p hp => hmem.kept p (by omega) (Or.inl hp)) halloc.vm
  rw [hpm] at hpage
  have hfree : FreePages 2 (envNewDir s₁ d') := by
    have hclear := boardBoot_clear.pageAlloc (by decide) (by decide) hpage
    have hfp : FreePages 2 s₁ :=
      freePages_of_zero (k := 17) (by decide) fun m hm hm' => hclear m hm (by omega)
    exact hfp.of_vis rfl
  obtain ⟨e, he, hframe⟩ := hmap.first (by decide) hfree
  have hnamed : 0 < entryCount k₁.pm {d'} 0 := by
    obtain ⟨t, i, hx, hv, rfl⟩ := mapping_eq_some.mp he
    have htab : TablesOk k₁.pm {d'} := hdirs ▸ hmem₁.sound.tables
    have ht := leafSlot_isTable htab (Finset.mem_singleton_self d') hx
    exact slotCount_pos (htab.mem_tableSlots ht (leafSlot_lt hx).2) (child_eq_some.mpr ⟨hv, hframe⟩)
  have hcount : boardCount 0 + entryCount k₁.pm {d'} 0 = (k₁.pm.pages 0).ref.toNat := href.symm
  rw [hboot, Nat.zero_add] at hcount
  refine ⟨k₁, hexec, hmem₁, hlive, hdir ▸ hcount, fun hz => ?_⟩
  rw [hz] at hcount
  have hz' : (0 : U32).toNat = 0 := rfl
  omega

/-- A run of one allocation. -/
theorem board_teardown : ∃ k₁, k₁.Live 0 ∧
    Run (restrict (envOpStep boardImage) fun k op => op.Tame k) (envInit boardKernel)
      [.env_alloc 0] k₁ ∧
    visBit k₁.pm 0 = true ∧ ∀ k₂, envFree k₁ 0 = .ok k₂ → ReturnsPages k₁ 0 k₂ := by
  obtain ⟨k₁, hexec, -, hlive, -⟩ := board_first_env
  have hrun : Run (restrict (envOpStep boardImage) fun k op => op.Tame k) (envInit boardKernel)
      [.env_alloc 0] k₁ := .single ⟨⟨_, hexec⟩, trivial⟩
  have hend : boardImage.init_end / 4096 ≤ NPAGE := by
    rw [NPAGE]
    decide
  have h0 : 0 < NPAGE := by
    rw [NPAGE]
    decide
  obtain ⟨hkept, hfree⟩ := teardown_conserves hend boardBoot_eq hrun
  exact ⟨k₁, hlive, hrun, hkept 0 h0 (Or.inl (by decide)), fun k₂ h => hfree 0 k₂ hlive h⟩

/-- The first environment is made and freed again: page 0, marked at boot, can be
    handed out from then on. -/
theorem board_page0_allocatable : bootMarked 0x200000 0x400000 0 ∧
    visBit boardBoot 0 = true ∧ ∃ k₂, Run (envOpStep boardImage) (envInit boardKernel)
      [.env_alloc 0, .env_free 0] k₂ ∧ visBit k₂.pm 0 = false := by
  obtain ⟨k₁, hexec, hmem, hlive, hcount, hne⟩ := board_first_env
  have hmark : bootMarked 0x200000 0x400000 0 := Or.inl (by decide)
  refine ⟨hmark, ?_, ?_⟩
  · rw [boardBoot_eq, initBootPt_visBit, decide_eq_true_eq]
    exact hmark
  obtain ⟨k₂, hfree⟩ : ∃ k₂, envFree k₁ 0 = .ok k₂ := by
    unfold envFree
    rw [(hmem.dir 0 hlive).1]
    exact ⟨_, rfl⟩
  refine ⟨k₂, .cons ⟨_, hexec⟩ (.single ⟨hlive, hfree⟩), ?_⟩
  obtain ⟨hrefs, hvis⟩ := envFree_returnsPages hmem hlive hfree
  have h0 : 0 < NPAGE := by
    rw [NPAGE]
    decide
  have hzero : (k₂.pm.pages 0).ref = 0 := by
    have h := hrefs 0 h0
    rw [hcount] at h
    refine BitVec.eq_of_toNat_eq ?_
    have hz : (0 : U32).toNat = 0 := rfl
    omega
  rw [hvis, decide_eq_true ⟨hzero, hne⟩, Bool.not_true, Bool.and_false]

end RpiMos
