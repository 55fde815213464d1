/-
  RpiMos.Kernel.CallMemory

  Memory over runs of all system calls.  `EnvMem` is kept by every tame one; the
  scheduling lists, which a destroyed environment can leave in disorder, have no
  part in it.
-/

import RpiMos.Kernel.Calls

namespace RpiMos

open Lib RadixShape Links

variable {boot : Nat → Nat} {marked : Nat → Prop} {k k' k₁ : Kernel} {img : Image} {envs : Word}
  {c e x : EnvPtr} {n d p imgEnd : Nat} {envid : U32} {va perm : Word} {s : Pmap} {ans : Answer}

/-! ## Without the scheduling lists -/

/-- The kernel with its scheduling lists empty. -/
def Kernel.unqueued (k : Kernel) : Kernel :=
  { k with sched_link := ⟨fun _ => none, fun _ => none, fun _ => none⟩ }

theorem Acc.unqueued (h : Acc k.unqueued k.Live) (hlink : k'.link = k.link)
    (hlive : ∀ x, k'.Live x ↔ k.Live x) : Acc k'.unqueued k'.Live := by
  obtain ⟨F, S, ha⟩ := h
  refine ⟨F, S, ?_, ha.sched, fun x => ?_, fun x => ?_, fun x hx => hx⟩
  · show k'.link.Represents _
    rw [hlink]
    exact ha.free
  · rw [ha.free_iff x]
    exact not_iff_not.mp (hlive x).symm
  · have hnone : ¬ ∃ i, x ∈ S i := fun hi => ((ha.queued_iff x).mp hi).2 ((ha.queued_iff x).mp hi).1
    exact iff_of_false hnone fun hx => hx.2 hx.1

/-- Nothing that `EnvMem` reads has changed. -/
structure MemSame (k k' : Kernel) : Prop where
  pm : k'.pm = k.pm
  link : k'.link = k.link
  live : ∀ x, k'.Live x ↔ k.Live x
  dir : ∀ x, (k'.envs x).pgdir = (k.envs x).pgdir ∧ (k'.envs x).pgdir_pa = (k.envs x).pgdir_pa

theorem MemSame.pgdir (h : MemSame k k') (x : EnvPtr) : k'.pgdir x = k.pgdir x := by
  rw [Kernel.pgdir, (h.dir x).1, Kernel.pgdir]

theorem MemSame.liveDirs (h : MemSame k k') : liveDirs k' = liveDirs k := by
  ext u
  rw [mem_liveDirs, mem_liveDirs]
  constructor
  · rintro ⟨x, hx, rfl⟩
    exact ⟨x, (h.live x).mp hx, (h.pgdir x).symm⟩
  · rintro ⟨x, hx, rfl⟩
    exact ⟨x, (h.live x).mpr hx, h.pgdir x⟩

theorem MemSame.trans (h : MemSame k k₁) (h' : MemSame k₁ k') : MemSame k k' where
  pm := h'.pm.trans h.pm
  link := h'.link.trans h.link
  live x := (h'.live x).trans (h.live x)
  dir x := ⟨(h'.dir x).1.trans (h.dir x).1, (h'.dir x).2.trans (h.dir x).2⟩

theorem EnvMem.same (h : EnvMem boot marked k.unqueued) (hs : MemSame k k') :
    EnvMem boot marked k'.unqueued := by
  refine ⟨h.acc.unqueued hs.link hs.live, ?_, fun x hx => ?_, fun x y hx hy hxy => ?_, ?_⟩
  · show PmapSound boot (RpiMos.liveDirs k') k'.pm
    rw [hs.liveDirs, hs.pm]
    exact h.sound
  · have hdir := h.dir x ((hs.live x).mp hx)
    show (k'.envs x).pgdir = some (k'.pgdir x) ∧
      (k'.envs x).pgdir_pa = BitVec.ofNat 64 (k'.pgdir x <<< 12)
    rw [hs.pgdir, (hs.dir x).1, (hs.dir x).2]
    exact hdir
  · have hxy' : k'.pgdir x = k'.pgdir y := hxy
    rw [hs.pgdir, hs.pgdir] at hxy'
    exact h.inj x y ((hs.live x).mp hx) ((hs.live y).mp hy) hxy'
  · show ∀ p < NPAGE, marked p → visBit k'.pm p = true
    rw [hs.pm]
    exact h.kept

/-- With every environment in use in hand the lists are empty anyway. -/
theorem EnvMem.unqueued (h : EnvMem boot marked k) : EnvMem boot marked k.unqueued := by
  obtain ⟨F, S, ha⟩ := h.acc
  have hnone : ∀ i, S i = [] := by
    intro i
    refine List.eq_nil_iff_forall_not_mem.mpr fun x hx => ?_
    obtain ⟨hlive, hheld⟩ := (ha.queued_iff x).mp ⟨i, hx⟩
    exact hheld hlive
  have hempty : S = fun _ => [] := funext hnone
  refine ⟨⟨F, S, ha.free, ?_, ha.free_iff, ha.queued_iff, ha.held_live⟩, h.sound, h.dir, h.inj, h.kept⟩
  rw [hempty]
  exact ⟨fun _ => ⟨trivial, rfl⟩, fun _ => List.nodup_nil, fun hx => by cases hx⟩

theorem envAlloc_unqueued {r : Option EnvPtr} {q : U32} (h : envAlloc img k q = .ok (r, k')) :
    envAlloc img k.unqueued q = .ok (r, k'.unqueued) := by
  have hlink : k.unqueued.link = k.link := rfl
  have hpm : k.unqueued.pm = k.pm := rfl
  unfold envAlloc at h ⊢
  rw [hlink, hpm]
  cases hfirst : k.link.first () with
  | none =>
      rw [hfirst] at h
      cases h
      rfl
  | some e =>
      simp only [hfirst] at h ⊢
      cases hrem : k.link.remove e with
      | none =>
          rw [hrem] at h
          cases h
      | some l =>
          cases hvm : envSetupVm img.init_end k.pm with
          | none =>
              rw [hrem, hvm] at h
              cases h
          | some y =>
              rw [hrem, hvm] at h
              cases h
              rfl

theorem envFree_unqueued (h : envFree k e = .ok k') : envFree k.unqueued e = .ok k'.unqueued := by
  have henvs : k.unqueued.envs = k.envs := rfl
  have hpm : k.unqueued.pm = k.pm := rfl
  unfold envFree at h ⊢
  rw [henvs, hpm]
  cases hd : (k.envs e).pgdir with
  | none =>
      rw [hd] at h
      cases h
  | some d =>
      simp only [hd] at h ⊢
      generalize envFreeVm d (k.envs e).pgdir_pa k.pm = pm at h ⊢
      cases h
      rfl

/-! ## Tame calls -/

/-- What the call edits an entry with has no page-number bits, the entry is not one
    of the self-map window, nor is the page sent from there; page 0 keeps a
    reference, if it has one; and no block is read into a table. -/
def Syscall.Tame (k : Kernel) (c : EnvPtr) : Syscall → Prop
  | .sys_mem_alloc envid va perm =>
      perm &&& pageNumberBits = 0 ∧ GET_L1_INDEX va ≠ uvptIndex ∧
        ∀ e, envid2env (k.enter c) envid true = some e → ¬ LastRef k.pm (k.pgdir e) va 0
  | .sys_mem_map _ _ dstid dstva perm =>
      perm &&& pageNumberBits = 0 ∧ GET_L1_INDEX dstva ≠ uvptIndex ∧
        ∀ e, envid2env (k.enter c) dstid false = some e → ¬ LastRef k.pm (k.pgdir e) dstva 0
  | .sys_mem_unmap envid va =>
      GET_L1_INDEX va ≠ uvptIndex ∧
        ∀ e, envid2env (k.enter c) envid false = some e → ¬ LastRef k.pm (k.pgdir e) va 0
  | .sys_env_destroy envid =>
      ∀ e, envid2env (k.enter c) envid true = some e → EnvOp.Tame k (.env_free e)
  | .sys_set_env_status envid status => statusOf status = some .ENV_FREE →
      ∀ e, envid2env (k.enter c) envid true = some e → EnvOp.Tame k (.env_free e)
  | .sys_ipc_can_send envid _ srcva perm =>
      ∀ e, sendTarget (k.enter c) envid srcva = some e → srcva ≠ 0 →
        perm &&& pageNumberBits = 0 ∧ GET_L1_INDEX srcva ≠ uvptIndex ∧
        GET_L1_INDEX (k.envs e).ipc_dstva ≠ uvptIndex ∧
        ¬ LastRef k.pm (k.pgdir e) (k.envs e).ipc_dstva 0
  | .sys_read_sd va _ => ∀ p, backs (k.enter c) c va p = true → ¬ IsTable k.pm (liveDirs k) p
  | _ => True

theorem memSame_setReg0 (k : Kernel) (w : Word) : MemSame k (k.setReg0 w) :=
  ⟨rfl, rfl, fun _ => Iff.rfl, fun _ => ⟨rfl, rfl⟩⟩

theorem memSame_enter (k : Kernel) (c : EnvPtr) : MemSame k (k.enter c) :=
  ⟨rfl, rfl, fun _ => Iff.rfl, fun _ => ⟨rfl, rfl⟩⟩

/-- Changing an environment in use, without freeing it and on the same directory. -/
theorem memSame_updEnv {f : Env → Env} (hlive : k.Live e)
    (hst : (f (k.envs e)).status ≠ .ENV_FREE)
    (hdir : (f (k.envs e)).pgdir = (k.envs e).pgdir ∧ (f (k.envs e)).pgdir_pa = (k.envs e).pgdir_pa) :
    MemSame k (k.updEnv e f) := by
  refine ⟨rfl, rfl, fun x => ?_, fun x => ?_⟩
  · rw [Kernel.Live, Kernel.updEnv_envs]
    by_cases hx : x = e
    · rw [if_pos hx, hx]
      exact iff_of_true hst hlive
    · rw [if_neg hx]
      rfl
  · rw [Kernel.updEnv_envs]
    by_cases hx : x = e
    · rw [if_pos hx, hx]
      exact hdir
    · rw [if_neg hx]
      exact ⟨rfl, rfl⟩

theorem memSame_of_only (h : SchedOnly k k') : MemSame k k' := by
  obtain ⟨l, m, p, rfl⟩ := h
  exact ⟨rfl, rfl, fun _ => Iff.rfl, fun _ => ⟨rfl, rfl⟩⟩

theorem memSame_dispatch (h : Dispatch k k') : MemSame k k' := by
  obtain ⟨k₀, e, honly, -, rfl⟩ := h
  refine (memSame_of_only honly).trans ⟨envRun_pm _ _, (envRun_links _ _).1, fun x => ?_, fun x => ?_⟩
  · obtain ⟨tf, runs, hx⟩ := envRun_sameEnv k₀ e x
    rw [Kernel.Live, hx]
    rfl
  · obtain ⟨tf, runs, hx⟩ := envRun_sameEnv k₀ e x
    rw [hx]
    exact ⟨rfl, rfl⟩

theorem lastRef_rounddown : LastRef s d (ROUNDDOWN va) p ↔ LastRef s d va p := by
  unfold LastRef
  rw [mapping_congr_page (ROUNDDOWN_pageIdx va)]

/-! ## Steps -/

section Steps

variable (hb : BootRefs boot marked) (hend : img.init_end / 4096 ≤ NPAGE)
  (hmark : ∀ p < img.init_end / 4096, marked p) (h : EnvMem boot marked k.unqueued)

include hb hend hmark h

theorem mem_insert {pp : Nat} (he : k.Live e) (hpp : pp < NPAGE) (hvis : visBit k.pm pp = true)
    (hperm : perm &&& pageNumberBits = 0) (hva : GET_L1_INDEX va ≠ uvptIndex)
    (hlast : ¬ LastRef k.pm (k.pgdir e) va 0) :
    EnvMem boot marked (k.setPm (pageInsert k.pm (k.pgdir e) pp va perm).2).unqueued := by
  have hstep : envOpStep img k.unqueued (.page_insert e pp va perm)
      (k.setPm (pageInsert k.pm (k.pgdir e) pp va perm).2).unqueued := ⟨he, hpp, rfl⟩
  have htame : EnvOp.Tame k.unqueued (.page_insert e pp va perm) :=
    ⟨hperm, hva, hvis, fun hl => hlast hl.1⟩
  exact envOpStep_mem hb h hend hmark htame hstep

theorem mem_remove (he : k.Live e) (hva : GET_L1_INDEX va ≠ uvptIndex)
    (hlast : ¬ LastRef k.pm (k.pgdir e) va 0) :
    EnvMem boot marked (k.setPm (pageRemove k.pm (k.pgdir e) va)).unqueued := by
  have hstep : envOpStep img k.unqueued (.page_remove e va)
      (k.setPm (pageRemove k.pm (k.pgdir e) va)).unqueued := ⟨he, rfl⟩
  have htame : EnvOp.Tame k.unqueued (.page_remove e va) := ⟨hva, hlast⟩
  exact envOpStep_mem hb h hend hmark htame hstep

theorem mem_envAlloc {r : Option EnvPtr} {q : U32} (hexec : envAlloc img k q = .ok (r, k')) :
    EnvMem boot marked k'.unqueued := by
  have hstep : envOpStep img k.unqueued (.env_alloc q) k'.unqueued := ⟨r, envAlloc_unqueued hexec⟩
  have htame : EnvOp.Tame k.unqueued (.env_alloc q) := trivial
  exact envOpStep_mem hb h hend hmark htame hstep

theorem mem_envFree (he : k.Live e) (htame : EnvOp.Tame k (.env_free e))
    (hexec : envFree k e = .ok k') : EnvMem boot marked k'.unqueued := by
  have hstep : envOpStep img k.unqueued (.env_free e) k'.unqueued := ⟨he, envFree_unqueued hexec⟩
  have htame' : EnvOp.Tame k.unqueued (.env_free e) := htame
  exact envOpStep_mem hb h hend hmark htame' hstep

theorem mem_destroys {back : Kernel → Kernel} (he : k.Live e) (htame : EnvOp.Tame k (.env_free e))
    (hback : ∀ k₁, ¬ k₁.Live e → MemSame k₁ (back k₁)) (hd : Destroys k e back k') :
    EnvMem boot marked k'.unqueued := by
  obtain ⟨k₁, hfree, hend'⟩ := hd
  have h₁ := mem_envFree hb hend hmark h he htame hfree
  obtain ⟨d, hfreed⟩ := envFree_cases hfree
  rcases hend' with ⟨-, rfl⟩ | ⟨-, hnext⟩
  · exact h₁.same (hback k₁ fun hl => hl hfreed.status)
  · have hcur : MemSame k₁ { k₁ with curenv := none } :=
      ⟨rfl, rfl, fun _ => Iff.rfl, fun _ => ⟨rfl, rfl⟩⟩
    exact h₁.same (hcur.trans (memSame_dispatch hnext))

theorem mem_alloc (hc : k.Live c) (hcur : k.curenv = some c)
    (hperm : perm &&& pageNumberBits = 0) (hva : GET_L1_INDEX va ≠ uvptIndex)
    (hlast : ∀ e, envid2env k envid true = some e → ¬ LastRef k.pm (k.pgdir e) va 0) :
    EnvMem boot marked (sysMemAlloc k envid va perm).unqueued := by
  rcases sysMemAlloc_cases k envid va perm with heq | ⟨e, pp, pm, henv, halloc, heq⟩
  · rw [heq]
    exact h.same (memSame_setReg0 _ _)
  · rw [heq]
    have he := live_of_envid2env hc hcur henv
    obtain ⟨hpp, hfree, hvis, hmono, hpages, -⟩ := pageAlloc_spec halloc
    obtain ⟨hsound, hgrown⟩ := h.sound.pageAlloc halloc
    have h₁ : EnvMem boot marked (k.setPm pm).unqueued :=
      h.setPm hsound fun p hp hm => visBit_pageAlloc halloc (h.kept p hp hm)
    have hmap : mapping pm (k.pgdir e) va = mapping k.pm (k.pgdir e) va :=
      hgrown.map_eq (pgdir_mem_liveDirs he) hva
    have hlast₁ : ¬ LastRef pm (k.pgdir e) va 0 := by
      rintro ⟨w, hw, hframe, href⟩
      exact hlast e henv ⟨w, hmap ▸ hw, hframe, hpages ▸ href⟩
    have h₂ := mem_insert (k := k.setPm pm) hb hend hmark h₁ he hpp hvis hperm hva hlast₁
    exact h₂.same (memSame_setReg0 _ _)

theorem mem_map {srcid : U32} {srcva : Word} (hc : k.Live c) (hcur : k.curenv = some c)
    (hperm : perm &&& pageNumberBits = 0) (hva : GET_L1_INDEX va ≠ uvptIndex)
    (hlast : ∀ e, envid2env k envid false = some e → ¬ LastRef k.pm (k.pgdir e) va 0) :
    EnvMem boot marked (sysMemMap k srcid srcva envid va perm).unqueued := by
  rcases sysMemMap_cases k srcid srcva envid va perm with
    heq | ⟨srcenv, e, q, t, i, hsrc, hdst, hlook, heq⟩
  · rw [heq]
    exact h.same (memSame_setReg0 _ _)
  · rw [heq]
    have hsrcLive := live_of_envid2env hc hcur hsrc
    have he := live_of_envid2env hc hcur hdst
    -- The source slot is a valid entry of some table, so its page is in use.
    obtain ⟨hslot, hvalid⟩ := pageLookup_slot hlook
    have hsrcDir : k.pgdir srcenv ∈ liveDirs k.unqueued := pgdir_mem_liveDirs hsrcLive
    have hused : visBit k.pm (pteFrame (k.pm.mem t i)) = true :=
      h.sound.visBit_named (leafSlot_isTable h.sound.tables hsrcDir hslot) (leafSlot_lt hslot).2 hvalid
    rw [pa2page_PTE_ADDR]
    have hva' : GET_L1_INDEX (ROUNDDOWN va) ≠ uvptIndex := by
      rw [ROUNDDOWN_L1]
      exact hva
    have hlast' : ¬ LastRef k.pm (k.pgdir e) (ROUNDDOWN va) 0 := by
      rw [lastRef_rounddown]
      exact hlast e hdst
    have h₁ := mem_insert hb hend hmark h he (pteFrame_lt _) hused hperm hva' hlast'
    exact h₁.same (memSame_setReg0 _ _)

theorem mem_unmap (hc : k.Live c) (hcur : k.curenv = some c) (hva : GET_L1_INDEX va ≠ uvptIndex)
    (hlast : ∀ e, envid2env k envid false = some e → ¬ LastRef k.pm (k.pgdir e) va 0) :
    EnvMem boot marked (sysMemUnmap k envid va).unqueued := by
  rcases sysMemUnmap_cases k envid va with heq | ⟨e, henv, heq⟩
  · rw [heq]
    exact h.same (memSame_setReg0 _ _)
  · rw [heq]
    exact mem_remove hb hend hmark h (live_of_envid2env hc hcur henv) hva (hlast e henv)

theorem mem_send {value srcva : Word} (hc : k.Live c) (hcur : k.curenv = some c)
    (htame : ∀ e, sendTarget k envid srcva = some e → srcva ≠ 0 →
      perm &&& pageNumberBits = 0 ∧ GET_L1_INDEX srcva ≠ uvptIndex ∧
      GET_L1_INDEX (k.envs e).ipc_dstva ≠ uvptIndex ∧
      ¬ LastRef k.pm (k.pgdir e) (k.envs e).ipc_dstva 0) :
    EnvMem boot marked (sysIpcCanSend k c envid value srcva perm).unqueued := by
  cases htarget : sendTarget k envid srcva with
  | none =>
      obtain ⟨r, -, hcall⟩ := sysIpcCanSend_none c value perm htarget
      rw [hcall]
      exact h.same (memSame_setReg0 _ _)
  | some e =>
      have he := live_of_envid2env hc hcur (sendTarget_eq_some htarget).1
      rw [sysIpcCanSend_some c value perm htarget]
      have hmail : MemSame k (k.updEnv e (ipcDeliver (k.envs c).id value perm)) :=
        memSame_updEnv he (by rintro ⟨⟩) ⟨rfl, rfl⟩
      have hpage : EnvMem boot marked (k.setPm (ipcMap k c e srcva perm).1).unqueued := by
        unfold ipcMap
        by_cases h0 : srcva = 0
        · rw [if_pos h0]
          exact h
        · rw [if_neg h0]
          cases hlook : pageLookup k.pm (k.pgdir c) srcva with
          | none => exact h
          | some y =>
              obtain ⟨q, t, i⟩ := y
              obtain ⟨hperm, hsrc, hva, hlast⟩ := htame e htarget h0
              have hcDir : k.pgdir c ∈ liveDirs k.unqueued := pgdir_mem_liveDirs hc
              obtain ⟨hm, hq⟩ := h.sound.lookup_eq hcDir hsrc hlook
              have hused := h.sound.mapped_used hcDir hm
              rw [← hq] at hused
              have hlt : q < NPAGE := hq ▸ pteFrame_lt _
              exact mem_insert hb hend hmark h he hlt hused hperm hva hlast
      refine hpage.same ((MemSame.trans ?_ (memSame_setReg0 _ _)))
      exact ⟨rfl, hmail.link, hmail.live, hmail.dir⟩

omit hb hend hmark in
theorem mem_readSd (hback : ∀ p, backs k c va p = true → ¬ IsTable k.pm (liveDirs k) p) :
    EnvMem boot marked (sysReadSd k c va ans).unqueued := by
  unfold sysReadSd
  by_cases hrange : va ≥ KERNBASE
  · rw [if_pos hrange]
    exact h.same (memSame_setReg0 _ _)
  · rw [if_neg hrange]
    have hkept : ∀ t, IsTable k.pm (liveDirs k) t → (sdFill k c va ans.buffer).mem t = k.pm.mem t :=
      fun t ht => sdFill_mem fun hp => hback t hp ht
    have hsound : PmapSound boot (liveDirs k) (sdFill k c va ans.buffer) :=
      PmapSound.of_tables h.sound hkept rfl rfl
    have h₁ : EnvMem boot marked (k.setPm (sdFill k c va ans.buffer)).unqueued :=
      h.setPm hsound h.kept
    exact h₁.same (memSame_setReg0 _ _)

/-- A tame call keeps memory in order. -/
theorem mem_exec {call : Syscall} (hc : k.Live c) (hcur : k.curenv = some c)
    (htame : call.Tame k c) (hexec : call.exec img envs ans n k c = .ok k') :
    EnvMem boot marked k'.unqueued := by
  have henter : k.enter c = k := by
    rw [Kernel.enter, ← hcur]
  cases call with
  | sys_putchar ch =>
      cases hexec
      exact h
  | sys_getc =>
      cases hexec
      exact h.same (memSame_setReg0 _ _)
  | sys_getenvid =>
      cases hexec
      exact h.same (memSame_setReg0 _ _)
  | sys_yield => exact h.same (memSame_dispatch (sysYield_dispatch hexec))
  | sys_env_destroy envid =>
      rcases sysEnvDestroy_cases hexec with rfl | ⟨e, henv, hd⟩
      · exact h.same (memSame_setReg0 _ _)
      · have he := live_of_envid2env hc hcur henv
        exact mem_destroys hb hend hmark h he (htame e (henter.symm ▸ henv))
          (fun k₁ _ => memSame_setReg0 k₁ 0) hd
  | sys_set_pgfault_handler envid func xstacktop =>
      cases hexec
      unfold sysSetPgfaultHandler
      cases henv : envid2env k envid true with
      | none => exact h.same (memSame_setReg0 _ _)
      | some e =>
          have he := live_of_envid2env hc hcur henv
          have hupd : MemSame k (k.updEnv e fun env =>
              { env with pgfault_handler := func, xstacktop := xstacktop }) :=
            memSame_updEnv he he ⟨rfl, rfl⟩
          exact h.same (hupd.trans (memSame_setReg0 _ _))
  | sys_mem_alloc envid va perm =>
      cases hexec
      obtain ⟨hperm, hva, hlast⟩ := htame
      exact mem_alloc hb hend hmark h hc hcur hperm hva (henter ▸ hlast)
  | sys_mem_map srcid srcva dstid dstva perm =>
      cases hexec
      obtain ⟨hperm, hva, hlast⟩ := htame
      exact mem_map hb hend hmark h hc hcur hperm hva (henter ▸ hlast)
  | sys_mem_unmap envid va =>
      cases hexec
      obtain ⟨hva, hlast⟩ := htame
      exact mem_unmap hb hend hmark h hc hcur hva (henter ▸ hlast)
  | sys_env_alloc =>
      rcases sysEnvAlloc_cases hexec with ⟨k₁, halloc, rfl⟩ | ⟨e, k₁, k₂, w, halloc, hins, rfl⟩
      · exact (mem_envAlloc hb hend hmark h halloc).same (memSame_setReg0 _ _)
      · have h₁ := mem_envAlloc hb hend hmark h halloc
        have he : k₁.Live e := by
          rcases envAlloc_cases halloc with ⟨hr, -⟩ | ⟨e', d, hr, hnew⟩
          · cases hr
          · cases hr
            rw [Kernel.Live, hnew.status]
            rintro ⟨⟩
        have hchild : MemSame k₁ (envChild k₁ c e) := memSame_updEnv he (by rintro ⟨⟩) ⟨rfl, rfl⟩
        have hqueue := memSame_of_only (schedInsertTail_only hins)
        exact h₁.same ((hchild.trans hqueue).trans (memSame_setReg0 _ _))
  | sys_set_env_status envid status =>
      rcases sysSetEnvStatus_cases hexec with rfl | ⟨st, e, hst, henv, hset⟩
      · exact h.same (memSame_setReg0 _ _)
      · have he := live_of_envid2env hc hcur henv
        rcases hset with ⟨hne, rfl⟩ | ⟨rfl, hd⟩
        · have hupd : MemSame k (k.updEnv e fun env => { env with status := st }) :=
            memSame_updEnv he hne ⟨rfl, rfl⟩
          exact h.same (hupd.trans (memSame_setReg0 _ _))
        · refine mem_destroys hb hend hmark h he (htame hst e (henter.symm ▸ henv))
            (fun k₁ hfree => ?_) hd
          -- The status is set again to what it is already.
          refine ⟨rfl, rfl, fun x => ?_, fun x => ?_⟩
          · show (if x = e then _ else k₁.envs x : Env).status ≠ .ENV_FREE ↔ k₁.Live x
            by_cases hx : x = e
            · rw [if_pos hx, hx]
              exact iff_of_false (fun hne => hne rfl) hfree
            · rw [if_neg hx]
              rfl
          · show (if x = e then _ else k₁.envs x : Env).pgdir = _ ∧
              (if x = e then _ else k₁.envs x : Env).pgdir_pa = _
            by_cases hx : x = e
            · rw [if_pos hx]
              exact ⟨rfl, rfl⟩
            · rw [if_neg hx]
              exact ⟨rfl, rfl⟩
  | sys_set_trapframe envid =>
      cases hexec
      exact h.same (memSame_setReg0 _ _)
  | sys_panic msg => cases hexec
  | sys_ipc_recv dstva =>
      by_cases hdst : dstva ≥ KERNBASE
      · have hsame : sysIpcRecv n k c dstva = .ok k := if_pos hdst
        have hexec' : sysIpcRecv n k c dstva = .ok k' := hexec
        rw [hsame] at hexec'
        cases hexec'
        exact h
      · have hblock : MemSame k (ipcRecvBlock k c dstva) :=
          memSame_updEnv hc (by rintro ⟨⟩) ⟨rfl, rfl⟩
        have hnext := sysIpcRecv_dispatch (BitVec.not_le.mp hdst) hexec
        exact h.same (hblock.trans (memSame_dispatch hnext))
  | sys_ipc_can_send envid value srcva perm =>
      cases hexec
      exact mem_send hb hend hmark h hc hcur (henter ▸ htame)
  | sys_get_envs =>
      cases hexec
      exact h.same (memSame_setReg0 _ _)
  | sys_write_sd va secno =>
      cases hexec
      unfold sysWriteSd
      split
      · exact h.same (memSame_setReg0 _ _)
      · split
        · exact h.same (memSame_setReg0 _ _)
        · exact h.same (memSame_setReg0 _ _)
  | sys_read_sd va secno =>
      have hk' : sysReadSd k c va ans = k' := Res.ok.inj hexec
      rw [← hk']
      exact mem_readSd h (henter ▸ htame)
  | sys_get_pageref num =>
      cases hexec
      unfold sysGetPageref
      split
      · exact h.same (memSame_setReg0 _ _)
      · exact h.same (memSame_setReg0 _ _)

end Steps

end RpiMos
