/-
  RpiMos.Kernel.SchedLists

  The free list and the two scheduling lists over whole runs.  `Accounted`
  ties the lists to the status of every environment, up to the environments a
  function has in hand; one specification lemma for each function of env.c,
  sched.c and the handlers that move environments, and then the run theorem.
-/

import RpiMos.Kernel.Syscall
import RpiMos.Lib.Run
import Mathlib.Data.Fintype.Card
import Mathlib.Data.List.FinRange

namespace RpiMos

open Lib Links

variable {k k' : Kernel} {img : Image} {e c x : EnvPtr} {i j : Fin 2} {n : Nat}
  {held : EnvPtr → Prop} {F : List EnvPtr} {S : Fin 2 → List EnvPtr}

/-! ## The invariant -/

/-- The lists `F` and `S` are what the links store; a free environment is in `F`,
    any other is in one of the scheduling lists or in hand. -/
structure Accounted (k : Kernel) (held : EnvPtr → Prop) (F : List EnvPtr)
    (S : Fin 2 → List EnvPtr) : Prop where
  free : k.link.Represents fun _ => F
  sched : k.sched_link.Represents S
  free_iff : ∀ e, e ∈ F ↔ (k.envs e).status = .ENV_FREE
  queued_iff : ∀ e, (∃ i, e ∈ S i) ↔ (k.envs e).status ≠ .ENV_FREE ∧ ¬ held e
  held_live : ∀ e, held e → (k.envs e).status ≠ .ENV_FREE

/-- The environment that runs is the one in hand between two system calls. -/
def Acc (k : Kernel) (held : EnvPtr → Prop) : Prop := ∃ F S, Accounted k held F S

def isCur (k : Kernel) (e : EnvPtr) : Prop := k.curenv = some e

/-- What the lists promise in every state a system call starts or ends in. -/
def SchedListsOk (k : Kernel) : Prop :=
  ∃ F S, k.link.Represents (fun _ : Unit => F) ∧ k.sched_link.Represents S ∧
    (∀ e, (k.envs e).status ≠ .ENV_FREE → k.curenv = some e ∨ ∃ i, e ∈ S i) ∧
    (∀ i, ∀ e ∈ S i, (k.envs e).status ≠ .ENV_FREE)

theorem Acc.schedListsOk (h : Acc k (isCur k)) : SchedListsOk k := by
  obtain ⟨F, S, ha⟩ := h
  refine ⟨F, S, ha.free, ha.sched, fun e he => ?_, fun i e he => ((ha.queued_iff e).mp ⟨i, he⟩).1⟩
  by_cases hc : k.curenv = some e
  · exact Or.inl hc
  · exact Or.inr ((ha.queued_iff e).mpr ⟨he, hc⟩)

/-- The invariant reads the links and the statuses only. -/
theorem Accounted.congr {held' : EnvPtr → Prop} (ha : Accounted k held F S)
    (hl : k'.link = k.link) (hs : k'.sched_link = k.sched_link)
    (hst : ∀ e, (k'.envs e).status = (k.envs e).status)
    (hh : ∀ e, held' e ↔ held e) : Accounted k' held' F S where
  free := hl ▸ ha.free
  sched := hs ▸ ha.sched
  free_iff e := by rw [hst, ha.free_iff]
  queued_iff e := by rw [hst, hh, ha.queued_iff]
  held_live e he := by rw [hst]; exact ha.held_live e ((hh e).mp he)

theorem Accounted.length_le (ha : Accounted k held F S) (i : Fin 2) : (S i).length ≤ NENV := by
  have h := (ha.sched.nodup i).length_le_card
  rwa [Fintype.card_fin] at h

/-- An environment in hand is in no scheduling list. -/
theorem Accounted.not_mem (ha : Accounted k held F S) (he : held e) (i : Fin 2) : e ∉ S i :=
  fun hi => ((ha.queued_iff e).mp ⟨i, hi⟩).2 he

/-! ## Queue operations -/

/-- Putting the environment in hand at the back of a list always ends. -/
theorem schedInsertTail_spec (ha : Accounted k held F S) (he : held e) (i : Fin 2) :
    ∃ l, schedInsertTail k i e = .ok { k with sched_link := l } ∧
      Accounted { k with sched_link := l } (fun x => held x ∧ x ≠ e) F
        (Function.update S i (S i ++ [e])) := by
  obtain ⟨l, hins, hr⟩ := ha.sched.insertTail (n := NENV) (fun j => ha.not_mem he j) i
    (ha.length_le i)
  refine ⟨l, by rw [schedInsertTail, hins], ha.free, hr, ha.free_iff, fun x => ?_,
    fun x hx => ha.held_live x hx.1⟩
  have hmem : (∃ j, x ∈ Function.update S i (S i ++ [e]) j) ↔ (∃ j, x ∈ S j) ∨ x = e := by
    simp only [mem_update, List.mem_append, List.mem_singleton]
    constructor
    · rintro ⟨j, ⟨-, hx | rfl⟩ | ⟨-, hx⟩⟩
      · exact Or.inl ⟨i, hx⟩
      · exact Or.inr rfl
      · exact Or.inl ⟨j, hx⟩
    · rintro (⟨j, hx⟩ | rfl)
      · by_cases hj : j = i
        · subst hj
          exact ⟨j, Or.inl ⟨rfl, Or.inl hx⟩⟩
        · exact ⟨j, Or.inr ⟨hj, hx⟩⟩
      · exact ⟨i, Or.inl ⟨rfl, Or.inr rfl⟩⟩
  rw [hmem, ha.queued_iff]
  by_cases hxe : x = e
  · subst hxe
    simp [ha.held_live x he]
  · simp [hxe]

/-- Taking an environment out of a list puts it in hand. -/
theorem sched_remove_spec (ha : Accounted k held F S) (hi : e ∈ S i) :
    ∃ l, k.sched_link.remove e = some l ∧
      Accounted { k with sched_link := l } (fun x => held x ∨ x = e) F
        (Function.update S i ((S i).erase e)) := by
  obtain ⟨l, hrem, hr⟩ := ha.sched.remove hi
  have hlive := (ha.queued_iff e).mp ⟨i, hi⟩
  refine ⟨l, hrem, ha.free, hr, ha.free_iff, fun x => ?_, fun x hx => ?_⟩
  · have hmem : (∃ j, x ∈ Function.update S i ((S i).erase e) j) ↔ (∃ j, x ∈ S j) ∧ x ≠ e := by
      simp only [mem_update, (ha.sched.nodup i).mem_erase_iff]
      constructor
      · rintro ⟨j, ⟨-, hne, hx⟩ | ⟨hj, hx⟩⟩
        · exact ⟨⟨i, hx⟩, hne⟩
        · refine ⟨⟨j, hx⟩, ?_⟩
          rintro rfl
          exact hj (ha.sched.disjoint hx hi)
      · rintro ⟨⟨j, hx⟩, hne⟩
        by_cases hj : j = i
        · subst hj
          exact ⟨j, Or.inl ⟨rfl, hne, hx⟩⟩
        · exact ⟨j, Or.inr ⟨hj, hx⟩⟩
    rw [hmem, ha.queued_iff]
    tauto
  · rcases hx with hx | rfl
    · exact ha.held_live x hx
    · exact hlive.1

/-! ## `sched_yield` -/

/-- Being the environment `next_env` of the loop. -/
def isNext (next_env : Option EnvPtr) (e : EnvPtr) : Prop := next_env = some e

theorem schedPutBack_spec {next_env : Option EnvPtr} (ha : Acc k (isNext next_env)) :
    (schedPutBack k next_env).Sat fun k' => Acc k' (fun _ => False) := by
  obtain ⟨F, S, ha⟩ := ha
  cases next_env with
  | none => exact ⟨F, S, ha.congr rfl rfl (fun _ => rfl) (by simp [isNext])⟩
  | some e =>
      obtain ⟨l, hins, ha'⟩ := schedInsertTail_spec ha rfl (1 - k.point)
      rw [schedPutBack, hins]
      refine ⟨F, _, ha'.congr rfl rfl (fun _ => rfl) fun x => ?_⟩
      simp [isNext, eq_comm]

theorem schedPick_spec (ha : Acc k (fun _ => False)) :
    (schedPick k).Sat fun p => Acc p.1 (isNext (some p.2)) := by
  obtain ⟨F, S, ha⟩ := ha
  unfold schedPick
  -- Only `point` changes before the front of the list is looked at.
  generalize hk₁ : (if (k.sched_link.first k.point).isNone = true then
    { k with point := 1 - k.point } else k) = k₁
  have hsame : k₁.sched_link = k.sched_link ∧ k₁.link = k.link ∧ k₁.envs = k.envs := by
    subst hk₁
    split <;> exact ⟨rfl, rfl, rfl⟩
  obtain ⟨hs, hl, henvs⟩ := hsame
  have ha₁ : Accounted k₁ (fun _ => False) F S :=
    ha.congr hl hs (fun e => by rw [henvs]) fun _ => Iff.rfl
  cases hfirst : k₁.sched_link.first k₁.point with
  | none =>
      simp only [hfirst]
      trivial
  | some e =>
      have hmem : e ∈ S k₁.point := by
        rw [ha₁.sched.first_eq] at hfirst
        exact List.mem_of_mem_head? hfirst
      obtain ⟨l, hrem, ha₂⟩ := sched_remove_spec ha₁ hmem
      simp only [hfirst, hrem]
      refine ⟨F, _, ha₂.congr rfl rfl (fun _ => rfl) fun x => ?_⟩
      simp [isNext, eq_comm]

/-- The front of the current list is taken when there is one. -/
theorem schedPick_some (ha : Accounted k held F S) {r : List EnvPtr} (hS : S k.point = e :: r) :
    ∃ l, schedPick k = .ok ({ k with sched_link := l, count := (k.envs e).pri }, e) := by
  have hfirst : k.sched_link.first k.point = some e := by
    rw [ha.sched.first_eq, hS]
    rfl
  obtain ⟨l, hrem, -⟩ := ha.sched.remove (h := k.point) (e := e) (by simp [hS])
  refine ⟨l, ?_⟩
  unfold schedPick
  simp [hfirst, hrem]

/-- One turn of the loop ends with another environment in hand, taken from the
    front of a list, or by panic. -/
theorem schedTurn_spec {next_env : Option EnvPtr} (ha : Acc k (isNext next_env)) :
    (schedTurn k next_env).Sat fun p => Acc p.1 (isNext (some p.2)) :=
  (schedPutBack_spec ha).bind fun _ => schedPick_spec

theorem envRun_status (k : Kernel) (e x : EnvPtr) :
    ((envRun k e).envs x).status = (k.envs x).status := by
  unfold envRun
  cases k.curenv with
  | none =>
      simp only [Kernel.updEnv_envs]
      split <;> rfl
  | some c =>
      simp only [Kernel.updEnv_envs]
      split <;> split <;> rfl

@[simp] theorem envRun_curenv (k : Kernel) (e : EnvPtr) : (envRun k e).curenv = some e := rfl

theorem envRun_links (k : Kernel) (e : EnvPtr) :
    (envRun k e).link = k.link ∧ (envRun k e).sched_link = k.sched_link := by
  unfold envRun
  cases k.curenv <;> exact ⟨rfl, rfl⟩

/-- However many turns it takes, the loop never loses an environment, and every
    list traversal in it ends. -/
theorem schedLoop_spec {next_env : Option EnvPtr} (ha : Acc k (isNext next_env)) :
    (schedLoop n k next_env).Sat fun k' => Acc k' (isCur k') := by
  induction n generalizing k next_env with
  | zero => trivial
  | succ n ih =>
      -- A turn of the body, and then the loop again.
      have hbody := (schedTurn_spec ha).bind (f := fun p => schedLoop n p.1 (some p.2))
        fun _ ha₁ => ih ha₁
      cases next_env with
      | none => exact hbody
      | some e =>
          unfold schedLoop
          by_cases hrun : k.count ≠ 0 ∧ (k.envs e).status = .ENV_RUNNABLE
          · simp only [if_pos hrun]
            obtain ⟨F, S, ha⟩ := ha
            obtain ⟨hl, hs⟩ := envRun_links { k with count := k.count - 1 } e
            exact ⟨F, S, ha.congr hl hs (fun x => envRun_status _ e x) fun x => Iff.rfl⟩
          · simp only [if_neg hrun]
            exact hbody

theorem schedYield_spec (ha : Acc k (isCur k)) :
    (schedYield n k).Sat fun k' => Acc k' (isCur k') :=
  schedLoop_spec ha

/-! ## Creating environments -/

/-- `env_alloc` with an environment and a page left: the first free environment
    is in hand afterwards, runnable and with a new id. -/
theorem envAlloc_some (img : Image) (ha : Accounted k held (e :: F) S) {d : Nat} {pm : Pmap}
    (hvm : envSetupVm img.init_end k.pm = some (d, pm)) (p : U32) :
    ∃ k', envAlloc img k p = .ok (some e, k') ∧ Accounted k' (fun x => held x ∨ x = e) F S ∧
      k'.pm = pm ∧ k'.curenv = k.curenv ∧ k'.next_env_id = k.next_env_id + 1 ∧
      k'.count = k.count ∧ k'.point = k.point ∧ (k'.envs e).pgdir = some d ∧
      (k'.envs e).id = mkenvid (k.next_env_id + 1) e ∧ (k'.envs e).status = .ENV_RUNNABLE ∧
      ∀ x, x ≠ e → k'.envs x = k.envs x := by
  have hfirst : k.link.first () = some e := by
    rw [ha.free.first_eq]
    rfl
  have hmem : e ∈ e :: F := by simp
  have hfree := (ha.free_iff e).mp hmem
  obtain ⟨l, hrem, hr⟩ := ha.free.remove (h := ()) hmem
  have hupd : Function.update (fun _ : Unit => e :: F) () ((e :: F).erase e) = fun _ => F := by
    funext u
    simp
  rw [hupd] at hr
  unfold envAlloc
  simp only [hfirst, hrem, hvm]
  refine ⟨_, rfl, ⟨hr, ha.sched, fun x => ?_, fun x => ?_, fun x hx => ?_⟩, rfl, rfl, rfl, rfl, rfl,
    by simp [Kernel.updEnv_envs], by simp [Kernel.updEnv_envs], by simp [Kernel.updEnv_envs],
    fun x hx => by simp [Kernel.updEnv_envs, hx]⟩
  · have hnd := List.nodup_cons.mp (ha.free.nodup ())
    by_cases hx : x = e
    · subst hx
      simp [Kernel.updEnv_envs, hnd.1]
    · have := ha.free_iff x
      simpa [hx, Kernel.updEnv_envs] using this
  · rw [ha.queued_iff]
    by_cases hx : x = e
    · subst hx
      simp [Kernel.updEnv_envs, hfree]
    · simp [hx, Kernel.updEnv_envs]
  · by_cases hxe : x = e
    · simp [hxe, Kernel.updEnv_envs]
    · have := ha.held_live x (hx.resolve_right hxe)
      simpa [hxe, Kernel.updEnv_envs] using this

/-- `env_alloc` returns -1 for want of an environment, panics for want of a page,
    or takes a free environment. -/
theorem envAlloc_spec (ha : Acc k held) (p : U32) :
    (envAlloc img k p).Sat fun r =>
      (r.1 = none ∧ r.2 = k) ∨
      ∃ e, r.1 = some e ∧ r.2.curenv = k.curenv ∧ ¬ held e ∧ Acc r.2 (fun x => held x ∨ x = e) := by
  obtain ⟨F, S, ha⟩ := ha
  cases F with
  | nil =>
      have hfirst : k.link.first () = none := by
        rw [ha.free.first_eq]
        rfl
      rw [envAlloc, hfirst]
      exact Or.inl ⟨rfl, rfl⟩
  | cons e F =>
      cases hvm : envSetupVm img.init_end k.pm with
      | none =>
          have hfirst : k.link.first () = some e := by
            rw [ha.free.first_eq]
            rfl
          rw [envAlloc, hfirst]
          simp only [hvm]
          split <;> trivial
      | some y =>
          obtain ⟨k', heq, ha', -, hcur, -⟩ := envAlloc_some img ha hvm p
          rw [heq]
          exact Or.inr ⟨e, rfl, hcur, fun he => ha.held_live e he ((ha.free_iff e).mp (by simp)),
            F, S, ha'⟩

/-- Changing an environment in use without freeing it. -/
theorem Acc.updEnv (ha : Acc k held) {f : Env → Env} (hlive : (k.envs e).status ≠ .ENV_FREE)
    (hf : (f (k.envs e)).status ≠ .ENV_FREE) : Acc (k.updEnv e f) held := by
  obtain ⟨F, S, ha⟩ := ha
  refine ⟨F, S, ha.free, ha.sched, fun x => ?_, fun x => ?_, fun x hx => ?_⟩
  · rw [ha.free_iff, Kernel.updEnv_envs]
    by_cases hx : x = e
    · subst hx
      simp [hf, hlive]
    · simp [hx]
  · rw [ha.queued_iff, Kernel.updEnv_envs]
    by_cases hx : x = e
    · subst hx
      simp [hf, hlive]
    · simp [hx]
  · rw [Kernel.updEnv_envs]
    by_cases hxe : x = e
    · subst hxe
      simpa using hf
    · simpa [hxe] using ha.held_live x hx

/-- Changing anything but a status. -/
theorem Acc.updEnv_of_status (ha : Acc k held) {f : Env → Env}
    (hf : ∀ env, (f env).status = env.status) (e : EnvPtr) : Acc (k.updEnv e f) held := by
  obtain ⟨F, S, ha⟩ := ha
  refine ⟨F, S, ha.congr rfl rfl (fun x => ?_) fun _ => Iff.rfl⟩
  rw [Kernel.updEnv_envs]
  split
  · exact hf _
  · rfl

theorem Acc.congr {held' : EnvPtr → Prop} (ha : Acc k held) (hl : k'.link = k.link)
    (hs : k'.sched_link = k.sched_link) (hst : ∀ e, (k'.envs e).status = (k.envs e).status)
    (hh : ∀ e, held' e ↔ held e) : Acc k' held' := by
  obtain ⟨F, S, ha⟩ := ha
  exact ⟨F, S, ha.congr hl hs hst hh⟩

/-- The queueing step that ends both ways of creating an environment. -/
theorem schedInsertTail_acc (ha : Acc k (fun x => isCur k x ∨ x = e)) (he : ¬ isCur k e)
    (i : Fin 2) : (schedInsertTail k i e).Sat fun k' => Acc k' (isCur k') := by
  obtain ⟨F, S, ha⟩ := ha
  obtain ⟨l, hins, ha'⟩ := schedInsertTail_spec ha (Or.inr rfl) i
  rw [hins]
  refine ⟨F, _, ha'.congr rfl rfl (fun _ => rfl) fun x => ?_⟩
  constructor
  · intro hx
    refine ⟨Or.inl hx, ?_⟩
    rintro rfl
    exact he hx
  · rintro ⟨hx | hx, hne⟩
    · exact hx
    · exact absurd hx hne

theorem Acc.live (ha : Acc k held) (he : held e) : (k.envs e).status ≠ .ENV_FREE := by
  obtain ⟨F, S, ha⟩ := ha
  exact ha.held_live e he

theorem Acc.first_free (ha : Acc k held) (hfirst : k.link.first () = some e) :
    ¬ (k.envs e).status ≠ .ENV_FREE := by
  obtain ⟨F, S, ha⟩ := ha
  rw [ha.free.first_eq] at hfirst
  exact not_not.mpr ((ha.free_iff e).mp (List.mem_of_mem_head? hfirst))

/-- `env_alloc` called with nothing in hand but the caller. -/
theorem envAlloc_cur_spec (ha : Acc k (isCur k)) (p : U32) :
    (envAlloc img k p).Sat fun r =>
      (r.1 = none ∧ r.2 = k) ∨
      ∃ e, r.1 = some e ∧ ¬ isCur r.2 e ∧ Acc r.2 (fun x => isCur r.2 x ∨ x = e) := by
  refine (envAlloc_spec ha p).mono ?_
  rintro ⟨r, k₁⟩ (h | ⟨e, hr, hcur, hne, ha₁⟩)
  · exact Or.inl h
  · have hiff : ∀ x, isCur k₁ x ↔ isCur k x := fun x => by rw [isCur, isCur, hcur]
    exact Or.inr ⟨e, hr, fun h => hne ((hiff e).mp h),
      ha₁.congr rfl rfl (fun _ => rfl) fun x => by rw [hiff]⟩

theorem envCreatePriority_spec (ha : Acc k (isCur k)) (binary : List UInt8) (pri : U32) :
    (envCreatePriority img k binary pri).Sat fun k' => Acc k' (isCur k') := by
  refine (envAlloc_cur_spec ha 0).bind ?_
  rintro ⟨r, k₁⟩ (⟨hr, hk⟩ | ⟨e, hr, hne, ha₁⟩)
  · cases hr
    cases hk
    exact ha
  · cases hr
    -- Loading the program changes pages and fields of the new environment only.
    refine schedInsertTail_acc (e := e) ?_ ?_ 0
    · refine Acc.updEnv_of_status ?_ ?_ e
      · exact ha₁.congr rfl rfl (fun _ => rfl) fun _ => Iff.rfl
      · exact fun _ => rfl
    · exact hne

theorem sysEnvAlloc_spec (img : Image) (ha : Acc k (isCur k)) (c : EnvPtr) :
    (sysEnvAlloc img k c).Sat fun k' => Acc k' (isCur k') := by
  refine (envAlloc_cur_spec ha _).bind ?_
  rintro ⟨r, k₁⟩ (⟨hr, hk⟩ | ⟨e, hr, hne, ha₁⟩)
  · cases hr
    cases hk
    exact ha.congr rfl rfl (fun _ => rfl) fun _ => Iff.rfl
  · cases hr
    refine Res.Sat.bind (schedInsertTail_acc ?_ ?_ 0) ?_
    · exact ha₁.updEnv (ha₁.live (Or.inr rfl)) (by simp)
    · exact hne
    · intro k₂ ha₂
      exact ha₂.congr rfl rfl (fun _ => rfl) fun _ => Iff.rfl

/-! ## Destroying environments -/

/-- Freeing an environment in hand: it leaves the hand and joins the free list. -/
theorem envFree_spec (ha : Acc k held) (he : held e) :
    (envFree k e).Sat fun k' => k'.curenv = k.curenv ∧ Acc k' (fun x => held x ∧ x ≠ e) := by
  obtain ⟨F, S, ha⟩ := ha
  have hlive := ha.held_live e he
  unfold envFree
  cases hd : (k.envs e).pgdir with
  | none => trivial
  | some pgdir =>
      refine ⟨rfl, e :: F, S, ?_, ha.sched, fun x => ?_, fun x => ?_, fun x hx => ?_⟩
      · have hnot : ∀ u : Unit, e ∉ F := fun _ hmem => hlive ((ha.free_iff e).mp hmem)
        have hupd : Function.update (fun _ : Unit => F) () (e :: F) = fun _ => e :: F := by
          funext u
          simp
        rw [← hupd]
        exact ha.free.insertHead hnot ()
      · rw [List.mem_cons, ha.free_iff]
        by_cases hx : x = e <;> simp [hx, Kernel.updEnv_envs]
      · rw [ha.queued_iff]
        by_cases hx : x = e
        · subst hx
          simp [Kernel.updEnv_envs, he]
        · simp [hx, Kernel.updEnv_envs]
      · have := ha.held_live x hx.1
        simpa [hx.2, Kernel.updEnv_envs] using this

/-- An environment that destroys itself hands the processor on. -/
theorem envDestroy_self_spec (ha : Acc k (isCur k)) (hc : k.curenv = some c) :
    (envDestroy n k c).Sat fun r => r.1 = false ∧ Acc r.2 (isCur r.2) := by
  refine (envFree_spec ha hc).bind ?_
  rintro k₁ ⟨hcur, ha₁⟩
  rw [if_pos (hcur.trans hc)]
  refine Res.Sat.bind (schedYield_spec ?_) fun k₂ ha₂ => ⟨rfl, ha₂⟩
  refine ha₁.congr rfl rfl (fun _ => rfl) fun x => ?_
  simp only [isCur, hc, reduceCtorEq, Option.some.injEq, false_iff, not_and, not_not]
  exact fun h => h.symm

/-- What `envid2env` finds is in use. -/
theorem envid2env_live (ha : Acc k (isCur k)) {envid : U32} {b : Bool}
    (h : envid2env k envid b = some e) : (k.envs e).status ≠ .ENV_FREE := by
  rcases envid2env_cases h with hc | hlive
  · exact ha.live hc
  · exact hlive

/-! ## Runs -/

/-- The calls that move environments, with the caller of each system call. -/
inductive SchedOp where
  | env_create_priority (binary : List UInt8) (priority : U32)
  | sched_yield
  | sys_env_alloc (c : EnvPtr)
  | sys_set_env_status (c : EnvPtr) (envid status : U32)
  | sys_env_destroy (c : EnvPtr) (envid : U32)

def SchedOp.caller : SchedOp → Option EnvPtr
  | .sys_env_alloc c => some c
  | .sys_set_env_status c _ _ => some c
  | .sys_env_destroy c _ => some c
  | _ => none

def SchedOp.exec (img : Image) (n : Nat) (k : Kernel) : SchedOp → Res Kernel
  | .env_create_priority binary priority => envCreatePriority img k binary priority
  | .sched_yield => schedYield n k
  | .sys_env_alloc c => sysEnvAlloc img k c
  | .sys_set_env_status _ envid status => sysSetEnvStatus n k envid status
  | .sys_env_destroy _ envid => sysEnvDestroy n k envid

/-- A system call is made by the environment that runs. -/
def SchedOp.Enabled (k : Kernel) (op : SchedOp) : Prop := ∀ c, op.caller = some c → k.curenv = some c

/-- One call that comes back, to its caller or in another environment. -/
def schedStep (img : Image) (k : Kernel) (op : SchedOp) (k' : Kernel) : Prop :=
  op.Enabled k ∧ ∃ n, op.exec img n k = .ok k'

/-- The environment that the call destroys, if it destroys one. -/
def SchedOp.destroyed (k : Kernel) : SchedOp → Option EnvPtr
  | .sys_set_env_status _ envid status =>
      if statusOf status = some .ENV_FREE then envid2env k envid true else none
  | .sys_env_destroy _ envid => envid2env k envid true
  | _ => none

/-- The call destroys no environment other than the one that runs. -/
def SchedOp.DestroysSelf (k : Kernel) (op : SchedOp) : Prop :=
  ∀ e, op.destroyed k = some e → k.curenv = some e

theorem Acc.setReg0 (ha : Acc k (isCur k)) (w : Word) : Acc (k.setReg0 w) (isCur (k.setReg0 w)) :=
  ha.congr rfl rfl (fun _ => rfl) fun _ => Iff.rfl

theorem sysEnvDestroy_spec {envid : U32} (ha : Acc k (isCur k))
    (hself : ∀ e, envid2env k envid true = some e → k.curenv = some e) :
    (sysEnvDestroy n k envid).Sat fun k' => Acc k' (isCur k') := by
  unfold sysEnvDestroy
  cases henv : envid2env k envid true with
  | none => exact ha.setReg0 ERR
  | some e =>
      refine (envDestroy_self_spec ha (hself e henv)).bind ?_
      rintro ⟨b, k₁⟩ ⟨hb, ha₁⟩
      cases hb
      exact ha₁

theorem sysSetEnvStatus_spec {envid status : U32} (ha : Acc k (isCur k))
    (hself : statusOf status = some .ENV_FREE →
      ∀ e, envid2env k envid true = some e → k.curenv = some e) :
    (sysSetEnvStatus n k envid status).Sat fun k' => Acc k' (isCur k') := by
  unfold sysSetEnvStatus
  cases hst : statusOf status with
  | none => exact ha.setReg0 ERR
  | some st =>
      cases henv : envid2env k envid true with
      | none => exact ha.setReg0 ERR
      | some e =>
          by_cases hf : st = .ENV_FREE
          · subst hf
            simp only [if_true]
            refine (envDestroy_self_spec ha (hself hst e henv)).bind ?_
            rintro ⟨b, k₁⟩ ⟨hb, ha₁⟩
            cases hb
            exact ha₁
          · simp only [if_neg hf]
            exact (ha.updEnv (f := fun env => { env with status := st })
              (envid2env_live ha henv) hf).setReg0 0

/-- Every call that destroys at most its caller keeps the invariant, and all its
    list traversals end. -/
theorem SchedOp.exec_spec {op : SchedOp} (ha : Acc k (isCur k)) (hself : op.DestroysSelf k) :
    (op.exec img n k).Sat fun k' => Acc k' (isCur k') := by
  cases op with
  | env_create_priority binary priority => exact envCreatePriority_spec ha binary priority
  | sched_yield => exact schedYield_spec ha
  | sys_env_alloc c => exact sysEnvAlloc_spec img ha c
  | sys_set_env_status c envid status =>
      refine sysSetEnvStatus_spec ha fun hst e henv => hself e ?_
      rw [SchedOp.destroyed, if_pos hst, henv]
  | sys_env_destroy c envid => exact sysEnvDestroy_spec ha hself

/-! ## After `env_init` -/

/-- After the turns for the environments `l`, they are the free list. -/
theorem envInit_loop (k : Kernel) (l : List EnvPtr) (hl : l.Nodup) :
    ((l.foldr envInitTurn (envListsInit k)).link.Represents fun _ => l) ∧
    (l.foldr envInitTurn (envListsInit k)).sched_link = (envListsInit k).sched_link ∧
    (l.foldr envInitTurn (envListsInit k)).curenv = k.curenv ∧
    ∀ e ∈ l, ((l.foldr envInitTurn (envListsInit k)).envs e).status = .ENV_FREE := by
  induction l with
  | nil =>
      refine ⟨⟨fun u => ⟨trivial, rfl⟩, fun _ => List.nodup_nil, ?_⟩, rfl, rfl, by simp⟩
      intro h h' e he
      cases he
  | cons i l ih =>
      obtain ⟨hi, hl⟩ := List.nodup_cons.mp hl
      obtain ⟨hr, hs, hc, hst⟩ := ih hl
      rw [List.foldr_cons]
      refine ⟨?_, hs, hc, fun e he => ?_⟩
      · have hins := hr.insertHead (fun _ => hi) ()
        have hupd : Function.update (fun _ : Unit => l) () (i :: l) = fun _ => i :: l := by
          funext u
          simp
        rwa [hupd] at hins
      · simp only [envInitTurn, Kernel.updEnv_envs]
        split
        · rfl
        · rename_i hne
          exact hst e ((List.mem_cons.mp he).resolve_left hne)

/-- After `env_init` every environment is free, in table order, and none is in hand. -/
theorem envInit_free (k : Kernel) (held : EnvPtr → Prop)
    (hheld : ∀ e, held e → ((envInit k).envs e).status ≠ .ENV_FREE) :
    Accounted (envInit k) held (List.finRange 1024) (fun _ => []) := by
  obtain ⟨hr, hs, -, hst⟩ := envInit_loop k (List.finRange 1024) (List.nodup_finRange 1024)
  rw [← envInit] at hr hs hst
  have hfree : ∀ e, ((envInit k).envs e).status = .ENV_FREE := fun e => hst e (List.mem_finRange e)
  refine ⟨hr, ?_, fun e => ?_, fun e => ?_, hheld⟩
  · rw [hs]
    refine ⟨fun i => ⟨trivial, rfl⟩, fun _ => List.nodup_nil, ?_⟩
    intro h h' e he
    cases he
  · simp only [hfree e, iff_true]
    exact List.mem_finRange e
  · simp [hfree e]

theorem envInit_accounted (hcur : k.curenv = none) :
    Accounted (envInit k) (isCur (envInit k)) (List.finRange 1024) (fun _ => []) := by
  refine envInit_free k _ fun e he => ?_
  have hc : (envInit k).curenv = k.curenv := by
    obtain ⟨-, -, hc, -⟩ := envInit_loop k (List.finRange 1024) (List.nodup_finRange 1024)
    exact hc
  rw [isCur, hc, hcur] at he
  cases he

/-- In every run from `env_init` on in which environments are destroyed only by
    themselves, the lists are in order in every state reached, and every list
    traversal of every further such call ends. -/
theorem sched_lists_ok_of_destroysSelf (hcur : k.curenv = none) {tr : List SchedOp}
    (hrun : Run (restrict (schedStep img) fun k op => op.DestroysSelf k) (envInit k) tr k') :
    SchedListsOk k' ∧
    ∀ n (op : SchedOp), op.Enabled k' → op.DestroysSelf k' → op.exec img n k' ≠ .hang := by
  have ha : Acc k' (isCur k') := by
    refine hrun.invariant_of_restrict (P := fun k => Acc k (isCur k))
      ⟨_, _, envInit_accounted hcur⟩ ?_
    rintro k₁ op k₂ hk hself ⟨-, n, hexec⟩
    exact (SchedOp.exec_spec hk hself).of_eq_ok hexec
  exact ⟨ha.schedListsOk, fun n op _ hself => (SchedOp.exec_spec ha hself).ne_hang⟩

/-! ## A child destroyed by its parent -/

/-- Destroying a queued environment leaves a free environment in a list. -/
theorem envFree_queued (ha : Acc k (isCur k)) (hlive : (k.envs e).status ≠ .ENV_FREE)
    (he : k.curenv ≠ some e) (h : envFree k e = .ok k') : ¬ SchedListsOk k' := by
  obtain ⟨F, S, ha⟩ := ha
  obtain ⟨i, hi⟩ := (ha.queued_iff e).mpr ⟨hlive, he⟩
  unfold envFree at h
  split at h
  · cases h
  · simp only [Res.ok.injEq] at h
    rintro ⟨F', S', -, hs, -, hnf⟩
    have hS : S' = S := by
      refine hs.unique ?_
      rw [← h]
      exact ha.sched
    refine hnf i e (hS ▸ hi) ?_
    rw [← h]
    simp [Kernel.updEnv_envs]

/-- The first call of a run that destroys another environment breaks the lists. -/
theorem sysEnvDestroy_other {envid : U32} (ha : Acc k (isCur k))
    (henv : envid2env k envid true = some e) (he : k.curenv ≠ some e)
    (h : sysEnvDestroy n k envid = .ok k') : ¬ SchedListsOk k' := by
  rw [sysEnvDestroy, henv] at h
  obtain ⟨⟨b, k₁⟩, hd, hk⟩ := Res.bind_eq_ok.mp h
  obtain ⟨k₂, hfree, hk₂⟩ := Res.bind_eq_ok.mp hd
  have hcur : k₂.curenv = k.curenv := by
    unfold envFree at hfree
    split at hfree
    · cases hfree
    · cases hfree
      rfl
  rw [if_neg (by rw [hcur]; exact he)] at hk₂
  cases hk₂
  cases hk
  have hbad : ¬ SchedListsOk k₁ := envFree_queued ha (envid2env_live ha henv) he hfree
  exact hbad

/-- The other variables of the kernel are untouched by `env_init`. -/
theorem envInit_rest (k : Kernel) : (envInit k).pm = k.pm ∧ (envInit k).curenv = k.curenv ∧
    (envInit k).next_env_id = k.next_env_id ∧ (envInit k).count = k.count ∧
    (envInit k).point = k.point := by
  unfold envInit
  induction List.finRange 1024 with
  | nil => exact ⟨rfl, rfl, rfl, rfl, rfl⟩
  | cons i l ih => exact ih

/-! ### The board's first two environments -/

/-- A kernel image with a program that needs no page of its own. -/
def boardImage : Image := ⟨0x200000, fun _ _ pm => (pm, 0x80000)⟩

theorem boardBoot_clear : ClearFrom 16 4000 boardBoot :=
  fun _ hlo hhi => boardBoot_vis_zero hlo hhi

/-- Environment 0 after `env_create_priority`, queued and alone. -/
theorem board_create : ∃ k₁, envCreatePriority boardImage (envInit boardKernel) [] 1 = .ok k₁ ∧
    (∃ S : Fin 2 → List EnvPtr,
      Accounted k₁ (fun _ => False) ((List.finRange 1023).map Fin.succ) S ∧ S k₁.point = [0]) ∧
    k₁.curenv = none ∧ k₁.next_env_id = 1 ∧ (k₁.envs 0).status = .ENV_RUNNABLE ∧
    (k₁.envs 0).pri = 1 ∧ (k₁.envs 0).id = 2048 ∧ ClearFrom 1041 4000 k₁.pm := by
  obtain ⟨hpm, hcur, hnext, -, hpoint⟩ := envInit_rest boardKernel
  have ha := envInit_accounted (k := boardKernel) rfl
  have hF : List.finRange 1024 = (0 : Fin 1024) :: (List.finRange 1023).map Fin.succ :=
    List.finRange_succ
  rw [hF] at ha
  obtain ⟨d, pm, hvm, hclear⟩ : ∃ d pm, envSetupVm boardImage.init_end (envInit boardKernel).pm
      = some (d, pm) ∧ ClearFrom 1041 4000 pm := by
    rw [hpm]
    exact boardBoot_clear.envSetupVm 0x200000 (by decide) (by decide)
  obtain ⟨k₁, heq, ha₁, hpm₁, hcur₁, hnext₁, -, hpoint₁, -, hid, hst, -⟩ :=
    envAlloc_some boardImage ha hvm 0
  have ha₂ : Accounted ((k₁.setPm k₁.pm).updEnv 0 fun env =>
      { env with pri := 1, tf := { env.tf with elr_el1 := 0x80000 } }) (fun x => x = 0)
      ((List.finRange 1023).map Fin.succ) (fun _ => []) := by
    refine ha₁.congr rfl rfl (fun x => ?_) fun x => ?_
    · rw [Kernel.updEnv_envs]
      split <;> rfl
    · rw [isCur, hcur]
      simp [boardKernel]
  obtain ⟨l, hins, ha₃⟩ := schedInsertTail_spec ha₂ rfl 0
  refine ⟨_, by rw [envCreatePriority, heq]; exact hins, ⟨_, ha₃.congr rfl rfl (fun _ => rfl)
    (fun x => by simp), ?_⟩, ?_, ?_, ?_, rfl, ?_, ?_⟩
  · show Function.update (fun _ : Fin 2 => ([] : List EnvPtr)) 0 [0] k₁.point = [0]
    rw [hpoint₁, hpoint]
    rfl
  · exact hcur₁.trans hcur
  · exact hnext₁.trans (by rw [hnext]; rfl)
  · exact hst
  · show (k₁.envs 0).id = 2048
    rw [hid, hnext]
    rfl
  · show ClearFrom 1041 4000 k₁.pm
    rw [hpm₁]
    exact hclear

/-- The first yield runs environment 0. -/
theorem board_yield (ha : Accounted k (fun _ => False) F S) (hS : S k.point = [0])
    (hcur : k.curenv = none) (hst : (k.envs 0).status = .ENV_RUNNABLE) (hpri : (k.envs 0).pri = 1) :
    ∃ k', schedYield 2 k = .ok k' ∧ k'.curenv = some 0 ∧ k'.pm = k.pm ∧
      k'.next_env_id = k.next_env_id ∧ (k'.envs 0).id = (k.envs 0).id ∧
      ∃ S', Accounted k' (isCur k') F S' := by
  obtain ⟨l, hpick⟩ := schedPick_some ha hS
  have hyield : schedYield 2 k = .ok (envRun { k with sched_link := l, count := 1 - 1 } 0) := by
    have hstart : schedYield 2 k = schedLoop 2 k none := by rw [schedYield, hcur]
    rw [hstart, schedLoop, schedTurn, schedPutBack]
    simp only [Res.bind, hpick, schedLoop, hst, hpri]
    rw [if_pos (by decide)]
  obtain ⟨F', S', ha'⟩ : Acc (envRun { k with sched_link := l, count := 1 - 1 } 0)
      (isCur (envRun { k with sched_link := l, count := 1 - 1 } 0)) :=
    (schedYield_spec (n := 2) ⟨_, _, ha.congr rfl rfl (fun _ => rfl) fun x => by
      rw [isCur, hcur]; simp⟩).of_eq_ok hyield
  have hF : F' = F := by
    have hr := ha'.free
    rw [(envRun_links _ _).1] at hr
    exact congrFun (hr.unique ha.free) ()
  refine ⟨_, hyield, rfl, by rw [envRun_pm], ?_, ?_, S', hF ▸ ha'⟩
  · simp [envRun, hcur, Kernel.updEnv]
  · simp [envRun, hcur, Kernel.updEnv]

/-- Environment 0 makes environment 1. -/
theorem board_child (ha : Accounted k (isCur k) (1 :: F) S) (hcur : k.curenv = some 0)
    (hnext : k.next_env_id = 1) (hid : (k.envs 0).id = 2048) (hclear : ClearFrom 1041 4000 k.pm) :
    ∃ k', sysEnvAlloc boardImage k 0 = .ok k' ∧ Acc k' (isCur k') ∧ k'.curenv = some 0 ∧
      (k'.envs 1).id = 4097 ∧ (k'.envs 1).parent_id = 2048 ∧ (k'.envs 0).id = 2048 ∧
      (k'.envs 1).status = .ENV_NOT_RUNNABLE ∧ ∃ d, (k'.envs 1).pgdir = some d := by
  obtain ⟨d, pm, hvm, -⟩ := hclear.envSetupVm boardImage.init_end (by decide) (by decide)
  obtain ⟨k₁, heq, ha₁, -, hcur₁, -, -, -, hpg, hid₁, hst₁, hsame⟩ :=
    envAlloc_some boardImage ha hvm (k.envs 0).id
  have hiff : ∀ x, isCur k₁ x ↔ isCur k x := fun x => by rw [isCur, isCur, hcur₁]
  have ha₂ : Accounted k₁ (fun x => isCur k₁ x ∨ x = 1) F S :=
    ha₁.congr rfl rfl (fun _ => rfl) fun x => by rw [hiff]
  have hne : ¬ isCur k₁ 1 := by
    rw [hiff, isCur, hcur]
    decide
  have hacc : Acc k₁ (fun x => isCur k₁ x ∨ x = 1) := ⟨F, S, ha₂⟩
  obtain ⟨F₃, S₃, ha₃⟩ : Acc (envChild k₁ 0 1) (fun x => isCur k₁ x ∨ x = 1) :=
    hacc.updEnv (by rw [hst₁]; simp) (by simp)
  obtain ⟨l, hins, -⟩ := schedInsertTail_spec ha₃ (Or.inr rfl) 0
  have hexec : sysEnvAlloc boardImage k 0 =
      .ok (({ envChild k₁ 0 1 with sched_link := l } : Kernel).setReg0
        (((envChild k₁ 0 1).envs 1).id.setWidth 64)) := by
    rw [sysEnvAlloc, heq]
    simp only [Res.bind, hins]
  have h0 : (k₁.envs 0).id = 2048 := by
    rw [hsame 0 (by decide), hid]
  refine ⟨_, hexec, (sysEnvAlloc_spec boardImage ⟨_, _, ha⟩ 0).of_eq_ok hexec,
    hcur₁.trans hcur, ?_, h0, h0, rfl, d, hpg⟩
  show (k₁.envs 1).id = 4097
  rw [hid₁, hnext]
  rfl

/-- Boot, the first yield, and a child made by environment 0. -/
theorem board_three_calls : ∃ k', Run (restrict (schedStep boardImage) fun k op => op.DestroysSelf k)
    (envInit boardKernel) [.env_create_priority [] 1, .sched_yield, .sys_env_alloc 0] k' ∧
    Acc k' (isCur k') ∧ k'.curenv = some 0 ∧ (k'.envs 1).id = 4097 ∧
    (k'.envs 1).parent_id = 2048 ∧ (k'.envs 0).id = 2048 ∧
    (k'.envs 1).status = .ENV_NOT_RUNNABLE ∧ ∃ d, (k'.envs 1).pgdir = some d := by
  obtain ⟨k₁, hcreate, ⟨S, ha₁, hS⟩, hcur₁, hnext₁, hst₁, hpri₁, hid₁, hclear₁⟩ := board_create
  obtain ⟨k₂, hyield, hcur₂, hpm₂, hnext₂, hid₂, S₂, ha₂⟩ := board_yield ha₁ hS hcur₁ hst₁ hpri₁
  have hF : (List.finRange 1023).map (Fin.succ : Fin 1023 → Fin 1024) =
      1 :: ((List.finRange 1022).map Fin.succ).map Fin.succ := by
    have h : List.finRange 1023 = (0 : Fin 1023) :: (List.finRange 1022).map Fin.succ :=
      List.finRange_succ
    rw [h, List.map_cons]
    rfl
  rw [hF] at ha₂
  obtain ⟨k₃, hchild, hrest⟩ :=
    board_child ha₂ hcur₂ (hnext₂.trans hnext₁) (hid₂.trans hid₁) (by rw [hpm₂]; exact hclear₁)
  refine ⟨k₃, .cons ⟨⟨by rintro c ⟨⟩, 0, hcreate⟩, by rintro e ⟨⟩⟩
    (.cons ⟨⟨by rintro c ⟨⟩, 2, hyield⟩, by rintro e ⟨⟩⟩
      (.single ⟨⟨?_, 0, hchild⟩, by rintro e ⟨⟩⟩)), hrest⟩
  rintro c ⟨⟩
  exact hcur₂

/-- The lists are in order after these calls. -/
theorem board_lists_ok : ∃ k', k'.curenv = some 0 ∧ (k'.envs 1).status = .ENV_NOT_RUNNABLE ∧
    SchedListsOk k' := by
  obtain ⟨k', hrun, -, hcur, -, -, -, hst, -⟩ := board_three_calls
  exact ⟨k', hcur, hst, (sched_lists_ok_of_destroysSelf rfl hrun).1⟩

/-- A parent that destroys its child: the child stays in its list, free. -/
theorem board_parent_destroys_child : ∃ k', Run (schedStep boardImage) (envInit boardKernel)
    [.env_create_priority [] 1, .sched_yield, .sys_env_alloc 0, .sys_env_destroy 0 4097] k' ∧
    ¬ SchedListsOk k' := by
  obtain ⟨k₃, hrun, ha₃, hcur₃, hid₃, hparent₃, hid0₃, hst₃, d, hpg₃⟩ := board_three_calls
  have henv : envid2env k₃ 4097 true = some 1 := by
    have hx : ENVX 4097 = 1 := by decide
    unfold envid2env
    rw [if_neg (by decide)]
    simp only [hx, hcur₃, hid₃, hparent₃, hid0₃]
    rw [if_neg (by simp [hst₃]), if_neg (by simp)]
  obtain ⟨k₄, hdestroy⟩ : ∃ k₄, sysEnvDestroy 0 k₃ 4097 = .ok k₄ := by
    rw [sysEnvDestroy, henv]
    simp only [envDestroy, envFree, hpg₃, Res.bind]
    rw [if_neg (by simp [hcur₃])]
    exact ⟨_, rfl⟩
  refine ⟨k₄, ?_, sysEnvDestroy_other ha₃ henv (by rw [hcur₃]; decide) hdestroy⟩
  refine (hrun.mono fun _ _ _ h => h.1).append (.single ⟨?_, 0, hdestroy⟩)
  rintro c ⟨⟩
  exact hcur₃

end RpiMos
