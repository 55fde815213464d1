/-
  RpiMos.Kernel.SchedOrder

  The order in which `sched_yield` takes environments from the two lists, one
  turn of its loop a step.  The current list followed by the other is one queue:
  exchanging the two when the current one is empty leaves it as it is, the
  environment in hand joins at its end, and a new one joins at the end of either
  half.  So the scheduler takes turns as Lib.RoundRobin says.
-/

import RpiMos.Kernel.SchedLists
import RpiMos.Lib.RoundRobin

namespace RpiMos

open Lib Links

variable {img : Image} {k k' : Kernel} {a b c e : EnvPtr} {hand : Option EnvPtr} {n : Nat}
  {F : List EnvPtr} {S : Fin 2 → List EnvPtr}

/-! ## One turn of the loop at a time -/

/-- In a program or a system call, or in the loop with `next_env` in hand. -/
inductive SchedPhase where
  | user
  | loop (next_env : Option EnvPtr)

structure SchedState where
  k : Kernel
  phase : SchedPhase

/-- The environment that is in no list because it runs or is about to. -/
def SchedState.inHand (s : SchedState) : Option EnvPtr :=
  match s.phase with
  | .user => s.k.curenv
  | .loop next_env => next_env

inductive SchedEvent where
  | removed (e : EnvPtr)
  | created (o : Option EnvPtr)
  | destroyed (e : EnvPtr)
  | other
deriving DecidableEq

/-- The loop of `sched_yield` goes on. -/
def SchedGoesOn (k : Kernel) (next_env : Option EnvPtr) : Prop :=
  ∀ e, next_env = some e → ¬ (k.count ≠ 0 ∧ (k.envs e).status = .ENV_RUNNABLE)

inductive TurnStep (img : Image) : SchedState → SchedEvent → SchedState → Prop
  | env_create_priority {k k' : Kernel} {binary : List UInt8} {priority : U32}
      (h : envCreatePriority img k binary priority = .ok k') :
      TurnStep img ⟨k, .user⟩ (.created (k.link.first ())) ⟨k', .user⟩
  | sys_env_alloc {k k' : Kernel} {c : EnvPtr} (hc : k.curenv = some c)
      (h : sysEnvAlloc img k c = .ok k') :
      TurnStep img ⟨k, .user⟩ (.created (k.link.first ())) ⟨k', .user⟩
  | sys_set_env_status {k k' : Kernel} {envid status : U32} {n : Nat}
      (hst : statusOf status ≠ some .ENV_FREE) (h : sysSetEnvStatus n k envid status = .ok k') :
      TurnStep img ⟨k, .user⟩ .other ⟨k', .user⟩
  | sys_ipc_can_send {k : Kernel} {c : EnvPtr} {envid : U32} {value srcva perm : Word}
      (hc : k.curenv = some c) :
      TurnStep img ⟨k, .user⟩ .other ⟨sysIpcCanSend k c envid value srcva perm, .user⟩
  | sys_ipc_recv {k : Kernel} {c : EnvPtr} {dstva : Word} (hc : k.curenv = some c)
      (hva : dstva < KERNBASE) :
      TurnStep img ⟨k, .user⟩ .other ⟨ipcRecvBlock k c dstva, .loop (some c)⟩
  | sched_yield {k : Kernel} : TurnStep img ⟨k, .user⟩ .other ⟨k, .loop k.curenv⟩
  /-- `env_destroy` of the environment that runs. -/
  | env_destroy {k k' : Kernel} {c : EnvPtr} (hc : k.curenv = some c) (h : envFree k c = .ok k') :
      TurnStep img ⟨k, .user⟩ (.destroyed c) ⟨{ k' with curenv := none }, .loop none⟩
  | turn {k k' : Kernel} {next_env : Option EnvPtr} {e : EnvPtr} (hgo : SchedGoesOn k next_env)
      (h : schedTurn k next_env = .ok (k', e)) :
      TurnStep img ⟨k, .loop next_env⟩ (.removed e) ⟨k', .loop (some e)⟩
  | env_run {k : Kernel} {e : EnvPtr} (hrun : k.count ≠ 0 ∧ (k.envs e).status = .ENV_RUNNABLE) :
      TurnStep img ⟨k, .loop (some e)⟩ .other ⟨envRun { k with count := k.count - 1 } e, .user⟩

/-! ## The calls are made of such turns -/

/-- However many turns the loop takes, each is a step and the last one leaves. -/
theorem schedLoop_turns (img : Image) {next_env : Option EnvPtr} (h : schedLoop n k next_env = .ok k') :
    ∃ tr, Run (TurnStep img) ⟨k, .loop next_env⟩ tr ⟨k', .user⟩ := by
  induction n generalizing k next_env with
  | zero => cases h
  | succ n ih =>
      -- A turn of the body, and then the loop again.
      have hbody : SchedGoesOn k next_env →
          (schedTurn k next_env).bind (fun p => schedLoop n p.1 (some p.2)) = .ok k' →
          ∃ tr, Run (TurnStep img) ⟨k, .loop next_env⟩ tr ⟨k', .user⟩ := by
        intro hgo h
        obtain ⟨⟨k₁, e₁⟩, hturn, hrest⟩ := Res.bind_eq_ok.mp h
        obtain ⟨tr, hrun⟩ := ih hrest
        exact ⟨_, .cons (.turn hgo hturn) hrun⟩
      cases next_env with
      | none => exact hbody (by rintro e ⟨⟩) h
      | some e =>
          unfold schedLoop at h
          by_cases hrun : k.count ≠ 0 ∧ (k.envs e).status = .ENV_RUNNABLE
          · simp only [if_pos hrun] at h
            cases h
            exact ⟨_, .single (.env_run hrun)⟩
          · simp only [if_neg hrun] at h
            refine hbody ?_ h
            rintro x ⟨⟩
            exact hrun

theorem schedYield_turns (h : schedYield n k = .ok k') :
    ∃ tr, Run (TurnStep img) ⟨k, .user⟩ tr ⟨k', .user⟩ := by
  obtain ⟨tr, hrun⟩ := schedLoop_turns img h
  exact ⟨_, .cons .sched_yield hrun⟩

theorem sysIpcRecv_turns {dstva : Word} (hc : k.curenv = some c) (hva : dstva < KERNBASE)
    (h : sysIpcRecv n k c dstva = .ok k') :
    ∃ tr, Run (TurnStep img) ⟨k, .user⟩ tr ⟨k', .user⟩ := by
  rw [sysIpcRecv, if_neg (by simpa using hva)] at h
  have hcur : (ipcRecvBlock k c dstva).curenv = some c := hc
  rw [sysYield, schedYield, hcur] at h
  obtain ⟨tr, hrun⟩ := schedLoop_turns img h
  exact ⟨_, .cons (.sys_ipc_recv hc hva) hrun⟩

theorem envDestroy_turns {r : Bool} (hc : k.curenv = some c)
    (h : envDestroy n k c = .ok (r, k')) :
    ∃ tr, Run (TurnStep img) ⟨k, .user⟩ (.destroyed c :: tr) ⟨k', .user⟩ := by
  obtain ⟨k₁, hfree, h⟩ := Res.bind_eq_ok.mp h
  have hcur : k₁.curenv = some c := by
    unfold envFree at hfree
    split at hfree
    · cases hfree
    · cases hfree
      exact hc
  rw [if_pos hcur] at h
  obtain ⟨k₂, hyield, hk⟩ := Res.bind_eq_ok.mp h
  cases hk
  obtain ⟨tr, hrun⟩ := schedLoop_turns img hyield
  exact ⟨tr, .cons (.env_destroy hc hfree) hrun⟩

/-! ## What the lists hold -/

/-- The links store the scheduling lists `S`, and the environment in hand is in
    neither of them. -/
structure QueueHolds (k : Kernel) (hand : Option EnvPtr) (S : Fin 2 → List EnvPtr) : Prop where
  sched : k.sched_link.Represents S
  off : ∀ e, hand = some e → ∀ i, e ∉ S i

/-- The links store the free list `F` and the scheduling lists `S`, and no
    environment is in two of these or in one of them and in hand. -/
structure ListsHold (k : Kernel) (hand : Option EnvPtr) (F : List EnvPtr)
    (S : Fin 2 → List EnvPtr) : Prop where
  free : k.link.Represents fun _ => F
  sched : k.sched_link.Represents S
  apart : ∀ e ∈ F, hand ≠ some e ∧ ∀ i, e ∉ S i
  off : ∀ e, hand = some e → ∀ i, e ∉ S i

theorem QueueHolds.congr (h : QueueHolds k hand S) (hs : k'.sched_link = k.sched_link) :
    QueueHolds k' hand S where
  sched := hs ▸ h.sched
  off := h.off

theorem ListsHold.congr (h : ListsHold k hand F S) (hl : k'.link = k.link)
    (hs : k'.sched_link = k.sched_link) : ListsHold k' hand F S where
  free := hl ▸ h.free
  sched := hs ▸ h.sched
  apart := h.apart
  off := h.off

theorem ListsHold.queue (h : ListsHold k hand F S) : QueueHolds k hand S := ⟨h.sched, h.off⟩

/-- The queue that the two lists are the halves of. -/
def schedOrder (k : Kernel) (S : Fin 2 → List EnvPtr) : List EnvPtr := S k.point ++ S (1 - k.point)

theorem list_cases (p i : Fin 2) : i = p ∨ i = 1 - p := by
  revert p i
  decide

theorem other_ne (p : Fin 2) : 1 - p ≠ p := by
  revert p
  decide

theorem other_other (p : Fin 2) : 1 - (1 - p) = p := by
  revert p
  decide

theorem mem_schedOrder : e ∈ schedOrder k S ↔ ∃ i, e ∈ S i := by
  rw [schedOrder, List.mem_append]
  constructor
  · rintro (h | h)
    · exact ⟨_, h⟩
    · exact ⟨_, h⟩
  · rintro ⟨i, h⟩
    rcases list_cases k.point i with rfl | rfl
    · exact Or.inl h
    · exact Or.inr h

theorem QueueHolds.nodup (h : QueueHolds k hand S) : (schedOrder k S ++ hand.toList).Nodup := by
  rw [List.nodup_append]
  refine ⟨?_, ?_, fun x hx y hy => ?_⟩
  · rw [schedOrder, List.nodup_append]
    refine ⟨h.sched.nodup _, h.sched.nodup _, fun x hx y hy => ?_⟩
    rintro rfl
    exact other_ne k.point (h.sched.disjoint hy hx)
  · cases hand <;> simp
  · rintro rfl
    cases hand with
    | none => cases hy
    | some z =>
        rw [Option.toList_some, List.mem_singleton] at hy
        obtain ⟨i, hi⟩ := mem_schedOrder.mp hx
        exact h.off z rfl i (hy ▸ hi)

theorem ListsHold.distinct (h : ListsHold k hand F S) :
    RrState.Distinct (hand, schedOrder k S) := h.queue.nodup

/-- Nothing comes to the queue from the free list. -/
theorem ListsHold.of_queue {hand' : Option EnvPtr} {S' : Fin 2 → List EnvPtr}
    (h : ListsHold k hand F S) (hq : QueueHolds k' hand' S') (hl : k'.link = k.link)
    (hsub : ∀ x ∈ schedOrder k' S' ++ hand'.toList, x ∈ schedOrder k S ++ hand.toList) :
    ListsHold k' hand' F S' := by
  have hapart : ∀ x ∈ F, x ∉ schedOrder k' S' ++ hand'.toList := by
    intro x hx hmem
    rcases List.mem_append.mp (hsub x hmem) with hmem | hmem
    · obtain ⟨i, hi⟩ := mem_schedOrder.mp hmem
      exact (h.apart x hx).2 i hi
    · exact (h.apart x hx).1 (Option.mem_toList.mp hmem)
  refine ⟨hl ▸ h.free, hq.sched, fun x hx => ⟨fun hhand => ?_, fun i hi => ?_⟩, hq.off⟩
  · apply hapart x hx
    rw [hhand]
    simp
  · exact hapart x hx (List.mem_append_left _ (mem_schedOrder.mpr ⟨i, hi⟩))

theorem QueueHolds.length_le (h : QueueHolds k hand S) (i : Fin 2) : (S i).length ≤ NENV := by
  have hle := (h.sched.nodup i).length_le_card
  rwa [Fintype.card_fin] at hle

/-- An environment that is not in the queue goes to the back of a list. -/
theorem QueueHolds.insertTail (h : QueueHolds k hand S) (hhand : hand ≠ some e)
    (hnot : ∀ j, e ∉ S j) (i : Fin 2) :
    ∃ l, schedInsertTail k i e = .ok { k with sched_link := l } ∧
      QueueHolds { k with sched_link := l } hand (Function.update S i (S i ++ [e])) := by
  obtain ⟨l, hins, hr⟩ := h.sched.insertTail (n := NENV) hnot i (h.length_le i)
  refine ⟨l, by rw [schedInsertTail, hins], hr, fun x hx j hj => ?_⟩
  rcases mem_update.mp hj with ⟨-, hmem⟩ | ⟨-, hmem⟩
  · rcases List.mem_append.mp hmem with hmem | hmem
    · exact h.off x hx i hmem
    · exact hhand (List.mem_singleton.mp hmem ▸ hx)
  · exact h.off x hx j hmem

/-- An environment that is nowhere goes to the back of a list. -/
theorem ListsHold.insertTail (h : ListsHold k hand F S) (he : e ∉ F) (hhand : hand ≠ some e)
    (hnot : ∀ j, e ∉ S j) (i : Fin 2) :
    ∃ l, schedInsertTail k i e = .ok { k with sched_link := l } ∧
      ListsHold { k with sched_link := l } hand F (Function.update S i (S i ++ [e])) := by
  obtain ⟨l, hins, hq⟩ := h.queue.insertTail hhand hnot i
  refine ⟨l, hins, h.free, hq.sched, fun x hx => ⟨(h.apart x hx).1, fun j hj => ?_⟩, hq.off⟩
  rcases mem_update.mp hj with ⟨-, hmem⟩ | ⟨-, hmem⟩
  · rcases List.mem_append.mp hmem with hmem | hmem
    · exact (h.apart x hx).2 i hmem
    · exact he (List.mem_singleton.mp hmem ▸ hx)
  · exact (h.apart x hx).2 j hmem

/-- Nobody is in hand any more. -/
theorem ListsHold.drop (h : ListsHold k (some e) F S) : ListsHold k none F S where
  free := h.free
  sched := h.sched
  apart x hx := ⟨by simp, (h.apart x hx).2⟩
  off x hx := by cases hx

/-- The front of a list is taken in hand. -/
theorem QueueHolds.remove (h : QueueHolds k none S) {i : Fin 2} (he : e ∈ S i) :
    ∃ l, k.sched_link.remove e = some l ∧
      QueueHolds { k with sched_link := l } (some e) (Function.update S i ((S i).erase e)) := by
  obtain ⟨l, hrem, hr⟩ := h.sched.remove he
  refine ⟨l, hrem, hr, fun x hx j hj => ?_⟩
  cases hx
  rcases mem_update.mp hj with ⟨-, hmem⟩ | ⟨hji, hmem⟩
  · exact (h.sched.nodup i).not_mem_erase hmem
  · exact hji (h.sched.disjoint hmem he)

/-! ## Each step is a turn, a newcomer, a departure or nothing -/

/-- The environment in hand joins at the end of the queue. -/
theorem schedPutBack_queue (h : QueueHolds k hand S) :
    ∃ k' S', schedPutBack k hand = .ok k' ∧ QueueHolds k' none S' ∧ k'.envs = k.envs ∧
      k'.link = k.link ∧ schedOrder k' S' = schedOrder k S ++ hand.toList := by
  cases hand with
  | none => exact ⟨k, S, rfl, h, rfl, rfl, by simp⟩
  | some e =>
      have hdrop : QueueHolds k none S := ⟨h.sched, fun x hx => by cases hx⟩
      obtain ⟨l, hins, h'⟩ := hdrop.insertTail (e := e) (by simp) (h.off e rfl) (1 - k.point)
      refine ⟨_, _, by rw [schedPutBack, hins], h', rfl, rfl, ?_⟩
      rw [schedOrder, Function.update_of_ne (Ne.symm (other_ne k.point)), Function.update_self,
        ← List.append_assoc]
      rfl

/-- Exchanging the lists when the current one is empty is nothing to the queue. -/
theorem schedSwap_order (h : QueueHolds k hand S) (hnone : (k.sched_link.first k.point).isNone) :
    schedOrder { k with point := 1 - k.point } S = schedOrder k S := by
  have hempty : S k.point = [] := by
    rw [Option.isNone_iff_eq_none, h.sched.first_eq] at hnone
    exact List.head?_eq_none_iff.mp hnone
  show S (1 - k.point) ++ S (1 - (1 - k.point)) = S k.point ++ S (1 - k.point)
  rw [other_other, hempty, List.append_nil, List.nil_append]

/-- The front of the queue is taken; an empty queue is the panic. -/
theorem schedPick_queue (h : QueueHolds k none S) :
    (schedOrder k S = [] ∧ schedPick k = .panic "No Env is RUNNABLE\n") ∨
    ∃ k' e S', schedPick k = .ok (k', e) ∧ QueueHolds k' (some e) S' ∧ k'.envs = k.envs ∧
      k'.link = k.link ∧ k'.count = (k.envs e).pri ∧ schedOrder k S = e :: schedOrder k' S' := by
  unfold schedPick
  -- Only `point` changes before the front of the list is looked at.
  generalize hk₁ : (if (k.sched_link.first k.point).isNone = true then
    { k with point := 1 - k.point } else k) = k₁
  have hsame : QueueHolds k₁ none S ∧ k₁.envs = k.envs ∧ k₁.link = k.link ∧
      schedOrder k₁ S = schedOrder k S ∧ (S k₁.point = [] → S (1 - k₁.point) = []) := by
    subst hk₁
    split
    · rename_i hnone
      refine ⟨h.congr rfl, rfl, rfl, schedSwap_order h hnone, fun _ => ?_⟩
      rw [Option.isNone_iff_eq_none, h.sched.first_eq] at hnone
      show S (1 - (1 - k.point)) = []
      rw [other_other]
      exact List.head?_eq_none_iff.mp hnone
    · rename_i hsome
      refine ⟨h, rfl, rfl, rfl, fun hempty => absurd ?_ hsome⟩
      rw [h.sched.first_eq, hempty]
      rfl
  obtain ⟨h₁, henvs, hlink, horder, hboth⟩ := hsame
  rw [← horder]
  cases hS : S k₁.point with
  | nil =>
      have hfirst : k₁.sched_link.first k₁.point = none := by
        rw [h₁.sched.first_eq, hS]
        rfl
      refine Or.inl ⟨?_, by simp only [hfirst]⟩
      rw [schedOrder, hS, hboth hS]
      rfl
  | cons x r =>
      have hfirst : k₁.sched_link.first k₁.point = some x := by
        rw [h₁.sched.first_eq, hS]
        rfl
      obtain ⟨l, hrem, h₂⟩ := h₁.remove (e := x) (i := k₁.point) (by rw [hS]; simp)
      refine Or.inr ⟨{ k₁ with sched_link := l, count := (k₁.envs x).pri }, x, _,
        by simp only [hfirst, hrem], h₂.congr rfl, henvs, hlink, ?_, ?_⟩
      · show (k₁.envs x).pri = (k.envs x).pri
        rw [henvs]
      · show S k₁.point ++ S (1 - k₁.point) = x :: (Function.update S k₁.point _ k₁.point ++
          Function.update S k₁.point _ (1 - k₁.point))
        rw [Function.update_self, Function.update_of_ne (other_ne k₁.point), hS]
        simp

/-- One turn of the loop: the one in hand goes to the end, the front is taken. -/
theorem schedTurn_queue (h : QueueHolds k hand S) :
    (schedOrder k S ++ hand.toList = [] ∧ schedTurn k hand = .panic "No Env is RUNNABLE\n") ∨
    ∃ k' e S', schedTurn k hand = .ok (k', e) ∧ QueueHolds k' (some e) S' ∧ k'.envs = k.envs ∧
      k'.link = k.link ∧ k'.count = (k.envs e).pri ∧
      schedOrder k S ++ hand.toList = e :: schedOrder k' S' := by
  obtain ⟨k₁, S₁, hput, h₁, henvs, hlink, horder⟩ := schedPutBack_queue h
  rw [← horder, schedTurn, hput]
  rcases schedPick_queue h₁ with ⟨hempty, hpick⟩ |
    ⟨k₂, e, S₂, hpick, h₂, henvs₂, hlink₂, hcount, horder₂⟩
  · exact Or.inl ⟨hempty, hpick⟩
  · exact Or.inr ⟨k₂, e, S₂, hpick, h₂, henvs₂.trans henvs, hlink₂.trans hlink, henvs ▸ hcount,
      horder₂⟩

/-- A turn with the free list in view. -/
theorem schedTurn_order (h : ListsHold k hand F S) :
    (schedOrder k S ++ hand.toList = [] ∧ schedTurn k hand = .panic "No Env is RUNNABLE\n") ∨
    ∃ k' e S', schedTurn k hand = .ok (k', e) ∧ ListsHold k' (some e) F S' ∧ k'.envs = k.envs ∧
      k'.count = (k.envs e).pri ∧ schedOrder k S ++ hand.toList = e :: schedOrder k' S' := by
  rcases schedTurn_queue h.queue with hpanic |
    ⟨k', e, S', hturn, hq, henvs, hlink, hcount, horder⟩
  · exact Or.inl hpanic
  · refine Or.inr ⟨k', e, S', hturn, h.of_queue hq hlink fun x hx => ?_, henvs, hcount, horder⟩
    rw [horder]
    rcases List.mem_append.mp hx with hx | hx
    · exact List.mem_cons_of_mem _ hx
    · rw [Option.toList_some, List.mem_singleton] at hx
      rw [hx]
      exact List.mem_cons_self

/-- `env_alloc` takes an environment that is nowhere else out of the free list. -/
theorem envAlloc_order {q : U32} {r : Option EnvPtr} (h : ListsHold k hand F S)
    (halloc : envAlloc img k q = .ok (r, k')) :
    r = k.link.first () ∧ k'.point = k.point ∧ k'.curenv = k.curenv ∧
    ∃ F', ListsHold k' hand F' S ∧
      ∀ e, r = some e → e ∉ F' ∧ hand ≠ some e ∧ ∀ i, e ∉ S i := by
  unfold envAlloc at halloc
  cases hfirst : k.link.first () with
  | none =>
      simp only [hfirst] at halloc
      cases halloc
      exact ⟨rfl, rfl, rfl, F, h, by rintro e ⟨⟩⟩
  | some e =>
      have hmem : e ∈ F := by
        rw [h.free.first_eq] at hfirst
        exact List.mem_of_mem_head? hfirst
      obtain ⟨l, hrem, hr⟩ := h.free.remove (h := ()) hmem
      have hupd : Function.update (fun _ : Unit => F) () (F.erase e) = fun _ => F.erase e := by
        funext u
        simp
      rw [hupd] at hr
      simp only [hfirst, hrem] at halloc
      split at halloc
      · cases halloc
      · cases halloc
        refine ⟨rfl, rfl, rfl, F.erase e, ⟨hr, h.sched, fun x hx => ?_, h.off⟩, ?_⟩
        · exact h.apart x (List.mem_of_mem_erase hx)
        · rintro x ⟨⟩
          exact ⟨(h.free.nodup ()).not_mem_erase, h.apart e hmem⟩

/-- Joining either list is joining the queue somewhere. -/
theorem insert_order (hnot : ∀ j, e ∉ S j) (hhand : hand ≠ some e) (i : Fin 2) :
    RrStep (hand, schedOrder k S) (.insert e)
      (hand, schedOrder k (Function.update S i (S i ++ [e]))) := by
  have hnew : e ∉ schedOrder k S := by
    intro h
    obtain ⟨j, hj⟩ := mem_schedOrder.mp h
    exact hnot j hj
  rcases list_cases k.point i with rfl | rfl
  · have horder : schedOrder k (Function.update S k.point (S k.point ++ [e])) =
        S k.point ++ e :: S (1 - k.point) := by
      rw [schedOrder, Function.update_self, Function.update_of_ne (other_ne k.point)]
      simp
    rw [horder]
    exact .insert hnew hhand
  · have horder : schedOrder k (Function.update S (1 - k.point) (S (1 - k.point) ++ [e])) =
        schedOrder k S ++ e :: [] := by
      rw [schedOrder, Function.update_self, Function.update_of_ne (Ne.symm (other_ne k.point)),
        schedOrder, List.append_assoc]
    have hstep : RrStep (hand, schedOrder k S ++ []) (.insert e)
        (hand, schedOrder k S ++ e :: []) :=
      .insert (by rwa [List.append_nil]) hhand
    rw [horder]
    rwa [List.append_nil] at hstep

/-- What a step of the scheduler is to the queue. -/
def SchedEvent.turn : SchedEvent → RrEvent EnvPtr
  | .removed e => .turn e
  | .created (some e) => .insert e
  | .created none => .skip
  | .destroyed e => .drop e
  | .other => .skip

/-- The queue and the environment in hand are those of the lists. -/
def Queues (s : SchedState) (t : RrState EnvPtr) : Prop :=
  ∃ F S, ListsHold s.k s.inHand F S ∧ t = (s.inHand, schedOrder s.k S)

/-- A call that leaves the lists, `point` and the environment in hand. -/
theorem Queues.skip {s s' : SchedState} {t : RrState EnvPtr} (h : Queues s t)
    (hl : s'.k.link = s.k.link) (hs : s'.k.sched_link = s.k.sched_link)
    (hp : s'.k.point = s.k.point) (hh : s'.inHand = s.inHand) :
    ∃ t', RrStep t .skip t' ∧ Queues s' t' := by
  obtain ⟨F, S, hL, rfl⟩ := h
  refine ⟨_, .skip, F, S, ?_, ?_⟩
  · rw [hh]
    exact hL.congr hl hs
  · rw [hh, schedOrder, schedOrder, hp]

theorem schedOrder_congr (hp : k'.point = k.point) : schedOrder k' S = schedOrder k S := by
  rw [schedOrder, schedOrder, hp]

theorem Queues.of_lists (h : ListsHold k hand F S) (hc : k.curenv = hand) :
    Queues ⟨k, .user⟩ (hand, schedOrder k S) := by
  subst hc
  exact ⟨F, S, h, rfl⟩

/-- The queueing step that ends both ways of creating an environment. -/
theorem insertTail_turn (h : ListsHold k hand F S) (hc : k.curenv = hand) (he : e ∉ F)
    (hhand : hand ≠ some e) (hnot : ∀ i, e ∉ S i) (hins : schedInsertTail k 0 e = .ok k') :
    ∃ t', RrStep (hand, schedOrder k S) (.insert e) t' ∧ Queues ⟨k', .user⟩ t' := by
  obtain ⟨l, hins', h'⟩ := h.insertTail he hhand hnot 0
  have hk' : k' = { k with sched_link := l } := Res.ok.inj (hins.symm.trans hins')
  subst hk'
  exact ⟨_, insert_order hnot hhand 0, .of_lists h' hc⟩

theorem envCreatePriority_turn {binary : List UInt8} {priority : U32} {t : RrState EnvPtr}
    (h : Queues ⟨k, .user⟩ t) (hexec : envCreatePriority img k binary priority = .ok k') :
    ∃ t', RrStep t (SchedEvent.turn (.created (k.link.first ()))) t' ∧ Queues ⟨k', .user⟩ t' := by
  obtain ⟨F, S, hL, rfl⟩ := h
  obtain ⟨⟨r, k₁⟩, halloc, hrest⟩ := Res.bind_eq_ok.mp hexec
  obtain ⟨hr, hp, hc, F', hL', hnew⟩ := envAlloc_order hL halloc
  rw [← hr]
  cases r with
  | none =>
      cases hrest
      refine ⟨_, .skip, ?_⟩
      have hq := Queues.of_lists hL' hc
      rwa [schedOrder_congr hp] at hq
  | some e =>
      obtain ⟨hF, hhand, hnot⟩ := hnew e rfl
      -- Loading the program changes pages and fields of the new environment only.
      generalize hk₂ : (k₁.setPm (img.load_icode binary (k₁.pgdir e) k₁.pm).1).updEnv e (fun env =>
        { env with
          pri := priority
          tf := { env.tf with elr_el1 := (img.load_icode binary (k₁.pgdir e) k₁.pm).2 } }) = k₂
      have hins : schedInsertTail k₂ 0 e = .ok k' := hk₂ ▸ hrest
      have hL₂ : ListsHold k₂ (SchedState.inHand ⟨k, .user⟩) F' S :=
        hL'.congr (by rw [← hk₂]; rfl) (by rw [← hk₂]; rfl)
      have hturn := insertTail_turn hL₂ (by rw [← hk₂]; exact hc) hF hhand hnot hins
      rwa [schedOrder_congr (k := k) (by rw [← hk₂]; exact hp)] at hturn

theorem sysEnvAlloc_turn {t : RrState EnvPtr} (h : Queues ⟨k, .user⟩ t)
    (hexec : sysEnvAlloc img k c = .ok k') :
    ∃ t', RrStep t (SchedEvent.turn (.created (k.link.first ()))) t' ∧ Queues ⟨k', .user⟩ t' := by
  obtain ⟨F, S, hL, rfl⟩ := h
  obtain ⟨⟨r, k₁⟩, halloc, hrest⟩ := Res.bind_eq_ok.mp hexec
  obtain ⟨hr, hp, hc, F', hL', hnew⟩ := envAlloc_order hL halloc
  rw [← hr]
  cases r with
  | none =>
      cases hrest
      refine ⟨_, .skip, ?_⟩
      have hq := Queues.of_lists (k := k₁.setReg0 ERR) (hL'.congr rfl rfl) hc
      have horder : schedOrder (k₁.setReg0 ERR) S = schedOrder k S := schedOrder_congr hp
      rwa [horder] at hq
  | some e =>
      obtain ⟨hF, hhand, hnot⟩ := hnew e rfl
      obtain ⟨k₂, hins, hk'⟩ := Res.bind_eq_ok.mp hrest
      have hL₂ : ListsHold (envChild k₁ c e) (SchedState.inHand ⟨k, .user⟩) F' S :=
        hL'.congr rfl rfl
      obtain ⟨t', hstep, F₂, S₂, hL₃, ht'⟩ := insertTail_turn hL₂ hc hF hhand hnot hins
      have hk₃ : k₂.setReg0 ((k₂.envs e).id.setWidth 64) = k' := Res.ok.inj hk'
      have horder : schedOrder (envChild k₁ c e) S = schedOrder k S := schedOrder_congr hp
      rw [horder] at hstep
      rw [← hk₃]
      exact ⟨t', hstep, F₂, S₂, hL₃.congr rfl rfl, ht'⟩

/-- Freeing the environment that runs: it leaves the hand for the free list. -/
theorem envFree_turn {t : RrState EnvPtr} (h : Queues ⟨k, .user⟩ t) (hc : k.curenv = some c)
    (hfree : envFree k c = .ok k') :
    ∃ t', RrStep t (.drop c) t' ∧ Queues ⟨{ k' with curenv := none }, .loop none⟩ t' := by
  obtain ⟨F, S, hL, rfl⟩ := h
  have hhand : SchedState.inHand ⟨k, .user⟩ = some c := hc
  rw [hhand] at hL ⊢
  have hF : ∀ u : Unit, c ∉ F := fun _ hx => (hL.apart c hx).1 rfl
  have hins := hL.free.insertHead hF ()
  have hupd : Function.update (fun _ : Unit => F) () (c :: F) = fun _ => c :: F := by
    funext u
    simp
  rw [hupd] at hins
  refine ⟨_, .drop, c :: F, S, ?_, ?_⟩
  · unfold envFree at hfree
    split at hfree
    · cases hfree
    · cases hfree
      refine ⟨hins, hL.sched, fun x hx => ⟨by rintro ⟨⟩, fun i hi => ?_⟩, by rintro x ⟨⟩⟩
      rcases List.mem_cons.mp hx with rfl | hx
      · exact hL.off x rfl i hi
      · exact (hL.apart x hx).2 i hi
  · unfold envFree at hfree
    split at hfree
    · cases hfree
    · cases hfree
      rfl

/-- Everything that decides the order is as it was. -/
def SameOrder (k k' : Kernel) : Prop :=
  k'.link = k.link ∧ k'.sched_link = k.sched_link ∧ k'.point = k.point ∧ k'.curenv = k.curenv

theorem sysSetEnvStatus_same {envid status : U32} (hst : statusOf status ≠ some .ENV_FREE)
    (h : sysSetEnvStatus n k envid status = .ok k') : SameOrder k k' := by
  unfold sysSetEnvStatus at h
  cases hs : statusOf status with
  | none =>
      rw [hs] at h
      cases h
      exact ⟨rfl, rfl, rfl, rfl⟩
  | some st =>
      simp only [hs] at h
      split at h
      · cases h
        exact ⟨rfl, rfl, rfl, rfl⟩
      · have hne : st ≠ .ENV_FREE := by
          rintro rfl
          exact hst hs
        rw [if_neg hne] at h
        cases h
        exact ⟨rfl, rfl, rfl, rfl⟩

theorem sysIpcCanSend_same (k : Kernel) (c : EnvPtr) (envid : U32) (value srcva perm : Word) :
    SameOrder k (sysIpcCanSend k c envid value srcva perm) := by
  simp only [sysIpcCanSend]
  repeat' split
  all_goals exact ⟨rfl, rfl, rfl, rfl⟩

theorem TurnStep.queues {s s' : SchedState} {l : SchedEvent} {t : RrState EnvPtr}
    (h : Queues s t) (hstep : TurnStep img s l s') : ∃ t', RrStep t l.turn t' ∧ Queues s' t' := by
  cases hstep with
  | env_create_priority hexec => exact envCreatePriority_turn h hexec
  | sys_env_alloc hc hexec => exact sysEnvAlloc_turn h hexec
  | sys_set_env_status hst hexec =>
      obtain ⟨hl, hs, hp, hc⟩ := sysSetEnvStatus_same hst hexec
      exact h.skip hl hs hp hc
  | @sys_ipc_can_send k c envid value srcva perm hc =>
      obtain ⟨hl, hs, hp, hc⟩ := sysIpcCanSend_same k c envid value srcva perm
      exact h.skip hl hs hp hc
  | sys_ipc_recv hc hva => exact h.skip rfl rfl rfl hc.symm
  | sched_yield => exact h.skip rfl rfl rfl rfl
  | env_destroy hc hfree => exact envFree_turn h hc hfree
  | @turn k k' next_env e hgo hturn =>
      obtain ⟨F, S, hL, rfl⟩ := h
      rcases schedTurn_order hL with ⟨-, hpanic⟩ | ⟨k₂, e₂, S₂, hok, hL₂, -, -, horder⟩
      · cases hpanic.symm.trans hturn
      · cases hok.symm.trans hturn
        exact ⟨_, .turn horder, F, S₂, hL₂, rfl⟩
  | @env_run k e hrun =>
      obtain ⟨hl, hs⟩ := envRun_links { k with count := k.count - 1 } e
      refine h.skip hl hs ?_ rfl
      unfold envRun
      cases k.curenv <;> rfl

/-! ## No overtaking -/

/-- No environment is in two of the three lists, or in one and in hand. -/
def SchedState.ListedOnce (s : SchedState) : Prop := ∃ F S, ListsHold s.k s.inHand F S

/-- In one of the scheduling lists. -/
def SchedState.Listed (s : SchedState) (e : EnvPtr) : Prop :=
  ∃ S, s.k.sched_link.Represents S ∧ ∃ i, e ∈ S i

/-- The turns of an environment are its removals. -/
theorem count_turns (tr : List SchedEvent) (b : EnvPtr) :
    (rrTurns (tr.map SchedEvent.turn)).count b = tr.count (.removed b) := by
  induction tr with
  | nil => rfl
  | cons l tr ih =>
      rw [List.count_cons, ← ih, List.map_cons, rrTurns, List.filterMap_cons]
      cases l with
      | removed e =>
          show (e :: rrTurns (tr.map SchedEvent.turn)).count b = _
          rw [List.count_cons]
          by_cases he : e = b <;> simp [he]
      | created o => cases o <;> simp [SchedEvent.turn, RrEvent.turnOf, rrTurns]
      | destroyed e => simp [SchedEvent.turn, RrEvent.turnOf, rrTurns]
      | other => simp [SchedEvent.turn, RrEvent.turnOf, rrTurns]

theorem turn_eq_drop {l : SchedEvent} (h : l.turn = .drop b) : l = .destroyed b := by
  cases l with
  | removed e => cases h
  | created o => cases o <;> cases h
  | destroyed e =>
      cases h
      rfl
  | other => cases h

theorem turn_eq_turn {l : SchedEvent} (h : l.turn = .turn b) : l = .removed b := by
  cases l with
  | removed e =>
      cases h
      rfl
  | created o => cases o <;> cases h
  | destroyed e => cases h
  | other => cases h

theorem restricted_queues (s : SchedState) (l : SchedEvent) (s' : SchedState)
    (t : RrState EnvPtr) (hq : Queues s t)
    (hstep : restrict (TurnStep img) (fun _ l => l ≠ .removed a ∧ l ≠ .destroyed a) s l s') :
    ∃ t', restrict RrStep (fun _ l => l ≠ .turn a ∧ l ≠ .drop a) t l.turn t' ∧ Queues s' t' := by
  obtain ⟨hstep, hl, hl'⟩ := hstep
  obtain ⟨t', hstep', hq'⟩ := hstep.queues hq
  exact ⟨t', ⟨hstep', fun h => hl (turn_eq_turn h), fun h => hl' (turn_eq_drop h)⟩, hq'⟩

/-- Between two removals of `a`, not destroyed in between, every environment
    that was listed at the first and is not destroyed is removed exactly once. -/
theorem sched_no_overtaking {s s₀ s₁ s₂ s₃ : SchedState} {tr₀ tr : List SchedEvent}
    (hlists : s.ListedOnce) (hrun₀ : Run (TurnStep img) s tr₀ s₀)
    (hfirst : TurnStep img s₀ (.removed a) s₁)
    (hrun : Run (restrict (TurnStep img) fun _ l => l ≠ .removed a ∧ l ≠ .destroyed a) s₁ tr s₂)
    (hnext : TurnStep img s₂ (.removed a) s₃) (hlisted : s₁.Listed b)
    (hdestroyed : .destroyed b ∉ tr) : tr.count (.removed b) = 1 := by
  obtain ⟨F, S, hL⟩ := hlists
  obtain ⟨t₀, -, hq₀⟩ := hrun₀.simulation SchedEvent.turn
    (fun _ _ _ _ hq hstep => hstep.queues hq) (⟨F, S, hL, rfl⟩ : Queues s _)
  obtain ⟨t₁, hturn, F₁, S₁, hL₁, rfl⟩ := hfirst.queues hq₀
  -- `a` is in hand after its removal.
  have hhand : s₁.inHand = some a := by
    cases hfirst with
    | turn => rfl
  rw [hhand] at hL₁ hturn
  have hq₁ : Queues s₁ (some a, schedOrder s₁.k S₁) := ⟨F₁, S₁, hhand ▸ hL₁, by rw [hhand]⟩
  obtain ⟨t₂, hrun', hq₂⟩ := hrun.simulation SchedEvent.turn restricted_queues hq₁
  obtain ⟨t₃, hnext', -⟩ := hnext.queues hq₂
  have hb : b ∈ schedOrder s₁.k S₁ := by
    obtain ⟨S', hr, hmem⟩ := hlisted
    rw [hr.unique hL₁.sched] at hmem
    exact mem_schedOrder.mpr hmem
  have hdrop : .drop b ∉ tr.map SchedEvent.turn := by
    intro hmem
    obtain ⟨l, hl, hlb⟩ := List.mem_map.mp hmem
    exact hdestroyed (turn_eq_drop hlb ▸ hl)
  rw [← count_turns]
  exact rr_no_overtaking hL₁.distinct hrun' hnext' hb hdrop

/-! ### Two environments of priority 1 -/

def Eager (k : Kernel) : Prop := ∀ x, (k.envs x).status = .ENV_RUNNABLE ∧ (k.envs x).pri = 1

theorem envRun_eager (h : Eager k) (e : EnvPtr) : Eager (envRun k e) := by
  intro x
  refine ⟨by rw [envRun_status, (h x).1], ?_⟩
  have hpri : ((envRun k e).envs x).pri = (k.envs x).pri := by
    unfold envRun
    cases k.curenv with
    | none =>
        simp only [Kernel.updEnv_envs]
        split <;> rfl
    | some c =>
        simp only [Kernel.updEnv_envs]
        split <;> split <;> rfl
  rw [hpri, (h x).2]

/-- The environment in hand runs, yields, and the next one is removed. -/
theorem eager_round (img : Image) {x : EnvPtr} {rest : List EnvPtr}
    (h : ListsHold k (some e) F S) (heager : Eager k) (hcount : k.count = 1) (horder : schedOrder k S = x :: rest) :
    ∃ k₁ k₂ S', Run (TurnStep img) ⟨k, .loop (some e)⟩ [.other, .other] ⟨k₁, .loop (some e)⟩ ∧
      TurnStep img ⟨k₁, .loop (some e)⟩ (.removed x) ⟨k₂, .loop (some x)⟩ ∧
      ListsHold k₂ (some x) F S' ∧ Eager k₂ ∧ k₂.count = 1 ∧ schedOrder k₂ S' = rest ++ [e] := by
  obtain ⟨hl, hs⟩ := envRun_links { k with count := k.count - 1 } e
  have hsame : Eager { k with count := k.count - 1 } := heager
  have heager₁ : Eager (envRun { k with count := k.count - 1 } e) := envRun_eager hsame e
  have hcount₁ : (envRun { k with count := k.count - 1 } e).count = 0 := by
    unfold envRun
    cases k.curenv <;> exact (by rw [hcount]; rfl : k.count - 1 = 0)
  have hp₁ : (envRun { k with count := k.count - 1 } e).point = k.point := by
    unfold envRun
    cases k.curenv <;> rfl
  generalize hk₁ : envRun { k with count := k.count - 1 } e = k₁ at *
  have hcur₁ : k₁.curenv = some e := by rw [← hk₁]; rfl
  have hL₁ : ListsHold k₁ (some e) F S := h.congr hl hs
  have horder₁ : schedOrder k₁ S = x :: rest := by rw [schedOrder_congr hp₁, horder]
  have hrun : TurnStep img ⟨k, .loop (some e)⟩ .other ⟨k₁, .user⟩ :=
    hk₁ ▸ .env_run ⟨by rw [hcount]; decide, (heager e).1⟩
  have hyield : TurnStep img ⟨k₁, .user⟩ .other ⟨k₁, .loop (some e)⟩ := hcur₁ ▸ .sched_yield
  rcases schedTurn_order hL₁ with ⟨hempty, -⟩ | ⟨k₂, y, S₂, hturn, hL₂, henvs, hc₂, horder₂⟩
  · rw [horder₁] at hempty
    cases hempty
  · rw [horder₁] at horder₂
    obtain ⟨rfl, hrest⟩ : x = y ∧ rest ++ [e] = schedOrder k₂ S₂ := List.cons.inj horder₂
    refine ⟨k₁, k₂, S₂, .cons hrun (.single hyield), .turn ?_ hturn, hL₂, ?_, ?_, hrest.symm⟩
    · rintro z ⟨⟩ ⟨hne, -⟩
      exact hne hcount₁
    · intro z
      rw [henvs]
      exact heager₁ z
    · rw [hc₂, (heager₁ x).2]

/-- Environments 0 and 1 in a list, both runnable and none in hand. -/
theorem board_two_listed : ∃ k S, ListsHold k none [] S ∧ Eager k ∧ schedOrder k S = [0, 1] := by
  have h₀ : ListsHold { boardKernel with
      envs := fun _ => { zeroEnv with status := .ENV_RUNNABLE, pri := 1 } } none []
      (fun _ => []) := by
    refine ⟨⟨fun _ => ⟨trivial, rfl⟩, fun _ => List.nodup_nil, ?_⟩,
      ⟨fun _ => ⟨trivial, rfl⟩, fun _ => List.nodup_nil, ?_⟩, ?_, ?_⟩
    · rintro h h' e ⟨⟩
    · rintro h h' e ⟨⟩
    · rintro e ⟨⟩
    · rintro e ⟨⟩
  obtain ⟨l₁, -, h₁⟩ := h₀.insertTail (e := 0) (by simp) (by simp) (by simp) 0
  obtain ⟨l₂, -, h₂⟩ := h₁.insertTail (e := 1) (by simp) (by simp) (by decide) 0
  exact ⟨_, _, h₂, fun _ => ⟨rfl, rfl⟩, rfl⟩

/-- Environment 1 is removed once between two removals of environment 0. -/
theorem board_no_overtaking : ∃ s s₁ s₂ s₃ tr, s.ListedOnce ∧
    TurnStep boardImage s (.removed 0) s₁ ∧ Run (TurnStep boardImage) s₁ tr s₂ ∧
    TurnStep boardImage s₂ (.removed 0) s₃ ∧ tr.count (.removed 1) = 1 := by
  obtain ⟨k, S, hL, heager, horder⟩ := board_two_listed
  rcases schedTurn_order hL with ⟨hempty, -⟩ | ⟨k₁, y, S₁, hturn, hL₁, henvs, hc₁, horder₁⟩
  · rw [horder] at hempty
    cases hempty
  rw [horder] at horder₁
  obtain ⟨rfl, hrest⟩ : 0 = y ∧ [1] = schedOrder k₁ S₁ := List.cons.inj horder₁
  have heager₁ : Eager k₁ := fun z => by rw [henvs]; exact heager z
  obtain ⟨k₂, k₃, S₃, hrun₂, hturn₃, hL₃, heager₃, hc₃, horder₃⟩ :=
    eager_round boardImage hL₁ heager₁ (by rw [hc₁, (heager 0).2]) hrest.symm
  obtain ⟨k₄, k₅, S₅, hrun₄, hturn₅, -⟩ := eager_round boardImage hL₃ heager₃ hc₃ horder₃
  have hfirst : TurnStep boardImage ⟨k, .loop none⟩ (.removed 0) ⟨k₁, .loop (some 0)⟩ :=
    .turn (by rintro e ⟨⟩) hturn
  have hrun := (hrun₂.append (.single hturn₃)).append hrun₄
  have hok : ∀ l ∈ [SchedEvent.other, .other] ++ [.removed 1] ++ [.other, .other],
      l ≠ .removed 0 ∧ l ≠ .destroyed 0 := by decide
  refine ⟨_, _, _, _, _, ⟨[], S, hL⟩, hfirst, hrun, hturn₅, ?_⟩
  exact sched_no_overtaking ⟨[], S, hL⟩ .nil hfirst (hrun.restrict_of_forall hok) hturn₅
    ⟨S₁, hL₁.sched, mem_schedOrder.mp (hrest ▸ List.mem_singleton_self 1)⟩ (by decide)

end RpiMos
