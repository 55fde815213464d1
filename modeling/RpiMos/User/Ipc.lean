/-
  RpiMos.User.Ipc

  user/ipc.c over the IPC handlers: runs in which any number of environments
  call `ipc_recv` and send, interleaved in any order.  The mailbox of each
  environment is a one-place buffer: `Mail` ties `ipc_recving`, `status` and the
  program point in `ipc_recv` to what the buffer holds.
-/

import RpiMos.Kernel.Ipc
import RpiMos.Lib.OnePlace
import Mathlib.Logic.Function.Basic

namespace RpiMos

open Lib

variable {k k' : Kernel} {env env' : Env} {c e : EnvPtr} {id envid : U32}
  {value srcva perm dstva : Word}

/-! ## `ipc_recv` -/

/-- Which of the pointers `whom` and `perm` are not NULL. -/
structure Want where
  whom : Bool
  perm : Bool

/-- Where an environment stands in `ipc_recv`: outside, or before one of the
    three reads that follow the system call, with what is stored so far. -/
inductive RecvPc where
  | out
  | readFrom (want : Want)
  | readPerm (want : Want) (whom : Option U32)
  | readValue (want : Want) (whom : Option U32) (perm : Option Word)

/-- What `ipc_recv` leaves in `*whom` and `*perm`, and what it returns. -/
structure Report where
  whom : Option U32
  perm : Option Word
  value : Word

structure Msg where
  sender : U32
  value : Word
  perm : Word

/-- The message, unmodified, as far as the receiver asked for it. -/
def Msg.report (m : Msg) (want : Want) : Report where
  whom := if want.whom then some m.sender else none
  perm := if want.perm then some m.perm else none
  value := m.value

/-! ## Runs -/

structure IpcState where
  kern : Kernel
  pc : EnvPtr → RecvPc

inductive IpcEvent where
  | recv (c : EnvPtr) (want : Want) (dstva : Word)
  /-- `woken` is the environment woken, `r` the value returned. -/
  | can_send (c : EnvPtr) (envid : U32) (value srcva perm : Word) (woken : Option EnvPtr) (r : Word)
  | yield
  | read (c : EnvPtr)
  | ret (c : EnvPtr) (want : Want) (report : Report)
  | other

inductive IpcStep : IpcState → IpcEvent → IpcState → Prop
  | recv {s : IpcState} {c : EnvPtr} {want : Want} {dstva : Word} {k' : Kernel}
      (hcur : s.kern.curenv = some c) (hpc : s.pc c = .out) (hdst : dstva < KERNBASE)
      (hrun : Dispatch (ipcRecvBlock s.kern c dstva) k') :
      IpcStep s (.recv c want dstva) ⟨k', Function.update s.pc c (.readFrom want)⟩
  | can_send {s : IpcState} {c : EnvPtr} {envid : U32} {value srcva perm : Word}
      (hcur : s.kern.curenv = some c) (hpc : s.pc c = .out) :
      IpcStep s
        (.can_send c envid value srcva perm (sendTarget s.kern envid srcva)
          ((sysIpcCanSend s.kern c envid value srcva perm).trap.regs 0))
        ⟨sysIpcCanSend s.kern c envid value srcva perm, s.pc⟩
  /-- `sys_yield` by whichever environment runs, or the timer. -/
  | yield {s : IpcState} {k' : Kernel} (hrun : Dispatch s.kern k') : IpcStep s .yield ⟨k', s.pc⟩
  | readFrom {s : IpcState} {c : EnvPtr} {want : Want}
      (hcur : s.kern.curenv = some c) (hpc : s.pc c = .readFrom want) :
      IpcStep s (.read c) ⟨s.kern, Function.update s.pc c (.readPerm want
        (if want.whom then some ((s.kern.envs c).ipc_from.setWidth 32) else none))⟩
  | readPerm {s : IpcState} {c : EnvPtr} {want : Want} {whom : Option U32}
      (hcur : s.kern.curenv = some c) (hpc : s.pc c = .readPerm want whom) :
      IpcStep s (.read c) ⟨s.kern, Function.update s.pc c (.readValue want whom
        (if want.perm then some (s.kern.envs c).ipc_perm else none))⟩
  | readValue {s : IpcState} {c : EnvPtr} {want : Want} {whom : Option U32} {perm : Option Word}
      (hcur : s.kern.curenv = some c) (hpc : s.pc c = .readValue want whom perm) :
      IpcStep s (.ret c want ⟨whom, perm, (s.kern.envs c).ipc_value⟩)
        ⟨s.kern, Function.update s.pc c .out⟩

  /-- Whatever else the running environment does to memory and registers. -/
  | other {s : IpcState} {k' : Kernel} (henvs : k'.envs = s.kern.envs)
      (hcur : k'.curenv = s.kern.curenv) : IpcStep s .other ⟨k', s.pc⟩

/-- The message that the event leaves with `e`; `ids` are the environments' ids. -/
def IpcEvent.arrival (ids : EnvPtr → U32) (e : EnvPtr) : IpcEvent → Option Msg
  | .can_send c _ value _ perm (some e') _ => if e' = e then some ⟨ids c, value, perm⟩ else none
  | _ => none

/-- What `ipc_recv` of `e` reports at the event. -/
def IpcEvent.returned (e : EnvPtr) : IpcEvent → Option (Want × Report)
  | .ret c want report => if c = e then some (want, report) else none
  | _ => none

def arrivals (ids : EnvPtr → U32) (e : EnvPtr) (tr : List IpcEvent) : List Msg :=
  tr.filterMap (IpcEvent.arrival ids e)

def returns (e : EnvPtr) (tr : List IpcEvent) : List (Want × Report) :=
  tr.filterMap (IpcEvent.returned e)

/-- A return shows the message as it was sent. -/
def Shows (m : Msg) (x : Want × Report) : Prop := x.2 = m.report x.1

/-! ## The mailbox -/

/-- The fields that `ipc_recv` reads hold the message. -/
structure Envelope (env : Env) (m : Msg) : Prop where
  sender : env.ipc_from = m.sender.setWidth 64
  perm : env.ipc_perm = m.perm
  value : env.ipc_value = m.value

/-- What has been stored at this point is the message's. -/
def Stored (m : Msg) : RecvPc → Prop
  | .out => False
  | .readFrom _ => True
  | .readPerm want whom => whom = (m.report want).whom
  | .readValue want whom perm => whom = (m.report want).whom ∧ perm = (m.report want).perm

/-- What the mailbox of an environment at program point `pc` holds. -/
inductive Mail (env : Env) : RecvPc → Option Msg → Prop
  | out (hrecv : env.ipc_recving = 0) : Mail env .out none
  | blocked {want : Want} (hrecv : env.ipc_recving ≠ 0) (hst : env.status ≠ .ENV_RUNNABLE) :
      Mail env (.readFrom want) none
  | full {pc : RecvPc} {m : Msg} (hrecv : env.ipc_recving = 0) (henv : Envelope env m)
      (hst : Stored m pc) : Mail env pc (some m)

namespace Mail

variable {pc : RecvPc} {held : Option Msg} {want : Want} {m : Msg}

theorem congr (h : Mail env pc held) (hsame : SameEnv env env') : Mail env' pc held := by
  obtain ⟨tf, runs, rfl⟩ := hsame
  cases h with
  | out hrecv => exact .out hrecv
  | blocked hrecv hst => exact .blocked hrecv hst
  | full hrecv henv hst => exact .full hrecv ⟨henv.sender, henv.perm, henv.value⟩ hst

/-- Only an environment that is not receiving is runnable. -/
theorem recving_of_runnable (h : Mail env pc held) (hst : env.status = .ENV_RUNNABLE) :
    env.ipc_recving = 0 := by
  cases h with
  | out hrecv => exact hrecv
  | blocked _ hst' => exact absurd hst hst'
  | full hrecv _ _ => exact hrecv

/-- A receiver that waits has an empty mailbox. -/
theorem held_of_recving (h : Mail env pc held) (hrecv : env.ipc_recving ≠ 0) :
    held = none ∧ ∃ want, pc = .readFrom want := by
  cases h with
  | out hrecv' => exact absurd hrecv' hrecv
  | blocked => exact ⟨rfl, _, rfl⟩
  | full hrecv' => exact absurd hrecv' hrecv

theorem held_of_out (h : Mail env .out held) : held = none := by
  cases h with
  | out => rfl
  | full _ _ hst => exact hst.elim

/-- An environment that reads its envelope has a message in it. -/
theorem full_of_recving (h : Mail env pc held) (hrecv : env.ipc_recving = 0) (hpc : pc ≠ .out) :
    ∃ m, held = some m ∧ Envelope env m ∧ Stored m pc := by
  cases h with
  | out => exact absurd rfl hpc
  | blocked hrecv' => exact absurd hrecv hrecv'
  | full _ henv hst => exact ⟨_, rfl, henv, hst⟩

theorem deliver (h : Mail env pc held) (hrecv : env.ipc_recving ≠ 0) (value perm : Word) :
    Mail (ipcDeliver id value perm env) pc (some ⟨id, value, perm⟩) := by
  obtain ⟨-, want, rfl⟩ := h.held_of_recving hrecv
  exact .full rfl ⟨rfl, rfl, rfl⟩ trivial

end Mail

/-! ## The invariant -/

/-- The sends that returned 0 woke the environment that has the id they name. -/
def Accepted (idOf : EnvPtr → U32) (tr : List IpcEvent) : Prop :=
  ∀ c envid value srcva perm woken, .can_send c envid value srcva perm woken 0 ∈ tr →
    ∃ e, woken = some e ∧ idOf e = envid

/-- Each mailbox is a one-place buffer. -/
def MailsOk (idOf : EnvPtr → U32) (tr : List IpcEvent) (s : IpcState) : Prop :=
  ∀ e, ∃ held, Mail (s.kern.envs e) (s.pc e) held ∧
    OnePlace Shows (arrivals idOf e tr) (returns e tr) held

/-- The environment that runs is not receiving; ids stay as they are. -/
structure IpcInv (idOf : EnvPtr → U32) (tr : List IpcEvent) (s : IpcState) : Prop where
  ids : ∀ e, (s.kern.envs e).id = idOf e
  cur : ∀ c, s.kern.curenv = some c → (s.kern.envs c).ipc_recving = 0
  mails : MailsOk idOf tr s
  accepted : Accepted idOf tr

section Step

variable {idOf : EnvPtr → U32} {tr : List IpcEvent} {s s' : IpcState} {a : IpcEvent}
  {pc : RecvPc} {held : Option Msg} {want : Want}

theorem arrivals_snoc (a : IpcEvent) : arrivals idOf e (tr ++ [a]) =
    arrivals idOf e tr ++ (a.arrival idOf e).toList := filterMap_snoc _ tr a

theorem returns_snoc (a : IpcEvent) : returns e (tr ++ [a]) =
    returns e tr ++ (a.returned e).toList := filterMap_snoc _ tr a

theorem Accepted.snoc (h : Accepted idOf tr)
    (hlast : ∀ c envid value srcva perm woken, a = .can_send c envid value srcva perm woken 0 →
      ∃ e, woken = some e ∧ idOf e = envid) : Accepted idOf (tr ++ [a]) := by
  intro c envid value srcva perm woken hmem
  rcases List.mem_append.mp hmem with hmem | hmem
  · exact h c envid value srcva perm woken hmem
  · exact hlast c envid value srcva perm woken (List.mem_singleton.mp hmem).symm

/-- An event without a message leaves the history of a mailbox alone. -/
theorem history_idle (h : OnePlace Shows (arrivals idOf e tr) (returns e tr) held)
    (harr : a.arrival idOf e = none) (hret : a.returned e = none) :
    OnePlace Shows (arrivals idOf e (tr ++ [a])) (returns e (tr ++ [a])) held := by
  rw [arrivals_snoc, returns_snoc, harr, hret]
  simpa using h

/-- The program point of `c` moves; every other mailbox stays. -/
theorem MailsOk.move (h : MailsOk idOf tr s) (henvs : ∀ x, x ≠ c → k.envs x = s.kern.envs x)
    (hother : ∀ x, x ≠ c → a.arrival idOf x = none ∧ a.returned x = none)
    (hc : ∀ held, Mail (s.kern.envs c) (s.pc c) held →
      OnePlace Shows (arrivals idOf c tr) (returns c tr) held →
      ∃ held', Mail (k.envs c) pc held' ∧
        OnePlace Shows (arrivals idOf c (tr ++ [a])) (returns c (tr ++ [a])) held') :
    MailsOk idOf (tr ++ [a]) ⟨k, Function.update s.pc c pc⟩ := by
  intro x
  show ∃ held, Mail (k.envs x) (Function.update s.pc c pc x) held ∧ _
  obtain ⟨held, hmail, hone⟩ := h x
  by_cases hx : x = c
  · subst hx
    obtain ⟨held', hmail', hone'⟩ := hc held hmail hone
    exact ⟨held', by rw [Function.update_self]; exact hmail', hone'⟩
  · refine ⟨held, ?_, history_idle hone (hother x hx).1 (hother x hx).2⟩
    rw [Function.update_of_ne hx]
    exact (henvs x hx).symm ▸ hmail

/-- A dispatch keeps every mailbox, and whoever runs then is not receiving. -/
theorem IpcInv.of_dispatch {pcs : EnvPtr → RecvPc} (hids : ∀ e, (k.envs e).id = idOf e)
    (hmails : MailsOk idOf tr ⟨k, pcs⟩) (hacc : Accepted idOf tr) (hrun : Dispatch k k') :
    IpcInv idOf tr ⟨k', pcs⟩ := by
  obtain ⟨hsame, -, e, hcur, hst⟩ := hrun.spec
  refine ⟨fun x => ?_, fun c hc => ?_, fun x => ?_, hacc⟩
  · obtain ⟨tf, runs, heq⟩ := hsame x
    rw [heq]
    exact hids x
  · obtain rfl : e = c := Option.some.inj (hcur.symm.trans hc)
    obtain ⟨held, hmail, -⟩ := hmails e
    obtain ⟨tf, runs, heq⟩ := hsame e
    rw [heq]
    exact hmail.recving_of_runnable hst
  · obtain ⟨held, hmail, hone⟩ := hmails x
    exact ⟨held, hmail.congr (hsame x), hone⟩

theorem IpcInv.recv (h : IpcInv idOf tr s) (hpc : s.pc c = .out)
    (hrun : Dispatch (ipcRecvBlock s.kern c dstva) k') :
    IpcInv idOf (tr ++ [.recv c want dstva]) ⟨k', Function.update s.pc c (.readFrom want)⟩ := by
  have hblock : ∀ x, x ≠ c → (ipcRecvBlock s.kern c dstva).envs x = s.kern.envs x :=
    fun x hx => by rw [ipcRecvBlock, Kernel.updEnv_envs, if_neg hx]
  have hself : (ipcRecvBlock s.kern c dstva).envs c = { s.kern.envs c with
      ipc_recving := 1, ipc_dstva := dstva, status := .ENV_NOT_RUNNABLE } := by
    rw [ipcRecvBlock, Kernel.updEnv_envs, if_pos rfl]
  refine IpcInv.of_dispatch (fun e => ?_) (h.mails.move hblock (fun x _ => ⟨rfl, rfl⟩) ?_)
    (h.accepted.snoc fun _ _ _ _ _ _ ha => by cases ha) hrun
  · by_cases he : e = c
    · subst he
      rw [hself]
      exact h.ids e
    · rw [hblock e he]
      exact h.ids e
  · intro held hmail hone
    rw [hpc] at hmail
    obtain rfl := hmail.held_of_out
    refine ⟨none, ?_, history_idle hone rfl rfl⟩
    rw [hself]
    exact .blocked (by simp) (by simp)

/-- The message goes into an empty mailbox, and a send that wakes nobody fails. -/
theorem IpcInv.send (h : IpcInv idOf tr s) (hcur : s.kern.curenv = some c) :
    IpcInv idOf (tr ++ [.can_send c envid value srcva perm (sendTarget s.kern envid srcva)
        ((sysIpcCanSend s.kern c envid value srcva perm).trap.regs 0)])
      ⟨sysIpcCanSend s.kern c envid value srcva perm, s.pc⟩ := by
  cases ht : sendTarget s.kern envid srcva with
  | none =>
      obtain ⟨r, hr, hk⟩ := sysIpcCanSend_none c value perm ht
      rw [hk]
      refine ⟨h.ids, h.cur, fun x => ?_, h.accepted.snoc fun _ _ _ _ _ _ ha => ?_⟩
      · obtain ⟨held, hmail, hone⟩ := h.mails x
        exact ⟨held, hmail, history_idle hone rfl rfl⟩
      · injection ha with _ _ _ _ _ _ h0
        exact absurd h0 hr
  | some e =>
      obtain ⟨henv, hrecv⟩ := sendTarget_eq_some ht
      rw [sysIpcCanSend_some c value perm ht]
      -- The sender itself is not receiving.
      have hne : c ≠ e := by
        rintro rfl
        exact hrecv (h.cur c hcur)
      have henvs : ∀ x, (s.kern.updEnv e (ipcDeliver (s.kern.envs c).id value perm)).envs x =
          if x = e then ipcDeliver (idOf c) value perm (s.kern.envs x) else s.kern.envs x := by
        intro x
        rw [← h.ids c]
        rfl
      refine ⟨fun x => ?_, fun x hx => ?_, fun x => ?_, h.accepted.snoc fun _ _ _ _ _ _ ha => ?_⟩
      · show ((s.kern.updEnv e (ipcDeliver (s.kern.envs c).id value perm)).envs x).id = _
        rw [henvs]
        split <;> exact h.ids x
      · show ((s.kern.updEnv e (ipcDeliver (s.kern.envs c).id value perm)).envs x).ipc_recving = 0
        rw [henvs]
        split
        · rfl
        · exact h.cur x hx
      · obtain ⟨held, hmail, hone⟩ := h.mails x
        show ∃ held, Mail ((s.kern.updEnv e (ipcDeliver (s.kern.envs c).id value perm)).envs x)
          (s.pc x) held ∧ _
        rw [henvs]
        by_cases hx : x = e
        · subst hx
          obtain ⟨rfl, -⟩ := hmail.held_of_recving hrecv
          refine ⟨_, by rw [if_pos rfl]; exact hmail.deliver hrecv value perm, ?_⟩
          rw [arrivals_snoc, returns_snoc]
          simpa [IpcEvent.arrival, IpcEvent.returned] using hone.put _
        · refine ⟨held, by rw [if_neg hx]; exact hmail, history_idle hone ?_ rfl⟩
          simp [IpcEvent.arrival, Ne.symm hx]
      · injection ha with _ henvid _ _ _ hwoken _
        refine ⟨e, hwoken.symm, ?_⟩
        subst henvid
        rw [← h.ids e]
        exact (envid2env_id henv).resolve_left fun hc => hne (Option.some.inj (hcur.symm.trans hc))

/-- A read between the system call and the return keeps the message in the mailbox. -/
theorem IpcInv.read (h : IpcInv idOf tr s) (hcur : s.kern.curenv = some c)
    (hin : s.pc c ≠ .out) (hst : ∀ m, Envelope (s.kern.envs c) m → Stored m (s.pc c) → Stored m pc) :
    IpcInv idOf (tr ++ [.read c]) ⟨s.kern, Function.update s.pc c pc⟩ := by
  refine ⟨h.ids, h.cur, h.mails.move (fun _ _ => rfl) (fun x _ => ⟨rfl, rfl⟩) ?_,
    h.accepted.snoc fun _ _ _ _ _ _ ha => by cases ha⟩
  intro held hmail hone
  obtain ⟨m, rfl, henv, hm⟩ := hmail.full_of_recving (h.cur c hcur) hin
  exact ⟨some m, .full (h.cur c hcur) henv (hst m henv hm), history_idle hone rfl rfl⟩

/-- The return takes the message out, unmodified. -/
theorem IpcInv.ret {whom : Option U32} {perm : Option Word} (h : IpcInv idOf tr s)
    (hcur : s.kern.curenv = some c) (hpc : s.pc c = .readValue want whom perm) :
    IpcInv idOf (tr ++ [.ret c want ⟨whom, perm, (s.kern.envs c).ipc_value⟩])
      ⟨s.kern, Function.update s.pc c .out⟩ := by
  refine ⟨h.ids, h.cur, h.mails.move (fun _ _ => rfl) (fun x hx => ⟨rfl, ?_⟩) ?_,
    h.accepted.snoc fun _ _ _ _ _ _ ha => by cases ha⟩
  · simp [IpcEvent.returned, Ne.symm hx]
  · intro held hmail hone
    obtain ⟨m, rfl, henv, hm⟩ := hmail.full_of_recving (h.cur c hcur) (by rw [hpc]; simp)
    rw [hpc] at hm
    obtain ⟨rfl, rfl⟩ := hm
    refine ⟨none, .out (h.cur c hcur), ?_⟩
    rw [arrivals_snoc, returns_snoc]
    have hshow : Shows m (want, ⟨(m.report want).whom, (m.report want).perm,
        (s.kern.envs c).ipc_value⟩) := by
      rw [Shows, henv.value]
      rfl
    simpa [IpcEvent.arrival, IpcEvent.returned] using hone.take hshow

theorem ipcStep_inv (h : IpcInv idOf tr s) (hstep : IpcStep s a s') : IpcInv idOf (tr ++ [a]) s' := by
  cases hstep with
  | recv hcur hpc hdst hrun => exact h.recv hpc hrun
  | can_send hcur hpc => exact h.send hcur
  | yield hrun =>
      refine IpcInv.of_dispatch h.ids (fun x => ?_) (h.accepted.snoc fun _ _ _ _ _ _ ha => ?_) hrun
      · obtain ⟨held, hmail, hone⟩ := h.mails x
        exact ⟨held, hmail, history_idle hone rfl rfl⟩
      · cases ha
  | @readFrom c want hcur hpc =>
      refine h.read hcur (by rw [hpc]; simp) fun m henv _ => ?_
      show _ = (m.report want).whom
      rw [henv.sender, Msg.report]
      simp
  | @readPerm c want whom hcur hpc =>
      refine h.read hcur (by rw [hpc]; simp) fun m henv hm => ?_
      rw [hpc] at hm
      refine ⟨hm, ?_⟩
      rw [henv.perm, Msg.report]
  | readValue hcur hpc => exact h.ret hcur hpc
  | @other k' henvs hcur =>
      refine ⟨fun x => ?_, fun c hc => ?_, fun x => ?_,
        h.accepted.snoc fun _ _ _ _ _ _ ha => by cases ha⟩
      · show (k'.envs x).id = _
        rw [henvs]
        exact h.ids x
      · show (k'.envs c).ipc_recving = 0
        rw [henvs]
        exact h.cur c (hcur.symm.trans hc)
      · obtain ⟨held, hmail, hone⟩ := h.mails x
        refine ⟨held, ?_, history_idle hone rfl rfl⟩
        show Mail (k'.envs x) (s.pc x) held
        rw [henvs]
        exact hmail

end Step

/-! ## What one step does -/

section Effects

variable {s s' : IpcState} {a : IpcEvent} {want : Want} {woken : Option EnvPtr} {r : Word}
  {x : EnvPtr} {held : Option Msg}

/-- The environment whose mailbox or program point an event is about. -/
def IpcEvent.touches : IpcEvent → Option EnvPtr
  | .recv c _ _ => some c
  | .can_send _ _ _ _ _ woken _ => woken
  | .read c => some c
  | .ret c _ _ => some c
  | .yield => none
  | .other => none

/-- Every other environment keeps its mailbox and its program point. -/
theorem IpcStep.frame (h : IpcStep s a s') (hx : a.touches ≠ some x) :
    SameEnv (s.kern.envs x) (s'.kern.envs x) ∧ s'.pc x = s.pc x := by
  cases h with
  | @recv c want dstva k' hcur hpc hdst hrun =>
      have hxc : x ≠ c := fun h => hx (by rw [h]; rfl)
      refine ⟨?_, Function.update_of_ne hxc _ _⟩
      have hsame := hrun.spec.1 x
      rw [ipcRecvBlock, Kernel.updEnv_envs, if_neg hxc] at hsame
      exact hsame
  | @can_send c envid value srcva perm hcur hpc =>
      refine ⟨?_, rfl⟩
      cases ht : sendTarget s.kern envid srcva with
      | none =>
          obtain ⟨r, -, hk⟩ := sysIpcCanSend_none c value perm ht
          rw [hk]
          exact .refl _
      | some e =>
          have hxe : x ≠ e := by
            rintro rfl
            exact hx ht
          rw [sysIpcCanSend_some c value perm ht]
          show SameEnv _ ((s.kern.updEnv e (ipcDeliver (s.kern.envs c).id value perm)).envs x)
          rw [Kernel.updEnv_envs, if_neg hxe]
          exact .refl _
  | yield hrun => exact ⟨hrun.spec.1 x, rfl⟩
  | readFrom hcur hpc => exact ⟨.refl _, Function.update_of_ne (fun h => hx (by rw [h]; rfl)) _ _⟩
  | readPerm hcur hpc => exact ⟨.refl _, Function.update_of_ne (fun h => hx (by rw [h]; rfl)) _ _⟩
  | readValue hcur hpc => exact ⟨.refl _, Function.update_of_ne (fun h => hx (by rw [h]; rfl)) _ _⟩
  | other henvs hcur =>
      refine ⟨?_, rfl⟩
      rw [henvs]
      exact .refl _

theorem Mail.frame (h : Mail (s.kern.envs x) (s.pc x) held) (hstep : IpcStep s a s')
    (hx : a.touches ≠ some x) : Mail (s'.kern.envs x) (s'.pc x) held := by
  obtain ⟨hsame, hpc⟩ := hstep.frame hx
  rw [hpc]
  exact h.congr hsame

/-- The directory of an environment is not what IPC changes. -/
theorem IpcStep.pgdir (h : IpcStep s a s') (x : EnvPtr) : s'.kern.pgdir x = s.kern.pgdir x := by
  have hsame : ∀ {env env' : Env}, SameEnv env env' → env'.pgdir = env.pgdir := by
    rintro env env' ⟨tf, runs, rfl⟩
    rfl
  have hdir : (s'.kern.envs x).pgdir = (s.kern.envs x).pgdir := by
    by_cases hx : a.touches = some x
    · cases h with
      | recv hcur hpc hdst hrun =>
          rw [hsame (hrun.spec.1 x), ipcRecvBlock, Kernel.updEnv_envs]
          split <;> rfl
      | can_send hcur hpc =>
          rw [sysIpcCanSend_some _ _ _ hx]
          show ((Kernel.updEnv _ _ _).envs x).pgdir = _
          rw [Kernel.updEnv_envs]
          split <;> rfl
      | yield => cases hx
      | readFrom => rfl
      | readPerm => rfl
      | readValue => rfl
      | other => cases hx
    · exact hsame (h.frame hx).1
  rw [Kernel.pgdir, Kernel.pgdir, hdir]

/-- Calling `ipc_recv` empties nothing and blocks. -/
theorem IpcStep.recv_mail (h : IpcStep s (.recv c want dstva) s') :
    s.pc c = .out ∧ dstva < KERNBASE ∧ s'.kern.pm = s.kern.pm ∧
    Mail (s'.kern.envs c) (s'.pc c) none ∧ (s'.kern.envs c).ipc_dstva = dstva := by
  cases h with
  | @recv _ _ _ k' hcur hpc hdst hrun =>
      obtain ⟨hsame, hpm, -⟩ := hrun.spec
      obtain ⟨tf, runs, heq⟩ := hsame c
      rw [ipcRecvBlock, Kernel.updEnv_envs, if_pos rfl] at heq
      refine ⟨hpc, hdst, hpm, ?_, by rw [heq]⟩
      show Mail (k'.envs c) (Function.update s.pc c _ c) none
      rw [Function.update_self, heq]
      exact .blocked (by simp) (by simp)

/-- A send that wakes nobody fails and leaves memory alone. -/
theorem IpcStep.send_none (h : IpcStep s (.can_send c envid value srcva perm woken r) s')
    (hwoken : woken = none) : s'.kern.pm = s.kern.pm ∧ r ≠ 0 := by
  cases h with
  | can_send hcur hpc =>
      obtain ⟨r, hr, hk⟩ := sysIpcCanSend_none c value perm hwoken
      rw [hk]
      exact ⟨rfl, hr⟩

/-- A send that wakes `e` leaves the message there and maps its page. -/
theorem IpcStep.send_some (h : IpcStep s (.can_send c envid value srcva perm woken r) s')
    (hwoken : woken = some e) :
    envid2env s.kern envid false = some e ∧ (s.kern.envs e).ipc_recving ≠ 0 ∧
    s'.kern.pm = (ipcMap s.kern c e srcva perm).1 ∧ r = (ipcMap s.kern c e srcva perm).2 ∧
    ∀ held, Mail (s.kern.envs e) (s.pc e) held →
      Mail (s'.kern.envs e) (s'.pc e) (some ⟨(s.kern.envs c).id, value, perm⟩) := by
  cases h with
  | can_send hcur hpc =>
      obtain ⟨henv, hrecv⟩ := sendTarget_eq_some hwoken
      rw [sysIpcCanSend_some c value perm hwoken]
      refine ⟨henv, hrecv, rfl, rfl, fun held hmail => ?_⟩
      show Mail ((s.kern.updEnv e (ipcDeliver (s.kern.envs c).id value perm)).envs e) _ _
      rw [Kernel.updEnv_envs, if_pos rfl]
      exact hmail.deliver hrecv value perm

theorem IpcStep.read_mail (h : IpcStep s (.read c) s') (hrecv : (s.kern.envs c).ipc_recving = 0)
    (hmail : Mail (s.kern.envs c) (s.pc c) held) :
    s'.kern.pm = s.kern.pm ∧ held ≠ none ∧ Mail (s'.kern.envs c) (s'.pc c) held := by
  cases h with
  | @readFrom _ want hcur hpc =>
      obtain ⟨m, rfl, henv, -⟩ := hmail.full_of_recving hrecv (by rw [hpc]; simp)
      refine ⟨rfl, by simp, ?_⟩
      show Mail (s.kern.envs c) (Function.update s.pc c _ c) (some m)
      rw [Function.update_self]
      refine .full hrecv henv ?_
      show _ = (m.report want).whom
      rw [henv.sender, Msg.report]
      simp
  | @readPerm _ want whom hcur hpc =>
      obtain ⟨m, rfl, henv, hm⟩ := hmail.full_of_recving hrecv (by rw [hpc]; simp)
      rw [hpc] at hm
      refine ⟨rfl, by simp, ?_⟩
      show Mail (s.kern.envs c) (Function.update s.pc c _ c) (some m)
      rw [Function.update_self]
      refine .full hrecv henv ⟨hm, ?_⟩
      rw [henv.perm, Msg.report]

theorem IpcStep.ret_mail {report : Report} (h : IpcStep s (.ret c want report) s')
    (hrecv : (s.kern.envs c).ipc_recving = 0) (hmail : Mail (s.kern.envs c) (s.pc c) held) :
    s'.kern.pm = s.kern.pm ∧ Mail (s'.kern.envs c) (s'.pc c) none ∧ s'.pc c = .out ∧
    ∃ m, held = some m ∧ report = m.report want := by
  cases h with
  | @readValue _ _ whom perm hcur hpc =>
      obtain ⟨m, rfl, henv, hm⟩ := hmail.full_of_recving hrecv (by rw [hpc]; simp)
      rw [hpc] at hm
      obtain ⟨rfl, rfl⟩ := hm
      refine ⟨rfl, ?_, Function.update_self _ _ _, m, rfl, by rw [henv.value]; rfl⟩
      show Mail (s.kern.envs c) (Function.update s.pc c _ c) none
      rw [Function.update_self]
      exact .out hrecv

end Effects

/-! ## Every message once -/

variable {s s' : IpcState} {tr : List IpcEvent}

/-- Environments 0 and 1 runnable, environment 1 running. -/
def boardPair : IpcState where
  kern := { boardKernel with
    curenv := some 1
    envs := fun e => if e = 0 then { zeroEnv with id := 2048, status := .ENV_RUNNABLE }
      else if e = 1 then { zeroEnv with id := 4097, status := .ENV_RUNNABLE }
      else zeroEnv }
  pc := fun _ => .out

/-- Environment 1 receives the value 7 from environment 0. -/
def pairTrace : List IpcEvent :=
  [.recv 1 ⟨true, true⟩ 0, .can_send 0 4097 7 0 5 (some 1) 0, .yield, .read 1, .read 1,
    .ret 1 ⟨true, true⟩ ⟨some 2048, some 5, 7⟩]

theorem boardPair_run : ∃ s', Run IpcStep boardPair pairTrace s' := by
  refine ⟨_, .cons (.recv (c := 1) rfl rfl (by decide) ⟨_, 0, .refl _, rfl, rfl⟩)
    (.cons (.can_send (c := 0) rfl rfl) (.cons (.yield ⟨_, 1, .refl _, rfl, rfl⟩)
      (.cons (.readFrom (c := 1) rfl rfl) (.cons (.readPerm (c := 1) rfl rfl)
        (.single (.readValue (c := 1) rfl rfl))))))⟩

end RpiMos
