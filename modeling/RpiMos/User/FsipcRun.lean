/-
  RpiMos.User.FsipcRun

  The clients of `fsipc` and the loop of `serve` follow the protocol of
  `Lib.Rpc`: each step of the system is one step of the protocol, so that in
  every run calls, services and returns match.
-/

import RpiMos.User.FsipcPages
import RpiMos.Kernel.EnvSetup

namespace RpiMos

open Lib

variable {σ : Type} {ops : FsOps σ} {C : EnvPtr → Prop} {fsipcbuf : EnvPtr → Word}
  {boot : Nat → Nat} {dirs : Finset Nat} {idOf : EnvPtr → U32} {dirOf F : EnvPtr → Nat}
  {s s' : FsipcState σ} {ipc' : IpcState} {a : Rpc EnvPtr Request U32} {c e x : EnvPtr}

/-! ## Where the parties stand -/

/-- What a call has to be in order to be proper, for its client. -/
def CallOk (fsipcbuf : EnvPtr → Word) (c : EnvPtr) (call : Call) : Prop :=
  KnownReq call.type ∧ GET_L1_INDEX call.dstva ≠ uvptIndex ∧
    pageIdx call.dstva ≠ pageIdx (fsipcbuf c)

/-- The phase of client `c`, whose request page is frame `f`. -/
inductive ClientRel (fsipcbuf : EnvPtr → Word) (s : FsipcState σ) (c : EnvPtr) (f : Nat) :
    ClientPhase Request U32 → Prop
  | idle (hcl : s.client c = .idle) (hpc : s.ipc.pc c = .out) : ClientRel fsipcbuf s c f .idle
  | sending {call : Call} (hcl : s.client c = .send call ∨ s.client c = .yield call)
      (hcall : CallOk fsipcbuf c call) (hpc : s.ipc.pc c = .out)
      (hpage : s.ipc.kern.pm.loadPage f = call.page) :
      ClientRel fsipcbuf s c f (.sending call.request)
  | panic {q : Request} (hcl : s.client c = .panic) : ClientRel fsipcbuf s c f (.sending q)
  | waiting {call : Call} (hcl : s.client c = .recv call) (hcall : CallOk fsipcbuf c call)
      (hmail : Mail (s.ipc.kern.envs c) (s.ipc.pc c) none)
      (hdst : (s.ipc.kern.envs c).ipc_recving ≠ 0 →
        (s.ipc.kern.envs c).ipc_dstva = call.dstva) : ClientRel fsipcbuf s c f .waiting
  | replied {call : Call} {m : Msg} (hcl : s.client c = .recv call)
      (hcall : CallOk fsipcbuf c call)
      (hmail : Mail (s.ipc.kern.envs c) (s.ipc.pc c) (some m)) :
      ClientRel fsipcbuf s c f (.replied (m.value.setWidth 32))

/-- The server has the request page `f` at `REQVA`. -/
def ReqMapped (dirOf : EnvPtr → Nat) (pm : Pmap) (f : Nat) : Prop :=
  ∃ e, mapping pm (dirOf 0) REQVA = some e ∧ pteFrame e = f

/-- Its words and its code are those of request `q`. -/
structure ReqAt (dirOf F : EnvPtr → Nat) (pm : Pmap) (c : EnvPtr) (q : Request) : Prop where
  mapped : ReqMapped dirOf pm (F c)
  page : pm.loadPage (F c) = q.2
  known : ∃ type, KnownReq type ∧ q.1 = type.setWidth 64

/-- The phase of the server. -/
inductive ServerRel (C : EnvPtr → Prop) (idOf : EnvPtr → U32) (dirOf F : EnvPtr → Nat)
    (s : FsipcState σ) : ServerPhase EnvPtr Request U32 → Prop
  | ready (hsrv : s.server = .recv) (hmail : Mail (s.ipc.kern.envs 0) (s.ipc.pc 0) none)
      (hdst : (s.ipc.kern.envs 0).ipc_recving ≠ 0 → (s.ipc.kern.envs 0).ipc_dstva = REQVA) :
      ServerRel C idOf dirOf F s .ready
  /-- After the reply; a server that panics has stopped here too. -/
  | done (hsrv : s.server = .unmap ∨ s.server = .panic) (hpc : s.ipc.pc 0 = .out) :
      ServerRel C idOf dirOf F s .ready
  | got {c : EnvPtr} {q : Request} (hC : C c) (hsrv : s.server = .recv)
      (hmail : Mail (s.ipc.kern.envs 0) (s.ipc.pc 0) (some ⟨idOf c, q.1, reqPerm⟩))
      (hreq : ReqAt dirOf F s.ipc.kern.pm c q) : ServerRel C idOf dirOf F s (.got c q)
  | serving {c : EnvPtr} {q : Request} (hC : C c) (hsrv : s.server = .serve (idOf c) q.1)
      (hpc : s.ipc.pc 0 = .out) (hreq : ReqAt dirOf F s.ipc.kern.pm c q) :
      ServerRel C idOf dirOf F s (.got c q)
  | replying {c : EnvPtr} {q : Request} {reply : Reply} (hC : C c)
      (hsrv : s.server = .send (idOf c) reply ∨ s.server = .yield (idOf c) reply)
      (hpc : s.ipc.pc 0 = .out) (hreq : ReqMapped dirOf s.ipc.kern.pm (F c)) (hok : reply.Ok) :
      ServerRel C idOf dirOf F s (.replying c q reply.r)
  | stuck {c : EnvPtr} {q : Request} {r : U32} (hsrv : s.server = .panic)
      (hpc : s.ipc.pc 0 = .out) : ServerRel C idOf dirOf F s (.replying c q r)

/-- The system stands where the protocol does. -/
structure Sim (boot : Nat → Nat) (dirs : Finset Nat) (C : EnvPtr → Prop)
    (fsipcbuf : EnvPtr → Word) (idOf : EnvPtr → U32) (dirOf F : EnvPtr → Nat)
    (s : FsipcState σ) (a : Rpc EnvPtr Request U32) : Prop where
  inv : ∃ tr, IpcInv idOf tr s.ipc
  dir : ∀ e, s.ipc.kern.pgdir e = dirOf e
  mem : MemOk boot dirs C fsipcbuf dirOf F s.ipc.kern.pm
  client : ∀ c, C c → ClientRel fsipcbuf s c (F c) (a.client c)
  server : ServerRel C idOf dirOf F s a.server
  waits : Rpc.Waits a

/-! ## What a step leaves alone -/

/-- Environment `x` keeps its mailbox and its place in `ipc_recv`. -/
def Untouched (x : EnvPtr) (s s' : IpcState) : Prop :=
  SameEnv (s.kern.envs x) (s'.kern.envs x) ∧ s'.pc x = s.pc x

theorem Untouched.mail {i i' : IpcState} {held : Option Msg} (h : Untouched x i i')
    (hmail : Mail (i.kern.envs x) (i.pc x) held) : Mail (i'.kern.envs x) (i'.pc x) held := by
  rw [h.2]
  exact hmail.congr h.1

theorem Untouched.recving {i i' : IpcState} (h : Untouched x i i') :
    (i'.kern.envs x).ipc_recving = (i.kern.envs x).ipc_recving ∧
    (i'.kern.envs x).ipc_dstva = (i.kern.envs x).ipc_dstva := by
  obtain ⟨⟨tf, runs, heq⟩, -⟩ := h
  rw [heq]
  exact ⟨rfl, rfl⟩

theorem ClientRel.frame {f : Nat} {ph : ClientPhase Request U32} (h : ClientRel fsipcbuf s x f ph)
    (hcl : s'.client x = s.client x) (hx : Untouched x s.ipc s'.ipc)
    (hpage : s'.ipc.kern.pm.mem f = s.ipc.kern.pm.mem f) : ClientRel fsipcbuf s' x f ph := by
  cases h with
  | idle hc hpc => exact .idle (hcl.trans hc) (hx.2.trans hpc)
  | sending hc hcall hpc hp =>
      refine .sending (by rw [hcl]; exact hc) hcall (hx.2.trans hpc) ?_
      rw [← hp]
      funext i
      exact congrFun hpage i.val
  | panic hc => exact .panic (hcl.trans hc)
  | waiting hc hcall hmail hdst =>
      refine .waiting (hcl.trans hc) hcall (hx.mail hmail) ?_
      rw [hx.recving.1, hx.recving.2]
      exact hdst
  | replied hc hcall hmail => exact .replied (hcl.trans hc) hcall (hx.mail hmail)

theorem ReqAt.frame {pm pm' : Pmap} {q : Request} (h : ReqAt dirOf F pm c q)
    (hmap : mapping pm' (dirOf 0) REQVA = mapping pm (dirOf 0) REQVA)
    (hpage : pm'.mem (F c) = pm.mem (F c)) : ReqAt dirOf F pm' c q := by
  obtain ⟨⟨e, he, hf⟩, hp, hk⟩ := h
  refine ⟨⟨e, hmap.trans he, hf⟩, ?_, hk⟩
  rw [← hp]
  funext i
  exact congrFun hpage i.val

theorem ServerRel.frame {ph : ServerPhase EnvPtr Request U32} (h : ServerRel C idOf dirOf F s ph)
    (hsrv : s'.server = s.server) (hx : Untouched 0 s.ipc s'.ipc)
    (hmap : mapping s'.ipc.kern.pm (dirOf 0) REQVA = mapping s.ipc.kern.pm (dirOf 0) REQVA)
    (hpage : ∀ c q, ph = .got c q → C c → s'.ipc.kern.pm.mem (F c) = s.ipc.kern.pm.mem (F c)) :
    ServerRel C idOf dirOf F s' ph := by
  cases h with
  | ready hs hmail hdst =>
      refine .ready (hsrv.trans hs) (hx.mail hmail) ?_
      rw [hx.recving.1, hx.recving.2]
      exact hdst
  | done hs hpc => exact .done (by rw [hsrv]; exact hs) (hx.2.trans hpc)
  | got hC hs hmail hreq =>
      exact .got hC (hsrv.trans hs) (hx.mail hmail) (hreq.frame hmap (hpage _ _ rfl hC))
  | serving hC hs hpc hreq =>
      exact .serving hC (hsrv.trans hs) (hx.2.trans hpc) (hreq.frame hmap (hpage _ _ rfl hC))
  | replying hC hs hpc hreq hok =>
      obtain ⟨e, he, hf⟩ := hreq
      exact .replying hC (by rw [hsrv]; exact hs) (hx.2.trans hpc) ⟨e, hmap.trans he, hf⟩ hok
  | stuck hs hpc => exact .stuck (hsrv.trans hs) (hx.2.trans hpc)

/-! ## Facts about the kernel's part -/

theorem envid2env_ENVX {k : Kernel} {envid : U32} {b : Bool} (h0 : envid ≠ 0)
    (h : envid2env k envid b = some e) : e = ENVX envid := by
  rw [envid2env, if_neg h0] at h
  simp only at h
  split at h
  · cases h
  · split at h <;> split at h <;> cases h <;> rfl

/-- An `int` that goes through a 64-bit register comes back. -/
theorem int_register (w : U32) : (w.signExtend 64).setWidth 32 = w := by
  ext i hi
  rw [BitVec.getElem_setWidth, BitVec.getLsbD_signExtend]
  simp [hi]
  omega

theorem ipcMap_found {k : Kernel} {srcva perm : Word} {p t i : Nat} (h0 : srcva ≠ 0)
    (hl : pageLookup k.pm (k.pgdir c) srcva = some (p, t, i)) :
    ipcMap k c e srcva perm = ((pageInsert k.pm (k.pgdir e) p (k.envs e).ipc_dstva perm).2, 0) := by
  rw [ipcMap, if_neg h0, hl]

/-- `ipc_send` goes on after a send that failed only when the target was not receiving. -/
theorem ClientPc.sent_failed (call : Call) {r : Word} (hr : r ≠ 0) :
    ClientPc.sent call r = .yield call ∨ ClientPc.sent call r = .panic := by
  unfold ClientPc.sent
  by_cases h : r = -E_IPC_NOT_RECV
  · exact Or.inl (if_pos h)
  · rw [if_neg h, if_neg hr]
    exact Or.inr rfl

theorem ServerPc.sent_failed (whom : U32) (reply : Reply) {r : Word} (hr : r ≠ 0) :
    ServerPc.sent whom reply r = .yield whom reply ∨ ServerPc.sent whom reply r = .panic := by
  unfold ServerPc.sent
  by_cases h : r = -E_IPC_NOT_RECV
  · exact Or.inl (if_pos h)
  · rw [if_neg h, if_neg hr]
    exact Or.inr rfl

/-- The environment that does something itself. -/
def IpcEvent.actor : IpcEvent → Option EnvPtr
  | .recv c _ _ => some c
  | .can_send c _ _ _ _ _ _ => some c
  | .read c => some c
  | .ret c _ _ => some c
  | .yield => none
  | .other => none

theorem IpcStep.runs {i i' : IpcState} {ev : IpcEvent} (h : IpcStep i ev i')
    (hc : ev.actor = some c) : i.kern.curenv = some c := by
  cases h <;> cases hc <;> assumption

theorem IpcStep.yield_pm {i i' : IpcState} (h : IpcStep i .yield i') : i'.kern.pm = i.kern.pm := by
  cases h with
  | yield hrun => exact hrun.spec.2.1

/-- A handler's memory calls leave the environments alone. -/
theorem MemCall.exec_envs (k : Kernel) (call : MemCall) :
    (call.exec k).envs = k.envs ∧ (call.exec k).curenv = k.curenv := by
  cases call with
  | sys_mem_alloc envid va perm =>
      rw [MemCall.exec]
      rcases sysMemAlloc_cases k envid va perm with heq | ⟨env, pp, pm, -, -, heq⟩ <;>
        rw [heq] <;> exact ⟨rfl, rfl⟩
  | sys_mem_map srcid srcva dstid dstva perm =>
      rw [MemCall.exec]
      rcases sysMemMap_cases k srcid srcva dstid dstva perm with
        heq | ⟨se, de, q, t, i, -, -, -, heq⟩ <;> rw [heq] <;> exact ⟨rfl, rfl⟩
  | sys_mem_unmap envid va =>
      rw [MemCall.exec]
      rcases sysMemUnmap_cases k envid va with heq | ⟨env, -, heq⟩ <;> rw [heq] <;> exact ⟨rfl, rfl⟩

/-! ## Steps of the system -/

section Step

variable (hset : FsipcSetup dirs C fsipcbuf idOf dirOf)

/-- A mailbox that is no receiver's is not waited at. -/
theorem Mail.not_recving {env : Env} {held : Option Msg} (h : Mail env .out held) :
    env.ipc_recving = 0 := by
  by_contra hr
  obtain ⟨-, want, hpc⟩ := h.held_of_recving hr
  cases hpc

theorem IpcInv.mail_out {i : IpcState} {tr : List IpcEvent} (h : IpcInv idOf tr i)
    (hpc : i.pc x = .out) : Mail (i.kern.envs x) (i.pc x) none := by
  obtain ⟨held, hmail, -⟩ := h.mails x
  rw [hpc] at hmail ⊢
  rw [hmail.held_of_out] at hmail
  exact hmail

include hset in
theorem client_ne_server (hC : C c) : c ≠ 0 := by
  rintro rfl
  exact hset.server hC

/-- What a step that is about one client `c`, or about the server alone, has to
    show: `c` itself and the server. -/
theorem Sim.step {t : FsipcState σ} {a' : Rpc EnvPtr Request U32} {ev : RpcEvent EnvPtr Request U32}
    {i : IpcEvent} (h : Sim boot dirs C fsipcbuf idOf dirOf F s a)
    (hipc : IpcStep s.ipc i t.ipc) (hstep : Rpc.Step a ev a')
    (hmem : MemOk boot dirs C fsipcbuf dirOf F t.ipc.kern.pm)
    (hclient : ∀ x, C x → ClientRel fsipcbuf t x (F x) (a'.client x))
    (hserver : ServerRel C idOf dirOf F t a'.server) :
    Rpc.Step a ev a' ∧ Sim boot dirs C fsipcbuf idOf dirOf F t a' := by
  obtain ⟨tr, hinv⟩ := h.inv
  exact ⟨hstep, ⟨_, ipcStep_inv hinv hipc⟩, fun e => (hipc.pgdir e).trans (h.dir e), hmem, hclient,
    hserver, Rpc.step_waits h.waits hstep⟩

/-- A step in which only the program points of the system change. -/
theorem Sim.clients_frame {i : IpcEvent} (h : Sim boot dirs C fsipcbuf idOf dirOf F s a)
    (hipc : IpcStep s.ipc i s'.ipc) (hkept : PagesKept C F s.ipc.kern.pm s'.ipc.kern.pm)
    (hC : C x) (hcl : s'.client x = s.client x) (hx : i.touches ≠ some x) :
    ClientRel fsipcbuf s' x (F x) (a.client x) :=
  (h.client x hC).frame hcl (hipc.frame hx) (hkept x hC)

theorem Sim.server_frame {i : IpcEvent} (h : Sim boot dirs C fsipcbuf idOf dirOf F s a)
    (hipc : IpcStep s.ipc i s'.ipc) (hkept : PagesKept C F s.ipc.kern.pm s'.ipc.kern.pm)
    (hmap : mapping s'.ipc.kern.pm (dirOf 0) REQVA = mapping s.ipc.kern.pm (dirOf 0) REQVA)
    (hsrv : s'.server = s.server) (hx : i.touches ≠ some 0) :
    ServerRel C idOf dirOf F s' a.server :=
  h.server.frame hsrv (hipc.frame hx) hmap fun c _ _ hC => hkept c hC

/-! ### Clients -/

include hset in
theorem Sim.call {call : Call} {w : Word} (h : Sim boot dirs C fsipcbuf idOf dirOf F s a) (hC : C c)
    (hpc : s.client c = .idle)
    (hmap : mapping s.ipc.kern.pm (s.ipc.kern.pgdir c) (fsipcbuf c) = some w)
    (hcall : CallOk fsipcbuf c call) :
    ∃ a', Rpc.Step a (.call c call.request) a' ∧
      Sim boot dirs C fsipcbuf idOf dirOf F { s with
        ipc := ⟨s.ipc.kern.setPm (s.ipc.kern.pm.storePage (pteFrame w) call.page), s.ipc.pc⟩
        client := Function.update s.client c (.send call) } a' := by
  obtain ⟨w', hw', hf⟩ := (h.mem.page c hC).here
  rw [h.dir, hw', Option.some.injEq] at hmap
  rw [← hmap, hf]
  obtain ⟨hmem, hload, hkept, hreq⟩ := h.mem.store hset hC call.page
  obtain ⟨hidle, hout⟩ : a.client c = .idle ∧ s.ipc.pc c = .out := by
    have hrel := h.client c hC
    generalize a.client c = ph at hrel
    cases hrel <;> simp_all
  have hipc : IpcStep s.ipc .other
      ⟨s.ipc.kern.setPm (s.ipc.kern.pm.storePage (F c) call.page), s.ipc.pc⟩ := .other rfl rfl
  refine ⟨_, h.step hipc (.call hidle) hmem (fun x hx => ?_) ?_⟩
  · by_cases hxc : x = c
    · subst hxc
      show ClientRel _ _ _ _ (Function.update a.client x _ x)
      rw [Function.update_self]
      exact .sending (Or.inl (Function.update_self _ _ _)) hcall hout hload
    · show ClientRel _ _ _ _ (Function.update a.client c _ x)
      rw [Function.update_of_ne hxc]
      exact (h.client x hx).frame (Function.update_of_ne hxc _ _) ⟨.refl _, rfl⟩ (hkept x hx hxc)
  · refine h.server.frame rfl ⟨.refl _, rfl⟩ hreq fun x q hgot hx => hkept x hx ?_
    -- The client that the server works for waits, so it is not the caller.
    rintro rfl
    rw [h.waits.got x q hgot] at hidle
    cases hidle

include hset in
theorem Sim.send {call : Call} {woken : Option EnvPtr} {r : Word}
    (h : Sim boot dirs C fsipcbuf idOf dirOf F s a) (hC : C c) (hpc : s.client c = .send call)
    (hipc : IpcStep s.ipc (.can_send c (s.ipc.kern.envs 0).id (call.type.setWidth 64) (fsipcbuf c)
      reqPerm woken r) ipc')
    (hpage : ∀ e, woken = some e → PageMapped s.ipc.kern c e (fsipcbuf c) reqPerm) :
    ∃ a', Rpc.Step a .tau a' ∧ Sim boot dirs C fsipcbuf idOf dirOf F
      { s with ipc := ipc', client := Function.update s.client c (.sent call r) } a' := by
  obtain ⟨hph, hcall, hout, hload⟩ : a.client c = .sending call.request ∧
      CallOk fsipcbuf c call ∧ s.ipc.pc c = .out ∧
      s.ipc.kern.pm.loadPage (F c) = call.page := by
    have hrel := h.client c hC
    generalize a.client c = ph at hrel
    cases hrel with
    | sending hcl hcall hout hload =>
        rcases hcl with hcl | hcl <;> rw [hpc] at hcl <;> cases hcl
        exact ⟨rfl, hcall, hout, hload⟩
    | idle hcl => rw [hpc] at hcl; cases hcl
    | panic hcl => rw [hpc] at hcl; cases hcl
    | waiting hcl => rw [hpc] at hcl; cases hcl
    | replied hcl => rw [hpc] at hcl; cases hcl
  obtain ⟨tr, hinv⟩ := h.inv
  cases woken with
  | none =>
      obtain ⟨hpm, hr⟩ := hipc.send_none rfl
      have hkept : PagesKept C F s.ipc.kern.pm ipc'.kern.pm := fun x _ => by rw [hpm]
      have hmem : MemOk boot dirs C fsipcbuf dirOf F ipc'.kern.pm := by
        rw [hpm]
        exact h.mem
      refine ⟨a, h.step (t := { s with ipc := ipc', client := _ }) hipc .tau hmem (fun x hx => ?_)
        (h.server_frame hipc hkept (by rw [hpm]) rfl (by simp [IpcEvent.touches]))⟩
      by_cases hxc : x = c
      · subst hxc
        rw [hph]
        have hframe := hipc.frame (x := x) (by simp [IpcEvent.touches])
        have hcl : (Function.update s.client x (ClientPc.sent call r)) x = .sent call r :=
          Function.update_self _ _ _
        rcases ClientPc.sent_failed call hr with hsent | hsent
        · refine .sending (Or.inr (hcl.trans hsent)) hcall (hframe.2.trans hout) ?_
          rw [← hload]
          funext i
          exact congrFun (hkept x hx) i.val
        · exact .panic (hcl.trans hsent)
      · exact h.clients_frame hipc hkept hx (Function.update_of_ne hxc _ _)
          (by simp [IpcEvent.touches])
  | some e =>
      obtain ⟨henv, hrecv, hpm, hr, hdeliver⟩ := hipc.send_some rfl
      have hcur := hipc.runs (c := c) rfl
      obtain ⟨hid0, henvx⟩ := hset.id 0 (Or.inr rfl)
      have he : e = 0 := by
        rw [hinv.ids 0] at henv
        rw [envid2env_ENVX hid0 henv, henvx]
      subst he
      -- The server is receiving, so it holds no request.
      obtain ⟨hready, hmail, hdst⟩ : a.server = .ready ∧
          Mail (s.ipc.kern.envs 0) (s.ipc.pc 0) none ∧
          (s.ipc.kern.envs 0).ipc_dstva = REQVA ∧ s.server = .recv := by
        have hnot : s.ipc.pc 0 ≠ .out := by
          intro hpc0
          have hm := hinv.mail_out hpc0
          rw [hpc0] at hm
          exact hrecv hm.not_recving
        have hrel := h.server
        generalize a.server = ph at hrel
        cases hrel with
        | ready hs hmail hdst => exact ⟨rfl, hmail, hdst hrecv, hs⟩
        | done _ hpc0 => exact absurd hpc0 hnot
        | got _ _ hmail _ => exact absurd (hmail.held_of_recving hrecv).1 (by simp)
        | serving _ _ hpc0 _ => exact absurd hpc0 hnot
        | replying _ _ hpc0 _ _ => exact absurd hpc0 hnot
        | stuck _ hpc0 => exact absurd hpc0 hnot
      obtain ⟨hdst, hsrv⟩ := hdst
      obtain ⟨p, t, i, hl, hok⟩ := hpage 0 rfl
      rw [hdst, h.dir] at hok
      have hl' := hl
      rw [h.dir] at hl'
      obtain ⟨hm, hp⟩ := h.mem.sound.lookup_eq (hset.dir c (Or.inl hC)) (hset.buf c hC).1 hl'
      obtain ⟨w, hw, hf⟩ := (h.mem.page c hC).here
      rw [hw, Option.some.injEq] at hm
      rw [← hm, hf] at hp
      rw [ipcMap_found (hset.buf c hC).2 hl, hdst, h.dir, hp] at hpm hr
      rw [hp] at hok
      obtain ⟨hmem, hkept, hmapped⟩ := h.mem.request hset hC
      have hins : ipc'.kern.pm = (pageInsert s.ipc.kern.pm (dirOf 0) (F c) REQVA reqPerm).2 := hpm
      rw [← hins] at hmem hkept hmapped
      have hmail' := hdeliver none hmail
      rw [hinv.ids c] at hmail'
      have hne : c ≠ 0 := client_ne_server hset hC
      refine ⟨_, h.step (t := { s with ipc := ipc', client := _ }) hipc (.accept hph hready) hmem
        (fun x hx => ?_) ?_⟩
      · have hx0 : x ≠ 0 := client_ne_server hset hx
        have htouch : (IpcEvent.can_send c (s.ipc.kern.envs 0).id (call.type.setWidth 64)
            (fsipcbuf c) reqPerm (some 0) r).touches ≠ some x := by
          intro ht
          exact hx0 (Option.some.inj ht).symm
        by_cases hxc : x = c
        · subst hxc
          show ClientRel _ _ _ _ (Function.update a.client x _ x)
          rw [Function.update_self]
          have hframe := hipc.frame htouch
          have hmx := (hinv.mail_out hout).frame hipc htouch
          refine .waiting ?_ hcall hmx fun hrec => ?_
          · show Function.update s.client x (ClientPc.sent call r) x = _
            rw [Function.update_self, hr]
            show ClientPc.sent call 0 = .recv call
            rw [ClientPc.sent, if_neg (by decide), if_pos rfl]
          · have hpcx := hframe.2.trans hout
            rw [hpcx] at hmx
            exact absurd hmx.not_recving hrec
        · show ClientRel _ _ _ _ (Function.update a.client c _ x)
          rw [Function.update_of_ne hxc]
          exact h.clients_frame hipc hkept hx (Function.update_of_ne hxc _ _) htouch
      · refine .got hC hsrv hmail' ⟨hmapped hok, ?_, ⟨call.type, hcall.1, rfl⟩⟩
        show ipc'.kern.pm.loadPage (F c) = call.page
        rw [← hload]
        funext i
        exact congrFun (hkept c hC) i.val

/-- A step of client `c` that leaves memory and the server alone. -/
theorem Sim.client_step {a' : Rpc EnvPtr Request U32} {ev : RpcEvent EnvPtr Request U32}
    {i : IpcEvent} {pc : ClientPc} (h : Sim boot dirs C fsipcbuf idOf dirOf F s a)
    (hipc : IpcStep s.ipc i ipc') (hpm : ipc'.kern.pm = s.ipc.kern.pm)
    (htouch : ∀ x, x ≠ c → i.touches ≠ some x) (hc0 : c ≠ 0) (hstep : Rpc.Step a ev a')
    (hother : ∀ x, x ≠ c → a'.client x = a.client x) (hsrv : a'.server = a.server)
    (hself : ClientRel fsipcbuf
      { s with ipc := ipc', client := Function.update s.client c pc } c (F c) (a'.client c)) :
    Rpc.Step a ev a' ∧ Sim boot dirs C fsipcbuf idOf dirOf F
      { s with ipc := ipc', client := Function.update s.client c pc } a' := by
  have hkept : PagesKept C F s.ipc.kern.pm ipc'.kern.pm := fun x _ => by rw [hpm]
  have hmem : MemOk boot dirs C fsipcbuf dirOf F ipc'.kern.pm := by
    rw [hpm]
    exact h.mem
  refine h.step (t := { s with ipc := ipc', client := _ }) hipc hstep hmem (fun x hx => ?_) ?_
  · by_cases hxc : x = c
    · subst hxc
      exact hself
    · rw [hother x hxc]
      exact h.clients_frame hipc hkept hx (Function.update_of_ne hxc _ _) (htouch x hxc)
  · rw [hsrv]
    exact h.server_frame hipc hkept (by rw [hpm]) rfl (htouch 0 hc0.symm)

include hset in
theorem Sim.sendAgain {call : Call} (h : Sim boot dirs C fsipcbuf idOf dirOf F s a) (hC : C c)
    (hpc : s.client c = .yield call) (hipc : IpcStep s.ipc .yield ipc') :
    ∃ a', Rpc.Step a .tau a' ∧ Sim boot dirs C fsipcbuf idOf dirOf F
      { s with ipc := ipc', client := Function.update s.client c (.send call) } a' := by
  have hpm := hipc.yield_pm
  refine ⟨a, h.client_step hipc hpm (fun _ _ => by simp [IpcEvent.touches])
    (client_ne_server hset hC) .tau (fun _ _ => rfl) rfl ?_⟩
  have hrel : ClientRel fsipcbuf { s with ipc := ipc' } c (F c) (a.client c) :=
    (h.client c hC).frame rfl (hipc.frame (by simp [IpcEvent.touches])) (by rw [hpm])
  generalize a.client c = ph at hrel ⊢
  cases hrel with
  | sending hcl hcall hout hload =>
      rcases hcl with hcl | hcl <;> rw [show s.client c = _ from hpc] at hcl <;> cases hcl
      exact .sending (Or.inl (Function.update_self _ _ _)) hcall hout hload
  | idle hcl => rw [show s.client c = _ from hpc] at hcl; cases hcl
  | panic hcl => rw [show s.client c = _ from hpc] at hcl; cases hcl
  | waiting hcl => rw [show s.client c = _ from hpc] at hcl; cases hcl
  | replied hcl => rw [show s.client c = _ from hpc] at hcl; cases hcl

/-- In `ipc_recv` the mailbox of a client tells whether the reply has come. -/
theorem ClientRel.of_recv {f : Nat} {ph : ClientPhase Request U32} {call : Call}
    (h : ClientRel fsipcbuf s c f ph) (hpc : s.client c = .recv call) :
    CallOk fsipcbuf c call ∧
    ((ph = .waiting ∧ Mail (s.ipc.kern.envs c) (s.ipc.pc c) none ∧
      ((s.ipc.kern.envs c).ipc_recving ≠ 0 → (s.ipc.kern.envs c).ipc_dstva = call.dstva)) ∨
    ∃ m, ph = .replied (m.value.setWidth 32) ∧
      Mail (s.ipc.kern.envs c) (s.ipc.pc c) (some m)) := by
  cases h with
  | waiting hcl hcall hmail hdst =>
      rw [hpc] at hcl
      cases hcl
      exact ⟨hcall, Or.inl ⟨rfl, hmail, hdst⟩⟩
  | @replied call' m hcl hcall hmail =>
      rw [hpc] at hcl
      cases hcl
      exact ⟨hcall, Or.inr ⟨m, rfl, hmail⟩⟩
  | idle hcl => rw [hpc] at hcl; cases hcl
  | sending hcl => rw [hpc] at hcl; simp at hcl
  | panic hcl => rw [hpc] at hcl; cases hcl

/-- The program point of a client that stays in `ipc_recv` is written again. -/
theorem update_recv {call : Call} (hpc : s.client c = .recv call) :
    ({ s with ipc := ipc' } : FsipcState σ) =
      { s with ipc := ipc', client := Function.update s.client c (.recv call) } := by
  rw [← hpc, Function.update_eq_self]

include hset in
theorem Sim.recv {call : Call} (h : Sim boot dirs C fsipcbuf idOf dirOf F s a) (hC : C c)
    (hpc : s.client c = .recv call)
    (hipc : IpcStep s.ipc (.recv c ⟨true, call.perm⟩ call.dstva) ipc') :
    ∃ a', Rpc.Step a .tau a' ∧
      Sim boot dirs C fsipcbuf idOf dirOf F { s with ipc := ipc' } a' := by
  obtain ⟨hout, -, hpm, hmail', hdst'⟩ := hipc.recv_mail
  obtain ⟨hcall, ⟨hph, -⟩ | ⟨m, -, hmail⟩⟩ := (h.client c hC).of_recv hpc
  · rw [update_recv hpc]
    refine ⟨a, h.client_step hipc hpm (fun x hx => by simpa [IpcEvent.touches] using Ne.symm hx)
      (client_ne_server hset hC) .tau (fun _ _ => rfl) rfl ?_⟩
    rw [hph]
    exact .waiting (Function.update_self _ _ _) hcall hmail' fun _ => hdst'
  · rw [hout] at hmail
    cases hmail.held_of_out

include hset in
theorem Sim.read {call : Call} (h : Sim boot dirs C fsipcbuf idOf dirOf F s a) (hC : C c)
    (hpc : s.client c = .recv call) (hipc : IpcStep s.ipc (.read c) ipc') :
    ∃ a', Rpc.Step a .tau a' ∧
      Sim boot dirs C fsipcbuf idOf dirOf F { s with ipc := ipc' } a' := by
  obtain ⟨tr, hinv⟩ := h.inv
  have hrecv := hinv.cur c (hipc.runs rfl)
  obtain ⟨hcall, ⟨-, hmail, -⟩ | ⟨m, hph, hmail⟩⟩ := (h.client c hC).of_recv hpc
  · exact absurd rfl (hipc.read_mail hrecv hmail).2.1
  · obtain ⟨hpm, -, hmail'⟩ := hipc.read_mail hrecv hmail
    rw [update_recv hpc]
    refine ⟨a, h.client_step hipc hpm (fun x hx => by simpa [IpcEvent.touches] using Ne.symm hx)
      (client_ne_server hset hC) .tau (fun _ _ => rfl) rfl ?_⟩
    rw [hph]
    exact .replied (Function.update_self _ _ _) hcall hmail'

include hset in
theorem Sim.ret {call : Call} {want : Want} {report : Report}
    (h : Sim boot dirs C fsipcbuf idOf dirOf F s a) (hC : C c) (hpc : s.client c = .recv call)
    (hipc : IpcStep s.ipc (.ret c want report) ipc') :
    ∃ a', Rpc.Step a (.ret c (report.value.setWidth 32)) a' ∧ Sim boot dirs C fsipcbuf idOf dirOf F
      { s with ipc := ipc', client := Function.update s.client c .idle } a' := by
  obtain ⟨tr, hinv⟩ := h.inv
  have hrecv := hinv.cur c (hipc.runs rfl)
  obtain ⟨-, ⟨-, hmail, -⟩ | ⟨m, hph, hmail⟩⟩ := (h.client c hC).of_recv hpc
  · obtain ⟨-, -, -, m, hm, -⟩ := hipc.ret_mail hrecv hmail
    cases hm
  · obtain ⟨hpm, hmail', hout, m', hm, rfl⟩ := hipc.ret_mail hrecv hmail
    cases hm
    refine ⟨_, h.client_step hipc hpm (fun x hx => by simpa [IpcEvent.touches] using Ne.symm hx)
      (client_ne_server hset hC) (.ret hph) (fun x hx => Function.update_of_ne hx _ _) rfl ?_⟩
    show ClientRel _ _ _ _ (Function.update a.client c _ c)
    rw [Function.update_self]
    exact .idle (Function.update_self _ _ _) hout

/-! ### The server -/

include hset in
/-- A step of the server that leaves memory and the protocol's clients alone. -/
theorem Sim.server_step {a' : Rpc EnvPtr Request U32} {ev : RpcEvent EnvPtr Request U32}
    {i : IpcEvent} {q : ServerPc} {fs' : σ} (h : Sim boot dirs C fsipcbuf idOf dirOf F s a)
    (hipc : IpcStep s.ipc i ipc') (hpm : ipc'.kern.pm = s.ipc.kern.pm)
    (htouch : ∀ x, x ≠ 0 → i.touches ≠ some x) (hstep : Rpc.Step a ev a')
    (hclient : a'.client = a.client)
    (hself : ServerRel C idOf dirOf F (⟨ipc', fs', s.client, q⟩ : FsipcState σ) a'.server) :
    Rpc.Step a ev a' ∧
      Sim boot dirs C fsipcbuf idOf dirOf F (⟨ipc', fs', s.client, q⟩ : FsipcState σ) a' := by
  have hkept : PagesKept C F s.ipc.kern.pm ipc'.kern.pm := fun x _ => by rw [hpm]
  have hmem : MemOk boot dirs C fsipcbuf dirOf F ipc'.kern.pm := by
    rw [hpm]
    exact h.mem
  refine h.step (t := ⟨ipc', fs', s.client, q⟩) hipc hstep hmem (fun x hx => ?_) hself
  rw [hclient]
  exact h.clients_frame hipc hkept hx rfl (htouch x (client_ne_server hset hx))

/-- In `ipc_recv` the mailbox of the server tells whether a request has come. -/
theorem ServerRel.of_recv {ph : ServerPhase EnvPtr Request U32} (h : ServerRel C idOf dirOf F s ph)
    (hpc : s.server = .recv) :
    (ph = .ready ∧ Mail (s.ipc.kern.envs 0) (s.ipc.pc 0) none) ∨
    ∃ c q, ph = .got c q ∧ C c ∧
      Mail (s.ipc.kern.envs 0) (s.ipc.pc 0) (some ⟨idOf c, q.1, reqPerm⟩) ∧
      ReqAt dirOf F s.ipc.kern.pm c q := by
  cases h with
  | ready _ hmail _ => exact Or.inl ⟨rfl, hmail⟩
  | got hC _ hmail hreq => exact Or.inr ⟨_, _, rfl, hC, hmail, hreq⟩
  | done hs => rw [hpc] at hs; simp at hs
  | serving _ hs => rw [hpc] at hs; cases hs
  | replying _ hs => rw [hpc] at hs; simp at hs
  | stuck hs => rw [hpc] at hs; cases hs

theorem ServerRel.of_serve {ph : ServerPhase EnvPtr Request U32} {whom : U32} {req : Word}
    (h : ServerRel C idOf dirOf F s ph) (hpc : s.server = .serve whom req) :
    ∃ c q, ph = .got c q ∧ C c ∧ whom = idOf c ∧ req = q.1 ∧ s.ipc.pc 0 = .out ∧
      ReqAt dirOf F s.ipc.kern.pm c q := by
  cases h with
  | serving hC hs hout hreq =>
      rw [hpc] at hs
      cases hs
      exact ⟨_, _, rfl, hC, rfl, rfl, hout, hreq⟩
  | ready hs => rw [hpc] at hs; cases hs
  | done hs => rw [hpc] at hs; simp at hs
  | got _ hs => rw [hpc] at hs; cases hs
  | replying _ hs => rw [hpc] at hs; simp at hs
  | stuck hs => rw [hpc] at hs; cases hs

theorem ServerRel.of_reply {ph : ServerPhase EnvPtr Request U32} {whom : U32} {reply : Reply}
    (h : ServerRel C idOf dirOf F s ph)
    (hpc : s.server = .send whom reply ∨ s.server = .yield whom reply) :
    ∃ c q, ph = .replying c q reply.r ∧ C c ∧ whom = idOf c ∧ s.ipc.pc 0 = .out ∧
      ReqMapped dirOf s.ipc.kern.pm (F c) ∧ reply.Ok := by
  cases h with
  | @replying c q reply' hC hs hout hreq hok =>
      have hsame : whom = idOf c ∧ reply = reply' := by
        rcases hpc with hpc | hpc <;> rcases hs with hs | hs <;> rw [hpc] at hs <;> cases hs <;>
          exact ⟨rfl, rfl⟩
      obtain ⟨rfl, rfl⟩ := hsame
      exact ⟨_, _, rfl, hC, rfl, hout, hreq, hok⟩
  | ready hs => rcases hpc with hpc | hpc <;> rw [hpc] at hs <;> cases hs
  | done hs => rcases hpc with hpc | hpc <;> rw [hpc] at hs <;> simp at hs
  | got _ hs => rcases hpc with hpc | hpc <;> rw [hpc] at hs <;> cases hs
  | serving _ hs => rcases hpc with hpc | hpc <;> rw [hpc] at hs <;> cases hs
  | stuck hs => rcases hpc with hpc | hpc <;> rw [hpc] at hs <;> cases hs

include hset in
theorem Sim.serverRecv (h : Sim boot dirs C fsipcbuf idOf dirOf F s a) (hpc : s.server = .recv)
    (hipc : IpcStep s.ipc (.recv 0 ⟨true, true⟩ REQVA) ipc') :
    ∃ a', Rpc.Step a .tau a' ∧
      Sim boot dirs C fsipcbuf idOf dirOf F { s with ipc := ipc' } a' := by
  obtain ⟨hout, -, hpm, hmail', hdst'⟩ := hipc.recv_mail
  rcases h.server.of_recv hpc with ⟨hph, -⟩ | ⟨c, q, -, -, hmail, -⟩
  · refine ⟨a, h.server_step hset (q := s.server) hipc hpm
      (fun x hx => by simpa [IpcEvent.touches] using Ne.symm hx) .tau rfl ?_⟩
    rw [hph]
    exact .ready hpc hmail' fun _ => hdst'
  · rw [hout] at hmail
    cases hmail.held_of_out

include hset in
theorem Sim.serverRead (h : Sim boot dirs C fsipcbuf idOf dirOf F s a) (hpc : s.server = .recv)
    (hipc : IpcStep s.ipc (.read 0) ipc') :
    ∃ a', Rpc.Step a .tau a' ∧
      Sim boot dirs C fsipcbuf idOf dirOf F { s with ipc := ipc' } a' := by
  obtain ⟨tr, hinv⟩ := h.inv
  have hrecv := hinv.cur 0 (hipc.runs rfl)
  rcases h.server.of_recv hpc with ⟨-, hmail⟩ | ⟨c, q, hph, hC, hmail, hreq⟩
  · exact absurd rfl (hipc.read_mail hrecv hmail).2.1
  · obtain ⟨hpm, -, hmail'⟩ := hipc.read_mail hrecv hmail
    refine ⟨a, h.server_step hset (q := s.server) hipc hpm
      (fun x hx => by simpa [IpcEvent.touches] using Ne.symm hx) .tau rfl ?_⟩
    rw [hph]
    exact .got hC hpc hmail' (hreq.frame (by rw [hpm]) (by rw [hpm]))

include hset in
theorem Sim.got {report : Report} (h : Sim boot dirs C fsipcbuf idOf dirOf F s a)
    (hpc : s.server = .recv) (hipc : IpcStep s.ipc (.ret 0 ⟨true, true⟩ report) ipc') :
    ∃ a', Rpc.Step a .tau a' ∧ Sim boot dirs C fsipcbuf idOf dirOf F
      { s with ipc := ipc', server := .got report } a' := by
  obtain ⟨tr, hinv⟩ := h.inv
  have hrecv := hinv.cur 0 (hipc.runs rfl)
  rcases h.server.of_recv hpc with ⟨-, hmail⟩ | ⟨c, q, hph, hC, hmail, hreq⟩
  · obtain ⟨-, -, -, m, hm, -⟩ := hipc.ret_mail hrecv hmail
    cases hm
  · obtain ⟨hpm, -, hout, m, hm, rfl⟩ := hipc.ret_mail hrecv hmail
    cases hm
    refine ⟨a, h.server_step hset hipc hpm
      (fun x hx => by simpa [IpcEvent.touches] using Ne.symm hx) .tau rfl ?_⟩
    rw [hph]
    refine .serving hC ?_ hout (hreq.frame (by rw [hpm]) (by rw [hpm]))
    show ServerPc.got (Msg.report ⟨idOf c, q.1, reqPerm⟩ ⟨true, true⟩) = _
    have hpage : ¬ reqPerm &&& VALID = 0 := by decide
    simp only [ServerPc.got, Msg.report, if_true, Option.getD_some, if_neg hpage]

include hset in
theorem Sim.serve {whom : U32} {req w : Word} {reply : Reply} {fs' : σ} (hops : ops.PagesOk)
    (h : Sim boot dirs C fsipcbuf idOf dirOf F s a) (hpc : s.server = .serve whom req)
    (hmap : mapping s.ipc.kern.pm (s.ipc.kern.pgdir 0) REQVA = some w)
    (hserve : RpiMos.serve ops whom (s.ipc.kern.pm.loadPage (pteFrame w)) s.fs req =
      some (reply, fs')) :
    ∃ a', Rpc.Step a (.serve (ENVX whom) (req, s.ipc.kern.pm.loadPage (pteFrame w)) reply.r) a' ∧
      Sim boot dirs C fsipcbuf idOf dirOf F { s with fs := fs', server := .send whom reply } a' := by
  obtain ⟨c, q, hph, hC, rfl, rfl, hout, hreq⟩ := h.server.of_serve hpc
  obtain ⟨w', hw', hf⟩ := hreq.mapped
  rw [h.dir, hw', Option.some.injEq] at hmap
  rw [← hmap, hf, hreq.page, (hset.id c (Or.inl hC)).2]
  have hipc : IpcStep s.ipc .other s.ipc := .other rfl rfl
  refine ⟨_, h.server_step hset hipc rfl (fun _ _ => by simp [IpcEvent.touches])
    (.serve hph) rfl ?_⟩
  exact .replying hC (Or.inl rfl) hout ⟨w', hw', hf⟩ (serve_ok hops hserve)

/-- The server never rejects the code of a call. -/
theorem Sim.not_reject {whom : U32} {req : Word} {rq : PageWords} {fs : σ}
    (h : Sim boot dirs C fsipcbuf idOf dirOf F s a) (hpc : s.server = .serve whom req)
    (hserve : RpiMos.serve ops whom rq fs req = none) : False := by
  obtain ⟨c, q, -, -, -, rfl, -, hreq⟩ := h.server.of_serve hpc
  obtain ⟨type, htype, hq⟩ := hreq.known
  rw [hq] at hserve
  exact serve_known htype hserve

include hset in
theorem Sim.replyAgain {whom : U32} {reply : Reply} (h : Sim boot dirs C fsipcbuf idOf dirOf F s a)
    (hpc : s.server = .yield whom reply) (hipc : IpcStep s.ipc .yield ipc') :
    ∃ a', Rpc.Step a .tau a' ∧ Sim boot dirs C fsipcbuf idOf dirOf F
      { s with ipc := ipc', server := .send whom reply } a' := by
  have hpm := hipc.yield_pm
  obtain ⟨c, q, hph, hC, rfl, hout, ⟨w, hw, hf⟩, hok⟩ := h.server.of_reply (Or.inr hpc)
  refine ⟨a, h.server_step hset hipc hpm (fun _ _ => by simp [IpcEvent.touches]) .tau rfl ?_⟩
  rw [hph]
  exact .replying hC (Or.inl rfl) ((hipc.frame (by simp [IpcEvent.touches])).2.trans hout)
    ⟨w, by rw [hpm]; exact hw, hf⟩ hok

include hset in
theorem Sim.reply {whom : U32} {reply : Reply} {woken : Option EnvPtr} {r : Word}
    (h : Sim boot dirs C fsipcbuf idOf dirOf F s a) (hpc : s.server = .send whom reply)
    (hipc : IpcStep s.ipc (.can_send 0 whom (reply.r.signExtend 64) reply.srcva reply.perm woken r)
      ipc') :
    ∃ a', Rpc.Step a .tau a' ∧ Sim boot dirs C fsipcbuf idOf dirOf F
      { s with ipc := ipc', server := .sent whom reply r } a' := by
  obtain ⟨tr, hinv⟩ := h.inv
  obtain ⟨c, q, hph, hC, rfl, hout, hreq, hok⟩ := h.server.of_reply (Or.inl hpc)
  obtain ⟨hid, henvx⟩ := hset.id c (Or.inl hC)
  have hc0 := client_ne_server hset hC
  cases woken with
  | none =>
      obtain ⟨hpm, hr⟩ := hipc.send_none rfl
      refine ⟨a, h.server_step hset hipc hpm (fun _ _ => by simp [IpcEvent.touches]) .tau rfl ?_⟩
      rw [hph]
      have hout' : ipc'.pc 0 = .out := (hipc.frame (by simp [IpcEvent.touches])).2.trans hout
      rcases ServerPc.sent_failed (idOf c) reply hr with hsent | hsent
      · obtain ⟨w, hw, hf⟩ := hreq
        exact .replying hC (Or.inr hsent) hout' ⟨w, by rw [hpm]; exact hw, hf⟩ hok
      · exact .stuck hsent hout'
  | some e =>
      obtain ⟨henv, hrecv, hpm, hr, hdeliver⟩ := hipc.send_some rfl
      obtain rfl : e = c := by rw [envid2env_ENVX hid henv, henvx]
      have hwait := h.waits.replying e q _ hph
      -- The client is in `ipc_recv`, and nothing has come for it yet.
      obtain ⟨call, hcl, hcall, hmail, hdst⟩ : ∃ call, s.client e = .recv call ∧
          CallOk fsipcbuf e call ∧ Mail (s.ipc.kern.envs e) (s.ipc.pc e) none ∧
          (s.ipc.kern.envs e).ipc_dstva = call.dstva := by
        have hrel := h.client e hC
        rw [hwait] at hrel
        cases hrel with
        | waiting hcl hcall hmail hdst => exact ⟨_, hcl, hcall, hmail, hdst hrecv⟩
      obtain ⟨hmem, hkept, hreq'⟩ : MemOk boot dirs C fsipcbuf dirOf F ipc'.kern.pm ∧
          PagesKept C F s.ipc.kern.pm ipc'.kern.pm ∧
          mapping ipc'.kern.pm (dirOf 0) REQVA = mapping s.ipc.kern.pm (dirOf 0) REQVA := by
        rw [hpm, ipcMap]
        by_cases h0 : reply.srcva = 0
        · rw [if_pos h0]
          exact ⟨h.mem, fun _ _ => rfl, rfl⟩
        · rw [if_neg h0]
          cases hl : pageLookup s.ipc.kern.pm (s.ipc.kern.pgdir 0) reply.srcva with
          | none => exact ⟨h.mem, fun _ _ => rfl, rfl⟩
          | some x =>
              obtain ⟨p, t, i⟩ := x
              rw [h.dir] at hl
              simp only [h.dir, hdst]
              exact h.mem.reply hset hC hreq hok.srcva hl hcall.2.1 hcall.2.2 hok.perm
      have hr' : r = 0 ∨ r = ERR := by
        rw [hr, ipcMap]
        by_cases h0 : reply.srcva = 0
        · rw [if_pos h0]
          exact Or.inl rfl
        · rw [if_neg h0]
          cases pageLookup s.ipc.kern.pm (s.ipc.kern.pgdir 0) reply.srcva with
          | none => exact Or.inr rfl
          | some x => exact Or.inl rfl
      have htouch : ∀ x, x ≠ e → (IpcEvent.can_send 0 (idOf e) (reply.r.signExtend 64) reply.srcva
          reply.perm (some e) r).touches ≠ some x := by
        intro x hx ht
        exact hx (Option.some.inj ht).symm
      refine ⟨_, h.step (t := { s with ipc := ipc', server := _ }) hipc (.reply hph) hmem
        (fun x hx => ?_) ?_⟩
      · by_cases hxc : x = e
        · subst hxc
          show ClientRel _ _ _ _ (Function.update a.client x _ x)
          rw [Function.update_self]
          have hmail' := hdeliver none hmail
          rw [hinv.ids 0] at hmail'
          -- The `int` survives the way through the 64-bit register.
          have hvalue : (reply.r.signExtend 64).setWidth 32 = reply.r :=
            int_register reply.r
          have hrel := ClientRel.replied
            (s := (⟨ipc', s.fs, s.client, .sent (idOf x) reply r⟩ : FsipcState σ))
            (f := F x) hcl hcall hmail'
          rw [hvalue] at hrel
          exact hrel
        · show ClientRel _ _ _ _ (Function.update a.client e _ x)
          rw [Function.update_of_ne hxc]
          exact h.clients_frame hipc hkept hx rfl (htouch x hxc)
      · have hout' : ipc'.pc 0 = .out := (hipc.frame (htouch 0 hc0.symm)).2.trans hout
        refine .done ?_ hout'
        show ServerPc.sent (idOf e) reply r = .unmap ∨ ServerPc.sent (idOf e) reply r = .panic
        rcases hr' with rfl | rfl
        · exact Or.inl (by rw [ServerPc.sent, if_neg (by decide), if_pos rfl])
        · exact Or.inr (by rw [ServerPc.sent, if_neg (by decide), if_neg (by decide)])

/-- A step of the server in memory only. -/
theorem Sim.server_memory {k' : Kernel} {q : ServerPc}
    (h : Sim boot dirs C fsipcbuf idOf dirOf F s a) (henvs : k'.envs = s.ipc.kern.envs)
    (hcur : k'.curenv = s.ipc.kern.curenv) (hmem : MemOk boot dirs C fsipcbuf dirOf F k'.pm)
    (hkept : PagesKept C F s.ipc.kern.pm k'.pm)
    (hself : ServerRel C idOf dirOf F
      (⟨⟨k', s.ipc.pc⟩, s.fs, s.client, q⟩ : FsipcState σ) a.server) :
    ∃ a', Rpc.Step a .tau a' ∧ Sim boot dirs C fsipcbuf idOf dirOf F
      (⟨⟨k', s.ipc.pc⟩, s.fs, s.client, q⟩ : FsipcState σ) a' := by
  have hipc : IpcStep s.ipc .other ⟨k', s.ipc.pc⟩ := .other henvs hcur
  refine ⟨a, h.step (t := ⟨⟨k', s.ipc.pc⟩, s.fs, s.client, q⟩) hipc .tau hmem (fun x hx => ?_)
    hself⟩
  exact h.clients_frame hipc hkept hx rfl (by simp [IpcEvent.touches])

include hset in
theorem Sim.unmap (h : Sim boot dirs C fsipcbuf idOf dirOf F s a)
    (hcur : s.ipc.kern.curenv = some 0) (hpc : s.server = .unmap) :
    ∃ a', Rpc.Step a .tau a' ∧ Sim boot dirs C fsipcbuf idOf dirOf F
      { s with ipc := ⟨sysMemUnmap s.ipc.kern 0 REQVA, s.ipc.pc⟩, server := .recv } a' := by
  obtain ⟨tr, hinv⟩ := h.inv
  obtain ⟨henvs, hcur'⟩ := MemCall.exec_envs s.ipc.kern (.sys_mem_unmap 0 REQVA)
  obtain ⟨hmem, hkept, -⟩ := h.mem.unmap hset hcur h.dir REQVA_L1
  refine h.server_memory henvs hcur' hmem hkept ?_
  obtain ⟨hph, hout⟩ : a.server = .ready ∧ s.ipc.pc 0 = .out := by
    have hrel := h.server
    generalize a.server = ph at hrel
    cases hrel with
    | done _ hout => exact ⟨rfl, hout⟩
    | ready hs => rw [hpc] at hs; cases hs
    | got _ hs => rw [hpc] at hs; cases hs
    | serving _ hs => rw [hpc] at hs; cases hs
    | replying _ hs => rw [hpc] at hs; simp at hs
    | stuck hs => rw [hpc] at hs; cases hs
  rw [hph]
  have hmail := hinv.mail_out hout
  have hrecv : (s.ipc.kern.envs 0).ipc_recving = 0 := by
    rw [hout] at hmail
    exact hmail.not_recving
  have henv : (sysMemUnmap s.ipc.kern 0 REQVA).envs 0 = s.ipc.kern.envs 0 := congrFun henvs 0
  refine .ready rfl ?_ fun hr => absurd hrecv ?_
  · show Mail ((sysMemUnmap s.ipc.kern 0 REQVA).envs 0) (s.ipc.pc 0) none
    rw [henv]
    exact hmail
  · rw [← henv]
    exact hr

include hset in
theorem Sim.mem_call {whom : U32} {req : Word} {call : MemCall}
    (h : Sim boot dirs C fsipcbuf idOf dirOf F s a) (hcur : s.ipc.kern.curenv = some 0)
    (hpc : s.server = .serve whom req) (hown : OwnPage call) :
    ∃ a', Rpc.Step a .tau a' ∧ Sim boot dirs C fsipcbuf idOf dirOf F
      { s with ipc := ⟨call.exec s.ipc.kern, s.ipc.pc⟩ } a' := by
  obtain ⟨henvs, hcur'⟩ := MemCall.exec_envs s.ipc.kern call
  obtain ⟨hmem, hkept, hreq'⟩ := h.mem.own hset hcur h.dir hown
  refine h.server_memory (q := s.server) henvs hcur' hmem hkept ?_
  obtain ⟨c, q, hph, hC, rfl, rfl, hout, hreq⟩ := h.server.of_serve hpc
  rw [hph]
  exact .serving hC hpc hout (hreq.frame hreq' (hkept c hC))

theorem Sim.timer (h : Sim boot dirs C fsipcbuf idOf dirOf F s a)
    (hipc : IpcStep s.ipc .yield ipc') :
    ∃ a', Rpc.Step a .tau a' ∧
      Sim boot dirs C fsipcbuf idOf dirOf F { s with ipc := ipc' } a' := by
  have hpm := hipc.yield_pm
  have hkept : PagesKept C F s.ipc.kern.pm ipc'.kern.pm := fun x _ => by rw [hpm]
  have hmem : MemOk boot dirs C fsipcbuf dirOf F ipc'.kern.pm := by
    rw [hpm]
    exact h.mem
  exact ⟨a, h.step (t := { s with ipc := ipc' }) hipc .tau hmem
    (fun x hx => h.clients_frame hipc hkept hx rfl (by simp [IpcEvent.touches]))
    (h.server_frame hipc hkept (by rw [hpm]) rfl (by simp [IpcEvent.touches]))⟩

include hset in
/-- Each proper step is a step of the protocol. -/
theorem fsipcStep_sim {ev : FsipcEvent} (hops : ops.PagesOk)
    (h : Sim boot dirs C fsipcbuf idOf dirOf F s a)
    (hstep : FsipcStep ops C fsipcbuf s ev s') (hproper : ev.Proper fsipcbuf s) :
    ∃ a', Rpc.Step a ev.rpc a' ∧ Sim boot dirs C fsipcbuf idOf dirOf F s' a' := by
  cases hstep with
  | call hC hcur hpc hmap => exact h.call hset hC hpc hmap hproper
  | send hC hpc hipc =>
      refine h.send hset hC hpc hipc ?_
      rintro e rfl
      exact hproper
  | sendAgain hC hcur hpc hipc => exact h.sendAgain hset hC hpc hipc
  | recv hC hpc hipc => exact h.recv hset hC hpc hipc
  | read hC hpc hipc => exact h.read hset hC hpc hipc
  | ret hC hpc hipc => exact h.ret hset hC hpc hipc
  | serverRecv hpc hipc => exact h.serverRecv hset hpc hipc
  | serverRead hpc hipc => exact h.serverRead hset hpc hipc
  | got hpc hipc => exact h.got hset hpc hipc
  | serve hcur hpc hmap hserve => exact h.serve hset hops hpc hmap hserve
  | reject hcur hpc hmap hserve => exact (h.not_reject hpc hserve).elim
  | reply hpc hipc => exact h.reply hset hpc hipc
  | replyAgain hcur hpc hipc => exact h.replyAgain hset hpc hipc
  | unmap hcur hpc => exact h.unmap hset hcur hpc
  | mem hcur hpc => exact h.mem_call hset hcur hpc hproper
  | timer hipc => exact h.timer hipc

end Step

/-! ## Every call once -/

/-- Nobody has called yet, and each client has its request page. -/
structure FsipcStart (boot : Nat → Nat) (dirs : Finset Nat) (C : EnvPtr → Prop)
    (fsipcbuf : EnvPtr → Word) (F : EnvPtr → Nat) (s : FsipcState σ) : Prop where
  setup : FsipcSetup dirs C fsipcbuf (fun e => (s.ipc.kern.envs e).id) s.ipc.kern.pgdir
  mem : MemOk boot dirs C fsipcbuf s.ipc.kern.pgdir F s.ipc.kern.pm
  fresh : ∀ e, (s.ipc.kern.envs e).ipc_recving = 0
  out : ∀ e, s.ipc.pc e = .out
  client : ∀ c, s.client c = .idle
  server : s.server = .recv

/-- A service for environment `whom` answers with what `serve` computes from the
    words of the request. -/
def Served (ops : FsOps σ) (C : EnvPtr → Prop) (ids : EnvPtr → U32) : FsipcEvent → Prop
  | .serve whom q r => C (ENVX whom) ∧ ids (ENVX whom) = whom ∧
      ∃ fs reply fs', serve ops whom q.2 fs q.1 = some (reply, fs') ∧ reply.r = r
  | _ => True

theorem FsipcStart.sim (h : FsipcStart boot dirs C fsipcbuf F s) :
    Sim boot dirs C fsipcbuf (fun e => (s.ipc.kern.envs e).id) s.ipc.kern.pgdir F s Rpc.init := by
  have hmail : ∀ e, Mail (s.ipc.kern.envs e) (s.ipc.pc e) none := by
    intro e
    rw [h.out e]
    exact .out (h.fresh e)
  refine ⟨⟨[], fun _ => rfl, fun c _ => h.fresh c, fun e => ⟨none, hmail e, .nil⟩,
    fun _ _ _ _ _ _ hm => by cases hm⟩, fun _ => rfl, h.mem,
    fun c _ => .idle (h.client c) (h.out c), .ready h.server (hmail 0) fun hr => ?_,
    Rpc.init_waits⟩
  exact absurd (h.fresh 0) hr

theorem fsipcStep_served {ev : FsipcEvent} (hset : FsipcSetup dirs C fsipcbuf idOf dirOf)
    (h : Sim boot dirs C fsipcbuf idOf dirOf F s a) (hstep : FsipcStep ops C fsipcbuf s ev s') :
    Served ops C idOf ev := by
  cases hstep with
  | serve hcur hpc hmap hserve =>
      obtain ⟨c, q, -, hC, rfl, -, -, -⟩ := h.server.of_serve hpc
      have hx := (hset.id c (Or.inl hC)).2
      refine ⟨by rw [hx]; exact hC, by rw [hx], _, _, _, hserve, rfl⟩
  | _ => trivial

section Board

variable {s₁ pm : Pmap} {pp : Nat}

theorem reqBuf_L1 : GET_L1_INDEX 0x10000000 ≠ uvptIndex := by
  rw [uvptIndex_eq, GET_L1_INDEX_eq]
  decide

/-- Two directories, the second of which maps one page. -/
theorem board_request_page : ∃ pm d₀ d₁ f, d₀ ≠ d₁ ∧
    PmapSound boardCount {d₁, d₀} pm ∧ ¬ IsTable pm {d₁, d₀} f ∧
    (∃ e, mapping pm d₁ 0x10000000 = some e ∧ pteFrame e = f) ∧
    ∀ d ∈ ({d₁, d₀} : Finset Nat), ∀ va e, GET_L1_INDEX va ≠ uvptIndex →
      mapping pm d va = some e → d = d₁ := by
  have h0 : PmapSound boardCount ∅ boardBoot := ⟨initBootPt_inv, fun d hd => by cases hd⟩
  have hclear : ClearFrom 16 30 boardBoot := fun j hj hj' => boardBoot_vis_zero hj (by omega)
  obtain ⟨d₀, p₀, ha₀, hc₀⟩ := hclear.alloc (by omega) (by decide)
  have hs₀ := h0.newDir ha₀
  have hc₀' : ClearFrom 17 30 (envNewDir p₀ d₀) := hc₀
  obtain ⟨d₁, p₁, ha₁, hc₁⟩ := hc₀'.alloc (by omega) (by decide)
  have hs₁ := hs₀.newDir ha₁
  have hc₁' : ClearFrom 18 30 (envNewDir p₁ d₁) := hc₁
  obtain ⟨f, p₂, ha₂, hc₂⟩ := hc₁'.alloc (by omega) (by decide)
  obtain ⟨hs₂, hg₂⟩ := hs₁.pageAlloc ha₂
  obtain ⟨-, -, hnt⟩ := pageAlloc_inv hs₁.toPmapInv ha₂
  obtain ⟨hf, -, hvis, -⟩ := pageAlloc_spec ha₂
  have hdirs : insert d₁ (insert d₀ (∅ : Finset Nat)) = {d₁, d₀} := rfl
  rw [hdirs] at hs₂ hg₂ hnt
  -- The second directory is a page that was not in use, the first one was.
  have hne : d₀ ≠ d₁ := by
    rintro rfl
    obtain ⟨-, hfree, -⟩ := pageAlloc_spec ha₁
    have hused := hs₀.visBit_table
      (isTable_of_at (Nat.zero_le 2) (Finset.mem_insert_self d₀ ∅ :
        (tableShape (insert d₀ ∅)).At (child (envNewDir p₀ d₀)) 0 d₀))
    rw [hused] at hfree
    cases hfree
  have hd₁ : d₁ ∈ ({d₁, d₀} : Finset Nat) := Finset.mem_insert_self _ _
  have hnone : ∀ d ∈ ({d₁, d₀} : Finset Nat), ∀ va, GET_L1_INDEX va ≠ uvptIndex →
      mapping p₂ d va = none := by
    intro d hd va hva
    rw [hg₂.map_eq hd hva, mapping_envNewDir hs₀.toPmapInv ha₁ hd hva]
    split
    · rfl
    · rename_i hd₁
      have hd₀ : d ∈ insert d₀ (∅ : Finset Nat) := (Finset.mem_insert.mp hd).resolve_left hd₁
      rw [mapping_envNewDir h0.toPmapInv ha₀ hd₀ hva, if_pos (Finset.mem_singleton.mp hd₀)]
  have hfree : FreePages 2 p₂ := by
    obtain ⟨q, p₃, ha₃, hc₃⟩ := hc₂.alloc (by omega) (by decide)
    obtain ⟨q', p₄, ha₄, -⟩ := hc₃.alloc (by omega) (by decide)
    exact ⟨q, p₃, ha₃, q', p₄, ha₄, trivial⟩
  obtain ⟨pm, hins⟩ := pageInsertNew_ok hfree d₁ f 0x10000000 reqPerm
  rw [← pageInsert_of_none (hnone d₁ hd₁ _ reqBuf_L1)] at hins
  obtain ⟨hs₃, hed, hok, -⟩ := hs₂.pageInsert hd₁ reqBuf_L1 hf hvis
    (show reqPerm &&& pageNumberBits = 0 by decide)
  rw [hins] at hs₃ hed hok
  obtain ⟨hmap, hframe⟩ := hok rfl
  refine ⟨pm, d₀, d₁, f, hne, hs₃, fun ht => hnt ((hed.table hvis).mp ht), ⟨_, hmap, hframe⟩, ?_⟩
  intro d hd va e hva he
  by_contra hd'
  rw [hed.other hd hva fun hx => hd' hx.1, hnone d hd va hva] at he
  cases he

/-- File operations that all fail. -/
def failOps : FsOps Unit where
  open_alloc s := (-1, 0, s)
  file_open _ s := (-1, 0, s)
  fill_open _ _ _ s := s
  o_ff _ _ := 0
  o_file _ _ := 0
  open_lookup _ _ _ := (-1, 0)
  file_get_block _ _ s := (-1, 0, s)
  file_set_size _ _ s := (-1, s)
  file_close _ s := s
  file_dirty _ _ s := (-1, s)
  file_remove _ s := (-1, s)
  file_create _ _ s := (-1, s)
  fs_sync s := s

theorem failOps_ok : failOps.PagesOk := by
  have h0 : GET_L1_INDEX 0 ≠ uvptIndex := by
    rw [uvptIndex_eq, GET_L1_INDEX_eq]
    decide
  exact ⟨fun _ _ => h0, fun _ _ _ => h0⟩

/-- The server over directory `d₀`, and environment 1, its client, running over `d₁`. -/
def boardFs (pm : Pmap) (d₀ d₁ : Nat) : FsipcState Unit where
  ipc := {
    kern := { boardKernel with
      pm := pm
      curenv := some 1
      envs := fun e =>
        if e = 0 then { zeroEnv with id := 2048, status := .ENV_RUNNABLE, pgdir := some d₀ }
        else if e = 1 then { zeroEnv with id := 4097, status := .ENV_RUNNABLE, pgdir := some d₁ }
        else zeroEnv }
    pc := fun _ => .out }
  fs := ()
  client := fun _ => .idle
  server := .recv

/-- A sync request. -/
def syncCall : Call := ⟨7, fun _ => 0, 0, false⟩

end Board

end RpiMos
