/-
  RpiMos.User.Fsipc

  user/fsipc.c and the loop of fs/serv.c as one system: any number of clients
  calling `fsipc`, the file server (environment 0) in `serve`, and the
  scheduler choosing between them.  Every IPC step is a step of `IpcStep`, and
  the request page travels through the page tables.
-/

import RpiMos.User.Ipc
import RpiMos.Kernel.MemCalls
import RpiMos.Fs.Serv
import RpiMos.Lib.Rpc

namespace RpiMos

open Lib

/-! ## Pages -/

/-- The stores of a client into its request page, frame `f`. -/
def Pmap.storePage (s : Pmap) (f : Nat) (page : PageWords) : Pmap :=
  { s with mem := fun t i => if h : t = f ∧ i < 512 then page ⟨i, h.2⟩ else s.mem t i }

def Pmap.loadPage (s : Pmap) (f : Nat) : PageWords := fun i => s.mem f i.val

/-- The address at which the server receives request pages. -/
def REQVA : Word := 0x0f000000

/-- The perm that `fsipc` sends its page with. -/
def reqPerm : Word := VALID ||| PTE_RW ||| PTE_USER

/-! ## Program points -/

/-- A call of `fsipc`: the code, what the request page holds, where the reply
    page goes, and whether `perm` is not NULL. -/
structure Call where
  type : U32
  page : PageWords
  dstva : Word
  perm : Bool

/-- What the server is asked: the code it receives and the page it reads. -/
abbrev Request := Word × PageWords

def Call.request (call : Call) : Request := (call.type.setWidth 64, call.page)

inductive ClientPc where
  | idle
  /-- Before the system call of `ipc_send`. -/
  | send (call : Call)
  /-- Before the `syscall_yield` of `ipc_send`. -/
  | yield (call : Call)
  /-- In `ipc_recv`; `IpcState.pc` says where. -/
  | recv (call : Call)
  | panic

inductive ServerPc where
  | recv
  | serve (whom : U32) (req : Word)
  | send (whom : U32) (reply : Reply)
  | yield (whom : U32) (reply : Reply)
  | unmap
  | panic

/-- `ipc_send` in `fsipc` after the system call returned `r`. -/
def ClientPc.sent (call : Call) (r : Word) : ClientPc :=
  if r = -E_IPC_NOT_RECV then .yield call else if r = 0 then .recv call else .panic

/-- `ipc_send` in a handler after the system call returned `r`. -/
def ServerPc.sent (whom : U32) (reply : Reply) (r : Word) : ServerPc :=
  if r = -E_IPC_NOT_RECV then .yield whom reply else if r = 0 then .unmap else .panic

/-- `serve` after `ipc_recv`: a request without a page is left hanging. -/
def ServerPc.got (report : Report) : ServerPc :=
  if report.perm.getD 0 &&& VALID = 0 then .recv
  else .serve (report.whom.getD 0) report.value

/-! ## Steps -/

structure FsipcState (σ : Type) where
  ipc : IpcState
  /-- The private memory of the server. -/
  fs : σ
  client : EnvPtr → ClientPc
  server : ServerPc

inductive FsipcEvent where
  | call (c : EnvPtr) (call : Call)
  | send (c : EnvPtr) (woken : Option EnvPtr) (r : Word)
  | recv (c : EnvPtr)
  | read (c : EnvPtr)
  | ret (c : EnvPtr) (r : U32)
  | got
  | serve (whom : U32) (q : Request) (r : U32)
  | reject
  | reply (woken : Option EnvPtr) (r : Word)
  | unmap
  | mem (call : MemCall)
  | yield

variable {σ : Type}

section Step

variable (ops : FsOps σ) (C : EnvPtr → Prop) (fsipcbuf : EnvPtr → Word)

/-- `C` are the clients, and `fsipcbuf` where each of them has its request page. -/
inductive FsipcStep : FsipcState σ → FsipcEvent → FsipcState σ → Prop
  | call {s : FsipcState σ} {c : EnvPtr} {call : Call} {e : Word} (hC : C c)
      (hcur : s.ipc.kern.curenv = some c) (hpc : s.client c = .idle)
      (hmap : mapping s.ipc.kern.pm (s.ipc.kern.pgdir c) (fsipcbuf c) = some e) :
      FsipcStep s (.call c call) { s with
        ipc := ⟨s.ipc.kern.setPm (s.ipc.kern.pm.storePage (pteFrame e) call.page), s.ipc.pc⟩
        client := Function.update s.client c (.send call) }
  /-- `syscall_ipc_can_send(envs[0].id, type, fsreq, VALID | PTE_RW | PTE_USER)`. -/
  | send {s : FsipcState σ} {c : EnvPtr} {call : Call} {woken : Option EnvPtr} {r : Word}
      {ipc' : IpcState} (hC : C c) (hpc : s.client c = .send call)
      (hipc : IpcStep s.ipc (.can_send c (s.ipc.kern.envs 0).id (call.type.setWidth 64) (fsipcbuf c)
        reqPerm woken r) ipc') :
      FsipcStep s (.send c woken r)
        { s with ipc := ipc', client := Function.update s.client c (.sent call r) }
  | sendAgain {s : FsipcState σ} {c : EnvPtr} {call : Call} {ipc' : IpcState} (hC : C c)
      (hcur : s.ipc.kern.curenv = some c) (hpc : s.client c = .yield call)
      (hipc : IpcStep s.ipc .yield ipc') :
      FsipcStep s .yield { s with ipc := ipc', client := Function.update s.client c (.send call) }
  | recv {s : FsipcState σ} {c : EnvPtr} {call : Call} {ipc' : IpcState} (hC : C c)
      (hpc : s.client c = .recv call)
      (hipc : IpcStep s.ipc (.recv c ⟨true, call.perm⟩ call.dstva) ipc') :
      FsipcStep s (.recv c) { s with ipc := ipc' }
  | read {s : FsipcState σ} {c : EnvPtr} {call : Call} {ipc' : IpcState} (hC : C c)
      (hpc : s.client c = .recv call) (hipc : IpcStep s.ipc (.read c) ipc') :
      FsipcStep s (.read c) { s with ipc := ipc' }
  /-- `fsipc` returns what `ipc_recv` returned, as an `int`. -/
  | ret {s : FsipcState σ} {c : EnvPtr} {call : Call} {want : Want} {report : Report}
      {ipc' : IpcState} (hC : C c) (hpc : s.client c = .recv call)
      (hipc : IpcStep s.ipc (.ret c want report) ipc') :
      FsipcStep s (.ret c (report.value.setWidth 32))
        { s with ipc := ipc', client := Function.update s.client c .idle }
  /-- `ipc_recv(&whom, REQVA, &perm)`. -/
  | serverRecv {s : FsipcState σ} {ipc' : IpcState} (hpc : s.server = .recv)
      (hipc : IpcStep s.ipc (.recv 0 ⟨true, true⟩ REQVA) ipc') :
      FsipcStep s (.recv 0) { s with ipc := ipc' }
  | serverRead {s : FsipcState σ} {ipc' : IpcState} (hpc : s.server = .recv)
      (hipc : IpcStep s.ipc (.read 0) ipc') : FsipcStep s (.read 0) { s with ipc := ipc' }
  | got {s : FsipcState σ} {report : Report} {ipc' : IpcState}
      (hpc : s.server = .recv) (hipc : IpcStep s.ipc (.ret 0 ⟨true, true⟩ report) ipc') :
      FsipcStep s .got { s with ipc := ipc', server := .got report }
  | serve {s : FsipcState σ} {whom : U32} {req e : Word} {reply : Reply} {fs' : σ}
      (hcur : s.ipc.kern.curenv = some 0) (hpc : s.server = .serve whom req)
      (hmap : mapping s.ipc.kern.pm (s.ipc.kern.pgdir 0) REQVA = some e)
      (hserve : serve ops whom (s.ipc.kern.pm.loadPage (pteFrame e)) s.fs req = some (reply, fs')) :
      FsipcStep s (.serve whom (req, s.ipc.kern.pm.loadPage (pteFrame e)) reply.r)
        { s with fs := fs', server := .send whom reply }
  | reject {s : FsipcState σ} {whom : U32} {req e : Word}
      (hcur : s.ipc.kern.curenv = some 0) (hpc : s.server = .serve whom req)
      (hmap : mapping s.ipc.kern.pm (s.ipc.kern.pgdir 0) REQVA = some e)
      (hserve : serve ops whom (s.ipc.kern.pm.loadPage (pteFrame e)) s.fs req = none) :
      FsipcStep s .reject { s with server := .unmap }
  /-- The `ipc_send` of a handler; `r` is an `int` there. -/
  | reply {s : FsipcState σ} {whom : U32} {reply : Reply} {woken : Option EnvPtr} {r : Word}
      {ipc' : IpcState} (hpc : s.server = .send whom reply)
      (hipc : IpcStep s.ipc (.can_send 0 whom (reply.r.signExtend 64) reply.srcva reply.perm
        woken r) ipc') :
      FsipcStep s (.reply woken r) { s with ipc := ipc', server := .sent whom reply r }
  | replyAgain {s : FsipcState σ} {whom : U32} {reply : Reply} {ipc' : IpcState}
      (hcur : s.ipc.kern.curenv = some 0) (hpc : s.server = .yield whom reply)
      (hipc : IpcStep s.ipc .yield ipc') :
      FsipcStep s .yield { s with ipc := ipc', server := .send whom reply }
  /-- `syscall_mem_unmap(0, REQVA)`. -/
  | unmap {s : FsipcState σ} (hcur : s.ipc.kern.curenv = some 0) (hpc : s.server = .unmap) :
      FsipcStep s .unmap
        { s with ipc := ⟨sysMemUnmap s.ipc.kern 0 REQVA, s.ipc.pc⟩, server := .recv }
  /-- The memory calls of a handler, for the block cache and the open files. -/
  | mem {s : FsipcState σ} {whom : U32} {req : Word} {call : MemCall}
      (hcur : s.ipc.kern.curenv = some 0) (hpc : s.server = .serve whom req) :
      FsipcStep s (.mem call) { s with ipc := ⟨call.exec s.ipc.kern, s.ipc.pc⟩ }
  /-- The timer interrupts whichever environment runs. -/
  | timer {s : FsipcState σ} {ipc' : IpcState} (hipc : IpcStep s.ipc .yield ipc') :
      FsipcStep s .yield { s with ipc := ipc' }

end Step

/-- What the event means for the remote procedure call it belongs to. -/
def FsipcEvent.rpc : FsipcEvent → RpcEvent EnvPtr Request U32
  | .call c q => .call c q.request
  | .serve whom q r => .serve (ENVX whom) q r
  | .ret c r => .ret c r
  | _ => .tau

/-- The page of a message is mapped at both ends: in the sender, and, by the
    send, in the environment woken. -/
def PageMapped (k : Kernel) (c e : EnvPtr) (srcva perm : Word) : Prop :=
  ∃ p t i, pageLookup k.pm (k.pgdir c) srcva = some (p, t, i) ∧
    (pageInsert k.pm (k.pgdir e) p (k.envs e).ipc_dstva perm).1 = true

/-- The memory calls of the server: pages of its own, allocated, given a new perm
    and given back, away from the request page. -/
def OwnPage : MemCall → Prop
  | .sys_mem_alloc envid va perm => envid = 0 ∧ GET_L1_INDEX va ≠ uvptIndex ∧
      pageIdx va ≠ pageIdx REQVA ∧ perm &&& pageNumberBits = 0
  | .sys_mem_unmap envid va => envid = 0 ∧ GET_L1_INDEX va ≠ uvptIndex ∧ pageIdx va ≠ pageIdx REQVA
  | .sys_mem_map srcid srcva dstid dstva perm => srcid = 0 ∧ dstid = 0 ∧ srcva = dstva ∧
      GET_L1_INDEX dstva ≠ uvptIndex ∧ pageIdx dstva ≠ pageIdx REQVA ∧ perm &&& pageNumberBits = 0

/-- The requests carry a mapped page and a code that `serve` knows, and the reply
    page has a place of its own. -/
def FsipcEvent.Proper (fsipcbuf : EnvPtr → Word) (s : FsipcState σ) : FsipcEvent → Prop
  | .call c q => KnownReq q.type ∧ GET_L1_INDEX q.dstva ≠ uvptIndex ∧
      pageIdx q.dstva ≠ pageIdx (fsipcbuf c)
  | .send c (some e) _ => PageMapped s.ipc.kern c e (fsipcbuf c) reqPerm
  | .mem m => OwnPage m
  | _ => True

end RpiMos
