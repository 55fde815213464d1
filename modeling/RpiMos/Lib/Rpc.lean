/-
  RpiMos.Lib.Rpc

  Remote procedure calls from many clients to one server that holds one request
  at a time: what the protocol is for.  Each client's history is two one-place
  buffers in a row, the requests that are not yet served and the replies that
  are not yet returned.
-/

import RpiMos.Lib.OnePlace
import Mathlib.Logic.Function.Basic

namespace RpiMos.Lib

/-- Where a client stands: `Q` are requests and `A` replies. -/
inductive ClientPhase (Q A : Type _) where
  | idle
  | sending (q : Q)
  | waiting
  | replied (a : A)

inductive ServerPhase (ι Q A : Type _) where
  | ready
  | got (c : ι) (q : Q)
  | replying (c : ι) (q : Q) (a : A)

structure Rpc (ι Q A : Type _) where
  client : ι → ClientPhase Q A
  server : ServerPhase ι Q A

inductive RpcEvent (ι Q A : Type _) where
  | call (c : ι) (q : Q)
  | serve (c : ι) (q : Q) (a : A)
  | ret (c : ι) (a : A)
  | tau

variable {ι Q A : Type _} [DecidableEq ι]

inductive Rpc.Step : Rpc ι Q A → RpcEvent ι Q A → Rpc ι Q A → Prop
  | call {s : Rpc ι Q A} {c : ι} {q : Q} (hc : s.client c = .idle) :
      Rpc.Step s (.call c q) { s with client := Function.update s.client c (.sending q) }
  | accept {s : Rpc ι Q A} {c : ι} {q : Q} (hc : s.client c = .sending q) (hs : s.server = .ready) :
      Rpc.Step s .tau ⟨Function.update s.client c .waiting, .got c q⟩
  | serve {s : Rpc ι Q A} {c : ι} {q : Q} {a : A} (hs : s.server = .got c q) :
      Rpc.Step s (.serve c q a) { s with server := .replying c q a }
  | reply {s : Rpc ι Q A} {c : ι} {q : Q} {a : A} (hs : s.server = .replying c q a) :
      Rpc.Step s .tau ⟨Function.update s.client c (.replied a), .ready⟩
  | ret {s : Rpc ι Q A} {c : ι} {a : A} (hc : s.client c = .replied a) :
      Rpc.Step s (.ret c a) { s with client := Function.update s.client c .idle }
  | tau {s : Rpc ι Q A} : Rpc.Step s .tau s

/-- Nobody has called yet. -/
def Rpc.init : Rpc ι Q A := ⟨fun _ => .idle, .ready⟩

namespace RpcEvent

def called (c : ι) : RpcEvent ι Q A → Option Q
  | .call c' q => if c' = c then some q else none
  | _ => none

def served (c : ι) : RpcEvent ι Q A → Option (Q × A)
  | .serve c' q a => if c' = c then some (q, a) else none
  | _ => none

def returned (c : ι) : RpcEvent ι Q A → Option A
  | .ret c' a => if c' = c then some a else none
  | _ => none

end RpcEvent

/-- The requests of `c`, what was served for it, and what its calls returned. -/
def calls (c : ι) (tr : List (RpcEvent ι Q A)) : List Q := tr.filterMap (RpcEvent.called c)

def serves (c : ι) (tr : List (RpcEvent ι Q A)) : List (Q × A) := tr.filterMap (RpcEvent.served c)

def rets (c : ι) (tr : List (RpcEvent ι Q A)) : List A := tr.filterMap (RpcEvent.returned c)

/-- The calls of `c` are served in order, and the replies are returned in order;
    at most one request waits to be served and at most one reply to be returned. -/
structure Matched (c : ι) (tr : List (RpcEvent ι Q A)) (q : Option Q) (qa : Option (Q × A)) :
    Prop where
  served : OnePlace (fun q s => s.1 = q) (calls c tr) (serves c tr) q
  returned : OnePlace (fun s a => a = s.2) (serves c tr) (rets c tr) qa

namespace Rpc

variable {s s' : Rpc ι Q A} {tr : List (RpcEvent ι Q A)} {ev : RpcEvent ι Q A} {c c' : ι}
  {q : Option Q} {qa : Option (Q × A)}

/-- What is outstanding for a client: a request that waits, or a reply. -/
inductive Outstanding (s : Rpc ι Q A) (c : ι) : Option Q → Option (Q × A) → Prop
  | idle (hc : s.client c = .idle) : Outstanding s c none none
  | sending {q : Q} (hc : s.client c = .sending q) : Outstanding s c (some q) none
  | got {q : Q} (hc : s.client c = .waiting) (hs : s.server = .got c q) :
      Outstanding s c (some q) none
  | replying {q : Q} {a : A} (hc : s.client c = .waiting) (hs : s.server = .replying c q a) :
      Outstanding s c none (some (q, a))
  | replied {q : Q} {a : A} (hc : s.client c = .replied a) : Outstanding s c none (some (q, a))

/-- The client that the server works for waits. -/
structure Waits (s : Rpc ι Q A) : Prop where
  got : ∀ c q, s.server = .got c q → s.client c = .waiting
  replying : ∀ c q a, s.server = .replying c q a → s.client c = .waiting

structure Inv (tr : List (RpcEvent ι Q A)) (s : Rpc ι Q A) : Prop where
  client : ∀ c, ∃ q qa, Outstanding s c q qa ∧ Matched c tr q qa
  waits : Waits s

theorem matched_snoc {q' : Option Q} {qa' : Option (Q × A)}
    (hserved : OnePlace (fun q s => s.1 = q) (calls c tr ++ (ev.called c).toList)
      (serves c tr ++ (ev.served c).toList) q')
    (hreturned : OnePlace (fun s a => a = s.2) (serves c tr ++ (ev.served c).toList)
      (rets c tr ++ (ev.returned c).toList) qa') : Matched c (tr ++ [ev]) q' qa' := by
  constructor
  · rw [calls, serves, filterMap_snoc, filterMap_snoc]
    exact hserved
  · rw [serves, rets, filterMap_snoc, filterMap_snoc]
    exact hreturned

theorem matched_idle (h : Matched c tr q qa) (hcall : ev.called c = none)
    (hserve : ev.served c = none) (hret : ev.returned c = none) : Matched c (tr ++ [ev]) q qa := by
  refine matched_snoc ?_ ?_
  · simpa [hcall, hserve] using h.served
  · simpa [hserve, hret] using h.returned

theorem matched_call {q : Q} (h : Matched c tr none none) :
    Matched c (tr ++ [.call c q]) (some q) none := by
  refine matched_snoc ?_ ?_
  · simpa [RpcEvent.called, RpcEvent.served] using h.served.put q
  · simpa [RpcEvent.served, RpcEvent.returned] using h.returned

theorem matched_serve {q : Q} {a : A} (h : Matched c tr (some q) none) :
    Matched c (tr ++ [.serve c q a]) none (some (q, a)) := by
  refine matched_snoc ?_ ?_
  · have h' := h.served.take (b := (q, a)) rfl
    simpa [RpcEvent.called, RpcEvent.served] using h'
  · simpa [RpcEvent.served, RpcEvent.returned] using h.returned.put (q, a)

theorem matched_ret {q : Q} {a : A} (h : Matched c tr none (some (q, a))) :
    Matched c (tr ++ [.ret c a]) none none := by
  refine matched_snoc ?_ ?_
  · simpa [RpcEvent.called, RpcEvent.served] using h.served
  · have h' := h.returned.take (b := a) rfl
    simpa [RpcEvent.served, RpcEvent.returned] using h'

omit [DecidableEq ι] in
/-- A step for another client leaves what is outstanding alone. -/
theorem Outstanding.of_ne (h : Outstanding s c q qa) (hclient : s'.client c = s.client c)
    (hgot : ∀ q, s.server = .got c q → s'.server = s.server)
    (hreplying : ∀ q a, s.server = .replying c q a → s'.server = s.server) :
    Outstanding s' c q qa := by
  cases h with
  | idle hc => exact .idle (hclient.trans hc)
  | sending hc => exact .sending (hclient.trans hc)
  | got hc hs => exact .got (hclient.trans hc) ((hgot _ hs).trans hs)
  | replying hc hs => exact .replying (hclient.trans hc) ((hreplying _ _ hs).trans hs)
  | replied hc => exact .replied (hclient.trans hc)

section

omit [DecidableEq ι]

variable {q₀ : Q} {a₀ : A}

theorem Outstanding.of_idle (h : Outstanding s c q qa) (hc : s.client c = .idle) :
    q = none ∧ qa = none := by
  cases h <;> simp_all

theorem Outstanding.of_sending (h : Outstanding s c q qa) (hc : s.client c = .sending q₀) :
    q = some q₀ ∧ qa = none := by
  cases h <;> simp_all

theorem Outstanding.of_got (h : Outstanding s c q qa) (hc : s.client c = .waiting)
    (hs : s.server = .got c q₀) : q = some q₀ ∧ qa = none := by
  cases h <;> simp_all

theorem Outstanding.of_replying (h : Outstanding s c q qa) (hc : s.client c = .waiting)
    (hs : s.server = .replying c q₀ a₀) : q = none ∧ qa = some (q₀, a₀) := by
  cases h <;> simp_all

theorem Outstanding.of_replied (h : Outstanding s c q qa) (hc : s.client c = .replied a₀) :
    q = none ∧ ∃ q₁, qa = some (q₁, a₀) := by
  cases h <;> simp_all

end

omit [DecidableEq ι] in
theorem init_waits : Waits (init : Rpc ι Q A) := by
  constructor
  · intro c q h
    cases h
  · intro c q a h
    cases h

theorem step_waits (h : Waits s) (hstep : Step s ev s') : Waits s' := by
  -- A client that does something itself is none that the server works for.
  have hmove : ∀ {c : ι} {ph ph' : ClientPhase Q A}, s.client c = ph → ph ≠ .waiting →
      Waits { s with client := Function.update s.client c ph' } := by
    intro c ph ph' hc hph
    have hne : ∀ x, s.client x = .waiting → x ≠ c := by
      rintro x hx rfl
      exact hph (hc.symm.trans hx)
    constructor
    · intro x q hs
      exact (Function.update_of_ne (hne x (h.got x q hs)) _ _).trans (h.got x q hs)
    · intro x q a hs
      exact (Function.update_of_ne (hne x (h.replying x q a hs)) _ _).trans (h.replying x q a hs)
  cases hstep with
  | call hc => exact hmove hc (by simp)
  | ret hc => exact hmove hc (by simp)
  | tau => exact h
  | accept hc hs =>
      constructor
      · intro x q hx
        cases hx
        exact Function.update_self _ _ _
      · intro x q a hx
        cases hx
  | serve hs =>
      constructor
      · intro x q hx
        cases hx
      · intro x q a hx
        cases hx
        exact h.got _ _ hs
  | reply hs =>
      constructor
      · intro x q hx
        cases hx
      · intro x q a hx
        cases hx

/-- What a step for client `c` has to show: `c` itself, and that the server does
    not leave another client waiting. -/
theorem Inv.step (h : Inv tr s) (hstep : Step s ev s')
    (hclient : ∀ x, x ≠ c → s'.client x = s.client x)
    (hserver : ∀ x, x ≠ c → (∀ q, s.server = .got x q → s'.server = s.server) ∧
      ∀ q a, s.server = .replying x q a → s'.server = s.server)
    (hev : ∀ x, x ≠ c → ev.called x = none ∧ ev.served x = none ∧ ev.returned x = none)
    (hself : ∀ q qa, Outstanding s c q qa → Matched c tr q qa →
      ∃ q' qa', Outstanding s' c q' qa' ∧ Matched c (tr ++ [ev]) q' qa') :
    Inv (tr ++ [ev]) s' := by
  refine ⟨fun x => ?_, step_waits h.waits hstep⟩
  obtain ⟨q, qa, hout, hm⟩ := h.client x
  by_cases hx : x = c
  · subst hx
    exact hself q qa hout hm
  · obtain ⟨hcall, hserve, hret⟩ := hev x hx
    exact ⟨q, qa, hout.of_ne (hclient x hx) (hserver x hx).1 (hserver x hx).2,
      matched_idle hm hcall hserve hret⟩

theorem step_inv (h : Inv tr s) (hstep : Step s ev s') : Inv (tr ++ [ev]) s' := by
  have hstep' := hstep
  cases hstep with
  | @call c q hc =>
      refine h.step hstep' (c := c) (fun x hx => Function.update_of_ne hx _ _)
        (fun x _ => ⟨fun _ _ => rfl, fun _ _ _ => rfl⟩)
        (fun x hx => ⟨by simp [RpcEvent.called, Ne.symm hx], rfl, rfl⟩) (fun q' qa hout hm => ?_)
      obtain ⟨rfl, rfl⟩ := hout.of_idle hc
      exact ⟨_, _, .sending (Function.update_self _ _ _), matched_call hm⟩
  | @accept c q hc hs =>
      refine h.step hstep' (c := c) (fun x hx => Function.update_of_ne hx _ _)
        (fun x _ => ⟨fun _ h' => ?_, fun _ _ h' => ?_⟩)
        (fun x _ => ⟨rfl, rfl, rfl⟩) (fun q' qa hout hm => ?_)
      · rw [hs] at h'
        cases h'
      · rw [hs] at h'
        cases h'
      · obtain ⟨rfl, rfl⟩ := hout.of_sending hc
        exact ⟨_, _, .got (Function.update_self _ _ _) rfl, matched_idle hm rfl rfl rfl⟩
  | @serve c q a hs =>
      have hc := h.waits.got c q hs
      refine h.step hstep' (c := c) (fun x _ => rfl)
        (fun x hx => ⟨fun _ h' => ?_, fun _ _ h' => ?_⟩)
        (fun x hx => ⟨rfl, by simp [RpcEvent.served, Ne.symm hx], rfl⟩) (fun q' qa hout hm => ?_)
      · rw [hs] at h'
        cases h'
        exact absurd rfl hx
      · rw [hs] at h'
        cases h'
      · obtain ⟨rfl, rfl⟩ := hout.of_got hc hs
        exact ⟨_, _, .replying hc rfl, matched_serve hm⟩
  | @reply c q a hs =>
      have hc := h.waits.replying c q a hs
      refine h.step hstep' (c := c) (fun x hx => Function.update_of_ne hx _ _)
        (fun x hx => ⟨fun _ h' => ?_, fun _ _ h' => ?_⟩)
        (fun x _ => ⟨rfl, rfl, rfl⟩) (fun q' qa hout hm => ?_)
      · rw [hs] at h'
        cases h'
      · rw [hs] at h'
        cases h'
        exact absurd rfl hx
      · obtain ⟨rfl, rfl⟩ := hout.of_replying hc hs
        exact ⟨_, _, .replied (Function.update_self _ _ _), matched_idle hm rfl rfl rfl⟩
  | @ret c a hc =>
      refine h.step hstep' (c := c) (fun x hx => Function.update_of_ne hx _ _)
        (fun x _ => ⟨fun _ _ => rfl, fun _ _ _ => rfl⟩)
        (fun x hx => ⟨rfl, rfl, by simp [RpcEvent.returned, Ne.symm hx]⟩) (fun q' qa hout hm => ?_)
      obtain ⟨rfl, q₁, rfl⟩ := hout.of_replied hc
      exact ⟨_, _, .idle (Function.update_self _ _ _), matched_ret hm⟩
  | tau =>
      refine ⟨fun x => ?_, h.waits⟩
      obtain ⟨q, qa, hout, hm⟩ := h.client x
      exact ⟨q, qa, hout, matched_idle hm rfl rfl rfl⟩

/-- In every run from the start, every client's history is matched. -/
theorem run_matched (h : Run Step (init : Rpc ι Q A) tr s) (c : ι) : ∃ q qa, Matched c tr q qa := by
  have hinit : Inv [] (init : Rpc ι Q A) :=
    ⟨fun c => ⟨none, none, .idle rfl, .nil, .nil⟩, init_waits⟩
  have hinv := h.invariant_trace hinit fun _ _ _ _ h hstep => step_inv h hstep
  obtain ⟨q, qa, -, hm⟩ := hinv.client c
  exact ⟨q, qa, hm⟩

end Rpc

end RpiMos.Lib
