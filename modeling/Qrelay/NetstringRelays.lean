import Qrelay.Handler

/-! RemoteRelay and ExecRelay: the relays that send the mail as a netstring
and expect one back. `code` is what the classes do on an event, statement by
statement; `react` is what comes out of it. -/

namespace Qrelay
open Lib Lib.Decimal

structure RemoteRelay extends BasicRelay where
  deriving DecidableEq, Repr

structure ExecRelay extends BasicRelay where
  deferredResponse : Option Bytes := none
  /-- Whether `pidfd` is set. -/
  pidfd : Bool := false
  deriving DecidableEq, Repr

/-- What `NetstringClient` reports. -/
inductive NetstringOutcome where
  | response (payload : Bytes)
  | error (error : Exception)
  deriving DecidableEq, Repr

namespace RemoteRelay

/-- What `ConnectSocket::Connect` reports before it returns, if anything. -/
inductive ConnectAnswer where
  | pending
  | success
  | error (error : Exception)
  deriving DecidableEq, Repr

inductive Event where
  | start (answer : ConnectAnswer)
  | socketConnectSuccess
  | socketConnectError (error : Exception)
  | netstring (outcome : NetstringOutcome)
  deriving DecidableEq, Repr

variable (lib : Libcommon)

def new (mail : MutableMail) (additionalHeaders : List (StringView Storage)) : RemoteRelay :=
  { BasicRelay.new lib mail additionalHeaders with }

section Code

variable {σ : Type} (self : Place σ RemoteRelay) (handler : RelayHandler σ)

def onSocketConnectSuccess : Code σ Unit :=
  self.modify fun r => { r.toBasicRelay.sendRequest lib with }

def onSocketConnectError (error : Exception) : Code σ Unit :=
  relayError self handler (ascii "Zconnect failed") error

/-- `connect.Connect(address, 20s)`. -/
def start (answer : ConnectAnswer) : Code σ Bool := do
  let _ ← self.read
  match answer with
  | .pending => return true
  | .success =>
    onSocketConnectSuccess lib self
    return true
  | .error e =>
    onSocketConnectError self handler e
    return false

def code : Event → Code σ Unit
  | .start answer => discard (start lib self handler answer)
  | .socketConnectSuccess => onSocketConnectSuccess lib self
  | .socketConnectError e => onSocketConnectError self handler e
  | .netstring (.response payload) => BasicRelay.onNetstringResponse self handler payload
  | .netstring (.error e) => BasicRelay.onNetstringError self handler e

end Code

def react (r : RemoteRelay) : Event → Reaction RemoteRelay Callback
  | .start .pending => .stay r
  | .start .success | .socketConnectSuccess => .stay { r.toBasicRelay.sendRequest lib with }
  | .start (.error e) | .socketConnectError e => .finish r (.error (ascii "Zconnect failed") e)
  | .netstring (.response payload) => .finish r (BasicRelay.payloadCallback payload)
  | .netstring (.error e) => .finish r (.error (ascii "Zrelay failed") e)

variable {lib} {σ : Type} {self : Place σ RemoteRelay} {handler : RelayHandler σ} {s : σ}
  {r : RemoteRelay}

theorem code_performs (h : self.get s = some r) (e : Event) :
    (react lib r e).Performs self handler.call s (code lib self handler e s) := by
  have same : self.set r s = s := self.set_get r s h
  cases e with
  | start answer =>
    have first : code lib self handler (.start answer) s = _ :=
      discard_congr (Place.read_alive_bind h _)
    cases answer with
    | pending =>
      simp only [react, Reaction.Performs, same]
      exact first
    | success =>
      simp only [react, Reaction.Performs]
      exact first.trans ((discard_return _ s).trans (Place.modify_alive h _))
    | error e =>
      simp only [react, Reaction.Performs, same]
      exact first.trans ((discard_return _ s).trans (relayError_alive h _ e))
  | socketConnectSuccess => exact Place.modify_alive h _
  | socketConnectError e =>
    simp only [react, Reaction.Performs, same]
    exact relayError_alive h _ e
  | netstring outcome =>
    cases outcome with
    | response payload =>
      simp only [react, Reaction.Performs, same]
      exact BasicRelay.onNetstringResponse_alive h payload
    | error e =>
      simp only [react, Reaction.Performs, same]
      exact relayError_alive h _ e

end RemoteRelay

namespace ExecRelay

inductive Event where
  | start (action : LuaAction) (type : action.type = .exec) (answer : SpawnAnswer)
  | netstring (outcome : NetstringOutcome)
  | childProcessExit (status : ℤ)

variable (lib : Libcommon)

def new (mail : MutableMail) (additionalHeaders : List (StringView Storage)) : ExecRelay :=
  { BasicRelay.new lib mail additionalHeaders with }

section Code

variable {σ : Type} (self : Place σ ExecRelay) (handler : RelayHandler σ)

def start (action : Action) (answer : SpawnAnswer) : Code σ Bool := do
  check (action.type = .exec) .assertion
  check (action.exec.elements ≠ []) .assertion
  match answer action.exec.elements action.env.elements with
  | .error e =>
    relayError self handler (ascii "Zinternal server error") e
    return false
  | .ok () =>
    self.modify fun r => { r with pidfd := true }
    self.modify fun r => { r with toBasicRelay := r.toBasicRelay.sendRequest lib }
    return true

def onChildProcessExit (status : ℤ) : Code σ Unit := do
  self.modify fun r => { r with pidfd := false }
  if status < 0 then
    relayError self handler (ascii "Zinternal server error")
      (.errno (-status) (ascii "waitid() failed"))
  else if wIfSignaled status then
    relayError self handler (ascii "Zinternal server error") (.runtime (signalText lib status))
  else if wExitStatus status ≠ exitSuccess then
    relayError self handler (exitStatusToQmqpResponse (wExitStatus status))
      (.runtime (exitText lib status))
  else
    match (← self.read).deferredResponse with
    | some payload =>
      BasicRelay.onNetstringResponse self handler payload
    | none => pure ()

def onNetstringResponse (payload : Bytes) : Code σ Unit := do
  if (← self.read).pidfd then
    self.modify fun r => { r with deferredResponse := some payload }
  else
    BasicRelay.onNetstringResponse self handler payload

/-- The exit is reported only while `pidfd` is set. -/
def code : Event → Code σ Unit
  | .start action _ answer => discard (start lib self handler action.toAction answer)
  | .netstring (.response payload) => onNetstringResponse self handler payload
  | .netstring (.error e) => BasicRelay.onNetstringError self handler e
  | .childProcessExit status => do
    if (← self.read).pidfd then
      onChildProcessExit lib self handler status

end Code

def failure (status : ℤ) : Option Callback :=
  if status < 0 then
    some (.error (ascii "Zinternal server error") (.errno (-status) (ascii "waitid() failed")))
  else if wIfSignaled status then
    some (.error (ascii "Zinternal server error") (.runtime (signalText lib status)))
  else if wExitStatus status ≠ exitSuccess then
    some (.error (exitStatusToQmqpResponse (wExitStatus status)) (.runtime (exitText lib status)))
  else none

def react (r : ExecRelay) : Event → Reaction ExecRelay Callback
  | .start action _ answer =>
    match answer action.exec.elements action.env.elements with
    | .error e => .finish r (.error (ascii "Zinternal server error") e)
    | .ok () => .stay { r with toBasicRelay := r.toBasicRelay.sendRequest lib, pidfd := true }
  | .netstring (.response payload) =>
    if r.pidfd then .stay { r with deferredResponse := some payload }
    else .finish r (BasicRelay.payloadCallback payload)
  | .netstring (.error e) => .finish r (.error (ascii "Zrelay failed") e)
  | .childProcessExit status =>
    if r.pidfd then
      match failure lib status, r.deferredResponse with
      | some c, _ => .finish { r with pidfd := false } c
      | none, some payload => .finish { r with pidfd := false } (BasicRelay.payloadCallback payload)
      | none, none => .stay { r with pidfd := false }
    else .stay r

variable {lib} {σ : Type} {self : Place σ ExecRelay} {handler : RelayHandler σ} {s : σ}
  {r : ExecRelay}

theorem onChildProcessExit_alive (h : self.get s = some r) (status : ℤ) :
    onChildProcessExit lib self handler status s =
      match failure lib status, r.deferredResponse with
      | some c, _ => handler.call c (self.set { r with pidfd := false } s)
      | none, some payload =>
        handler.call (BasicRelay.payloadCallback payload) (self.set { r with pidfd := false } s)
      | none, none => .ok () (self.set { r with pidfd := false } s) := by
  obtain ⟨base, deferred, pidfd⟩ := r
  have alive := Place.alive_set h (ExecRelay.mk base deferred false)
  rw [onChildProcessExit, Place.modify_alive_bind h, failure]
  split_ifs with failed signaled exited
  · exact relayError_alive alive _ _
  · exact relayError_alive alive _ _
  · exact relayError_alive alive _ _
  · rw [Place.read_alive_bind alive]
    cases deferred with
    | some payload => exact BasicRelay.onNetstringResponse_alive alive payload
    | none => rfl

theorem code_performs (h : self.get s = some r) (e : Event) :
    (react lib r e).Performs self handler.call s (code lib self handler e s) := by
  have same : self.set r s = s := self.set_get r s h
  cases e with
  | start action type answer =>
    have started : start lib self handler action.toAction answer s = (do
        match answer action.exec.elements action.env.elements with
        | .error e =>
          relayError self handler (ascii "Zinternal server error") e
          return false
        | .ok () =>
          self.modify fun r => { r with pidfd := true }
          self.modify fun r => { r with toBasicRelay := r.toBasicRelay.sendRequest lib }
          return true : Code σ Bool) s := by
      rw [start, check_bind, if_pos type, check_bind, if_pos (action.nonempty (.inl type))]
    have code_eq : code lib self handler (.start action type answer) s = _ := discard_congr started
    rw [code_eq, react]
    cases answer action.exec.elements action.env.elements with
    | error e =>
      simp only [Reaction.Performs, same]
      exact (discard_return _ s).trans (relayError_alive h _ e)
    | ok _ =>
      have second := Place.alive_set h { r with pidfd := true }
      refine (discard_congr (Place.modify_alive_bind h _ _)).trans ?_
      rw [discard_return, Place.modify_alive second, self.set_set]
  | netstring outcome =>
    cases outcome with
    | response payload =>
      simp only [react, code, onNetstringResponse]
      rw [Place.read_alive_bind h]
      by_cases running : r.pidfd = true
      · rw [if_pos running, if_pos running]
        exact Place.modify_alive h _
      · rw [if_neg running, if_neg running]
        simp only [Reaction.Performs, same]
        exact BasicRelay.onNetstringResponse_alive h payload
    | error e =>
      simp only [react, Reaction.Performs, same]
      exact relayError_alive h _ e
  | childProcessExit status =>
    simp only [react, code]
    rw [Place.read_alive_bind h]
    by_cases running : r.pidfd = true
    · rw [if_pos running, if_pos running, onChildProcessExit_alive h]
      obtain ⟨base, deferred, pidfd⟩ := r
      cases failure lib status with
      | some c => rfl
      | none => cases deferred <;> rfl
    · rw [if_neg running, if_neg running]
      simp only [Reaction.Performs, same]
      rfl

end ExecRelay

end Qrelay
