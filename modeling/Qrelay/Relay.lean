import Qrelay.RelayLifetime

/-! The relay of a connection: an instance of one of the three classes, and the
events that the event loop has for it. -/

namespace Qrelay
open Lib Lib.Decimal

inductive Relay where
  | remote (relay : RemoteRelay)
  | exec (relay : ExecRelay)
  | rawExec (relay : RawExecRelay)
  deriving DecidableEq, Repr

inductive RelayEvent where
  | socketConnectSuccess
  | socketConnectError (error : Exception)
  | netstring (outcome : NetstringOutcome)
  | requestPipeReady (flags : PipeFlags) (write : WriteAnswer)
  | responsePipeReady (flags : PipeFlags) (read : ReadAnswer)
  | childProcessExit (exit : ChildExit)

inductive RelayCall where
  | remote (relay : RemoteRelay) (e : RemoteRelay.Event)
  | exec (relay : ExecRelay) (e : ExecRelay.Event)
  | rawExec (relay : RawExecRelay) (e : RawExecRelay.Event)

namespace Relay

/-- The method that an event calls, if the relay is registered for the event. -/
def call : Relay → RelayEvent → Option RelayCall
  | remote r, .socketConnectSuccess => some (.remote r .socketConnectSuccess)
  | remote r, .socketConnectError e => some (.remote r (.socketConnectError e))
  | remote r, .netstring outcome => some (.remote r (.netstring outcome))
  | exec r, .netstring outcome => some (.exec r (.netstring outcome))
  | exec r, .childProcessExit exit =>
    if r.pidfd then some (.exec r (.childProcessExit exit.status)) else none
  | rawExec r, .requestPipeReady flags write =>
    if r.requestPipe then some (.rawExec r (.requestPipeReady flags write)) else none
  | rawExec r, .responsePipeReady flags read =>
    if r.responsePipe then some (.rawExec r (.responsePipeReady flags read)) else none
  | rawExec r, .childProcessExit exit =>
    if r.pidfd then some (.rawExec r (.childProcessExit exit.status)) else none
  | _, _ => none

def Valid : Relay → Prop
  | rawExec r => r.responseFill ≤ 256
  | _ => True

def remotePart : Part Relay RemoteRelay where
  project
    | remote r => some r
    | _ => none
  inject r _ := remote r
  project_inject _ _ _ := rfl
  inject_inject _ _ _ := rfl
  inject_project r x h := by
    cases x <;> cases h
    rfl

def execPart : Part Relay ExecRelay where
  project
    | exec r => some r
    | _ => none
  inject r _ := exec r
  project_inject _ _ _ := rfl
  inject_inject _ _ _ := rfl
  inject_project r x h := by
    cases x <;> cases h
    rfl

def rawExecPart : Part Relay RawExecRelay where
  project
    | rawExec r => some r
    | _ => none
  inject r _ := rawExec r
  project_inject _ _ _ := rfl
  inject_inject _ _ _ := rfl
  inject_project r x h := by
    cases x <;> cases h
    rfl

end Relay

namespace RelayCall

def relay : RelayCall → Relay
  | remote r _ => .remote r
  | exec r _ => .exec r
  | rawExec r _ => .rawExec r

variable (lib : Libcommon)

def code {σ : Type} (self : Place σ Relay) (handler : RelayHandler σ) : RelayCall → Code σ Unit
  | remote _ e => RemoteRelay.code lib (self.part Relay.remotePart) handler e
  | exec _ e => ExecRelay.code lib (self.part Relay.execPart) handler e
  | rawExec _ e => RawExecRelay.code lib (self.part Relay.rawExecPart) handler e

def react : RelayCall → Reaction Relay Callback
  | remote r e => (RemoteRelay.react lib r e).map .remote
  | exec r e => (ExecRelay.react lib r e).map .exec
  | rawExec r e => (RawExecRelay.react lib r e).map .rawExec

variable {lib} {σ : Type} {self : Place σ Relay} {handler : RelayHandler σ} {s : σ}

theorem code_performs (call : RelayCall) (h : self.get s = some call.relay)
    (valid : call.relay.Valid) :
    (call.react lib).Performs self handler.call s (call.code lib self handler s) := by
  cases call with
  | remote r e =>
    have part : (self.part Relay.remotePart).get s = some r := congrArg (Option.bind · _) h
    exact (RemoteRelay.code_performs part e).of_part h rfl
  | exec r e =>
    have part : (self.part Relay.execPart).get s = some r := congrArg (Option.bind · _) h
    exact (ExecRelay.code_performs part e).of_part h rfl
  | rawExec r e =>
    have part : (self.part Relay.rawExecPart).get s = some r := congrArg (Option.bind · _) h
    exact (RawExecRelay.code_performs part valid e).of_part h rfl

end RelayCall

def RelayEvent.FailsAtHangup : RelayEvent → Prop
  | responsePipeReady flags (.error _) => flags.hangup = true ∧ flags ≠ PipeFlags.onlyHangup
  | _ => False

/-- No other event makes a relay go on after it has reported. -/
theorem Relay.call_lingers {lib : Libcommon} {r : Relay} {e : RelayEvent} {call : RelayCall}
    (eq : r.call e = some call) (lingers : (call.react lib).Lingers) : e.FailsAtHangup := by
  cases call with
  | remote r e => exact absurd (Reaction.lingers_map.mp lingers) (RemoteRelay.not_lingers r e)
  | exec r e => exact absurd (Reaction.lingers_map.mp lingers) (ExecRelay.not_lingers r e)
  | rawExec r' e' =>
    have fails := ((RawExecRelay.lingers_iff r' e').mp (Reaction.lingers_map.mp lingers)).2
    match r, e with
    | .rawExec r, .requestPipeReady flags write =>
      simp only [Relay.call] at eq
      split_ifs at eq
      cases eq
      exact fails.elim
    | .rawExec r, .responsePipeReady flags read =>
      simp only [Relay.call] at eq
      split_ifs at eq
      cases eq
      cases read with
      | ok available => exact fails.elim
      | error e => exact fails
    | .rawExec r, .childProcessExit exit =>
      simp only [Relay.call] at eq
      split_ifs at eq
      cases eq
      exact fails.elim

end Qrelay
