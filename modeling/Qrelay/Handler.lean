import Qrelay.Action
import Qrelay.ExitStatus
import Qrelay.Lib.Callback
import Qrelay.Request

/-! RelayHandler of Handler.hxx, and what the relay classes have in common. A
relay reports through its member `handler`, so that reporting is a use of the
relay. -/

namespace Qrelay
open Lib Lib.Decimal

inductive Exception where
  /-- `MakeErrno(code, message)`. -/
  | errno (code : ℤ) (message : Bytes)
  | runtime (message : Bytes)
  deriving DecidableEq, Repr

/-- A call of one of the handler's two methods. -/
inductive Callback where
  | response (response : Bytes)
  | error (response : Bytes) (error : Exception)
  deriving DecidableEq, Repr

namespace Callback

def bytes : Callback → Bytes
  | response r => r
  | error r _ => r

end Callback

structure RelayHandler (σ : Type) where
  onRelayResponse : Bytes → Code σ Unit
  onRelayError : Bytes → Exception → Code σ Unit

def RelayHandler.call {σ : Type} (handler : RelayHandler σ) : Callback → Code σ Unit
  | .response r => handler.onRelayResponse r
  | .error r e => handler.onRelayError r e

section Report

variable {σ ρ : Type} (self : Place σ ρ) (handler : RelayHandler σ)

def relayResponse (response : Bytes) : Code σ Unit := do
  let _ ← self.read
  handler.onRelayResponse response

def relayError (response : Bytes) (error : Exception) : Code σ Unit := do
  let _ ← self.read
  handler.onRelayError response error

variable {self handler} {s : σ} {r : ρ}

theorem relayResponse_alive (h : self.get s = some r) (response : Bytes) :
    relayResponse self handler response s = handler.call (.response response) s :=
  Place.read_alive_bind h _

theorem relayError_alive (h : self.get s = some r) (response : Bytes) (error : Exception) :
    relayError self handler response error s = handler.call (.error response error) s :=
  Place.read_alive_bind h _

end Report

/-- The kernel's answer to `pidfd_spawn` and the calls around it, given the
argument and environment vectors. -/
abbrev SpawnAnswer := List Bytes → List Bytes → Except Exception Unit

def isValidQmqpResponse (payload : Bytes) : Bool :=
  match payload with
  | [] => false
  | front :: _ => [front] = ascii "K" || [front] = ascii "D" || [front] = ascii "Z"

def signalText (lib : Libcommon) (status : ℤ) : Bytes :=
  ascii "Process died from signal " ++ lib.formatInteger (wTermSig status) ++
    if wCoreDump status then ascii " (core dumped)" else []

def exitText (lib : Libcommon) (status : ℤ) : Bytes :=
  ascii "Exit status " ++ lib.formatInteger (wExitStatus status)

namespace BasicRelay

section Code

variable {σ ρ : Type} (self : Place σ ρ) (handler : RelayHandler σ)

def onNetstringResponse (payload : Bytes) : Code σ Unit :=
  if ¬ isValidQmqpResponse payload then
    relayError self handler (ascii "Zmalformed relay response")
      (.runtime (ascii "Malformed QMQP response"))
  else relayResponse self handler payload

def onNetstringError (error : Exception) : Code σ Unit :=
  relayError self handler (ascii "Zrelay failed") error

end Code

def payloadCallback (payload : Bytes) : Callback :=
  if isValidQmqpResponse payload then .response payload
  else .error (ascii "Zmalformed relay response") (.runtime (ascii "Malformed QMQP response"))

theorem onNetstringResponse_alive {σ ρ : Type} {self : Place σ ρ} {handler : RelayHandler σ}
    {s : σ} {r : ρ} (h : self.get s = some r) (payload : Bytes) :
    onNetstringResponse self handler payload s = handler.call (payloadCallback payload) s := by
  unfold onNetstringResponse payloadCallback
  split_ifs with valid
  · exact relayResponse_alive h payload
  · exact relayError_alive h _ _

end BasicRelay

end Qrelay
