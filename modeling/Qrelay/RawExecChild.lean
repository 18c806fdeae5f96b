import Qrelay.RelayLifetime

/-! An exec_raw() child run: what the child does, what the kernel makes of it,
and the events that a RawExecRelay gets from it. The only I/O error is a write
to the standard input of a child that has closed it. -/

namespace Qrelay
open Lib Lib.Decimal
namespace RawExecRelay

structure Child where
  /-- How the child ends. -/
  exit : ChildExit
  /-- Everything written to its output, and what has not been read of that. -/
  output : Bytes := []
  pending : Bytes := []
  /-- Whether its standard input has a reader and its output a writer. -/
  inputOpen : Bool := true
  outputOpen : Bool := true
  ended : Bool := false
  /-- Whether the relay has been told. -/
  reported : Bool := false
  deriving DecidableEq, Repr

inductive ChildAct where
  | write (data : Bytes)
  | closeInput
  | closeOutput
  | exit
  deriving DecidableEq, Repr

namespace Child

/-- Processes that the child leaves behind may still hold the pipes, so the
exit closes nothing. -/
def act (child : Child) : ChildAct → Child
  | .write data =>
    if child.outputOpen then
      { child with output := child.output ++ data, pending := child.pending ++ data }
    else child
  | .closeInput => { child with inputOpen := false }
  | .closeOutput => { child with outputOpen := false }
  | .exit => { child with ended := true }

def epipe : Exception := .errno 32 (ascii "Failed to write")

/-- The kernel takes `accepted` bytes, but none once there is no reader. -/
def writeAnswer (child : Child) (buffer : WriteBuffer) (accepted : ℕ) : WriteAnswer :=
  if buffer.remaining = 0 then .ok 0
  else if child.inputOpen then .ok accepted
  else .error epipe

def drain (child : Child) (r : RawExecRelay) : Child :=
  { child with pending := child.pending.drop (readSize r) }

end Child

inductive Readiness where
  | read
  | readHangup
  | hangup
  deriving DecidableEq, Repr

namespace Readiness

def flags : Readiness → PipeFlags
  | read => { read := true }
  | readHangup => { read := true, hangup := true }
  | hangup => PipeFlags.onlyHangup

/-- `HANGUP` comes once all writers have closed, and alone if the pipe is
drained. A read does not block. -/
def Possible (child : Child) : Readiness → Prop
  | read => child.pending ≠ [] ∨ child.outputOpen = false
  | readHangup => child.outputOpen = false
  | hangup => child.outputOpen = false ∧ child.pending = []

instance (child : Child) (readiness : Readiness) : Decidable (readiness.Possible child) := by
  cases readiness <;> unfold Possible <;> infer_instance

end Readiness

inductive Delivery where
  | requestPipeReady (accepted : ℕ)
  | responsePipeReady (readiness : Readiness)
  | childProcessExit
  deriving DecidableEq, Repr

def Delivery.event (r : RawExecRelay) (child : Child) : Delivery → Option (Event × Child)
  | requestPipeReady accepted =>
    some (.requestPipeReady { write := true } (child.writeAnswer r.requestBuffer accepted), child)
  | responsePipeReady readiness =>
    if r.responsePipe ∧ readiness.Possible child then
      some (.responsePipeReady readiness.flags (.ok child.pending),
        if readiness = .hangup then child else child.drain r)
    else none
  | childProcessExit =>
    if r.pidfd ∧ child.ended then
      some (.childProcessExit child.exit.status, { child with reported := true })
    else none

inductive Happening where
  | child (act : ChildAct)
  | delivery (delivery : Delivery)
  deriving DecidableEq, Repr

structure ChildRun where
  solo : Solo RawExecRelay Callback
  child : Child
  deriving DecidableEq, Repr

namespace ChildRun

variable (lib : Libcommon)

def deliver (e : Event) (child : Child) : Code ChildRun Unit := fun w =>
  match aloneStep lib e w.solo with
  | .ok _ solo => .ok () { solo, child }
  | .error f solo => .error f { solo, child }

def step : Happening → Code ChildRun Unit
  | .child act => modify fun w => { w with child := w.child.act act }
  | .delivery delivery => fun w =>
    match w.solo.object with
    | none => .ok () w
    | some r =>
      match delivery.event r w.child with
      | none => .ok () w
      | some (e, child) => deliver lib e child w

def fresh (mail : MutableMail) (headers : List (StringView Storage)) (exit : ChildExit)
    (early : List ChildAct) : ChildRun where
  solo := { object := some (new mail headers) }
  child := early.foldl Child.act { exit }

def launch (action : LuaAction) (type : action.type = .execRaw) (accepted : ℕ) :
    Code ChildRun Unit := fun w =>
  match w.solo.object with
  | none => .ok () w
  | some r => deliver lib (.start action type (fun _ _ => .ok ())
      (w.child.writeAnswer r.requestBuffer accepted)) w.child w

def whole (action : LuaAction) (type : action.type = .execRaw) (accepted : ℕ)
    (hs : List Happening) : Code ChildRun Unit := do
  launch lib action type accepted
  run (step lib) hs

end ChildRun

end RawExecRelay

end Qrelay
