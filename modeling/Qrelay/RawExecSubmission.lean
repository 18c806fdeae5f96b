import Qrelay.HeaderBoundary
import Qrelay.Outline
import Qrelay.RawExecRuns
import Qrelay.Transmission

/-! A submission that is handed to a child by exec_raw(): the connection, the
child, and Lua code that still calls the mail object. Whatever the order, the
child is given the mail as it was when `Do` started the relay, and the client
gets what the child has made of it. -/

namespace Qrelay
open Lib Lib.Decimal

namespace RawExecRelay

def pending (r : RawExecRelay) : List (Cell Storage) :=
  (requestCells r.requestBuffer.segments).drop r.requestBuffer.position

def Delivery.relayEvent (r : RawExecRelay) (child : Child) : Delivery → RelayEvent
  | requestPipeReady accepted =>
    .requestPipeReady { write := true } (child.writeAnswer r.requestBuffer accepted)
  | responsePipeReady readiness => .responsePipeReady readiness.flags (.ok child.pending)
  | childProcessExit => .childProcessExit child.exit

section Memory

variable {lib : Libcommon} {mail mail' : IncomingMail} {call : MailCall}

end Memory

end RawExecRelay

namespace QmqpRelayConnection

variable {lib : Libcommon} {a : Answers} {logging : Bool} {peerAuth : SocketPeerAuth} {w : World}
  {c : QmqpRelayConnection} {action : LuaAction} {relay : Relay}

/-- A connection that relays to a child, the child, and what has been put into
the child's standard input. -/
structure Feeding where
  world : World
  child : RawExecRelay.Child
  input : Bytes := []

namespace Feeding

/-- What may happen while the child is fed; the request has come, and the
handler has returned. `close` of the mail object is left out: it frees the
storages that the relay still has to read. -/
inductive Moment where
  /-- Lua code calls the mail object. -/
  | edit (call : MailCall)
  | child (act : RawExecRelay.ChildAct)
  | delivery (delivery : RawExecRelay.Delivery)
  | relayTimeout
  | disconnect
  | error (e : Exception)
  deriving DecidableEq, Repr

/-- The events that end a submission whatever the child does, and the
responses that are given then. -/
inductive Moment.Interrupts (action : LuaAction) : Moment → List Bytes → Prop
  | relayTimeout : 0 < action.timeout → Interrupts action .relayTimeout [ascii "Ztimeout"]
  | disconnect : Interrupts action .disconnect []
  | error (e : Exception) : Interrupts action (.error e) []

def request (t : Feeding) : Option (RawExecRelay × (Storage → Bytes)) := do
  let c ← t.world.connection
  let mail ← t.world.mail
  match ← c.relayOperation with
  | .rawExec r => return (r, RawExecRelay.memory mail.toMutableMail c.receivedBuffer)
  | _ => none

section Code

variable (lib : Libcommon)

def handle (e : Event × Answers) : Code Feeding Unit := fun t =>
  match QmqpRelayConnection.step lib e t.world with
  | .ok _ world => .ok () { t with world }
  | .error f world => .error f { t with world }

/-- The kernel takes what the relay writes, out of the storages as they are now. -/
def write (r : RawExecRelay) (mem : Storage → Bytes) (answer : WriteAnswer) :
    Code Feeding Unit := fun t =>
  match answer with
  | .error _ => .ok () t
  | .ok n =>
    match Gather.write mem n { pending := r.pending, sent := t.input } with
    | some g => .ok () { t with input := g.sent }
    | none => .error .outOfRange t

def feed (r : RawExecRelay) (mem : Storage → Bytes) (delivery : RawExecRelay.Delivery) :
    Code Feeding Unit := fun t =>
  match delivery with
  | .requestPipeReady accepted =>
    if r.requestPipe then write r mem (t.child.writeAnswer r.requestBuffer accepted) t
    else .ok () t
  | .responsePipeReady _ | .childProcessExit => .ok () t

def step : Moment × Answers → Code Feeding Unit
  | (.edit call, a) => handle lib (.mail (.call call), a)
  | (.child act, _) => modify fun t => { t with child := t.child.act act }
  | (.delivery delivery, a) => fun t =>
    match t.request with
    | none => .ok () t
    | some (r, mem) =>
      match delivery.event r t.child with
      | none => .ok () t
      | some (_, child) => (do
          feed r mem delivery
          handle lib (.relay (delivery.relayEvent r t.child), a)
          modify fun t => { t with child } : Code Feeding Unit) t
  | (.relayTimeout, a) => handle lib (.relayTimeout, a)
  | (.disconnect, a) => handle lib (.disconnect, a)
  | (.error e, a) => handle lib (.error e, a)

/-- After `Do`: `Start` has made the first write. -/
def begin (r : RawExecRelay) (mem : Storage → Bytes) (a : Answers) (child : RawExecRelay.Child)
    (world : World) : Feeding :=
  Outcome.state (write r mem a.write { world, child })

end Code

/-- The relay is at work, and what has been put into the pipe and what is still
to be written are `text`. -/
structure Working (peerAuth : SocketPeerAuth) (text : Bytes) (t : Feeding) (action : LuaAction)
    (r : RawExecRelay) : Prop where
  shows : Shows peerAuth t.world (.relaying action (.rawExec r))
  tracks : r.Tracks t.child
  awaits : r.responsePipe = true ∨ r.pidfd = true
  promises : ∃ c mail, t.world.connection = some c ∧ t.world.mail = some mail ∧
    Gather.Promises (RawExecRelay.memory mail.toMutableMail c.receivedBuffer)
      { pending := r.pending, sent := t.input } text
  own : ∀ cell ∈ r.pending, cell.storage ≠ .senderBuffer
  closed : r.requestPipe = false → r.pending = []

/-- The client has its response: what the child run stands for, or that the
child has closed its standard input too early. -/
def Answered (exit : ChildExit) (text : Bytes) (t : Feeding) : Prop :=
  ∃ response, responses t.world.trace = [response] ∧
    (response = RawExecRelay.dueResponse exit t.child.output ∧ t.child.outputOpen = false ∧
        t.child.reported = true ∨
      response = ascii "Zwrite error" ∧ t.child.inputOpen = false ∧ t.input ≠ text)

def Interrupted (action : LuaAction) (occurs : Moment → Prop) (t : Feeding) : Prop :=
  ∃ m, occurs m ∧ m.Interrupts action (responses t.world.trace)

structure Feeds (logging : Bool) (peerAuth : SocketPeerAuth) (action : LuaAction)
    (occurs : Moment → Prop) (exit : ChildExit) (text : Bytes) (t : Feeding) : Prop where
  stable : Stable logging t.world
  exits : t.child.exit = exit
  rest : (∃ r, t.Working peerAuth text action r) ∨ t.world.connection = none ∧
    t.input <+: text ∧ (t.Answered exit text ∨ t.Interrupted action occurs)

variable {exit : ChildExit} {text : Bytes} {t : Feeding} {action : LuaAction}
  {occurs occurs' : Moment → Prop}

theorem Feeds.mono (h : t.Feeds logging peerAuth action occurs exit text)
    (le : ∀ m, occurs m → occurs' m) : t.Feeds logging peerAuth action occurs' exit text := by
  refine ⟨h.stable, h.exits, ?_⟩
  obtain working | ⟨gone, given, answered | ⟨m, happens, interrupts⟩⟩ := h.rest
  · exact .inl working
  · exact .inr ⟨gone, given, .inl answered⟩
  · exact .inr ⟨gone, given, .inr ⟨m, le m happens, interrupts⟩⟩

theorem handle_of {e : Event × Answers} {world : World}
    (h : QmqpRelayConnection.step lib e t.world = .ok () world) :
    handle lib e t = .ok () { t with world } := by
  rw [handle, h]

theorem Working.living {r : RawExecRelay} (working : t.Working peerAuth text action r) :
    ∃ c mail, t.world.connection = some c ∧ t.world.mail = some mail ∧
      c.relayOperation = some (.rawExec r) ∧
      Gather.Promises (RawExecRelay.memory mail.toMutableMail c.receivedBuffer)
        { pending := r.pending, sent := t.input } text := by
  obtain ⟨c, mail, alive, object, promised⟩ := working.promises
  obtain ⟨c', alive', -, -, operation, -⟩ := working.shows
  obtain rfl : c = c' := Option.some.inj (alive.symm.trans alive')
  exact ⟨c, mail, alive, object, operation, promised⟩

theorem Answered.act (h : t.Answered exit text) (act : RawExecRelay.ChildAct) :
    ({ t with child := t.child.act act } : Feeding).Answered exit text := by
  obtain ⟨response, given, due⟩ := h
  refine ⟨response, given, due.imp (fun ⟨same, shut, reported⟩ => ?_)
    fun ⟨same, closed, less⟩ => ?_⟩
  · cases act with
    | write data => simp [RawExecRelay.Child.act, same, shut, reported]
    | closeInput | closeOutput | exit =>
      exact ⟨same, by simp [RawExecRelay.Child.act, shut], reported⟩
  · refine ⟨same, ?_, less⟩
    cases act with
    | write data =>
      simp only [RawExecRelay.Child.act]
      split_ifs <;> exact closed
    | closeInput => rfl
    | closeOutput | exit => exact closed

theorem request_of {c : QmqpRelayConnection} {mail : IncomingMail} {r : RawExecRelay}
    (alive : t.world.connection = some c) (object : t.world.mail = some mail)
    (operation : c.relayOperation = some (.rawExec r)) :
    t.request = some (r, RawExecRelay.memory mail.toMutableMail c.receivedBuffer) := by
  simp [request, alive, object, operation]

section Write

variable {r : RawExecRelay} {accepted : ℕ}

end Write

section Launch

variable {mail : IncomingMail} {early : List RawExecRelay.ChildAct} {accepted : ℕ}

def created (lib : Libcommon) (peerAuth : SocketPeerAuth) (mail : IncomingMail) : RawExecRelay :=
  .new mail.toMutableMail (mail.headerViews ++ receivedView lib peerAuth)

end Launch

def samplePost : QmqpRelayConnection.Event :=
  .request samplePayload ⟨[], .returned (some rawExecAction)⟩

def sampleStart : Answers := { sampleAnswers with write := .ok 9 }

end Feeding

end QmqpRelayConnection

end Qrelay
