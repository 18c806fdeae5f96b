import Qrelay.Relay

/-! Connection.cxx: one submission, from the client's request over the Lua
handler and a relay to the response and its log datagram. Every member function
uses the connection through its place in the world, so that a use after
`delete this` is a fault. The trace is what an observer of the process sees,
with the state and `mail_ptr` that each member function finds. -/

namespace Qrelay
open Lib Lib.Decimal

/-- `Net::Log::Datagram` of type `SUBMISSION`. -/
structure Datagram where
  timestamp : ℤ
  site : Option Bytes
  message : Bytes
  trafficReceived : ℕ
  trafficSent : ℕ
  length : ℕ
  duration : ℤ
  deriving DecidableEq, Repr

inductive QmqpRelayConnection.State where
  | init
  | received
  | lua
  | notRelaying
  | relaying
  | ended
  deriving DecidableEq, Repr

structure QmqpRelayConnection where
  startTime : ℤ
  peerAuth : SocketPeerAuth
  receivedBuffer : Bytes := []
  /-- Whether there is a suspended coroutine. -/
  thread : Bool := false
  /-- Whether `mail_ptr` is set; it points to the mail object of the world. -/
  mailPtr : Bool := false
  relayOperation : Option Relay := none
  relayTimeout : Option ℤ := none
  state : QmqpRelayConnection.State := .init
  deriving DecidableEq, Repr

/-- What Lua code does to a mail object it has got hold of; it may catch errors. -/
inductive MailUse where
  | call (call : MailCall)
  | close
  deriving DecidableEq, Repr

def MailUse.after (lib : Libcommon) (mail : IncomingMail) : MailUse → IncomingMail
  | call c => match c.code lib mail with | .ok _ mail | .error _ mail => mail
  | close => match IncomingMail.close mail with | .ok _ mail | .error _ mail => mail

inductive HandlerOutcome where
  | suspended
  /-- `none` for a value that is no action. -/
  | returned (action : Option LuaAction)
  | failed (error : Exception)
  deriving DecidableEq, Repr

/-- What the handler does until it returns control. -/
structure HandlerStep where
  uses : List MailUse
  outcome : HandlerOutcome
  deriving DecidableEq, Repr

/-- What libcommon and the kernel answer to the calls made during one event. -/
structure Answers where
  steadyNow : ℤ
  systemNow : ℤ
  /-- Of `Net::Log::Send`. -/
  send : Except Exception Unit
  /-- Of writing the response. -/
  response : Except Exception Unit
  connect : RemoteRelay.ConnectAnswer
  spawn : SpawnAnswer
  write : WriteAnswer

namespace QmqpRelayConnection

namespace State

def value : State → ℕ
  | init => 0
  | received => 1
  | lua => 2
  | notRelaying => 3
  | relaying => 4
  | ended => 5

/-- Whether there is a mail that has not been logged. -/
def hasMail : State → Bool
  | lua | notRelaying | relaying => true
  | _ => false

end State

inductive Member where
  | destructor
  | onRequest
  | onError
  | onDisconnect
  | onRelayTimeout
  | onRelayResponse
  | onRelayError
  | onLuaFinished
  | onLuaError
  | log
  | finish
  deriving DecidableEq, Repr

inductive Entry where
  | entered (member : Member) (state : State) (mailPtr : Bool)
  | parsed (result : QmqpMail.ParseResult)
  /-- The Lua handler is entered. -/
  | handler
  | acted (action : LuaAction)
  | relay (e : RelayEvent)
  | response (response : Bytes)
  /-- A datagram is sent for this text. -/
  | logged (text : Bytes) (d : Datagram)
  | deleted

structure World where
  connection : Option QmqpRelayConnection
  mail : Option IncomingMail := none
  /-- Whether a log socket is configured. -/
  logSocket : Bool
  /-- Whether the request has been received. -/
  requested : Bool := false
  trace : List Entry := []

def connectionObject : ℕ := 0
def mailObject : ℕ := 2

def self : Place World QmqpRelayConnection where
  object := connectionObject
  get w := w.connection
  set c w := { w with connection := some c }
  get_set _ _ _ := rfl
  set_set _ _ _ := rfl
  set_get c w h := by cases w; cases h; rfl

def relayOperationPart : Part QmqpRelayConnection Relay where
  project c := c.relayOperation
  inject r c := { c with relayOperation := some r }
  project_inject _ _ _ := rfl
  inject_inject _ _ _ := rfl
  inject_project r c h := by cases c; cases h; rfl

def relayPlace : Place World Relay :=
  { self.part relayOperationPart with object := relayObject }

def note (e : Entry) : Code World Unit := modify fun w => { w with trace := w.trace ++ [e] }

def enter (member : Member) : Code World Unit := do
  let c ← self.read
  note (.entered member c.state c.mailPtr)

/-- `*mail_ptr`. -/
def derefMail : Code World IncomingMail := do
  check ((← self.read).mailPtr = true) (.dangling mailObject)
  match (← get).mail with
  | some mail => return mail
  | none => throw (.dangling mailObject)

/-- `TotalSize`. -/
def headersSize (mail : MutableMail) : ℕ := (mail.headers.map List.length).sum % sizeLimit

def logMessage (mail : MutableMail) (message : Bytes) : Bytes :=
  ascii "from=<" ++ mail.sender.contents mail.memory ++ ascii "> to=" ++
    List.intercalate (ascii ",") (mail.recipients.map fun recipient =>
      ascii "<" ++ recipient.contents mail.memory ++ ascii ">") ++
    if message = [] then [] else ascii " " ++ message

section Code

variable (lib : Libcommon) (a : Answers)

def datagram (c : QmqpRelayConnection) (mail : MutableMail) (message : Bytes) : Datagram where
  timestamp := a.systemNow
  site := if mail.account = [] then none else some (cString mail.account)
  message := lib.truncateMessage 1024 (logMessage mail message)
  trafficReceived := mail.buffer.bytes.length
  trafficSent :=
    if State.relaying.value ≤ c.state.value then
      (mail.buffer.bytes.length + headersSize mail) % sizeLimit
    else 0
  length := (mail.message.size + headersSize mail) % sizeLimit
  duration := a.steadyNow - c.startTime

def log (message : Bytes) : Code World Unit := do
  enter .log
  check ((← self.read).state ≠ .ended) .assertion
  check ((← self.read).mailPtr = true) .assertion
  if (← get).logSocket then
    let mail ← derefMail
    note (.logged message (datagram lib a (← self.read) mail.toMutableMail message))
    match a.send with
    | .ok () => pure ()
    | .error _ => pure () -- only printed
    self.modify fun c => { c with state := .ended }
    self.modify fun c => { c with mailPtr := false }

def destructor : Code World Unit := do
  enter .destructor
  if (← self.read).mailPtr then
    log lib a (ascii "canceled")
  self.modify fun c => { c with thread := false }

/-- `delete this`; `auto_close` closes the mail object. -/
def delete : Code World Unit := do
  destructor lib a
  modify fun w => { w with
    connection := none
    mail := w.mail.map fun mail => MailUse.close.after lib mail }
  note .deleted

def onError (_error : Exception) : Code World Unit := do
  enter .onError
  if (← self.read).mailPtr then
    log lib a (ascii "client error")
  delete lib a

def onDisconnect : Code World Unit := do
  enter .onDisconnect
  delete lib a

/-- `NetstringServer::SendResponse`: a failed write is reported to `OnError`. -/
def sendResponse (response : Bytes) : Code World Bool := do
  let _ ← self.read
  note (.response response)
  match a.response with
  | .ok () => return true
  | .error e =>
    onError lib a e
    return false

def finish (response : Bytes) : Code World Unit := do
  enter .finish
  check ((← self.read).state ≠ .init ∧ (← self.read).state ≠ .ended) .assertion
  check (response ≠ []) .assertion
  if (← self.read).mailPtr then
    log lib a (response.drop 1)
  if ← sendResponse lib a response then
    delete lib a

def onRelayTimeout : Code World Unit := do
  enter .onRelayTimeout
  finish lib a (ascii "Ztimeout")

def relayHandler : RelayHandler World where
  onRelayResponse response := do
    enter .onRelayResponse
    finish lib a response
  onRelayError response _ := do
    enter .onRelayError
    finish lib a response

def onLuaError (_error : Exception) : Code World Unit := do
  enter .onLuaError
  check ((← self.read).state = .lua) .assertion
  check ((← self.read).mailPtr = true) .assertion
  finish lib a (ascii "Zscript failed")

def assembleHeaders (mail : MutableMail) : Code World (List (StringView Storage)) := do
  match Qrelay.assembleHeaders lib (← self.read).peerAuth mail with
  | .error f => throw f
  | .ok (headers, receivedBuffer) =>
    self.modify fun c => { c with receivedBuffer }
    return headers

def scheduleTimeout (action : LuaAction) : Code World Unit := do
  if 0 < action.timeout then
    self.modify fun c => { c with relayTimeout := some action.timeout }

/-- What `DoConnect`, `DoExec` and `DoRawExec` have in common. -/
def startRelay (action : LuaAction) (mail : MutableMail)
    (create : List (StringView Storage) → RelayCall) : Code World Unit := do
  scheduleTimeout action
  let start := create (← assembleHeaders lib mail)
  self.modify fun c => { c with relayOperation := some start.relay }
  start.code lib relayPlace (relayHandler lib a)

def doConnect (action : LuaAction) (mail : MutableMail) : Code World Unit :=
  startRelay lib a action mail fun headers => .remote (.new lib mail headers) (.start a.connect)

def doExec (action : LuaAction) (type : action.type = .exec) (mail : MutableMail) :
    Code World Unit :=
  startRelay lib a action mail fun headers =>
    .exec (.new lib mail headers) (.start action type a.spawn)

def doRawExec (action : LuaAction) (type : action.type = .execRaw) (mail : MutableMail) :
    Code World Unit :=
  startRelay lib a action mail fun headers =>
    .rawExec (.new mail headers) (.start action type a.spawn a.write)

/-- `Do`. -/
def doAction (action : LuaAction) (mail : MutableMail) : Code World Unit :=
  match h : action.type with
  | .undefined => throw .assertion
  | .discard => do
    self.modify fun c => { c with state := .notRelaying }
    finish lib a (ascii "Kdiscarded")
  | .reject => do
    self.modify fun c => { c with state := .notRelaying }
    finish lib a (ascii "Drejected")
  | .connect => do
    self.modify fun c => { c with state := .relaying }
    doConnect lib a action mail
  | .exec => do
    self.modify fun c => { c with state := .relaying }
    doExec lib a action h mail
  | .execRaw => do
    self.modify fun c => { c with state := .relaying }
    doRawExec lib a action h mail

def onLuaFinished (action : Option LuaAction) : Code World Unit := do
  enter .onLuaFinished
  check ((← self.read).state = .lua) .assertion
  check ((← self.read).mailPtr = true) .assertion
  match action with
  | none => onLuaError lib a (.runtime (ascii "Wrong return type from Lua handler"))
  | some action =>
    let mail ← derefMail
    note (.acted action)
    doAction lib a action mail.toMutableMail

/-- The handler runs until it returns control. -/
def resume (step : HandlerStep) : Code World Unit := do
  modify fun w => { w with
    mail := w.mail.map fun mail => step.uses.foldl (MailUse.after lib) mail }
  match step.outcome with
  | .suspended => self.modify fun c => { c with thread := true }
  | .returned action =>
    self.modify fun c => { c with thread := false }
    onLuaFinished lib a action
  | .failed e =>
    self.modify fun c => { c with thread := false }
    onLuaError lib a e

def onRequest (payload : Buffer) (step : HandlerStep) : Code World Unit := do
  enter .onRequest
  check ((← self.read).state = .init) .assertion
  self.modify fun c => { c with state := .received }
  match (MutableMail.new payload).parse lib with
  | .error f => throw f
  | .ok (result, mail) =>
    note (.parsed result)
    match result with
    | .malformed => finish lib a (ascii "Dmalformed input")
    | .badAddress => finish lib a (ascii "Dbad address")
    | .tooManyRecipients => finish lib a (ascii "Dtoo many recipients")
    | .success =>
      check ((← self.read).state = .received) .assertion
      modify fun w => { w with mail := some { toMutableMail := mail.stripMessage lib } }
      self.modify fun c => { c with mailPtr := true }
      self.modify fun c => { c with state := .lua }
      note .handler
      resume lib a step

inductive Event where
  | request (payload : Buffer) (step : HandlerStep)
  /-- The suspended handler goes on. -/
  | resume (step : HandlerStep)
  | relay (e : RelayEvent)
  | relayTimeout
  | disconnect
  | error (error : Exception)
  /-- Lua code outside of the handler uses the mail object. -/
  | mail (use : MailUse)

def handle (c : QmqpRelayConnection) : Event → Code World Unit
  | .request payload step => do
    if ¬ (← get).requested then
      modify fun w => { w with requested := true }
      onRequest lib a payload step
  | .resume step => do
    if c.thread then
      resume lib a step
  | .relay e =>
    match c.relayOperation.bind (·.call e) with
    | none => pure ()
    | some call => do
      note (.relay e)
      call.code lib relayPlace (relayHandler lib a)
  | .relayTimeout => do
    if c.relayTimeout.isSome then
      self.modify fun c => { c with relayTimeout := none }
      onRelayTimeout lib a
  | .disconnect => onDisconnect lib a
  | .error e => onError lib a e
  | .mail use => modify fun w => { w with mail := w.mail.map (MailUse.after lib · use) }

end Code

/-- The event loop; a connection that is gone gets no event. -/
def step (lib : Libcommon) (e : Event × Answers) : Code World Unit := fun w =>
  match w.connection with
  | none => .ok () w
  | some c => handle lib e.2 c e.1 w

def new (logSocket : Bool) (startTime : ℤ) (peerAuth : SocketPeerAuth) : World where
  connection := some { startTime, peerAuth }
  logSocket

end QmqpRelayConnection

end Qrelay
