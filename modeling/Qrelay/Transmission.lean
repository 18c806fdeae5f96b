import Qrelay.HeaderBlock
import Qrelay.Lib.Gather
import Qrelay.Submissions

/-! The request on its way downstream. Its segments are views which are read
when they are written, while Lua code may still edit the mail. Only an
assignment to `sender` overwrites something that a view can stand in.

A storage is here the contents of its string, without capacity. That is exact
as long as no pending segment stands in `sender_buffer` when it is assigned, and
for a sender of the same length. Behind a shorter sender the source still reads
old bytes where this model has a fault, and a longer one may move the buffer, so
that the source reads freed memory where this model reads the new sender. -/

namespace Qrelay
open Lib Lib.Decimal

/-- The part that holds the request of the relays that send a netstring. -/
def Relay.basic : Relay → Option BasicRelay
  | remote r => some r.toBasicRelay
  | exec r => some r.toBasicRelay
  | rawExec _ => none

def segmentCells : StringView Storage → List (Cell Storage)
  | some v => v.cells
  | none => []

def requestCells (list : List (StringView Storage)) : List (Cell Storage) :=
  list.flatMap segmentCells

namespace QmqpRelayConnection

/-- A connection that relays, and what its relay's client writes. -/
structure Transmission where
  world : World
  /-- Set once the client has been given the request. -/
  client : Option (Gather Storage UInt8) := none

namespace Transmission

def request (t : Transmission) : Option (BasicRelay × (Storage → Bytes)) := do
  let c ← t.world.connection
  let mail ← t.world.mail
  let relay ← (← c.relayOperation).basic
  return (relay, relay.memory mail.toMutableMail c.receivedBuffer)

def pending (t : Transmission) : List (Cell Storage) :=
  match t.client with
  | some client => client.pending
  | none => (t.request.map fun request => requestCells request.1.request).getD []

def sent (t : Transmission) : Bytes := (t.client.map Gather.sent).getD []

def Finished (t : Transmission) : Prop := ∃ client, t.client = some client ∧ client.pending = []

def give (t : Transmission) : Transmission :=
  { t with client := t.request.map fun request => { pending := requestCells request.1.request } }

/-- What may happen meanwhile. `close` of the mail object is left out: it frees
the storages that the relay still has to read. -/
inductive Moment where
  /-- Lua code calls the mail object. -/
  | edit (call : MailCall)
  | connected
  /-- The kernel takes up to `n` bytes. -/
  | write (n : ℕ)
  deriving DecidableEq, Repr

variable (lib : Libcommon)

def handle (e : Event × Answers) : Code Transmission Unit := fun t =>
  match QmqpRelayConnection.step lib e t.world with
  | .ok _ world => .ok () { t with world }
  | .error f world => .error f { t with world }

/-- A socket gets connected once. -/
def step : Moment × Answers → Code Transmission Unit
  | (.edit call, a) => handle lib (.mail (.call call), a)
  | (.connected, a) => do
    if (← get).client.isNone then
      handle lib (.relay .socketConnectSuccess, a)
      modify give
  | (.write n, _) => fun t =>
    match t.client, t.request with
    | some client, some request =>
      match client.write request.2 n with
      | some client => .ok () { t with client := some client }
      | none => .error .outOfRange t
    | _, _ => .ok () t

/-- The call assigns a sender other than the one in `sender_buffer`, and some of
what is still to be written stands there. -/
def Overwrites (t : Transmission) (m : Moment × Answers) : Prop :=
  match m.1 with
  | .edit call => (∃ mail s, t.world.mail = some mail ∧ mail.stale = false ∧
      call.sender = some s ∧ lib.verifyEmailAddress s ∧ s ≠ mail.senderBuffer) ∧
      ∃ cell ∈ t.pending, cell.storage = .senderBuffer
  | _ => False

def Launches (a : Answers) (action : LuaAction) : Prop :=
  action.type = .connect ∧ (a.connect = .pending ∨ a.connect = .success) ∨
    action.type = .exec ∧ a.spawn action.exec.elements action.env.elements = .ok ()

/-- After `Do`; the client of a RemoteRelay gets the request once it is connected. -/
def begin (a : Answers) (action : LuaAction) (world : World) : Transmission :=
  if action.type = .exec ∨ a.connect = .success then give { world } else { world }

variable {lib}

section Reading

variable {mail mail' : IncomingMail} {call : MailCall}

theorem read_edit (edit : MailCall.Edit lib mail call mail') (relay : BasicRelay)
    (receivedBuffer : Bytes) {cell : Cell Storage} {b : UInt8}
    (read : cell.read (relay.memory mail.toMutableMail receivedBuffer) = some b)
    (kept : cell.storage = .senderBuffer → mail'.senderBuffer = mail.senderBuffer) :
    cell.read (relay.memory mail'.toMutableMail receivedBuffer) = some b := by
  obtain ⟨storage, index⟩ := cell
  have same (eq : relay.memory mail'.toMutableMail receivedBuffer storage =
      relay.memory mail.toMutableMail receivedBuffer storage) :
      (Cell.mk storage index).read (relay.memory mail'.toMutableMail receivedBuffer) = some b := by
    rw [Cell.read, eq]
    exact read
  cases storage with
  | buffer => exact same (congrArg Buffer.bytes edit.frame.1)
  | senderBuffer => exact same (kept rfl)
  | header n =>
    apply same
    have inside : n < mail.headers.reverse.length := by
      by_contra outside
      have none : mail.headers.reverse[n]? = none := List.getElem?_eq_none (by omega)
      have empty : relay.memory mail.toMutableMail receivedBuffer (.header n) = [] := by
        simp only [BasicRelay.memory, MutableMail.memory, none, Option.getD_none]
      rw [Cell.read, empty] at read
      cases read
    simp only [BasicRelay.memory, MutableMail.memory, edit.headers, List.reverse_append,
      List.getElem?_append_left inside]
  | receivedBuffer => exact same rfl
  | generator => exact same rfl
  | senderHeader => exact same rfl
  | client => exact same rfl
  | comma => exact same rfl

theorem readAll_segmentCells {mem : Storage → Bytes} {x : StringView Storage}
    (exact : Exact mem x) :
    Cell.readAll mem (segmentCells x) = some (x.contents mem) := by
  cases x with
  | none => rfl
  | some v => exact View.readAll_cells exact.symm

theorem readAll_requestCells {mem : Storage → Bytes} {list : List (StringView Storage)}
    (exact : ∀ x ∈ list, Exact mem x) :
    Cell.readAll mem (requestCells list) = some (bytesOf mem list) := by
  induction list with
  | nil => rfl
  | cons x list ih =>
    have first := readAll_segmentCells (exact x List.mem_cons_self)
    have others := ih fun y hy => exact y (List.mem_cons_of_mem x hy)
    rw [requestCells, List.flatMap_cons, Cell.readAll_append, first, Option.bind_some,
      ← requestCells, others]
    rfl

/-- The client only adds its own header and a comma. -/
theorem mem_requestCells_sendRequest {relay : BasicRelay} {cell : Cell Storage}
    (mem : cell ∈ requestCells (relay.sendRequest lib).request)
    (place : cell.storage = .senderBuffer) : cell ∈ requestCells relay.request := by
  have request : (relay.sendRequest lib).request =
      (lib.netstringGenerator .client .comma relay.request).1 := rfl
  rw [request, lib.netstringGenerator_eq] at mem
  simp only [requestCells, List.cons_append, List.flatMap_cons, List.flatMap_append,
    List.flatMap_nil, List.append_nil, List.mem_append] at mem
  rcases mem with mem | mem | mem
  · obtain ⟨i, -, rfl⟩ := List.mem_map.mp mem
    cases place
  · exact mem
  · obtain ⟨i, -, rfl⟩ := List.mem_map.mp mem
    cases place

end Reading

/-- What has been written and what is still to be written are `bytes`. -/
def Frozen (lib : Libcommon) (bytes : Bytes) (t : Transmission) : Prop :=
  ∃ c mail relay, t.world.connection = some c ∧ t.world.mail = some mail ∧
    c.relayOperation = some relay ∧
    match t.client with
    | none => ∃ r, relay = .remote r ∧
        Gather.Promises ((r.sendRequest lib).memory mail.toMutableMail c.receivedBuffer)
          { pending := requestCells (r.sendRequest lib).request } bytes
    | some client => ∃ r, relay.basic = some r ∧
        client.Promises (r.memory mail.toMutableMail c.receivedBuffer) bytes

variable {bytes : Bytes} {t : Transmission} {a : Answers}

theorem request_of {c : QmqpRelayConnection} {mail : IncomingMail} {relay : Relay}
    {r : BasicRelay} (alive : t.world.connection = some c) (object : t.world.mail = some mail)
    (operation : c.relayOperation = some relay) (basic : relay.basic = some r) :
    t.request = some (r, r.memory mail.toMutableMail c.receivedBuffer) := by
  simp [request, alive, object, operation, basic]

theorem give_frozen {c : QmqpRelayConnection} {mail : IncomingMail} {relay : Relay}
    {r : BasicRelay} (alive : t.world.connection = some c) (object : t.world.mail = some mail)
    (operation : c.relayOperation = some relay) (basic : relay.basic = some r)
    (promised : Gather.Promises (r.memory mail.toMutableMail c.receivedBuffer)
      { pending := requestCells r.request } bytes) : Frozen lib bytes t.give := by
  refine ⟨c, mail, relay, alive, object, operation, ?_⟩
  simp only [give, request_of alive object operation basic, Option.map_some]
  exact ⟨r, basic, promised⟩

theorem world_edit {w : World} {c : QmqpRelayConnection} (alive : w.connection = some c)
    (call : MailCall) : QmqpRelayConnection.step lib (.mail (.call call), a) w = .ok ()
      { w with mail := w.mail.map fun mail => (MailUse.call call).after lib mail } := by
  cases w
  cases alive
  rfl

theorem world_connected {w : World} {c : QmqpRelayConnection} {r : RemoteRelay}
    (alive : w.connection = some c) (operation : c.relayOperation = some (.remote r)) :
    QmqpRelayConnection.step lib (.relay .socketConnectSuccess, a) w = .ok () (w.goOn
      { c with relayOperation := some (.remote { r.toBasicRelay.sendRequest lib with }) }
      [.relay .socketConnectSuccess]) := by
  cases w
  cases c
  cases alive
  cases operation
  rfl

theorem handle_of {e : Event × Answers} {w : World}
    (h : QmqpRelayConnection.step lib e t.world = .ok () w) :
    handle lib e t = .ok () { t with world := w } := by
  rw [handle, h]

theorem edit_frozen {call : MailCall} (h : Frozen lib bytes t)
    (kept : ¬ t.Overwrites lib (.edit call, a)) :
    ∃ t', step lib (.edit call, a) t = .ok () t' ∧ Frozen lib bytes t' := by
  obtain ⟨c, mail, relay, alive, object, operation, promises⟩ := h
  refine ⟨_, handle_of (world_edit alive call), c, _, relay, alive, by rw [object]; rfl,
    operation, ?_⟩
  rcases @MailCall.outcome lib mail call with ⟨e, rejected⟩ | ⟨mail', accepted, edit⟩
  · simpa only [MailUse.after, rejected] using promises
  -- bytes that are still to be written stay what they are
  have stays {cells : List (Cell Storage)} {r : BasicRelay}
      (among : ∀ cell ∈ cells, cell.storage = .senderBuffer → cell ∈ t.pending) :
      ∀ cell ∈ cells, ∀ b, cell.read (r.memory mail.toMutableMail c.receivedBuffer) = some b →
        cell.read (r.memory mail'.toMutableMail c.receivedBuffer) = some b := by
    intro cell mem b read
    refine read_edit edit r _ read fun place => ?_
    by_contra changed
    obtain ⟨fresh, s, assigned, valid, other⟩ := MailCall.assigns_sender accepted changed
    exact kept ⟨⟨mail, s, object, fresh, assigned, valid, other⟩, cell, among cell mem place, place⟩
  simp only [MailUse.after, accepted]
  cases client : t.client with
  | none =>
    rw [client] at promises
    obtain ⟨r, rfl, promised⟩ := promises
    refine ⟨r, rfl, promised.congr (stays fun cell mem place => ?_)⟩
    have request := request_of (r := r.toBasicRelay) alive object operation rfl
    simp only [pending, client, request, Option.map_some, Option.getD_some]
    exact mem_requestCells_sendRequest mem place
  | some client' =>
    rw [client] at promises
    obtain ⟨r, basic, promised⟩ := promises
    refine ⟨r, basic, promised.congr (stays fun cell mem _ => ?_)⟩
    simpa only [pending, client] using mem

def connected (lib : Libcommon) (t : Transmission) (c : QmqpRelayConnection) (r : RemoteRelay) :
    Transmission :=
  let relay : Relay := .remote { r.toBasicRelay.sendRequest lib with }
  let world := t.world.goOn { c with relayOperation := some relay } [.relay .socketConnectSuccess]
  give { t with world }

theorem connected_step {c : QmqpRelayConnection} {r : RemoteRelay}
    (alive : t.world.connection = some c) (operation : c.relayOperation = some (.remote r))
    (client : t.client = none) : step lib (.connected, a) t = .ok () (t.connected lib c r) := by
  have happened := handle_of (@world_connected lib a _ _ _ alive operation)
  have code : step lib (.connected, a) t =
      (handle lib (.relay .socketConnectSuccess, a) >>= fun _ => modify give) t := by
    simp only [step, get_bind, client]
    rfl
  rw [code, bind_ok happened]
  rfl

theorem connected_frozen (h : Frozen lib bytes t) :
    ∃ t', step lib (.connected, a) t = .ok () t' ∧ Frozen lib bytes t' := by
  cases client : t.client with
  | some client' =>
    refine ⟨t, ?_, h⟩
    simp only [step, get_bind, client]
    rfl
  | none =>
    obtain ⟨c, mail, relay, alive, object, operation, promises⟩ := h
    rw [client] at promises
    obtain ⟨r, rfl, promised⟩ := promises
    exact ⟨_, connected_step alive operation client, give_frozen rfl object rfl rfl promised⟩

theorem write_finishes {n : ℕ} {client : Gather Storage UInt8} (h : Frozen lib bytes t)
    (given : t.client = some client) (all : client.pending.length ≤ n) :
    ∃ t', step lib (.write n, a) t = .ok () t' ∧ t'.sent = bytes := by
  obtain ⟨c, mail, relay, alive, object, operation, promises⟩ := h
  rw [given] at promises
  obtain ⟨r, basic, promised⟩ := promises
  obtain ⟨client', wrote, promised'⟩ := promised.write n
  refine ⟨{ t with client := some client' }, ?_, promised'.sent_eq ?_⟩
  · simp only [step, given, request_of alive object operation basic, wrote]
  · rw [Gather.write_pending wrote, List.drop_eq_nil_of_le all]

theorem write_frozen {n : ℕ} (h : Frozen lib bytes t) :
    ∃ t', step lib (.write n, a) t = .ok () t' ∧ Frozen lib bytes t' := by
  obtain ⟨c, mail, relay, alive, object, operation, promises⟩ := h
  cases client : t.client with
  | none =>
    refine ⟨t, by simp only [step, client], c, mail, relay, alive, object, operation, ?_⟩
    rwa [client] at promises ⊢
  | some client' =>
    rw [client] at promises
    obtain ⟨r, basic, promised⟩ := promises
    obtain ⟨client'', wrote, promised'⟩ := promised.write n
    refine ⟨{ t with client := some client'' }, ?_, c, mail, relay, alive, object, operation, r,
      basic, promised'⟩
    simp only [step, client, request_of alive object operation basic, wrote]

/-- The steps leave the bytes of the request alone as long as nothing of them is overwritten. -/
theorem step_frozen {m : Moment × Answers} (h : Frozen lib bytes t) (kept : ¬ t.Overwrites lib m) :
    ∃ t', step lib m t = .ok () t' ∧ Frozen lib bytes t' := by
  obtain ⟨moment, a⟩ := m
  cases moment with
  | edit call => exact edit_frozen h kept
  | connected => exact connected_frozen h
  | write n => exact write_frozen h

theorem run_frozen {moments : List (Moment × Answers)} (h : Frozen lib bytes t)
    (kept : Along (step lib) (fun t m => ¬ t.Overwrites lib m) t moments) :
    ∃ t', run (step lib) moments t = .ok () t' ∧ Frozen lib bytes t' := by
  induction moments generalizing t with
  | nil => exact ⟨t, rfl, h⟩
  | cons m moments ih =>
    obtain ⟨t', stepped, h'⟩ := step_frozen h kept.1
    rw [run_cons_ok stepped]
    exact ih h' (kept.2 t' stepped)

theorem Frozen.sent_prefix (h : Frozen lib bytes t) : t.sent <+: bytes := by
  obtain ⟨c, mail, relay, -, -, -, promises⟩ := h
  cases client : t.client with
  | none => simp [sent, client]
  | some client' =>
    rw [client] at promises
    obtain ⟨r, -, promised⟩ := promises
    simpa [sent, client] using promised.sent_prefix

theorem Frozen.sent_eq (h : Frozen lib bytes t) (finished : t.Finished) : t.sent = bytes := by
  obtain ⟨c, mail, relay, -, -, -, promises⟩ := h
  obtain ⟨client', client, done⟩ := finished
  rw [client] at promises
  obtain ⟨r, -, promised⟩ := promises
  simpa [sent, client] using promised.sent_eq done

section Launch

variable {w : World} {c : QmqpRelayConnection} {mail : MutableMail} {action : LuaAction}

theorem doAction_frozen {mail : IncomingMail} (alive : w.connection = some c)
    (object : w.mail = some mail) (launches : Launches a action)
    (promised : ∀ r, r = (BasicRelay.new lib mail.toMutableMail
        (mail.headerViews ++ receivedView lib c.peerAuth)).sendRequest lib →
      Gather.Promises (r.memory mail.toMutableMail (receivedHeader lib c.peerAuth))
        { pending := requestCells r.request } bytes) :
    ∃ w', doAction lib a action mail.toMutableMail w = .ok () w' ∧
      Frozen lib bytes (begin a action w') := by
  have relaying : self.modify (fun c => { c with state := .relaying }) w =
      .ok () (w.goOn { c with state := .relaying } []) := modify_apply alive _
  rcases launches with ⟨type, answer⟩ | ⟨type, spawned⟩
  · rw [doAction_connect type, bind_ok relaying, doConnect]
    rcases answer with pending | success
    · have started := @startRelay_stays lib a _ _ action mail.toMutableMail
        (fun headers => .remote (.new lib mail.toMutableMail headers) (.start a.connect)) _
        (rfl : (w.goOn { c with state := .relaying } []).connection = _)
        (by rw [pending]; rfl) trivial
      refine ⟨_, started, ?_⟩
      have waits : ¬ (action.type = .exec ∨ a.connect = .success) := by
        rw [type, pending]
        decide
      rw [begin, if_neg waits]
      exact ⟨_, mail, _, rfl, object, rfl, _, rfl, promised _ rfl⟩
    · have started := @startRelay_stays lib a _ _ action mail.toMutableMail
        (fun headers => .remote (.new lib mail.toMutableMail headers) (.start a.connect)) _
        (rfl : (w.goOn { c with state := .relaying } []).connection = _)
        (by rw [success]; rfl) trivial
      refine ⟨_, started, ?_⟩
      rw [begin, if_pos (.inr success)]
      exact give_frozen rfl object rfl rfl (promised _ rfl)
  · rw [doAction_exec type, bind_ok relaying, doExec]
    have started := @startRelay_stays lib a _ _ action mail.toMutableMail
      (fun headers => .exec (.new lib mail.toMutableMail headers) (.start action type a.spawn)) _
      (rfl : (w.goOn { c with state := .relaying } []).connection = _)
      (by rw [RelayCall.react, ExecRelay.react, spawned]; rfl) trivial
    refine ⟨_, started, ?_⟩
    rw [begin, if_pos (.inl type)]
    exact give_frozen rfl object rfl rfl (promised _ rfl)

end Launch

theorem promises_relayed {peerAuth : SocketPeerAuth} {mail : MutableMail} {m s t : Bytes}
    (message : FieldReads mail mail.message m) (sender : FieldReads mail mail.sender s)
    (tail : FieldReads mail mail.tail t) :
    let r := (BasicRelay.new lib mail (mail.headerViews ++ receivedView lib peerAuth)).sendRequest
      lib
    ∃ bytes, relayed lib peerAuth mail = .ok bytes ∧
      Gather.Promises (r.memory mail (receivedHeader lib peerAuth))
        { pending := requestCells r.request } bytes := by
  intro r
  set mem := r.memory mail (receivedHeader lib peerAuth)
  have ext : Extends mem mail := r.memory_extends
  have exact := BasicRelay.new_exact lib peerAuth message sender tail ext rfl rfl rfl rfl
  have whole : ∀ x ∈ r.request, Exact mem x := generator_exact exact rfl rfl
  refine ⟨bytesOf mem r.request, ?_, bytesOf mem r.request, readAll_requestCells whole, rfl⟩
  rw [relayed, assembleHeaders_eq]
  rfl

/-- What is sent downstream is the mail as it was when `Do` started the relay,
in every run in which no accepted assignment puts another sender into
`sender_buffer` while a part of the request still to be written stands there. -/
theorem request_frozen (lib : Libcommon) {payload : Buffer} {parsedMail : MutableMail}
    (parsed : (MutableMail.new payload).parse lib = .ok (.success, parsedMail))
    (before : List MailCall) (a : Answers) (action : LuaAction) (launches : Launches a action)
    (w : World) (c : QmqpRelayConnection) (alive : w.connection = some c) (mail : IncomingMail)
    (object : w.mail = some mail)
    (edited : mail = (MailCall.script lib before (IncomingMail.received lib parsedMail)).1) :
    ∃ bytes w', relayed lib c.peerAuth mail.toMutableMail = .ok bytes ∧
      doAction lib a action mail.toMutableMail w = .ok () w' ∧
      ∀ moments, Along (step lib) (fun t m => ¬ t.Overwrites lib m) (begin a action w') moments →
        ∃ t, run (step lib) moments (begin a action w') = .ok () t ∧
          t.sent <+: bytes ∧ (t.Finished → t.sent = bytes) := by
  obtain ⟨fresh, m, s, rs, tl, -, -, reads⟩ := parse_success parsed
  have left := @MailCall.script_leaves lib _ _ fresh _ _ _ _ reads before
  rw [IncomingMail.received] at edited
  simp only [← edited] at left
  obtain ⟨bytes, run, promised⟩ :=
    @promises_relayed lib c.peerAuth _ _ _ _ left.message left.sender left.tail
  obtain ⟨w', done, frozen⟩ := doAction_frozen alive object launches fun r eq => eq ▸ promised
  refine ⟨bytes, w', run, done, fun moments kept => ?_⟩
  obtain ⟨t, ran, frozen'⟩ := run_frozen frozen kept
  exact ⟨t, ran, frozen'.sent_prefix, frozen'.sent_eq⟩

def senderMail : IncomingMail :=
  (MailCall.script .reference [.newIndex (.string (ascii "sender")) (.string (ascii "x@y"))]
    (IncomingMail.received .reference sampleMail)).1

def laterSender : MailCall := .newIndex (.string (ascii "sender")) (.string (ascii "x@z"))

def laterMail : IncomingMail := { senderMail with senderBuffer := ascii "x@z" }

def senderConnection : QmqpRelayConnection :=
  { startTime := 0, peerAuth := none, mailPtr := true, state := .lua }

def senderWorld : World :=
  { connection := some senderConnection, mail := some senderMail, logSocket := false }

def sentAfter (moments : List Moment) : Bytes :=
  sent (Outcome.state (run (step .reference) (moments.map (·, sampleAnswers))
    (begin sampleAnswers connectAction (Outcome.state
      (doAction .reference sampleAnswers connectAction senderMail.toMutableMail senderWorld)))))

def relayingConnection (mail : IncomingMail) : QmqpRelayConnection :=
  { senderConnection with
    state := .relaying
    relayOperation := some (.remote (.new .reference mail.toMutableMail [])) }

def connecting (mail : IncomingMail) : Transmission where
  world := { senderWorld with connection := some (relayingConnection mail), mail := some mail }

set_option maxRecDepth 4000 in
theorem request_frozen_connected : ∃ bytes w' t,
    relayed .reference none senderMail.toMutableMail = .ok bytes ∧
      doAction .reference sampleAnswers connectAction senderMail.toMutableMail senderWorld =
        .ok () w' ∧
      run (step .reference) ([Moment.connected, .write 64].map (·, sampleAnswers))
        (begin sampleAnswers connectAction w') = .ok () t ∧
      t.sent <+: bytes ∧ (t.Finished → t.sent = bytes) := by
  have parsed : (MutableMail.new samplePayload).parse .reference = .ok (.success, sampleMail) := rfl
  obtain ⟨bytes, w', whole, done, frozen⟩ := request_frozen .reference parsed
    [.newIndex (.string (ascii "sender")) (.string (ascii "x@y"))] sampleAnswers connectAction
    (.inl ⟨rfl, .inl rfl⟩) senderWorld senderConnection rfl senderMail rfl rfl
  obtain ⟨t, ran, sent⟩ := frozen ([Moment.connected, .write 64].map (·, sampleAnswers))
    ⟨id, fun _ _ => ⟨id, fun _ _ => trivial⟩⟩
  exact ⟨bytes, w', t, whole, done, ran, sent⟩

/-- An assignment before the socket is connected changes what is sent. -/
theorem later_sender_sent :
    relayed .reference none senderMail.toMutableMail =
        .ok (ascii "25:3:hi\n,3:x@y,3:c@d,4:ee@f,,") ∧
      sentAfter [.edit laterSender, .connected, .write 64] =
        ascii "25:3:hi\n,3:x@z,3:c@d,4:ee@f,," ∧
      relayed .reference none senderMail.toMutableMail ≠
        .ok (sentAfter [.edit laterSender, .connected, .write 64]) := by
  have before : relayed .reference none senderMail.toMutableMail =
      .ok (ascii "25:3:hi\n,3:x@y,3:c@d,4:ee@f,,") := rfl
  have launched : doAction .reference sampleAnswers connectAction senderMail.toMutableMail
      senderWorld = .ok () (connecting senderMail).world := rfl
  have edited : step .reference (.edit laterSender, sampleAnswers) (connecting senderMail) =
      .ok () (connecting laterMail) := rfl
  have message : FieldReads laterMail.toMutableMail laterMail.message (ascii "hi\n") :=
    ⟨_, rfl, .inl rfl, by unfold View.Within; decide, rfl⟩
  have sender : FieldReads laterMail.toMutableMail laterMail.sender (ascii "x@z") :=
    ⟨_, rfl, .inr rfl, by unfold View.Within; decide, rfl⟩
  have tail : FieldReads laterMail.toMutableMail laterMail.tail (ascii ",3:c@d,4:ee@f,") :=
    ⟨_, rfl, .inl rfl, by unfold View.Within; decide, rfl⟩
  obtain ⟨bytes, eq, promised⟩ := @promises_relayed .reference none _ _ _ _ message sender tail
  have same : bytes = ascii "25:3:hi\n,3:x@z,3:c@d,4:ee@f,," := Except.ok.inj (eq.symm.trans rfl)
  have joined := @connected_step .reference (connecting laterMail) sampleAnswers _ _ rfl rfl rfl
  have frozen : Frozen .reference bytes ((connecting laterMail).connected .reference
      (relayingConnection laterMail) (.new .reference laterMail.toMutableMail [])) :=
    give_frozen rfl rfl rfl rfl promised
  obtain ⟨t, wrote, sent⟩ :=
    @write_finishes .reference _ _ sampleAnswers 64 _ frozen rfl (by decide)
  have whole : run (step .reference) ([Moment.edit laterSender, .connected, .write 64].map
      (·, sampleAnswers)) (connecting senderMail) = .ok () t :=
    (run_cons_ok edited).trans ((run_cons_ok joined).trans (run_cons_ok wrote))
  have start : begin sampleAnswers connectAction (connecting senderMail).world =
      connecting senderMail := rfl
  have after : sentAfter [.edit laterSender, .connected, .write 64] =
      ascii "25:3:hi\n,3:x@z,3:c@d,4:ee@f,," := by
    rw [sentAfter, launched, Outcome.state_ok, start, whole, Outcome.state_ok, sent, same]
  refine ⟨before, after, fun kept => ?_⟩
  rw [before, after] at kept
  exact absurd (Except.ok.inj kept) (by decide)

end Transmission

end QmqpRelayConnection

end Qrelay
