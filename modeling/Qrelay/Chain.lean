import Qrelay.Downstream
import Qrelay.Journey
import Qrelay.Transmission

/-! A chain of servers. Each has a run of its own, in which its handler decides
on connect(), its relay sends the request while Lua code may still call the
mail object, and the answer of the next server comes back. The last server gets
what the journey of the mail says, and its response is that of all others. -/

namespace Qrelay
open Lib Lib.Decimal

namespace QmqpRelayConnection

/-- The payload of a connection, and what Lua code has done to its mail since. -/
abbrev Record := Option (Buffer × List MailUse)

namespace Record

def next (e : Event × Answers) (r : Record) : Record :=
  match e.1, r with
  | .request payload step, none => some (payload, step.uses)
  | .resume step, some (payload, uses) => some (payload, uses ++ step.uses)
  | .mail use, some (payload, uses) => some (payload, uses ++ [use])
  | _, r => r

def Makes (lib : Libcommon) (r : Record) (mail : IncomingMail) : Prop :=
  ∃ payload uses parsedMail, r = some (payload, uses) ∧
    (MutableMail.new payload).parse lib = .ok (.success, parsedMail) ∧
    mail = uses.foldl (MailUse.after lib) (IncomingMail.received lib parsedMail)

/-- What the outline has of the record, as long as the handler has not decided. -/
def Kept (lib : Libcommon) (r : Record) : Outline → Prop
  | .waiting => r = none
  | .deciding mail suspended => suspended = true ∧ r.Makes lib mail
  | .relaying .. | .ended .. => True

variable {lib : Libcommon} {peerAuth : SocketPeerAuth} {r : Record} {o : Outline}

theorem Makes.more {r' : Record} {mail : IncomingMail} (makes : r.Makes lib mail)
    (uses : List MailUse) (more : ∀ payload before, r = some (payload, before) →
      r' = some (payload, before ++ uses)) :
    r'.Makes lib (uses.foldl (MailUse.after lib) mail) := by
  obtain ⟨payload, before, parsedMail, rfl, parsed, rfl⟩ := makes
  exact ⟨payload, before ++ uses, parsedMail, more _ _ rfl, parsed, List.foldl_append.symm⟩

theorem kept_reacted (action : LuaAction) (reaction : Reaction Relay Callback) :
    r.Kept lib (.reacted action reaction) := by
  cases reaction <;> trivial

theorem kept_decided (a : Answers) {step : HandlerStep} {mail : IncomingMail}
    (makes : r.Makes lib (step.uses.foldl (MailUse.after lib) mail)) :
    r.Kept lib (.decided lib peerAuth a step mail) := by
  rw [Outline.decided]
  cases step.outcome with
  | suspended => exact ⟨rfl, makes⟩
  | returned action =>
    cases action with
    | none => trivial
    | some action =>
      simp only [Outline.acted]
      split
      · exact kept_reacted _ _
      · trivial
  | failed e => trivial

theorem next_kept (e : Event × Answers) (kept : r.Kept lib o) :
    (next e r).Kept lib (o.next lib peerAuth e) := by
  obtain ⟨e, a⟩ := e
  cases o with
  | waiting =>
    cases kept
    cases e with
    | request payload step =>
      simp only [Outline.next, Outline.received, next]
      split <;> try trivial
      rename_i mail parsed
      exact kept_decided a ⟨payload, step.uses, mail, rfl, parsed, rfl⟩
    | disconnect | error => trivial
    | _ => rfl
  | deciding mail suspended =>
    obtain ⟨rfl, makes⟩ := kept
    obtain ⟨payload, uses, parsedMail, rfl, -, -⟩ := id makes
    cases e with
    | resume step =>
      exact kept_decided a (makes.more step.uses fun _ _ eq => by cases eq; rfl)
    | mail use =>
      exact ⟨rfl, makes.more [use] fun _ _ eq => by cases eq; rfl⟩
    | disconnect | error => trivial
    | _ => exact ⟨rfl, makes⟩
  | relaying action relay =>
    cases e with
    | relay e =>
      simp only [Outline.next]
      cases relay.call e with
      | none => trivial
      | some call => exact kept_reacted _ _
    | relayTimeout =>
      simp only [Outline.next]
      split_ifs <;> trivial
    | _ => trivial
  | ended action response =>
    rw [Outline.next_ended]
    trivial

theorem follow_kept (es : List (Event × Answers)) (kept : r.Kept lib o) :
    Kept lib (follow next es r) (follow (Outline.next lib peerAuth) es o) := by
  induction es generalizing r o with
  | nil => exact kept
  | cons e es ih => exact ih (next_kept e kept)

theorem does_makes {action : LuaAction} {mail : IncomingMail} (e : Event × Answers)
    (kept : r.Kept lib o) (does : o.does lib e.1 = some (action, mail)) :
    (next e r).Makes lib mail := by
  obtain ⟨e, a⟩ := e
  have returned {step : HandlerStep} {before : IncomingMail}
      (returns : Outline.returns lib step before = some (action, mail)) :
      mail = step.uses.foldl (MailUse.after lib) before := by
    rw [Outline.returns] at returns
    split at returns <;> cases returns
    rfl
  cases o with
  | waiting =>
    cases kept
    cases e with
    | request payload step =>
      simp only [Outline.does] at does
      split at does
      · rename_i parsedMail parsed
        exact ⟨payload, step.uses, parsedMail, rfl, parsed, returned does⟩
      · cases does
    | _ => cases does
  | deciding before suspended =>
    obtain ⟨rfl, makes⟩ := kept
    cases e with
    | resume step =>
      rw [returned does]
      exact makes.more step.uses fun _ _ eq => by rw [eq]; rfl
    | _ => cases does
  | relaying | ended => cases e <;> cases does

end Record

theorem MailUse.foldl_calls (lib : Libcommon) (calls : List MailCall) (mail : IncomingMail) :
    (calls.map MailUse.call).foldl (MailUse.after lib) mail =
      (MailCall.script lib calls mail).1 := by
  induction calls generalizing mail with
  | nil => rfl
  | cons call calls ih =>
    rw [List.map_cons, List.foldl_cons, ih, MailUse.after, MailCall.script]
    cases call.code lib mail <;> rfl

namespace Transmission

/-- Events that only have to do with sending the request. -/
def Sending : QmqpRelayConnection.Event → Prop
  | .mail _ | .relay .socketConnectSuccess => True
  | _ => False

variable {lib : Libcommon} {t t' : Transmission}

theorem handle_world {e : QmqpRelayConnection.Event × Answers} (ok : handle lib e t = .ok () t') :
    QmqpRelayConnection.step lib e t.world = .ok () t'.world := by
  rw [handle] at ok
  cases outcome : QmqpRelayConnection.step lib e t.world with
  | ok _ w =>
    rw [outcome] at ok
    cases ok
    rfl
  | error f w =>
    rw [outcome] at ok
    cases ok

def Passed (lib : Libcommon) (t t' : Transmission) : Prop :=
  ∃ es : List (QmqpRelayConnection.Event × Answers), (∀ e ∈ es, Sending e.1) ∧
    run (QmqpRelayConnection.step lib) es t.world = .ok () t'.world

theorem passed_handle {e : QmqpRelayConnection.Event × Answers}
    (ok : handle lib e t = .ok () t') (sending : Sending e.1) : Passed lib t t' :=
  ⟨[e], by simpa using sending, (run_singleton _ _).trans (handle_world ok)⟩

theorem step_passed {m : Moment × Answers} (ok : step lib m t = .ok () t') : Passed lib t t' := by
  obtain ⟨moment, a⟩ := m
  cases moment with
  | edit call => exact passed_handle ok trivial
  | connected =>
    rw [step, get_bind] at ok
    split_ifs at ok with idle
    · cases outcome : handle lib (.relay .socketConnectSuccess, a) t with
      | ok _ u =>
        rw [bind_ok outcome] at ok
        cases ok
        exact @passed_handle lib t u _ outcome trivial
      | error f u =>
        rw [bind_error outcome] at ok
        cases ok
    · cases ok
      exact ⟨[], by simp, rfl⟩
  | write n =>
    refine ⟨[], by simp, ?_⟩
    simp only [step] at ok
    split at ok
    · split at ok <;> cases ok
      rfl
    · cases ok
      rfl

theorem run_passed {moments : List (Moment × Answers)}
    (ok : run (step lib) moments t = .ok () t') : Passed lib t t' := by
  induction moments generalizing t with
  | nil =>
    cases ok
    exact ⟨[], by simp, rfl⟩
  | cons m moments ih =>
    cases outcome : step lib m t with
    | ok _ u =>
      rw [run_cons_ok outcome] at ok
      obtain ⟨before, sending, ran⟩ := step_passed outcome
      obtain ⟨after, sending', ran'⟩ := ih ok
      refine ⟨before ++ after, fun e mem => ?_, (run_append ran).trans ran'⟩
      exact (List.mem_append.mp mem).elim (sending e) (sending' e)
    | error f u =>
      rw [run_cons_error outcome] at ok
      cases ok

end Transmission

/-- A server that relays a mail to the next one. -/
structure Station where
  logSocket : Bool
  startTime : ℤ
  /-- Its client, and what Lua code has called of the mail when the handler decides. -/
  hop : Hop
  /-- Until the handler decides. -/
  start : List (Event × Answers)
  decision : Event × Answers
  action : LuaAction
  /-- While the request is sent. -/
  moments : List (Transmission.Moment × Answers)
  rest : List (Event × Answers)

namespace Station

variable (lib : Libcommon) (s : Station)

def peerAuth : SocketPeerAuth := s.hop.peer.map (·.toPeerCred)

def sending : Transmission :=
  Transmission.begin s.decision.2 s.action (Outcome.state
    (submission lib s.logSocket s.startTime s.peerAuth (s.start ++ [s.decision])))

def sent : Transmission := Outcome.state (run (Transmission.step lib) s.moments (s.sending lib))

/-- The server has got the payload, and its handler has decided on connect(). All
of the request has been sent, and nothing of it has been overwritten. -/
structure Sends (payload : Buffer) : Prop where
  record : follow Record.next (s.start ++ [s.decision]) none =
    some (payload, s.hop.calls.map .call)
  decides : ∃ mail, (outline lib s.peerAuth s.start).does lib s.decision.1 = some (s.action, mail)
  connects : s.action.type = .connect
  launches : s.decision.2.connect = .pending ∨ s.decision.2.connect = .success
  kept : Along (Transmission.step lib) (fun t m => ¬ t.Overwrites lib m) (s.sending lib) s.moments
  finished : (s.sent lib).Finished

/-- The client stays, there is no timeout, and this is the first answer. -/
structure Gets (response : Bytes) : Prop where
  calm : ∀ e ∈ s.rest, e.1.Calm (if 0 < s.action.timeout then some s.action.timeout else none)
  first : (s.rest.filterMap (·.1.answer)).head? = some (.netstring (.response response))

def world : World :=
  Outcome.state (run (QmqpRelayConnection.step lib) s.rest (s.sent lib).world)

variable {lib s} {payload : Buffer}

theorem Sends.mail (sends : s.Sends lib payload) : ∃ parsedMail,
    (MutableMail.new payload).parse lib = .ok (.success, parsedMail) ∧
    (outline lib s.peerAuth s.start).does lib s.decision.1 = some (s.action,
      (MailCall.script lib s.hop.calls (IncomingMail.received lib parsedMail)).1) := by
  obtain ⟨mail, does⟩ := sends.decides
  have kept : Record.Kept lib (follow Record.next s.start none) (outline lib s.peerAuth s.start) :=
    Record.follow_kept s.start rfl
  obtain ⟨payload', uses, parsedMail, record, parsed, rfl⟩ :=
    Record.does_makes s.decision kept does
  have same : some (payload', uses) = some (payload, s.hop.calls.map MailUse.call) := by
    rw [← sends.record, follow_append, ← record]
    rfl
  cases same
  refine ⟨parsedMail, parsed, ?_⟩
  rw [does, MailUse.foldl_calls]

/-- `Do` gets to its end, and what the server sends then is what the hop makes of
the payload. -/
theorem Sends.started (sends : s.Sends lib payload) : ∃ w,
    submission lib s.logSocket s.startTime s.peerAuth (s.start ++ [s.decision]) = .ok () w ∧
    run (Transmission.step lib) s.moments (s.sending lib) = .ok () (s.sent lib) ∧
    s.hop.sends lib payload = .ok (s.sent lib).sent := by
  obtain ⟨parsedMail, parsed, does⟩ := sends.mail
  obtain ⟨fresh, m, x, rs, tl, -, -, reads⟩ := parse_success parsed
  have left := @MailCall.script_leaves lib _ _ fresh _ _ _ _ reads s.hop.calls
  obtain ⟨bytes, relays, promised⟩ :=
    @Transmission.promises_relayed lib s.peerAuth _ _ _ _ left.message left.sender left.tail
  obtain ⟨w, c, doing, auth, object, done⟩ :=
    @submission_does lib s.logSocket s.startTime s.peerAuth s.start _ _ _ does s.decision.2
  obtain ⟨w', started, frozen⟩ := @Transmission.doAction_frozen lib bytes s.decision.2 w c s.action
    _ doing.opened.alive object (.inl ⟨sends.connects, sends.launches⟩)
    fun r eq => by rw [auth] at eq ⊢; exact eq ▸ promised
  have ran : submission lib s.logSocket s.startTime s.peerAuth (s.start ++ [s.decision]) =
    .ok () w' := done.trans started
  have first : s.sending lib = Transmission.begin s.decision.2 s.action w' := by
    rw [sending, ran]
    rfl
  obtain ⟨t, sent, frozen'⟩ := Transmission.run_frozen (first ▸ frozen) sends.kept
  have last : s.sent lib = t := congrArg Outcome.state sent
  rw [← last] at sent frozen'
  refine ⟨w', ran, sent, ?_⟩
  have whole : relayed lib (s.hop.peer.map (·.toPeerCred)) (MailCall.script lib s.hop.calls
      (IncomingMail.received lib parsedMail)).1.toMutableMail = .ok bytes := relays
  simp only [frozen'.sent_eq sends.finished, Hop.sends, parsed, whole, Except.mapError]

theorem Sends.waits (sends : s.Sends lib payload) : ∃ r,
    outline lib s.peerAuth (s.start ++ [s.decision]) = .relaying s.action (.remote r) := by
  obtain ⟨mail, does⟩ := sends.decides
  have decided : outline lib s.peerAuth (s.start ++ [s.decision]) =
      .acted lib s.peerAuth s.decision.2 s.action mail.toMutableMail := by
    rw [outline, follow_append]
    exact Outline.next_does s.decision does
  rw [decided, Outline.acted, start_connect sends.connects]
  obtain pending | success := sends.launches
  · exact ⟨_, by rw [pending]; rfl⟩
  · exact ⟨_, by rw [success]; rfl⟩

theorem calm_of_sending {e : QmqpRelayConnection.Event} (sending : Transmission.Sending e)
    (timeout : Option ℤ) : e.Calm timeout ∧ e.answer = none := by
  cases e with
  | mail use => exact ⟨trivial, rfl⟩
  | relay e => cases e <;> first | exact ⟨trivial, rfl⟩ | exact sending.elim
  | _ => exact sending.elim

/-- Until an answer comes, the run of the connection goes on as the request is sent. -/
theorem Sends.continues (sends : s.Sends lib payload) : ∃ es : List (Event × Answers),
    (∀ e ∈ es, Transmission.Sending e.1) ∧ s.world lib = Outcome.state
      (submission lib s.logSocket s.startTime s.peerAuth ((s.start ++ [s.decision]) ++
        (es ++ s.rest))) := by
  obtain ⟨w, started, sent, -⟩ := sends.started
  obtain ⟨es, sending, ran⟩ := Transmission.run_passed sent
  have first : (s.sending lib).world = w := by
    rw [Station.sending, started, Transmission.begin]
    split_ifs <;> rfl
  rw [first] at ran
  refine ⟨es, sending, ?_⟩
  rw [submission, run_append started, run_append ran, world]

theorem Sends.responds (sends : s.Sends lib payload) {response : Bytes}
    (gets : s.Gets response) (valid : isValidQmqpResponse response = true) :
    Responded (s.world lib) response := by
  obtain ⟨r, waits⟩ := sends.waits
  obtain ⟨es, sending, continues⟩ := sends.continues
  have calm : ∀ e ∈ es ++ s.rest,
      e.1.Calm (if 0 < s.action.timeout then some s.action.timeout else none) := fun e mem =>
    (List.mem_append.mp mem).elim (fun mem => (calm_of_sending (sending e mem) _).1) (gets.calm e)
  have silent : es.filterMap (·.1.answer) = [] :=
    List.filterMap_eq_nil_iff.mpr fun e mem => (calm_of_sending (sending e mem) none).2
  have first : ((es ++ s.rest).filterMap (·.1.answer)).head? =
      some (.netstring (.response response)) := by
    rw [List.filterMap_append, silent, List.nil_append]
    exact gets.first
  rw [continues]
  refine @responded_of_ended lib s.peerAuth s.action s.logSocket s.startTime _ _ ?_
  rw [outline] at waits
  rw [outline, follow_append, waits, follow_answer calm first,
    Answer.response_valid valid]

end Station

/-- A server has got this payload and has given this response. -/
def Serves (lib : Libcommon) (payload : Buffer) (response : Bytes) : Prop :=
  ∃ logSocket startTime peerAuth es uses, follow Record.next es none = some (payload, uses) ∧
    responses (Outcome.state (submission lib logSocket startTime peerAuth es)).trace = [response]

/-- Servers that have sent a mail on, each what it has got, and each has been
answered with the response of the last one. -/
inductive Chain (lib : Libcommon) (server : NetstringServer) :
    List Station → Buffer → Bytes → Prop
  | last {payload : Buffer} {response : Bytes} :
    Serves lib payload response → Chain lib server [] payload response
  | relay {s : Station} {chain : List Station} {payload next : Buffer} {response : Bytes} :
    s.Sends lib payload → s.hop.receive server (s.sent lib).sent = .ok next →
      Chain lib server chain next response → s.Gets response →
      Chain lib server (s :: chain) payload response

namespace Chain

variable {lib : Libcommon} {server : NetstringServer} {chain : List Station} {payload : Buffer}
  {response : Bytes}

theorem journeys (h : Chain lib server chain payload response) : ∃ last,
    journey lib server (chain.map Station.hop) payload = .ok last ∧ Serves lib last response := by
  induction h with
  | last serves => exact ⟨_, rfl, serves⟩
  | relay sends received _ _ ih =>
    obtain ⟨last, arrived, serves⟩ := ih
    obtain ⟨w, -, -, sent⟩ := sends.started
    refine ⟨last, ?_, serves⟩
    rw [List.map_cons, journey, Hop.pass, sent]
    simp only [bind, Except.bind, received]
    exact arrived

theorem responds (h : Chain lib server chain payload response)
    (valid : isValidQmqpResponse response = true) :
    ∀ s ∈ chain, Responded (s.world lib) response := by
  induction h with
  | last => exact fun s mem => absurd mem List.not_mem_nil
  | relay sends _ _ gets ih =>
    have first := sends.responds gets valid
    exact List.forall_mem_cons.mpr ⟨first, ih valid⟩

end Chain

/-- What the first server responds is what the last one has responded, and that
one has got the mail that the first one had got: forwarded by all servers, with
their lines in front of it. -/
theorem chain_delivers (lib : Libcommon) (server : NetstringServer) {payload : Buffer}
    {mail : MutableMail} (parsed : (MutableMail.new payload).parse lib = .ok (.success, mail))
    {chain : List Station} {response : Bytes}
    (served : Chain lib server chain payload response) :
    ∃ last mail', Serves lib last response ∧
      (MutableMail.new last).parse lib = .ok (.success, mail') ∧
      Forwarded lib (chain.map Station.hop) (Letter.of mail none) (Letter.of mail' none) ∧
      ∀ s ∈ chain, Responded (s.world lib) response := by
  obtain ⟨last, arrived, serves⟩ := served.journeys
  obtain ⟨logSocket, startTime, peerAuth, es, uses, -, given⟩ := id serves
  have valid : isValidQmqpResponse response = true :=
    @responses_valid lib peerAuth logSocket startTime es _ (given ▸ List.mem_cons_self)
  obtain ⟨-, m, s, rs, t, -, -, reads⟩ := parse_success parsed
  rcases journey_carries (chain.map Station.hop) ⟨mail, parsed, reads⟩ with
    ⟨-, -, -, -, -, -, -, -, -, lost⟩ | ⟨last', m', arrived', carried, message, -⟩
  · cases arrived.symm.trans lost
  cases arrived.symm.trans arrived'
  obtain ⟨mail', parsed', forwarded⟩ := carried.forwarded reads message
  exact ⟨last, mail', serves, parsed', forwarded, served.responds valid⟩

def sampleStation : Station where
  logSocket := true
  startTime := 0
  hop := ⟨[.insertHeader [.string (ascii "X"), .string (ascii "1")]], none, 4096, by decide⟩
  start := []
  decision := (.request samplePayload ⟨[.call (.insertHeader
    [.string (ascii "X"), .string (ascii "1")])], .returned (some connectAction)⟩, sampleAnswers)
  action := connectAction
  moments := [(.connected, sampleAnswers), (.write 100, sampleAnswers)]
  rest := [(.relay (.netstring (.response (ascii "Kdiscarded"))), sampleAnswers)]

def sampleNext : Buffer where
  bytes := ascii "9:X: 1\r\nhi\n,3:a@b,3:c@d,4:ee@f,"
  size_lt := by decide

def discardAction : LuaAction where
  type := .discard
  defined := by simp
  nonempty := by simp

def sampleDiscard : Event × Answers :=
  (.request sampleNext ⟨[], .returned (some discardAction)⟩, sampleAnswers)

set_option maxRecDepth 4000 in
theorem chain_delivers_sample :
    Responded (sampleStation.world .reference) (ascii "Kdiscarded") ∧
    ∃ last mail', Serves .reference last (ascii "Kdiscarded") ∧
      (MutableMail.new last).parse .reference = .ok (.success, mail') ∧
      (Letter.of mail' none).message = ascii "X: 1\r\nhi\n" := by
  have parsed : (MutableMail.new samplePayload).parse .reference = .ok (.success, sampleMail) := rfl
  have finished : (sampleStation.sent .reference).client.map Gather.pending = some [] := by
    decide +kernel
  obtain ⟨client, given, all⟩ := Option.map_eq_some_iff.mp finished
  have sends : sampleStation.Sends .reference samplePayload :=
    ⟨rfl, ⟨_, rfl⟩, rfl, .inl rfl, ⟨id, fun _ _ => ⟨id, fun _ _ => trivial⟩⟩, client, given, all⟩
  have sent : (sampleStation.sent .reference).sent =
      ascii "31:9:X: 1\r\nhi\n,3:a@b,3:c@d,4:ee@f,," := by
    decide +kernel
  have received : sampleStation.hop.receive .reference (sampleStation.sent .reference).sent =
      .ok sampleNext := by
    rw [sent]
    rfl
  have serves : Serves .reference sampleNext (ascii "Kdiscarded") :=
    ⟨true, 0, none, [sampleDiscard], [], rfl, rfl⟩
  have gets : sampleStation.Gets (ascii "Kdiscarded") :=
    ⟨by simp [sampleStation, Event.Calm], rfl⟩
  obtain ⟨last, mail', serves', parsed', forwarded, responded⟩ :=
    chain_delivers .reference .reference parsed (.relay sends received (.last serves) gets)
  exact ⟨responded _ List.mem_cons_self, last, mail', serves', parsed', forwarded.message⟩

end QmqpRelayConnection

end Qrelay
