import Qrelay.ExecRelayOrder
import Qrelay.Outline

/-! What becomes of an answer from downstream. For exec(), the netstring that the
program has written and its exit decide on the response, and the client gets the
same in both orders, whatever else happens to the connection, to its mail or to
its log in between. For connect(), the answer of the other server decides. If
that is one of these servers, too, the client gets its response unchanged, over
any number of servers. -/

namespace Qrelay
open Lib Lib.Decimal
namespace QmqpRelayConnection

def Event.report : Event → Option RelayEvent
  | .relay (.netstring outcome) => some (.netstring outcome)
  | .relay (.childProcessExit exit) => some (.childProcessExit exit)
  | _ => none

/-- The client stays, and there is no timeout. -/
def Event.Calm (timeout : Option ℤ) : Event → Prop
  | .disconnect | .error _ => False
  | .relayTimeout => timeout = none
  | _ => True

variable {lib : Libcommon} {peerAuth : SocketPeerAuth} {action : LuaAction}

namespace Outline

def take (lib : Libcommon) (e : RelayEvent) : Outline → Outline
  | relaying action relay =>
    match relay.call e with
    | some call => reacted action (call.react lib)
    | none => relaying action relay
  | o => o

def InExec (action : LuaAction) (o : Outline) : Prop :=
  (∃ r, o = relaying action (.exec r)) ∨ ∃ done response, o = ended done response

theorem take_ended (e : RelayEvent) (done : Option LuaAction) (response : Option Bytes) :
    take lib e (ended done response) = ended done response := rfl

theorem InExec.take {o : Outline} (h : InExec action o) (e : RelayEvent) :
    InExec action (o.take lib e) := by
  obtain ⟨r, rfl⟩ | ⟨done, response, rfl⟩ := h
  · rw [Outline.take]
    cases called : (Relay.exec r).call e with
    | none => exact .inl ⟨r, rfl⟩
    | some call =>
      obtain ⟨event, rfl⟩ : ∃ event, call = .exec r event := by
        cases e <;> simp only [Relay.call, reduceCtorEq] at called
        · exact ⟨_, (Option.some.inj called).symm⟩
        · split_ifs at called
          exact ⟨_, (Option.some.inj called).symm⟩
      change InExec action (reacted action ((ExecRelay.react lib r event).map .exec))
      cases ExecRelay.react lib r event with
      | stay r' => exact .inl ⟨r', rfl⟩
      | finish r' c => exact .inr ⟨_, _, rfl⟩
      | linger r' c => exact .inr ⟨_, _, rfl⟩
  · exact .inr ⟨done, response, rfl⟩

theorem next_report {e : Event × Answers} {o : Outline} (h : InExec action o)
    (calm : e.1.Calm (if 0 < action.timeout then some action.timeout else none)) :
    o.next lib peerAuth e = e.1.report.elim o (take lib · o) := by
  obtain ⟨r, rfl⟩ | ⟨done, response, rfl⟩ := h
  · obtain ⟨e, a⟩ := e
    cases e with
    | request | resume | mail => rfl
    | disconnect | error => exact calm.elim
    | relayTimeout =>
      have none : ¬ 0 < action.timeout := fun positive => by
        simp [Event.Calm, positive] at calm
      simp only [next, Event.report, if_neg none, Option.elim_none]
    | relay e => cases e <;> rfl
  · rw [next_ended]
    cases e.1.report <;> rfl

section Take

variable {r : ExecRelay}

theorem take_netstring (outcome : NetstringOutcome) :
    take lib (.netstring outcome) (relaying action (.exec r)) =
      reacted action ((ExecRelay.react lib r (.netstring outcome)).map .exec) := rfl

theorem take_exit (running : r.pidfd = true) (exit : ChildExit) :
    take lib (.childProcessExit exit) (relaying action (.exec r)) =
      reacted action ((ExecRelay.react lib r (.childProcessExit exit.status)).map .exec) := by
  have called : (Relay.exec r).call (.childProcessExit exit) =
      some (.exec r (.childProcessExit exit.status)) := if_pos running
  rw [take, called]
  rfl

theorem take_failed (running : r.pidfd = true) {exit : ChildExit} (failed : ¬ exit.Succeeded) :
    take lib (.childProcessExit exit) (relaying action (.exec r)) =
      ended (some action) (some exit.response) := by
  obtain ⟨c, eq⟩ := Option.ne_none_iff_exists'.mp
    (mt (@ExecRelay.failure_eq_none lib exit).mp failed)
  rw [take_exit running, ExecRelay.react_exit_failed running eq, ← ExecRelay.failure_bytes eq]
  rfl

theorem take_succeeded (running : r.pidfd = true) {exit : ChildExit} (success : exit.Succeeded) :
    take lib (.childProcessExit exit) (relaying action (.exec r)) =
      (r.deferredResponse.elim (relaying action (.exec { r with pidfd := false })) fun payload =>
        ended (some action) (some (ExecRelay.outcomeResponse (.response payload)))) := by
  rw [take_exit running, ExecRelay.react, if_pos running,
    (@ExecRelay.failure_eq_none lib exit).mpr success]
  cases r.deferredResponse <;> rfl

theorem take_said (exited : r.pidfd = false) (outcome : NetstringOutcome) :
    take lib (.netstring outcome) (relaying action (.exec r)) =
      ended (some action) (some (ExecRelay.outcomeResponse outcome)) := by
  rw [take_netstring]
  cases outcome with
  | response payload =>
    rw [ExecRelay.react, if_neg (by simp [exited])]
    rfl
  | error e => rfl

/-- Both orders of the two reports come to the same. -/
theorem take_both (running : r.pidfd = true) (silent : r.deferredResponse = none)
    {outcome : NetstringOutcome} {exit : ChildExit}
    (either : exit.Succeeded ∨ ∃ payload, outcome = .response payload) :
    let due := ended (some action) (some (ExecRelay.dueResponse outcome exit))
    take lib (.childProcessExit exit)
        (take lib (.netstring outcome) (relaying action (.exec r))) = due ∧
      take lib (.netstring outcome)
        (take lib (.childProcessExit exit) (relaying action (.exec r))) = due := by
  intro due
  have deferred (payload : Bytes) : take lib (.netstring (.response payload))
      (relaying action (.exec r)) =
        relaying action (.exec { r with deferredResponse := some payload }) := by
    rw [take_netstring, ExecRelay.react, if_pos running]
    rfl
  by_cases success : exit.Succeeded
  · have said : ExecRelay.dueResponse outcome exit = ExecRelay.outcomeResponse outcome :=
      if_pos success
    have exited : take lib (.childProcessExit exit) (relaying action (.exec r)) =
        relaying action (.exec { r with pidfd := false }) := by
      rw [take_succeeded running success, silent, Option.elim_none]
    constructor
    · cases outcome with
      | response payload =>
        rw [deferred, @take_succeeded lib action { r with deferredResponse := some payload }
          running _ success, Option.elim_some, ← said]
      | error e =>
        have failed : take lib (.netstring (.error e)) (relaying action (.exec r)) =
            ended (some action) (some (ExecRelay.outcomeResponse (.error e))) := rfl
        rw [failed, take_ended, ← said]
    · rw [exited, take_said rfl, ← said]
  · have failed : ExecRelay.dueResponse outcome exit = exit.response := if_neg success
    obtain ⟨payload, rfl⟩ := either.resolve_left success
    constructor
    · rw [deferred, @take_failed lib action { r with deferredResponse := some payload }
        running _ success, ← failed]
    · rw [take_failed running success, take_ended, ← failed]

end Take

end Outline

/-- The reports decide, and what else happens does not matter. -/
theorem follow_reports {r : ExecRelay} (running : r.pidfd = true)
    (silent : r.deferredResponse = none) {rest : List (Event × Answers)}
    (calm : ∀ e ∈ rest, e.1.Calm (if 0 < action.timeout then some action.timeout else none))
    {outcome : NetstringOutcome} {exit : ChildExit}
    (either : exit.Succeeded ∨ ∃ payload, outcome = .response payload)
    (reports : [.netstring outcome, .childProcessExit exit] <+: rest.filterMap (·.1.report) ∨
      [.childProcessExit exit, .netstring outcome] <+: rest.filterMap (·.1.report)) :
    follow (Outline.next lib peerAuth) rest (.relaying action (.exec r)) =
      .ended (some action) (some (ExecRelay.dueResponse outcome exit)) := by
  have agrees : ∀ e ∈ rest, ∀ o, Outline.InExec action o →
      Outline.next lib peerAuth e o = e.1.report.elim o (Outline.take lib · o) ∧
        Outline.InExec action (Outline.next lib peerAuth e o) := by
    intro e mem o inside
    have same := @Outline.next_report lib peerAuth _ _ _ inside (calm e mem)
    refine ⟨same, ?_⟩
    rw [same]
    cases e.1.report with
    | none => exact inside
    | some report => exact inside.take report
  have both := @Outline.take_both lib action _ running silent _ _ either
  have done (more : List RelayEvent) (o : Outline)
      (eq : o = .ended (some action) (some (ExecRelay.dueResponse outcome exit))) :
      follow (Outline.take lib) more o = o := by
    rw [eq]
    exact follow_ended (fun e => rfl) more
  rw [follow_filterMap agrees (.inl ⟨r, rfl⟩)]
  obtain ⟨more, eq⟩ | ⟨more, eq⟩ := reports
  · rw [← eq, List.cons_append, List.cons_append, List.nil_append, follow_cons, follow_cons,
      done more _ both.1, both.1]
  · rw [← eq, List.cons_append, List.cons_append, List.nil_append, follow_cons, follow_cons,
      done more _ both.2, both.2]

section Shown

variable {logSocket : Bool} {startTime : ℤ} {es : List (Event × Answers)}

theorem outline_of_operation {c : QmqpRelayConnection} {relay : Relay}
    (alive : (Outcome.state (submission lib logSocket startTime peerAuth es)).connection = some c)
    (operation : c.relayOperation = some relay) : ∃ action,
      outline lib peerAuth es = .relaying action relay ∧
        c.relayTimeout = if 0 < action.timeout then some action.timeout else none := by
  have course := @submission_course lib logSocket startTime peerAuth es
  rw [Course, alive, Option.map_some, operation] at course
  have state := congrArg (·.1) course
  cases o : outline lib peerAuth es with
  | waiting | deciding | ended =>
    rw [o] at state
    simp [Outline.course] at state
  | relaying action relay' =>
    rw [o] at state
    simp only [Outline.course, Option.some.injEq, Prod.mk.injEq] at state
    obtain ⟨-, rfl, timeout⟩ := state
    exact ⟨action, rfl, timeout⟩

/-- The connection has given this response and is gone; a log socket has got one
datagram, with the text of the response. -/
def Responded (w : World) (response : Bytes) : Prop :=
  w.connection = none ∧ responses w.trace = [response] ∧
    (datagrams w.trace).length = (if w.logSocket then 1 else 0) ∧
    ∀ logged ∈ datagrams w.trace, logged.1 = response.drop 1

theorem responded_of_ended {response : Bytes}
    (ends : outline lib peerAuth es = .ended (some action) (some response)) :
    Responded (Outcome.state (submission lib logSocket startTime peerAuth es)) response := by
  have shows := @submission_shows lib logSocket startTime peerAuth es
  rw [ends] at shows
  obtain ⟨gone, acted, given, -⟩ := shows
  obtain past | ⟨c, opened, -⟩ := @submission_stable lib logSocket startTime peerAuth es
  · have handled := past.handled (by rw [acted]; exact List.cons_ne_nil _ _)
    refine ⟨gone, given, ?_, fun logged among => ?_⟩
    · rw [past.counted, handled, past.configured, Bool.and_true]
    · rw [(past.logged logged among).1, endingText, given]
      rfl
  · cases opened.alive.symm.trans gone

end Shown

/-- While exec() waits for its program, the client gets one response: the one
that is due for the netstring and the exit status, in whatever order they are
reported and whatever else happens to the connection. -/
theorem exec_submission (lib : Libcommon) (logSocket : Bool) (startTime : ℤ)
    (peerAuth : SocketPeerAuth) {es : List (Event × Answers)} {c : QmqpRelayConnection}
    (alive : (Outcome.state (submission lib logSocket startTime peerAuth es)).connection = some c)
    {r : ExecRelay} (operation : c.relayOperation = some (.exec r)) (running : r.pidfd = true)
    (silent : r.deferredResponse = none) {rest : List (Event × Answers)}
    (calm : ∀ e ∈ rest, e.1.Calm c.relayTimeout) {outcome : NetstringOutcome} {exit : ChildExit}
    (either : exit.Succeeded ∨ ∃ payload, outcome = .response payload)
    (reports : [.netstring outcome, .childProcessExit exit] <+: rest.filterMap (·.1.report) ∨
      [.childProcessExit exit, .netstring outcome] <+: rest.filterMap (·.1.report)) :
    Responded (Outcome.state (submission lib logSocket startTime peerAuth (es ++ rest)))
      (ExecRelay.dueResponse outcome exit) := by
  obtain ⟨action, outlined, timeout⟩ := outline_of_operation alive operation
  rw [timeout] at calm
  refine @responded_of_ended lib peerAuth action logSocket startTime _ _ ?_
  rw [outline] at outlined
  rw [outline, follow_append, outlined, follow_reports running silent calm either reports]

def samplePost (action : LuaAction) : Event × Answers :=
  (.request ⟨ascii "1:p,3:a@b,3:c@d,", by decide⟩ ⟨[], .returned (some action)⟩,
    sampleAnswers)

def executed : List (Event × Answers) :=
  [.relay (.childProcessExit (.exited 0)), .mail .close,
    .relay (.netstring (.response (ascii "Kok")))].map (·, sampleAnswers)

set_option maxRecDepth 4000 in
theorem exec_submission_sample : Responded (Outcome.state (submission .reference true 0 none
    ([samplePost ExecRelay.sampleAction] ++ executed))) (ascii "Kok") := by
  refine @exec_submission .reference true 0 none [samplePost ExecRelay.sampleAction] _ rfl _ rfl
    rfl rfl executed ?_ (.response (ascii "Kok")) (.exited 0) (.inl rfl) (.inr ⟨[], rfl⟩)
  intro e mem
  obtain ⟨event, among, rfl⟩ := List.mem_map.mp mem
  simp only [List.mem_cons, List.not_mem_nil, or_false] at among
  rcases among with rfl | rfl | rfl <;> trivial

inductive Answer where
  | netstring (outcome : NetstringOutcome)
  | unconnected (error : Exception)

def Event.answer : Event → Option Answer
  | .relay (.netstring outcome) => some (.netstring outcome)
  | .relay (.socketConnectError e) => some (.unconnected e)
  | _ => none

def Answer.response : Answer → Bytes
  | netstring (.response payload) => (BasicRelay.payloadCallback payload).bytes
  | netstring (.error _) => ascii "Zrelay failed"
  | unconnected _ => ascii "Zconnect failed"

/-- A response that is valid is passed on. -/
theorem Answer.response_valid {response : Bytes} (valid : isValidQmqpResponse response = true) :
    Answer.response (.netstring (.response response)) = response := by
  rw [Answer.response, BasicRelay.payloadCallback, if_pos valid]
  rfl

theorem follow_answer {rest : List (Event × Answers)} {r : RemoteRelay}
    (calm : ∀ e ∈ rest, e.1.Calm (if 0 < action.timeout then some action.timeout else none))
    {answer : Answer} (first : (rest.filterMap (·.1.answer)).head? = some answer) :
    follow (Outline.next lib peerAuth) rest (.relaying action (.remote r)) =
      .ended (some action) (some answer.response) := by
  induction rest generalizing r with
  | nil => cases first
  | cons e rest ih =>
    obtain ⟨now, later⟩ := List.forall_mem_cons.mp calm
    have ended (response : Option Bytes) :
        follow (Outline.next lib peerAuth) rest (.ended (some action) response) =
          .ended (some action) response :=
      follow_ended (fun e => Outline.next_ended lib peerAuth e _ _) rest
    obtain ⟨e, a⟩ := e
    rw [follow_cons]
    cases e with
    | request | resume | mail => exact ih later first
    | disconnect | error => exact now.elim
    | relayTimeout =>
      have none : ¬ 0 < action.timeout := fun positive => by simp [Event.Calm, positive] at now
      simp only [Outline.next, if_neg none]
      exact ih later first
    | relay e =>
      cases e with
      | socketConnectSuccess => exact ih later first
      | requestPipeReady | responsePipeReady | childProcessExit => exact ih later first
      | socketConnectError e =>
        cases first
        exact ended _
      | netstring outcome =>
        cases first
        cases outcome <;> exact ended _

/-- A server that relays a mail to the next one. -/
structure Link where
  logSocket : Bool
  startTime : ℤ
  peerAuth : SocketPeerAuth
  /-- Until connect() has started its relay. -/
  start : List (Event × Answers)
  rest : List (Event × Answers)

namespace Link

variable (lib)

def world (link : Link) : World :=
  Outcome.state (submission lib link.logSocket link.startTime link.peerAuth
    (link.start ++ link.rest))

def Gets (link : Link) (answer : Answer) : Prop :=
  ∃ c r, (Outcome.state (submission lib link.logSocket link.startTime link.peerAuth
      link.start)).connection = some c ∧ c.relayOperation = some (.remote r) ∧
    (∀ e ∈ link.rest, e.1.Calm c.relayTimeout) ∧
    (link.rest.filterMap (·.1.answer)).head? = some answer

/-- Each server gets what the one before has responded; the first one gets what
has been responded in `w`. -/
def Back (w : World) : List Link → Prop
  | [] => True
  | link :: links => (∀ response ∈ responses w.trace,
      link.Gets lib (.netstring (.response response))) ∧ Back (link.world lib) links

end Link

theorem connect_responds {link : Link} {answer : Answer} (gets : link.Gets lib answer) :
    Responded (link.world lib) answer.response := by
  obtain ⟨c, r, alive, operation, calm, first⟩ := gets
  obtain ⟨action, outlined, timeout⟩ := outline_of_operation alive operation
  rw [timeout] at calm
  refine @responded_of_ended lib link.peerAuth action link.logSocket link.startTime _ _ ?_
  rw [outline] at outlined
  rw [outline, follow_append, outlined, follow_answer calm first]

theorem valid_of_code {response : Bytes} (code : response.take 1 = ascii "K" ∨
    response.take 1 = ascii "D" ∨ response.take 1 = ascii "Z") :
    isValidQmqpResponse response = true := by
  cases response with
  | nil => exact code.elim nofun fun h => h.elim nofun nofun
  | cons front text => simpa [isValidQmqpResponse, or_assoc] using code

/-- What a connection responds with, another one takes for a response. -/
theorem responses_valid {logSocket : Bool} {startTime : ℤ} {es : List (Event × Answers)}
    {response : Bytes} (given : response ∈
      responses (Outcome.state (submission lib logSocket startTime peerAuth es)).trace) :
    isValidQmqpResponse response = true := by
  obtain past | ⟨c, opened, -⟩ := @submission_stable lib logSocket startTime peerAuth es
  · obtain ⟨entry, member, eq⟩ := List.mem_filterMap.mp given
    have isResponse : entry = .response response := by
      cases entry <;> cases eq
      rfl
    obtain ⟨pre, post, split⟩ := List.append_of_mem member
    rw [isResponse] at split
    exact valid_of_code (past.justified pre response post split).code
  · rw [opened.unanswered] at given
    cases given

/-- A response goes back to the client over any number of servers unchanged, and
all of them log its text. -/
theorem response_travels_back (lib : Libcommon) (logSocket : Bool) (startTime : ℤ)
    (peerAuth : SocketPeerAuth) (es : List (Event × Answers)) {response : Bytes} (given :
      let w := Outcome.state (submission lib logSocket startTime peerAuth es)
      responses w.trace = [response]) {links : List Link}
    (back : Link.Back lib (Outcome.state (submission lib logSocket startTime peerAuth es)) links) :
    ∀ link ∈ links, Responded (link.world lib) response := by
  have valid : isValidQmqpResponse response = true := responses_valid (given ▸ List.mem_cons_self)
  generalize Outcome.state (submission lib logSocket startTime peerAuth es) = w at given back
  induction links generalizing w with
  | nil => nofun
  | cons link links ih =>
    obtain ⟨gets, back⟩ := back
    have responded := connect_responds (gets response (given ▸ List.mem_cons_self))
    rw [Answer.response_valid valid] at responded
    exact List.forall_mem_cons.mpr ⟨responded, ih _ responded.2.1 back⟩

def sampleLink : Link where
  logSocket := true
  startTime := 0
  peerAuth := none
  start := [samplePost connectAction]
  rest := [(.relay .socketConnectSuccess, sampleAnswers),
    (.relay (.netstring (.response (ascii "Kdiscarded"))), sampleAnswers)]

set_option maxRecDepth 4000 in
theorem response_travels_back_sample :
    Responded (sampleLink.world .reference) (ascii "Kdiscarded") := by
  have given : responses (Outcome.state (submission .reference false 0 none
      [samplePost { type := .discard, defined := by decide, nonempty := by decide }])).trace =
        [ascii "Kdiscarded"] := rfl
  refine response_travels_back .reference false 0 none _ given
    (show Link.Back .reference _ [sampleLink] from ⟨fun response mem => ?_, trivial⟩) _
    List.mem_cons_self
  rw [given] at mem
  obtain rfl := List.mem_singleton.mp mem
  refine ⟨_, _, rfl, rfl, fun e among => ?_, rfl⟩
  simp only [sampleLink, List.mem_cons, List.not_mem_nil, or_false] at among
  rcases among with rfl | rfl <;> trivial

end QmqpRelayConnection

end Qrelay
