import Qrelay.ConnectionRuns

/-! Submissions from the connection to the end: the connection is used only
while it lives and answers once, a handled mail is logged once, and the code of
the response is what the submission has come to. -/

namespace Qrelay
open Lib Lib.Decimal
namespace QmqpRelayConnection

section Runs

variable (lib : Libcommon) (logSocket : Bool) (startTime : ℤ) (peerAuth : SocketPeerAuth)
  (es : List (Event × Answers))

def submission : Outcome World Unit := run (step lib) es (new logSocket startTime peerAuth)

variable {lib logSocket startTime peerAuth es}

theorem submission_lands : Lands logSocket (∃ e ∈ es, e.1.FailsAtHangup)
    (submission lib logSocket startTime peerAuth es) :=
  run_lands logSocket startTime peerAuth es

theorem submission_stable :
    Stable logSocket (Outcome.state (submission lib logSocket startTime peerAuth es)) :=
  submission_lands.state (fun _ stable => stable) fun _ _ fault => .inl fault.2.2

end Runs

/-- A RawExecRelay goes on after it has reported: the read of its response pipe
fails although the event has `HANGUP`, and `HANGUP` is not its only flag. -/
def World.Reuses (w : World) (e : Event) : Prop :=
  ∃ c r, w.connection = some c ∧ c.relayOperation = some (.rawExec r) ∧ r.responsePipe = true ∧
    e.FailsAtHangup

theorem Event.FailsAtHangup.failed_read {e : Event} (fails : e.FailsAtHangup) :
    ∃ flags x, e = .relay (.responsePipeReady flags (.error x)) := by
  cases e with
  | relay e =>
    cases e with
    | responsePipeReady flags read =>
      cases read with
      | error x => exact ⟨flags, x, rfl⟩
      | ok data => exact fails.elim
    | _ => exact fails.elim
  | _ => exact fails.elim

section Reuses

variable {lib : Libcommon} {logging : Bool} {w : World} {e : Event} {a : Answers}

theorem step_reuses (stable : Stable logging w) (reuses : w.Reuses e) :
    ¬ Outcome.Finished (step lib (e, a) w) := by
  obtain ⟨c, r, alive, operation, defined, fails⟩ := reuses
  obtain ⟨h, phase⟩ := stable.living alive
  have state : c.state = .relaying := by
    cases state : c.state <;> simp [Phase, state, operation] at phase ⊢
  obtain ⟨flags, x, rfl⟩ := fails.failed_read
  have eq : (Relay.rawExec r).call (.responsePipeReady flags (.error x)) =
      some (.rawExec r (.responsePipeReady flags (.error x))) := if_pos defined
  have lingers : (RelayCall.react lib (.rawExec r
      (.responsePipeReady flags (.error x)))).Lingers :=
    Reaction.lingers_map.mpr ((RawExecRelay.lingers_iff r _).mpr ⟨defined, fails⟩)
  obtain ⟨w', faults, -⟩ :=
    @relayEvent_lingers lib a _ _ _ _ _ _ h phase state operation eq lingers
  rw [step, alive]
  simp only [handle, operation, Option.bind_some, eq, faults]
  exact id

theorem step_passes (fails : e.FailsAtHangup) (idle : ¬ w.Reuses e) :
    step lib (e, a) w = .ok () w := by
  rw [step]
  cases alive : w.connection with
  | none => rfl
  | some c =>
    obtain ⟨flags, x, rfl⟩ := fails.failed_read
    cases operation : c.relayOperation with
    | none =>
      simp only [handle, operation]
      rfl
    | some relay =>
      have silent : relay.call (.responsePipeReady flags (.error x)) = none := by
        cases relay with
        | remote r => rfl
        | exec r => rfl
        | rawExec r => exact if_neg fun defined => idle ⟨c, r, alive, operation, defined, fails⟩
      simp only [handle, operation, Option.bind_some, silent]
      rfl

theorem step_stable (stable : Stable logging w) (idle : ¬ w.Reuses e) :
    ∃ w', step lib (e, a) w = .ok () w' ∧ Stable logging w' := by
  by_cases fails : e.FailsAtHangup
  · exact ⟨w, step_passes fails idle, stable⟩
  · exact stable.step_fine (e, a) fails

end Reuses

/-- What every run of a connection should be like. -/
structure Lifecycle (o : Outcome World Unit) : Prop where
  /-- No assertion fails, and nothing is used after its deletion. -/
  finished : Outcome.Finished o
  pointer : ∀ c, (Outcome.state o).connection = some c → c.mailPtr = c.state.hasMail
  observed : Observed (Outcome.state o).trace
  answered : (responses (Outcome.state o).trace).length ≤ 1
  deleted : deletions (Outcome.state o).trace = if (Outcome.state o).connection.isSome then 0 else 1

theorem Stable.lifecycle {logging : Bool} {o : Outcome World Unit}
    (stable : Stable logging (Outcome.state o)) (finished : Outcome.Finished o) : Lifecycle o := by
  obtain past | ⟨c, opened, -⟩ := stable
  · refine ⟨finished, fun c alive => ?_, past.observed, past.answered, ?_⟩
    · rw [past.gone] at alive
      cases alive
    · rw [past.gone, past.deleted]
      rfl
  · refine ⟨finished, fun c' alive => ?_, opened.observed, ?_, ?_⟩
    · rw [opened.alive] at alive
      cases alive
      exact opened.pointer
    · rw [opened.unanswered]
      exact Nat.zero_le 1
    · rw [opened.alive, opened.undeleted]
      rfl

/-- A connection has its lifecycle in a run exactly if no RawExecRelay goes on
after it has reported. -/
theorem connection_lifecycle_iff (lib : Libcommon) (logSocket : Bool) (startTime : ℤ)
    (peerAuth : SocketPeerAuth) (es : List (Event × Answers)) :
    Lifecycle (submission lib logSocket startTime peerAuth es) ↔
      Along (step lib) (fun w e => ¬ w.Reuses e.1) (new logSocket startTime peerAuth) es := by
  have finished : Outcome.Finished (submission lib logSocket startTime peerAuth es) ↔
      Along (step lib) (fun w e => ¬ w.Reuses e.1) (new logSocket startTime peerAuth) es :=
    run_finished_iff (fun e w stable idle => step_stable stable idle)
      (fun e w stable reuses => step_reuses stable (not_not.mp reuses)) es
      (new_stable logSocket startTime peerAuth)
  rw [← finished]
  exact ⟨Lifecycle.finished, submission_stable.lifecycle⟩

def sampleAnswers : Answers where
  steadyNow := 0
  systemNow := 0
  send := .ok ()
  response := .ok ()
  connect := .pending
  spawn _ _ := .ok ()
  write := .ok 0

/-- The mail goes to a child process, the child exits, and then a read fails at
a hangup. -/
def readFailure : List (Event × Answers) :=
  [.request ⟨ascii "1:m,3:a@b,3:c@e,", by decide⟩ ⟨[], .returned (some rawExecAction)⟩,
    .relay (.childProcessExit (.exited 75)),
    .relay (.responsePipeReady { read := true, hangup := true }
      (.error (.errno 5 (ascii "Failed to read from pipe"))))].map (·, sampleAnswers)

/-- A freed RawExecRelay whose storage still has the old contents. -/
def freedRelay : Place (World × RawExecRelay) RawExecRelay where
  object := relayObject
  get s := some s.2
  set r s := (s.1, r)
  get_set _ _ _ := rfl
  set_set _ _ _ := rfl
  set_get _ _ h := by cases h; rfl

def besideRelay (x : Code World Unit) : Code (World × RawExecRelay) Unit := fun s =>
  match x s.1 with
  | .ok _ w => .ok () (w, s.2)
  | .error f w => .error f (w, s.2)

def besideHandler (handler : RelayHandler World) : RelayHandler (World × RawExecRelay) where
  onRelayResponse response := besideRelay (handler.onRelayResponse response)
  onRelayError response e := besideRelay (handler.onRelayError response e)

set_option maxRecDepth 4000 in
/-- The relay reports the failed read, which deletes the connection, and goes
on: with the storage as it was it finishes and calls the deleted connection. -/
theorem connection_used_by_relay :
    ¬ Lifecycle (submission .reference false 0 none readFailure) ∧
    ∃ w c r s, submission .reference false 0 none (readFailure.take 2) = .ok () w ∧
      w.connection = some c ∧ c.relayOperation = some (.rawExec r) ∧
      RawExecRelay.onResponsePipeReady .reference freedRelay
          (besideHandler (relayHandler .reference sampleAnswers)) { read := true, hangup := true }
          (.error (.errno 5 (ascii "Failed to read from pipe"))) (w, r) =
        .error (.dangling connectionObject) s ∧
      s.1.connection = none ∧ deletions s.1.trace = 1 ∧
      responses s.1.trace = [ascii "Zread error"] :=
  ⟨fun lifecycle => lifecycle.finished, _, _, _, _, rfl, rfl, rfl, rfl, rfl, rfl, rfl⟩

/-- With a log socket, the whole run of a connection makes one datagram if the
mail was parsed and the handler entered, and none otherwise. -/
theorem submission_logged_once (lib : Libcommon) (startTime : ℤ) (peerAuth : SocketPeerAuth)
    (es : List (Event × Answers)) (w : World)
    (ends : Outcome.state (submission lib true startTime peerAuth es) = w)
    (gone : w.connection = none) :
    (datagrams w.trace).length =
      (if parses w.trace = [.success] ∧ entersHandler w.trace = true then 1 else 0) ∧
    ∀ text d, (text, d) ∈ datagrams w.trace → text = endingText w.trace ∧
      (d.trafficSent ≠ 0 → ∃ action, actions w.trace = [action] ∧ Relays action) := by
  have stable : Stable true w := ends ▸ submission_stable
  obtain past | ⟨c, opened, -⟩ := stable
  swap
  · rw [opened.alive] at gone
    cases gone
  refine ⟨?_, fun text d logged => past.logged _ logged⟩
  rw [past.counted]
  by_cases entered : entersHandler w.trace = true
  · simp only [entered, Bool.and_self, if_true, past.parsed entered, and_self]
  · simp [entered]

def connectAction : LuaAction where
  type := .connect
  defined := by decide
  nonempty := by decide

def acceptance : List (Event × Answers) :=
  [.request ⟨ascii "1:m,3:a@b,3:c@d,", by decide⟩
      ⟨[.call (.newIndex (.string (ascii "account")) (.string (ascii "acme")))],
        .returned (some connectAction)⟩,
    .relay .socketConnectSuccess,
    .relay (.netstring (.response (ascii "Kok")))].map (·, sampleAnswers)

def acceptedWorld : World := Outcome.state (submission .reference true 0 none acceptance)

set_option maxRecDepth 4000 in
theorem submission_logged_once_accepted :
    (datagrams acceptedWorld.trace).length = 1 ∧
    ∀ text d, (text, d) ∈ datagrams acceptedWorld.trace → text = endingText acceptedWorld.trace ∧
      (d.trafficSent ≠ 0 → ∃ action, actions acceptedWorld.trace = [action] ∧ Relays action) := by
  have logged := submission_logged_once .reference 0 none acceptance acceptedWorld rfl rfl
  have counted : (if parses acceptedWorld.trace = [.success] ∧
      entersHandler acceptedWorld.trace = true then 1 else 0) = 1 := rfl
  rw [counted] at logged
  exact logged

/-- The history before a response allows it to begin with `K`. -/
def Accepts (t : List Entry) (response : Bytes) : Prop :=
  ∃ action, actions t = [action] ∧
    (action.type = .discard ∨
      action.type = .connect ∧ .relay (.netstring (.response response)) ∈ t ∨
      action.type = .exec ∧ .relay (.netstring (.response response)) ∈ t ∧
        .relay (.childProcessExit (.exited 0)) ∈ t ∨
      action.type = .execRaw ∧ .relay (.childProcessExit (.exited 0)) ∈ t)

/-- The history before a response allows it to begin with `D`. -/
def Rejects (t : List Entry) (response : Bytes) : Prop :=
  (∃ result, parses t = [result] ∧ result ≠ .success) ∨
  ∃ action, actions t = [action] ∧
    (action.type = .reject ∨
      action.type = .connect ∧ .relay (.netstring (.response response)) ∈ t ∨
      action.type = .exec ∧ (.relay (.netstring (.response response)) ∈ t ∧
        .relay (.childProcessExit (.exited 0)) ∈ t ∨
        ∃ exit : ChildExit, exit.Permanent ∧ .relay (.childProcessExit exit) ∈ t) ∨
      action.type = .execRaw ∧
        ∃ exit : ChildExit, exit.Permanent ∧ .relay (.childProcessExit exit) ∈ t)

theorem mem_events {t : List Entry} {e : RelayEvent} : e ∈ events t ↔ .relay e ∈ t := by
  simp only [events, List.mem_filterMap]
  constructor
  · rintro ⟨entry, member, eq⟩
    cases entry <;> cases eq
    exact member
  · exact fun member => ⟨_, member, rfl⟩

theorem Due.accepts {t : List Entry} {response : Bytes} (due : Due t response)
    (code : response.take 1 = ascii "K") : Accepts t response := by
  have not_temporary : response.take 1 ≠ ascii "Z" := by rw [code]; decide
  have not_rejected : response.take 1 ≠ ascii "D" := by rw [code]; decide
  obtain temporary | ⟨rejected, -⟩ | ⟨action, acted, ⟨discard, -⟩ | ⟨-, rejected⟩ | warrants⟩ := due
  · exact absurd temporary not_temporary
  · exact absurd rejected not_rejected
  · exact ⟨action, acted, .inl discard⟩
  · exact absurd rejected not_rejected
  · replace warrants := warrants.resolve_left not_temporary
    refine ⟨action, acted, ?_⟩
    cases type : action.type <;> rw [type] at warrants
    case connect => exact .inr (.inl ⟨rfl, mem_events.mp warrants.2⟩)
    case exec =>
      obtain ⟨-, payload, exit⟩ | ⟨rejected, -⟩ := warrants
      · exact .inr (.inr (.inl ⟨rfl, mem_events.mp payload, mem_events.mp exit⟩))
      · exact absurd rejected not_rejected
    case execRaw =>
      obtain ⟨-, exit⟩ | ⟨rejected, -⟩ := warrants
      · exact .inr (.inr (.inr ⟨rfl, mem_events.mp exit⟩))
      · exact absurd rejected not_rejected
    all_goals exact warrants.elim

theorem Due.rejects {t : List Entry} {response : Bytes} (due : Due t response)
    (code : response.take 1 = ascii "D") : Rejects t response := by
  have not_temporary : response.take 1 ≠ ascii "Z" := by rw [code]; decide
  have not_accepted : response.take 1 ≠ ascii "K" := by rw [code]; decide
  obtain temporary | ⟨-, failed⟩ | ⟨action, acted, ⟨-, accepted⟩ | ⟨reject, -⟩ | warrants⟩ := due
  · exact absurd temporary not_temporary
  · exact .inl failed
  · exact absurd accepted not_accepted
  · exact .inr ⟨action, acted, .inl reject⟩
  · replace warrants := warrants.resolve_left not_temporary
    refine .inr ⟨action, acted, ?_⟩
    cases type : action.type <;> rw [type] at warrants
    case connect => exact .inr (.inl ⟨rfl, mem_events.mp warrants.2⟩)
    case exec =>
      obtain ⟨-, payload, exit⟩ | ⟨-, exit, permanent, reported⟩ := warrants
      · exact .inr (.inr (.inl ⟨rfl, .inl ⟨mem_events.mp payload, mem_events.mp exit⟩⟩))
      · exact .inr (.inr (.inl ⟨rfl, .inr ⟨exit, permanent, mem_events.mp reported⟩⟩))
    case execRaw =>
      obtain ⟨accepted, -⟩ | ⟨-, exit, permanent, reported⟩ := warrants
      · exact absurd accepted not_accepted
      · exact .inr (.inr (.inr ⟨rfl, exit, permanent, mem_events.mp reported⟩))
    all_goals exact warrants.elim

/-- Every response of every run has a code, and `K` and `D` are borne out by
what has happened before. -/
theorem response_codes_sound (lib : Libcommon) (logSocket : Bool) (startTime : ℤ)
    (peerAuth : SocketPeerAuth) (es : List (Event × Answers)) (pre post : List Entry)
    (response : Bytes)
    (given : (Outcome.state (submission lib logSocket startTime peerAuth es)).trace =
      pre ++ .response response :: post) :
    response ≠ [] ∧
    (response.take 1 = ascii "K" ∨ response.take 1 = ascii "D" ∨ response.take 1 = ascii "Z") ∧
    (response.take 1 = ascii "K" → Accepts pre response) ∧
    (response.take 1 = ascii "D" → Rejects pre response) := by
  have stable := @submission_stable lib logSocket startTime peerAuth es
  have justified :
      Justified (Outcome.state (submission lib logSocket startTime peerAuth es)).trace := by
    obtain past | ⟨c, opened, -⟩ := stable
    · exact past.justified
    · exact justified_of_silent opened.unanswered
  have due : Due pre response := justified pre response post given
  exact ⟨due.ne_nil, due.code, due.accepts, due.rejects⟩

set_option maxRecDepth 4000 in
theorem response_codes_sound_accepted :
    Accepts (acceptedWorld.trace.take 11) (ascii "Kok") := by
  have sound := response_codes_sound .reference true 0 none acceptance
    (acceptedWorld.trace.take 11) (acceptedWorld.trace.drop 12) (ascii "Kok") rfl
  exact sound.2.2.1 rfl

end QmqpRelayConnection

end Qrelay
