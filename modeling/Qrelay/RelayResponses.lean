import Qrelay.ExecRelayOrder
import Qrelay.RawExecRuns
import Qrelay.Relay

/-! What the responses of the relays rest on. A relay that has been started
knows of the events so far what its state says of them, and the response that
it ends with follows from the events. -/

namespace Qrelay
open Lib Lib.Decimal

def ChildExit.Permanent (exit : ChildExit) : Prop :=
  exit = .exited 64 ∨ exit = .exited 72 ∨ exit = .exited 77 ∨ exit = .exited 78

/-- The events bear out a response of a relay for this kind of action. -/
def Warrants (kind : Action.Kind) (es : List RelayEvent) (response : Bytes) : Prop :=
  response.take 1 = ascii "Z" ∨
  match kind with
  | .connect => (response.take 1 = ascii "K" ∨ response.take 1 = ascii "D") ∧
      .netstring (.response response) ∈ es
  | .exec => ((response.take 1 = ascii "K" ∨ response.take 1 = ascii "D") ∧
      .netstring (.response response) ∈ es ∧ .childProcessExit (.exited 0) ∈ es) ∨
      (response.take 1 = ascii "D" ∧ ∃ exit, exit.Permanent ∧ .childProcessExit exit ∈ es)
  | .execRaw => (response.take 1 = ascii "K" ∧ .childProcessExit (.exited 0) ∈ es) ∨
      (response.take 1 = ascii "D" ∧ ∃ exit, exit.Permanent ∧ .childProcessExit exit ∈ es)
  | _ => False

namespace Relay

def kind : Relay → Action.Kind
  | remote _ => .connect
  | exec _ => .exec
  | rawExec _ => .execRaw

/-- What the state of a started relay says of the events so far. -/
def Knows (es : List RelayEvent) : Relay → Prop
  | remote _ => True
  | exec r => (∀ payload, r.deferredResponse = some payload → .netstring (.response payload) ∈ es) ∧
      (r.pidfd = false → .childProcessExit (.exited 0) ∈ es)
  | rawExec r => r.responseFill ≤ 256 ∧
      (r.pidfd = false → ∃ exit, .childProcessExit exit ∈ es ∧ r.status = exit.status)

theorem Knows.valid {es : List RelayEvent} {r : Relay} (h : r.Knows es) : r.Valid := by
  cases r with
  | remote r => trivial
  | exec r => trivial
  | rawExec r => exact h.1

theorem Knows.append {es : List RelayEvent} {r : Relay} (h : r.Knows es) (e : RelayEvent) :
    r.Knows (es ++ [e]) := by
  cases r with
  | remote r => trivial
  | exec r =>
    exact ⟨fun payload eq => List.mem_append_left _ (h.1 payload eq),
      fun exited => List.mem_append_left _ (h.2 exited)⟩
  | rawExec r =>
    exact ⟨h.1, fun exited => (h.2 exited).imp fun _ h => ⟨List.mem_append_left _ h.1, h.2⟩⟩

end Relay

def RelayCall.Starts : RelayCall → Prop
  | remote _ (.start _) => True
  | exec r (.start ..) => r.deferredResponse = none
  | rawExec r (.start ..) => r.responseFill ≤ 256
  | _ => False

theorem RelayCall.Starts.valid {call : RelayCall} (h : call.Starts) : call.relay.Valid := by
  match call, h with
  | remote _ (.start _), _ => trivial
  | exec _ (.start ..), _ => trivial
  | rawExec _ (.start ..), fill => exact fill

theorem RelayCall.Starts.not_lingers {lib : Libcommon} {call : RelayCall} (h : call.Starts) :
    ¬ (call.react lib).Lingers := by
  rw [RelayCall.react.eq_def]
  match call, h with
  | remote r e, _ => simpa using RemoteRelay.not_lingers r e
  | exec r e, _ => simpa using ExecRelay.not_lingers r e
  | rawExec r (.start ..), _ => simp [RawExecRelay.lingers_iff, RawExecRelay.FailsAtHangup]

theorem isValidQmqpResponse_code {payload : Bytes} (valid : isValidQmqpResponse payload = true) :
    payload.take 1 = ascii "K" ∨ payload.take 1 = ascii "D" ∨ payload.take 1 = ascii "Z" := by
  cases payload with
  | nil => cases valid
  | cons front rest => simpa [isValidQmqpResponse, or_assoc] using valid

theorem payloadCallback_code (payload : Bytes) :
    (BasicRelay.payloadCallback payload).bytes.take 1 = ascii "Z" ∨
      ((BasicRelay.payloadCallback payload).bytes.take 1 = ascii "K" ∨
        (BasicRelay.payloadCallback payload).bytes.take 1 = ascii "D") ∧
      (BasicRelay.payloadCallback payload).bytes = payload := by
  unfold BasicRelay.payloadCallback
  split_ifs with valid
  · obtain accepted | rejected | temporary := isValidQmqpResponse_code valid
    · exact .inr ⟨.inl accepted, rfl⟩
    · exact .inr ⟨.inr rejected, rfl⟩
    · exact .inl temporary
  · exact .inl rfl

theorem exit_code (exit : ChildExit) :
    exit.response.take 1 = ascii "Z" ∨ (exit.response.take 1 = ascii "K" ∧ exit = .exited 0) ∨
      (exit.response.take 1 = ascii "D" ∧ exit.Permanent) := by
  rw [RawExecRelay.response_code]
  cases exit with
  | waitFailed => exact .inl rfl
  | signaled => exact .inl rfl
  | exited code =>
    simp only [RawExecRelay.documentedCode, ChildExit.Permanent, ChildExit.exited.injEq]
    split_ifs with success permanent
    · exact .inr (.inl ⟨rfl, success⟩)
    · exact .inr (.inr ⟨rfl, permanent⟩)
    · exact .inl rfl

variable {lib : Libcommon} {es : List RelayEvent}

theorem Warrants.code {kind : Action.Kind} {response : Bytes} (h : Warrants kind es response) :
    response.take 1 = ascii "K" ∨ response.take 1 = ascii "D" ∨ response.take 1 = ascii "Z" := by
  obtain temporary | rest := h
  · exact .inr (.inr temporary)
  cases kind with
  | connect => exact rest.1.imp_right .inl
  | exec => exact rest.elim (fun h => h.1.imp_right .inl) fun h => .inr (.inl h.1)
  | execRaw => exact rest.elim (fun h => .inl h.1) fun h => .inr (.inl h.1)
  | undefined | discard | reject => exact rest.elim

theorem warrants_payload_connect {payload : Bytes} (h : .netstring (.response payload) ∈ es) :
    Warrants .connect es (BasicRelay.payloadCallback payload).bytes := by
  obtain temporary | ⟨code, same⟩ := payloadCallback_code payload
  · exact .inl temporary
  · exact .inr ⟨code, by rw [same]; exact h⟩

theorem warrants_payload_exec {payload : Bytes} (h : .netstring (.response payload) ∈ es)
    (exit : .childProcessExit (.exited 0) ∈ es) :
    Warrants .exec es (BasicRelay.payloadCallback payload).bytes := by
  obtain temporary | ⟨code, same⟩ := payloadCallback_code payload
  · exact .inl temporary
  · exact .inr (.inl ⟨code, by rw [same]; exact h, exit⟩)

theorem warrants_failure {exit : ChildExit} {c : Callback}
    (failed : ExecRelay.failure lib exit.status = some c) (h : .childProcessExit exit ∈ es) :
    Warrants .exec es c.bytes := by
  rw [ExecRelay.failure_bytes failed]
  obtain temporary | ⟨-, success⟩ | ⟨rejected, permanent⟩ := exit_code exit
  · exact .inl temporary
  · rw [(ExecRelay.failure_eq_none exit).mpr success] at failed
    cases failed
  · exact .inr (.inr ⟨rejected, exit, permanent, h⟩)

theorem RawExecRelay.defaultResponse_ne_nil (status : ℤ) : defaultResponse status ≠ [] := by
  simp only [defaultResponse, exitStatusToQmqpResponse]
  split_ifs <;> decide

theorem finalResponse_code (r : RawExecRelay) :
    r.finalResponse.take 1 = (RawExecRelay.defaultResponse r.status).take 1 := by
  rw [RawExecRelay.finalResponse]
  split_ifs with more
  · obtain ⟨code, text, response⟩ :=
      List.exists_cons_of_ne_nil (RawExecRelay.defaultResponse_ne_nil r.status)
    obtain ⟨n, eq⟩ : ∃ n, r.responseFill = n + 1 := ⟨r.responseFill - 1, by omega⟩
    obtain ⟨b, bs, bytes⟩ : ∃ b bs, r.responseBuffer.toList = b :: bs :=
      List.exists_cons_of_length_pos (by rw [Vector.length_toList]; decide)
    rw [RawExecRelay.coded, if_pos more, response, eq]
    simp only [List.headD_cons, Vector.toList_set, bytes]
    simp
  · rfl

theorem warrants_finishing {P : RawExecRelay → Prop} {r : RawExecRelay} {exit : ChildExit}
    (h : .childProcessExit exit ∈ es) (status : r.status = exit.status) :
    (RawExecRelay.finishing lib r).Meets P fun c => Warrants .execRaw es c.bytes := by
  have code := finalResponse_code r
  rw [status, RawExecRelay.defaultResponse_status] at code
  simp only [RawExecRelay.finishing, Reaction.Meets, RawExecRelay.report_bytes, Warrants, code]
  obtain temporary | ⟨accepted, success⟩ | ⟨rejected, permanent⟩ := exit_code exit
  · exact .inl temporary
  · exact .inr (.inl ⟨accepted, success ▸ h⟩)
  · exact .inr (.inr ⟨rejected, exit, permanent, h⟩)

theorem closing_warranted {r : RawExecRelay} (knows : (Relay.rawExec r).Knows es) :
    (RawExecRelay.closing lib r).Meets
      (fun r' => (Relay.rawExec r').Knows es ∧ (Relay.rawExec r').kind = .execRaw)
      fun c => Warrants .execRaw es c.bytes := by
  rw [RawExecRelay.closing]
  by_cases running : r.pidfd = true
  · rw [if_pos running]
    exact ⟨knows, rfl⟩
  · obtain ⟨exit, reported, status⟩ := knows.2 (by simpa using running)
    rw [if_neg running]
    exact warrants_finishing reported status

/-- An event leaves the relay with what it has to know, or with a response
that the events warrant. -/
theorem react_warranted {r : Relay} {e : RelayEvent} {call : RelayCall} (knows : r.Knows es)
    (eq : r.call e = some call) : call.relay = r ∧
      (call.react lib).Meets (fun r' => r'.Knows (es ++ [e]) ∧ r'.kind = r.kind)
        fun c => Warrants r.kind (es ++ [e]) c.bytes := by
  have last : e ∈ es ++ [e] := by simp
  have before {e' : RelayEvent} (h : e' ∈ es) : e' ∈ es ++ [e] := by simp [h]
  match r, e with
  | .remote r, .socketConnectSuccess =>
    cases eq
    exact ⟨rfl, trivial, rfl⟩
  | .remote r, .socketConnectError e =>
    cases eq
    exact ⟨rfl, .inl rfl⟩
  | .remote r, .netstring (.response payload) =>
    cases eq
    exact ⟨rfl, warrants_payload_connect last⟩
  | .remote r, .netstring (.error e) =>
    cases eq
    exact ⟨rfl, .inl rfl⟩
  | .exec r, .netstring (.response payload) =>
    cases eq
    refine ⟨rfl, ?_⟩
    rw [RelayCall.react, Reaction.meets_map, ExecRelay.react]
    by_cases running : r.pidfd = true
    · rw [if_pos running]
      refine ⟨⟨fun p h => ?_, fun h => before (knows.2 h)⟩, rfl⟩
      cases h
      exact last
    · rw [if_neg running]
      exact warrants_payload_exec last (before (knows.2 (by simpa using running)))
  | .exec r, .netstring (.error e) =>
    cases eq
    exact ⟨rfl, .inl rfl⟩
  | .exec r, .childProcessExit exit =>
    simp only [Relay.call] at eq
    split_ifs at eq with running
    cases eq
    refine ⟨rfl, ?_⟩
    rw [RelayCall.react, Reaction.meets_map, ExecRelay.react, if_pos running]
    cases failed : ExecRelay.failure lib exit.status with
    | some c => exact warrants_failure failed last
    | none =>
      obtain rfl : exit = .exited 0 := (ExecRelay.failure_eq_none exit).mp failed
      obtain ⟨base, deferred, pidfd⟩ := r
      cases deferred with
      | some payload => exact warrants_payload_exec (before (knows.1 payload rfl)) last
      | none => exact ⟨⟨(fun _ h => by cases h), fun _ => last⟩, rfl⟩
  | .rawExec r, .requestPipeReady flags write =>
    simp only [Relay.call] at eq
    split_ifs at eq with defined
    cases eq
    refine ⟨rfl, ?_⟩
    rw [RelayCall.react, Reaction.meets_map, RawExecRelay.react, if_pos defined]
    cases write with
    | ok accepted => exact ⟨⟨knows.1, fun h => (knows.2 h).imp fun _ h => ⟨before h.1, h.2⟩⟩, rfl⟩
    | error e => exact .inl rfl
  | .rawExec r, .responsePipeReady flags read =>
    simp only [Relay.call] at eq
    split_ifs at eq with defined
    cases eq
    refine ⟨rfl, ?_⟩
    rw [RelayCall.react, Reaction.meets_map, RawExecRelay.react, if_pos defined]
    have known : (Relay.rawExec r).Knows (es ++ [.responsePipeReady flags read]) :=
      knows.append _
    by_cases only : flags = PipeFlags.onlyHangup
    · rw [if_pos only]
      exact closing_warranted known
    rw [if_neg only]
    cases read with
    | error e =>
      rw [RawExecRelay.reading]
      split_ifs <;> exact .inl rfl
    | ok available =>
      have received : (Relay.rawExec (r.received available)).Knows
          (es ++ [.responsePipeReady flags (.ok available)]) := by
        refine ⟨RawExecRelay.received_fill r available known.1, ?_⟩
        rw [RawExecRelay.received_pidfd, RawExecRelay.received_status]
        exact known.2
      rw [RawExecRelay.reading]
      split_ifs
      · exact closing_warranted received
      · exact ⟨received, rfl⟩
  | .rawExec r, .childProcessExit exit =>
    simp only [Relay.call] at eq
    split_ifs at eq with running
    cases eq
    refine ⟨rfl, ?_⟩
    rw [RelayCall.react, Reaction.meets_map, RawExecRelay.react, if_pos running]
    split_ifs
    · exact ⟨⟨knows.1, fun _ => ⟨exit, last, rfl⟩⟩, rfl⟩
    · exact warrants_finishing last rfl

/-- The start of a new relay leaves it with what it has to know, or with a
temporary failure. -/
theorem start_warranted {call : RelayCall} (start : call.Starts) :
    (call.react lib).Meets (fun r' => r'.Knows [] ∧ r'.kind = call.relay.kind)
      fun c => Warrants call.relay.kind [] c.bytes := by
  cases call with
  | remote r e =>
    cases e with
    | start answer =>
      cases answer with
      | error e => exact .inl rfl
      | _ => exact ⟨trivial, rfl⟩
    | _ => exact start.elim
  | exec r e =>
    cases e with
    | start action type spawn =>
      have fresh : r.deferredResponse = none := start
      rw [RelayCall.react, Reaction.meets_map, ExecRelay.react]
      split
      · exact .inl rfl
      · refine ⟨⟨fun payload h => ?_, fun h => by cases h⟩, rfl⟩
        rw [fresh] at h
        cases h
    | _ => exact start.elim
  | rawExec r e =>
    cases e with
    | start action type spawn write =>
      have fill : r.responseFill ≤ 256 := start
      rw [RelayCall.react, Reaction.meets_map, RawExecRelay.react]
      split
      · exact .inl rfl
      · cases write with
        | ok accepted => exact ⟨⟨fill, fun h => by cases h⟩, rfl⟩
        | error e => exact .inl rfl
    | _ => exact start.elim

end Qrelay
