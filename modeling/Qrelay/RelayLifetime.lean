import Qrelay.NetstringRelays
import Qrelay.RawExecRelay

/-! Each relay alone with a handler that destroys it. RemoteRelay and ExecRelay
end with their first callback in every run. RawExecRelay does so except when a
read fails for an event that has `HANGUP` among other flags. -/

namespace Qrelay
open Lib Lib.Decimal

def relayObject : ℕ := 1

section Alone

variable {ρ : Type}

abbrev alonePlace : Place (Solo ρ Callback) ρ := Solo.place relayObject

def aloneHandler : RelayHandler (Solo ρ Callback) where
  onRelayResponse r := Solo.dispose relayObject (.response r)
  onRelayError r e := Solo.dispose relayObject (.error r e)

theorem aloneHandler_call : (aloneHandler (ρ := ρ)).call = Solo.dispose relayObject := by
  funext c
  cases c <;> rfl

end Alone

variable (lib : Libcommon)

def RemoteRelay.aloneStep (e : RemoteRelay.Event) : Code (Solo RemoteRelay Callback) Unit :=
  Solo.step (RemoteRelay.code lib alonePlace aloneHandler) e

def ExecRelay.aloneStep (e : ExecRelay.Event) : Code (Solo ExecRelay Callback) Unit :=
  Solo.step (ExecRelay.code lib alonePlace aloneHandler) e

def RawExecRelay.aloneStep (e : RawExecRelay.Event) : Code (Solo RawExecRelay Callback) Unit :=
  Solo.step (RawExecRelay.code lib alonePlace aloneHandler) e

variable {lib}

theorem RemoteRelay.alone_performs (e : Event) (s : Solo RemoteRelay Callback) (r : RemoteRelay)
    (h : s.object = some r) (_ : True) : (react lib r e).Performs (Solo.place relayObject)
      (Solo.dispose relayObject) s (code lib alonePlace aloneHandler e s) := by
  rw [← aloneHandler_call]
  exact code_performs h e

theorem ExecRelay.alone_performs (e : Event) (s : Solo ExecRelay Callback) (r : ExecRelay)
    (h : s.object = some r) (_ : True) : (react lib r e).Performs (Solo.place relayObject)
      (Solo.dispose relayObject) s (code lib alonePlace aloneHandler e s) := by
  rw [← aloneHandler_call]
  exact code_performs h e

theorem RawExecRelay.alone_performs (e : Event) (s : Solo RawExecRelay Callback)
    (r : RawExecRelay) (h : s.object = some r) (fill : r.responseFill ≤ 256) :
    (react lib r e).Performs (Solo.place relayObject) (Solo.dispose relayObject) s
      (code lib alonePlace aloneHandler e s) := by
  rw [← aloneHandler_call]
  exact code_performs h fill e

theorem RemoteRelay.not_lingers (r : RemoteRelay) (e : Event) : ¬ (react lib r e).Lingers := by
  match e with
  | .start .pending | .start .success | .start (.error _) | .socketConnectSuccess
  | .socketConnectError _ | .netstring (.response _) | .netstring (.error _) => exact id

theorem ExecRelay.not_lingers (r : ExecRelay) (e : Event) : ¬ (react lib r e).Lingers := by
  cases e with
  | start action type answer =>
    simp only [react]
    split <;> exact id
  | netstring outcome =>
    cases outcome <;> simp only [react]
    · split_ifs <;> exact id
    · exact id
  | childProcessExit status =>
    simp only [react]
    split_ifs
    · split <;> exact id
    · exact id

namespace RawExecRelay

/-- The read fails although the event has `HANGUP`, and `HANGUP` is not its only flag. -/
def FailsAtHangup : Event → Prop
  | .responsePipeReady flags (.error _) => flags.hangup = true ∧ flags ≠ PipeFlags.onlyHangup
  | _ => False

theorem not_lingers_finishing (r : RawExecRelay) : ¬ (finishing lib r).Lingers := id

theorem not_lingers_closing (r : RawExecRelay) : ¬ (closing lib r).Lingers := by
  unfold closing
  split_ifs
  · exact id
  · exact not_lingers_finishing _

theorem not_lingers_writing (r : RawExecRelay) (answer : WriteAnswer) :
    ¬ (writing r answer).Lingers := by
  cases answer <;> exact id

theorem lingers_iff (r : RawExecRelay) (e : Event) :
    (react lib r e).Lingers ↔ r.responsePipe = true ∧ FailsAtHangup e := by
  cases e with
  | start action type spawn write =>
    simp only [react, FailsAtHangup, and_false, iff_false]
    split
    · exact id
    · exact not_lingers_writing _ _
  | requestPipeReady flags write =>
    simp only [react, FailsAtHangup, and_false, iff_false]
    split_ifs
    · exact not_lingers_writing _ _
    · exact id
  | responsePipeReady flags read =>
    simp only [react]
    by_cases defined : r.responsePipe = true
    swap
    · rw [if_neg defined]
      exact ⟨False.elim, fun h => defined h.1⟩
    rw [if_pos defined]
    by_cases only : flags = PipeFlags.onlyHangup
    · rw [if_pos only]
      refine ⟨fun h => (not_lingers_closing r h).elim, fun h => ?_⟩
      cases read with
      | error e => exact absurd only h.2.2
      | ok available => exact h.2.elim
    rw [if_neg only]
    cases read with
    | error e =>
      simp only [reading, FailsAtHangup]
      by_cases hangup : flags.hangup = true
      · rw [if_pos hangup]
        exact ⟨fun _ => ⟨defined, hangup, only⟩, fun _ => trivial⟩
      · rw [if_neg hangup]
        exact ⟨False.elim, fun h => hangup h.2.1⟩
    | ok available =>
      simp only [reading, FailsAtHangup, and_false, iff_false]
      split_ifs
      · exact not_lingers_closing _
      · exact id
  | childProcessExit status =>
    simp only [react, FailsAtHangup, and_false, iff_false]
    split_ifs
    · exact id
    · exact not_lingers_finishing _
    · exact id

theorem writing_fill {r r' : RawExecRelay} {answer : WriteAnswer}
    (eq : writing r answer = .stay r') : r'.responseFill = r.responseFill := by
  cases answer with
  | ok accepted =>
    cases eq
    rfl
  | error e => cases eq

theorem closing_stay {r r' : RawExecRelay} (eq : closing lib r = .stay r') :
    r' = { r with responsePipe := false } := by
  unfold closing at eq
  split_ifs at eq with running
  · cases eq
    rfl
  · cases eq

theorem react_fill (e : Event) (r r' : RawExecRelay) (fill : r.responseFill ≤ 256)
    (eq : react lib r e = .stay r') : r'.responseFill ≤ 256 := by
  cases e with
  | start action type spawn write =>
    simp only [react] at eq
    split at eq
    · cases eq
    · exact (writing_fill eq).trans_le fill
  | requestPipeReady flags write =>
    simp only [react] at eq
    split_ifs at eq with defined
    · exact (writing_fill eq).trans_le fill
    · cases eq
      exact fill
  | responsePipeReady flags read =>
    simp only [react] at eq
    split_ifs at eq with defined only
    · rw [closing_stay eq]
      exact fill
    · cases read with
      | error e =>
        simp only [reading] at eq
        split_ifs at eq
      | ok available =>
        have bound := received_fill r available fill
        simp only [reading] at eq
        split_ifs at eq with ended
        · rw [closing_stay eq]
          exact bound
        · cases eq
          exact bound
    · cases eq
      exact fill
  | childProcessExit status =>
    simp only [react] at eq
    split_ifs at eq with running defined
    · cases eq
      exact fill
    · cases eq
    · cases eq
      exact fill

end RawExecRelay

/-- After its first callback no relay is used again and none reports a second
time, except that RawExecRelay is used when a read fails for an event with
`HANGUP` and another flag. -/
theorem relays_end_with_callback (lib : Libcommon) (mail : MutableMail)
    (headers : List (StringView Storage)) :
    (∀ es, let o := run (RemoteRelay.aloneStep lib) es ⟨some (.new lib mail headers), []⟩
      Outcome.Finished o ∧ (Outcome.state o).calls.length ≤ 1) ∧
    (∀ es, let o := run (ExecRelay.aloneStep lib) es ⟨some (.new lib mail headers), []⟩
      Outcome.Finished o ∧ (Outcome.state o).calls.length ≤ 1) ∧
    ∀ es, let o := run (RawExecRelay.aloneStep lib) es ⟨some (.new mail headers), []⟩
      (Outcome.Finished o ↔ Along (RawExecRelay.aloneStep lib) (fun s e => ∀ r,
        s.object = some r → ¬ (r.responsePipe = true ∧ RawExecRelay.FailsAtHangup e))
        ⟨some (.new mail headers), []⟩ es) ∧ (Outcome.state o).calls.length ≤ 1 := by
  refine ⟨fun es => ⟨?_, ?_⟩, fun es => ⟨?_, ?_⟩, fun es => ⟨?_, ?_⟩⟩
  · apply (Solo.run_finished_iff RemoteRelay.alone_performs (fun _ _ _ _ _ => trivial) es
      fun _ _ => trivial).mpr
    exact Along.of_forall fun s e r _ => RemoteRelay.not_lingers r e
  · exact Solo.run_calls_le_one RemoteRelay.alone_performs (fun _ _ _ _ _ => trivial) es trivial
  · apply (Solo.run_finished_iff ExecRelay.alone_performs (fun _ _ _ _ _ => trivial) es
      fun _ _ => trivial).mpr
    exact Along.of_forall fun s e r _ => ExecRelay.not_lingers r e
  · exact Solo.run_calls_le_one ExecRelay.alone_performs (fun _ _ _ _ _ => trivial) es trivial
  · simp only [← @RawExecRelay.lingers_iff lib]
    apply Solo.run_finished_iff RawExecRelay.alone_performs RawExecRelay.react_fill es
    intro r h
    cases h
    exact (by decide : 1 ≤ 256)
  · exact Solo.run_calls_le_one RawExecRelay.alone_performs RawExecRelay.react_fill es
      (by decide : 1 ≤ 256)

def rawExecAction : LuaAction where
  type := .execRaw
  exec := { elements := [ascii "/bin/true"] }
  defined := by decide
  nonempty := by decide

theorem rawExecAction_type : rawExecAction.type = .execRaw := rfl

def failingRead : List RawExecRelay.Event :=
  [.start rawExecAction rfl (fun _ _ => .ok ()) (.ok 0),
    .responsePipeReady { read := true, hangup := true }
      (.error (.errno 5 (ascii "Failed to read from pipe")))]

theorem rawExecRelay_used_after_callback :
    run (RawExecRelay.aloneStep .reference) failingRead
        ⟨some (RawExecRelay.new (.new ⟨[], by decide⟩) []), []⟩ =
      .error (.dangling relayObject) ⟨none, [({ RawExecRelay.new (.new ⟨[], by decide⟩) [] with
        pidfd := true, responsePipe := true },
        .error (ascii "Zread error") (.errno 5 (ascii "Failed to read from pipe")))]⟩ := by
  rfl

end Qrelay
