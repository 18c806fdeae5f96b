import Qrelay.Submissions
import Qrelay.Lib.Interleave

/-! The server: Instance.hxx with its listeners, whose connections have their
events in any order and whose mails may be used by the handlers of others, too.
On shutdown the event loop ends, and the listeners delete the connections that
are left; libcommon does the latter.

A fault is here a failed assertion or a use of a connection, a relay or a mail
object that is gone. The writes of the requests, and with them the storages that
libcommon reads then, are no part of these runs; they are in Transmission and
RawExecSubmission. -/

namespace Qrelay
open Lib Lib.Decimal

namespace QmqpRelayConnection

inductive Occurrence where
  | event (e : Event × Answers)
  /-- Its listener is destroyed. -/
  | destroyed (a : Answers)

variable (lib : Libcommon)

def live : Occurrence → Code World Unit
  | .event e => step lib e
  | .destroyed a => fun w =>
    match w.connection with
    | none => .ok () w
    | some _ => delete lib a w

variable {lib} {a : Answers} {logging : Bool} {w : World} {c : QmqpRelayConnection}

theorem Open.delete (h : Open logging w c) :
    ∃ w', delete lib a w = .ok () w' ∧ Over logging w' := by
  obtain ⟨mail, holds⟩ := h.holds
  refine ⟨_, delete_apply holds, ?_⟩
  have none := @deleteEntries_responses lib a c mail w.logSocket
  have unfailed := @deleteEntries_failed lib a c mail w.logSocket
  have silent : responses (w.trace ++ deleteEntries lib a w.logSocket mail c) = [] := by
    rw [responses_append, h.unanswered, none]
    rfl
  refine h.concluded (deleteEntries_ends _ h.pointer) (by rw [none]; decide) ?_
    (justified_of_silent silent)
  rw [endingText, silent, failed_append, h.unfailed, unfailed]
  rfl

def Occurrence.FailsAtHangup : Occurrence → Prop
  | event e => e.1.FailsAtHangup
  | destroyed _ => False

theorem live_stable (stable : Stable logging w) {o : Occurrence} (fine : ¬ o.FailsAtHangup) :
    ∃ w', live lib o w = .ok () w' ∧ Stable logging w' := by
  cases o with
  | event e => exact stable.step_fine e fine
  | destroyed a =>
    obtain past | ⟨c, opened, phase⟩ := stable
    · exact ⟨w, by simp only [live, past.gone], .inl past⟩
    · obtain ⟨w', deleted, past⟩ := @Open.delete lib a _ _ _ opened
      exact ⟨w', by simpa only [live, opened.alive] using deleted, .inl past⟩

theorem live_destroyed (stable : Stable logging w) (a : Answers) :
    ∃ w', live lib (.destroyed a) w = .ok () w' ∧ Over logging w' := by
  obtain past | ⟨c, opened, phase⟩ := stable
  · exact ⟨w, by simp only [live, past.gone], past⟩
  · obtain ⟨w', deleted, past⟩ := @Open.delete lib a _ _ _ opened
    exact ⟨w', by simpa only [live, opened.alive] using deleted, past⟩

end QmqpRelayConnection

open QmqpRelayConnection

/-- Every connection that has been accepted, in that order. -/
abbrev Instance := List World

namespace Instance

inductive Incident where
  | accept (startTime : ℤ) (peerAuth : SocketPeerAuth)
  /-- Connection `i` has an event. The Lua code that runs then may have got hold
  of other mails, too. -/
  | event (i : ℕ) (e : Event × Answers) (uses : List (ℕ × MailUse))

namespace Incident

def occurrences : Incident → List (ℕ × Occurrence)
  | accept .. => []
  | event i e uses => uses.map (fun use => (use.1, .event (.mail use.2, e.2))) ++ [(i, .event e)]

def accepts : Incident → Bool
  | accept .. => true
  | event .. => false

def FailsAtHangup : Incident → Prop
  | accept .. => False
  | event _ e _ => e.1.FailsAtHangup

end Incident

section Code

variable (lib : Libcommon) (logSocket : Bool)

def step : Incident → Code Instance Unit
  | .accept startTime peerAuth =>
    modify fun connections => connections ++ [QmqpRelayConnection.new logSocket startTime peerAuth]
  | incident => run (among (live lib)) incident.occurrences

/-- `OnShutdown` has ended the event loop. -/
def shutdown (a : Answers) : Code Instance Unit := do
  run (among (live lib)) ((List.range (← get).length).map (·, .destroyed a))

/-- The process from the first connection to its end, without the writes of the requests. -/
def serve (incidents : List Incident) (a : Answers) : Code Instance Unit := do
  run (step lib logSocket) incidents
  shutdown lib a

end Code

variable {lib : Libcommon} {logSocket : Bool} {i : ℕ} {connections connections' : Instance}

theorem step_length {incident : Incident}
    (ok : step lib logSocket incident connections = .ok () connections') :
    connections'.length = connections.length + [incident].countP Incident.accepts := by
  cases incident with
  | accept startTime peerAuth =>
    cases ok
    exact List.length_append
  | event i e uses => exact run_among_length ok

theorem run_length {incidents : List Incident} : ∀ {connections : Instance},
    run (step lib logSocket) incidents connections = .ok () connections' →
      connections'.length = connections.length + incidents.countP Incident.accepts := by
  induction incidents with
  | nil =>
    intro connections ok
    cases ok
    rfl
  | cons incident incidents ih =>
    intro connections ok
    cases outcome : step lib logSocket incident connections with
    | error f next =>
      rw [run_cons_error outcome] at ok
      cases ok
    | ok _ next =>
      rw [run_cons_ok outcome] at ok
      have split : ([incident] ++ incidents).countP Incident.accepts =
          [incident].countP Incident.accepts + incidents.countP Incident.accepts :=
        List.countP_append
      rw [ih ok, step_length outcome, Nat.add_assoc, ← split]
      rfl

def Stable (logSocket : Bool) (connections : Instance) : Prop :=
  ∀ w ∈ connections, QmqpRelayConnection.Stable logSocket w

theorem step_stable {incident : Incident} (fine : ¬ incident.FailsAtHangup)
    (stable : Stable logSocket connections) :
    ∃ connections', step lib logSocket incident connections = .ok () connections' ∧
      Stable logSocket connections' := by
  cases incident with
  | accept startTime peerAuth =>
    refine ⟨_, rfl, fun w member => ?_⟩
    obtain old | new := List.mem_append.mp member
    · exact stable w old
    · rw [List.mem_singleton.mp new]
      exact new_stable logSocket startTime peerAuth
  | event i e uses =>
    refine run_among_keeps (fun o member w h => live_stable h ?_) stable
    obtain use | event := List.mem_append.mp member
    · obtain ⟨use, -, rfl⟩ := List.mem_map.mp use
      exact id
    · rw [List.mem_singleton.mp event]
      exact fine

theorem run_stable {incidents : List Incident} :
    (∀ incident ∈ incidents, ¬ incident.FailsAtHangup) → Stable logSocket connections →
    ∃ connections', run (step lib logSocket) incidents connections = .ok () connections' ∧
      Stable logSocket connections' := by
  induction incidents generalizing connections with
  | nil => exact fun _ stable => ⟨connections, rfl, stable⟩
  | cons incident incidents ih =>
    intro fine stable
    obtain ⟨next, ok, stable'⟩ := @step_stable lib _ _ _ (fine _ List.mem_cons_self) stable
    rw [run_cons_ok ok]
    exact ih (fun incident member => fine incident (List.mem_cons_of_mem _ member)) stable'

theorem own_range_map (a : Answers) {n : ℕ} (inside : i < n) :
    own i ((List.range n).map (·, Occurrence.destroyed a)) = [.destroyed a] := by
  induction n with
  | zero => exact absurd inside (Nat.not_lt_zero i)
  | succ n ih =>
    rw [List.range_succ, List.map_append, own_append]
    by_cases last : i = n
    · subst last
      have none : own i ((List.range i).map (·, Occurrence.destroyed a)) = [] := by
        rw [own, List.filterMap_eq_nil_iff]
        intro o member
        obtain ⟨j, before, rfl⟩ := List.mem_map.mp member
        exact if_neg (Nat.ne_of_lt (List.mem_range.mp before))
      rw [none]
      simp [own]
    · rw [ih (by omega)]
      simp [own, Ne.symm last]

theorem shutdown_over (stable : Stable logSocket connections) (a : Answers) :
    ∃ connections', shutdown lib a connections = .ok () connections' ∧
      connections'.length = connections.length ∧ ∀ w ∈ connections', Over logSocket w := by
  have all : ∀ o ∈ (List.range connections.length).map (·, Occurrence.destroyed a),
      ∀ w, QmqpRelayConnection.Stable logSocket w →
        ∃ w', live lib o.2 w = .ok () w' ∧ QmqpRelayConnection.Stable logSocket w' := by
    intro o member w h
    obtain ⟨j, -, rfl⟩ := List.mem_map.mp member
    exact live_stable h id
  obtain ⟨connections', ran, -⟩ := run_among_keeps all stable
  have length := run_among_length ran
  refine ⟨connections', ran, length, fun w' member => ?_⟩
  obtain ⟨i, inside, rfl⟩ := List.mem_iff_getElem.mp member
  have before : connections[i]? = some connections[i] := List.getElem?_eq_getElem (length ▸ inside)
  obtain ⟨after, found, own⟩ := run_among_get ran before
  obtain rfl : after = connections'[i] :=
    Option.some.inj (found.symm.trans (List.getElem?_eq_getElem inside))
  rw [own_range_map a (length ▸ inside)] at own
  obtain ⟨w', destroyed, past⟩ := @live_destroyed lib _ _ (stable _ (List.mem_of_getElem? before)) a
  rw [run_cons_ok destroyed] at own
  cases own
  exact past

/-- A server that is shut down has dealt with every connection it accepted, in
whatever order their events came: no assertion fails and no deleted connection
or relay is used on the way, each connection has been deleted once and has given
at most one response, and with a log socket each mail that a handler got is
logged once, with what ended it. Whether what a relay still has to write is
intact when it is written is another matter; see `request_frozen`. -/
theorem every_submission_accounted_for (lib : Libcommon) (logSocket : Bool)
    (incidents : List Incident) (a : Answers)
    (fine : ∀ incident ∈ incidents, ¬ incident.FailsAtHangup) :
    ∃ connections, serve lib logSocket incidents a [] = .ok () connections ∧
      connections.length = incidents.countP Incident.accepts ∧
      ∀ w ∈ connections, w.connection = none ∧ deletions w.trace = 1 ∧
        (responses w.trace).length ≤ 1 ∧
        (datagrams w.trace).length = (if logSocket && entersHandler w.trace then 1 else 0) ∧
        ∀ text d, (text, d) ∈ datagrams w.trace → text = endingText w.trace := by
  have none : Stable logSocket [] := fun w member => absurd member List.not_mem_nil
  obtain ⟨last, ran, stable⟩ := @run_stable lib logSocket [] incidents fine none
  obtain ⟨connections, stopped, length, past⟩ := @shutdown_over lib logSocket last stable a
  refine ⟨connections, (bind_ok ran).trans stopped, ?_, fun w member => ?_⟩
  · rw [length, run_length ran]
    exact Nat.zero_add _
  · have ended := past w member
    exact ⟨ended.gone, ended.deleted, ended.answered, ended.counted,
      fun text d logged => (ended.logged _ logged).1⟩

def sampleIncidents : List Incident :=
  [.accept 0 none, .accept 1 (some ⟨7, 8⟩),
    .event 0 (.request ⟨ascii "1:k,3:a@b,3:c@d,", by decide⟩ ⟨[], .suspended⟩, sampleAnswers) [],
    .event 1 (.request ⟨ascii "1:n,3:e@f,3:g@h,", by decide⟩
      ⟨[], .returned (some connectAction)⟩, sampleAnswers)
      [(0, .call (.newIndex (.string (ascii "account")) (.string (ascii "acme"))))],
    .event 0 (.disconnect, sampleAnswers) []]

theorem every_submission_accounted_for_sample :
    ∃ connections, serve .reference true sampleIncidents sampleAnswers [] = .ok () connections ∧
      connections.length = 2 ∧
      ∀ w ∈ connections, w.connection = none ∧ deletions w.trace = 1 ∧
        (responses w.trace).length ≤ 1 ∧
        (datagrams w.trace).length = (if true && entersHandler w.trace then 1 else 0) ∧
        ∀ text d, (text, d) ∈ datagrams w.trace → text = endingText w.trace :=
  every_submission_accounted_for .reference true sampleIncidents sampleAnswers (by
    simp [sampleIncidents, Incident.FailsAtHangup, QmqpRelayConnection.Event.FailsAtHangup])

end Instance

end Qrelay
