import Qrelay.ConnectionEnding
import Qrelay.RelayResponses

/-! What the trace of a submission says of it, and what holds once the
connection has been deleted. -/

namespace Qrelay
open Lib Lib.Decimal
namespace QmqpRelayConnection

section Trace

def responses (t : List Entry) : List Bytes :=
  t.filterMap fun | .response r => some r | _ => none

def datagrams (t : List Entry) : List (Bytes × Datagram) :=
  t.filterMap fun | .logged text d => some (text, d) | _ => none

def deletions (t : List Entry) : ℕ := t.countP fun | .deleted => true | _ => false

def parses (t : List Entry) : List QmqpMail.ParseResult :=
  t.filterMap fun | .parsed result => some result | _ => none

def actions (t : List Entry) : List LuaAction :=
  t.filterMap fun | .acted action => some action | _ => none

def events (t : List Entry) : List RelayEvent :=
  t.filterMap fun | .relay e => some e | _ => none

/-- Whether `OnError` has been called. -/
def failed (t : List Entry) : Bool := t.any fun | .entered .onError _ _ => true | _ => false

def entersHandler (t : List Entry) : Bool := t.any fun | .handler => true | _ => false

/-- Every member function finds `mail_ptr` null exactly in the states without a mail. -/
def Observed (t : List Entry) : Prop := ∀ member state mailPtr,
  .entered member state mailPtr ∈ t → mailPtr = state.hasMail

/-- What ended the submission, as the log puts it. -/
def endingText (t : List Entry) : Bytes :=
  match responses t with
  | response :: _ => response.drop 1
  | [] => if failed t then ascii "client error" else ascii "canceled"

def Relays (action : LuaAction) : Prop :=
  action.type = .connect ∨ action.type = .exec ∨ action.type = .execRaw

/-- What has happened so far bears out the response. -/
def Due (t : List Entry) (response : Bytes) : Prop :=
  response.take 1 = ascii "Z" ∨
  (response.take 1 = ascii "D" ∧ ∃ result, parses t = [result] ∧ result ≠ .success) ∨
  ∃ action, actions t = [action] ∧
    (action.type = .discard ∧ response.take 1 = ascii "K" ∨
      action.type = .reject ∧ response.take 1 = ascii "D" ∨
      Warrants action.type (events t) response)

def Justified (t : List Entry) : Prop :=
  ∀ pre response post, t = pre ++ .response response :: post → Due pre response

end Trace

/-- What is true of a connection that is gone. -/
structure Over (logging : Bool) (w : World) : Prop where
  configured : w.logSocket = logging
  gone : w.connection = none
  observed : Observed w.trace
  answered : (responses w.trace).length ≤ 1
  deleted : deletions w.trace = 1
  parsed : entersHandler w.trace = true → parses w.trace = [.success]
  handled : actions w.trace ≠ [] → entersHandler w.trace = true
  counted : (datagrams w.trace).length = if logging && entersHandler w.trace then 1 else 0
  logged : ∀ p ∈ datagrams w.trace, p.1 = endingText w.trace ∧
    (p.2.trafficSent ≠ 0 → ∃ action, actions w.trace = [action] ∧ Relays action)
  justified : Justified w.trace

/-- What is true of a living connection, also in the middle of an event. -/
structure Open (logging : Bool) (w : World) (c : QmqpRelayConnection) : Prop where
  configured : w.logSocket = logging
  alive : w.connection = some c
  pointer : c.mailPtr = c.state.hasMail
  object : c.mailPtr = true → w.mail.isSome = true
  observed : Observed w.trace
  /-- Nothing of what belongs to the end has happened. -/
  unanswered : responses w.trace = []
  unlogged : datagrams w.trace = []
  undeleted : deletions w.trace = 0
  unfailed : failed w.trace = false
  entered : entersHandler w.trace = c.mailPtr
  parsed : c.mailPtr = true → parses w.trace = [.success]
  acted : actions w.trace ≠ [] → c.mailPtr = true
  relays : c.state = .relaying → ∃ action, actions w.trace = [action] ∧ Relays action

variable {lib : Libcommon} {a : Answers} {logging : Bool} {w : World} {c : QmqpRelayConnection}
  {mail : MutableMail}

theorem Open.holds (h : Open logging w c) : ∃ mail, w.Holds c mail := by
  cases object : w.mail with
  | none =>
    refine ⟨MutableMail.free, h.alive, h.pointer, fun pending => ?_⟩
    have some := h.object pending
    rw [object] at some
    cases some
  | some mail => exact ⟨mail.toMutableMail, h.alive, h.pointer, fun _ => ⟨mail, object, rfl⟩⟩

def Entry.closing : Entry → Bool
  | .entered .. | .response _ | .logged .. | .deleted => true
  | _ => false

section Closing

variable {s t : List Entry} (h : ∀ e ∈ s, e.closing = true)
include h

theorem filterMap_closing {β : Type} (f : Entry → Option β)
    (none : ∀ e : Entry, e.closing = true → f e = .none) :
    (t ++ s).filterMap f = t.filterMap f := by
  rw [List.filterMap_append, List.filterMap_eq_nil_iff.mpr fun e he => none e (h e he),
    List.append_nil]

theorem parses_closing : parses (t ++ s) = parses t :=
  filterMap_closing h _ fun e he => by cases e <;> first | rfl | cases he

theorem actions_closing : actions (t ++ s) = actions t :=
  filterMap_closing h _ fun e he => by cases e <;> first | rfl | cases he

theorem events_closing : events (t ++ s) = events t :=
  filterMap_closing h _ fun e he => by cases e <;> first | rfl | cases he

theorem entersHandler_closing : entersHandler (t ++ s) = entersHandler t := by
  have none : entersHandler s = false := by
    rw [entersHandler, List.any_eq_false]
    intro e he
    have closing := h e he
    cases e <;> first | exact Bool.false_ne_true | cases closing
  rw [entersHandler, List.any_append]
  exact (congrArg (_ || ·) none).trans (Bool.or_false _)

theorem due_closing {response : Bytes} : Due (t ++ s) response ↔ Due t response := by
  rw [Due, Due, parses_closing h, actions_closing h, events_closing h]

end Closing

/-- What the end of a connection adds to the trace when it logs a text. -/
structure Ends (socket : Bool) (c : QmqpRelayConnection) (text : Bytes) (s : List Entry) :
    Prop where
  closing : ∀ e ∈ s, e.closing = true
  observed : Observed s
  deleted : deletions s = 1
  counted : (datagrams s).length = if socket && c.mailPtr then 1 else 0
  logged : ∀ p ∈ datagrams s, p.1 = text ∧ (p.2.trafficSent ≠ 0 → c.state = .relaying)

theorem observed_append {s t : List Entry} (hs : Observed s) (ht : Observed t) :
    Observed (s ++ t) := by
  intro member state mailPtr h
  exact (List.mem_append.mp h).elim (hs member state mailPtr) (ht member state mailPtr)

theorem observed_nil : Observed [] := fun _ _ _ mem => absurd mem List.not_mem_nil

theorem observed_cons {t : List Entry} {member : Member} (pointer : c.mailPtr = c.state.hasMail)
    (ht : Observed t) : Observed (.entered member c.state c.mailPtr :: t) := by
  intro m state mailPtr h
  obtain same | later := List.mem_cons.mp h
  · cases same
    exact pointer
  · exact ht m state mailPtr later

theorem logged_pointer (pointer : c.mailPtr = c.state.hasMail) (socket : Bool) :
    (logged socket c).mailPtr = (logged socket c).state.hasMail := by
  rw [logged]
  split_ifs
  · rfl
  · exact pointer

theorem datagram_relaying (pointer : c.mailPtr = c.state.hasMail) (pending : c.mailPtr = true)
    {text : Bytes} (sent : (datagram lib a c mail text).trafficSent ≠ 0) :
    c.state = .relaying := by
  rw [pending] at pointer
  cases state : c.state <;> simp_all [datagram, State.value, State.hasMail]

variable (socket : Bool) (text : Bytes)

theorem logEntries_closing : ∀ e ∈ logEntries lib a socket mail c text, e.closing = true := by
  rw [logEntries]
  split_ifs <;> simp [Entry.closing]

theorem logEntries_observed (pointer : c.mailPtr = c.state.hasMail) :
    Observed (logEntries lib a socket mail c text) := by
  rw [logEntries]
  split_ifs with pending
  · rw [← pending]
    refine observed_cons pointer fun member state mailPtr h => ?_
    simp at h
  · rw [← pending]
    exact observed_cons pointer observed_nil
  · exact observed_nil

theorem logEntries_datagrams : datagrams (logEntries lib a socket mail c text) =
    if socket && c.mailPtr then [(text, datagram lib a c mail text)] else [] := by
  cases socket <;> cases pending : c.mailPtr <;> simp [logEntries, pending, datagrams]

@[simp] theorem logEntries_deletions : deletions (logEntries lib a socket mail c text) = 0 := by
  rw [logEntries]
  split_ifs <;> rfl

@[simp] theorem logEntries_responses : responses (logEntries lib a socket mail c text) = [] := by
  rw [logEntries]
  split_ifs <;> rfl

@[simp] theorem logEntries_failed : failed (logEntries lib a socket mail c text) = false := by
  rw [logEntries]
  split_ifs <;> rfl

theorem logged_pending : (socket && (logged socket c).mailPtr) = false := by
  cases socket <;> cases pending : c.mailPtr <;> simp [logged, pending]

theorem ends_log {member : Member} {rest : List Entry} (pointer : c.mailPtr = c.state.hasMail)
    (closing : ∀ e ∈ rest, e.closing = true) (observed : Observed rest)
    (deleted : deletions rest = 1) (silent : datagrams rest = []) : Ends socket c text
      (.entered member c.state c.mailPtr :: logEntries lib a socket mail c text ++ rest) := by
  have added : datagrams (.entered member c.state c.mailPtr ::
      logEntries lib a socket mail c text ++ rest) =
      if socket && c.mailPtr then [(text, datagram lib a c mail text)] else [] := by
    rw [← @logEntries_datagrams lib a c mail]
    rw [datagrams] at silent ⊢
    rw [List.cons_append, List.filterMap_cons_none rfl, List.filterMap_append, silent,
      List.append_nil]
    rfl
  refine ⟨fun e he => ?_, ?_, ?_, ?_, ?_⟩
  · obtain rfl | he := List.mem_cons.mp he
    · rfl
    · exact (List.mem_append.mp he).elim (logEntries_closing socket text e) (closing e)
  · exact observed_cons pointer (observed_append (logEntries_observed socket text pointer) observed)
  · have none := @logEntries_deletions lib a c mail socket text
    rw [deletions] at deleted none ⊢
    rw [List.cons_append, List.countP_cons_of_neg Bool.false_ne_true, List.countP_append, none,
      deleted]
  · rw [added]
    split_ifs <;> rfl
  · rw [added]
    intro p hp
    split_ifs at hp with pending
    · rw [List.mem_singleton.mp hp]
      exact ⟨rfl, datagram_relaying pointer (Bool.and_eq_true_iff.mp pending).2⟩
    · cases hp

theorem Ends.silent {s : List Entry}
    (h : Ends socket (QmqpRelayConnection.logged socket c) text s) : datagrams s = [] := by
  have counted := h.counted
  rw [logged_pending, if_neg Bool.false_ne_true] at counted
  exact List.length_eq_zero_iff.mp counted

theorem deleteEntries_ends (pointer : c.mailPtr = c.state.hasMail) :
    Ends socket c (ascii "canceled") (deleteEntries lib a socket mail c) :=
  ends_log socket _ pointer (by simp [Entry.closing]) (by simp [Observed]) rfl rfl

theorem errorEntries_ends (pointer : c.mailPtr = c.state.hasMail) :
    Ends socket c (ascii "client error") (errorEntries lib a socket mail c) :=
  have rest := deleteEntries_ends socket (logged_pointer pointer socket)
  ends_log socket _ pointer rest.closing rest.observed rest.deleted rest.silent

theorem disconnect_ends (pointer : c.mailPtr = c.state.hasMail) :
    Ends socket c (ascii "canceled") (.entered .onDisconnect c.state c.mailPtr ::
      deleteEntries lib a socket mail c) := by
  have rest := @deleteEntries_ends lib a c mail socket pointer
  refine ⟨fun e he => ?_, observed_cons pointer rest.observed, rest.deleted, rest.counted,
    rest.logged⟩
  obtain rfl | he := List.mem_cons.mp he
  · rfl
  · exact rest.closing e he

theorem responseEntries_ends (pointer : c.mailPtr = c.state.hasMail) :
    ∃ text, Ends socket c text (responseEntries lib a socket mail c) := by
  rw [responseEntries]
  cases a.response with
  | ok _ => exact ⟨_, deleteEntries_ends socket pointer⟩
  | error _ => exact ⟨_, errorEntries_ends socket pointer⟩

theorem finishEntries_ends (pointer : c.mailPtr = c.state.hasMail) (response : Bytes) :
    Ends socket c (response.drop 1) (finishEntries lib a socket mail c response) := by
  obtain ⟨_, rest⟩ := @responseEntries_ends lib a _ mail socket (logged_pointer pointer socket)
  refine ends_log socket _ pointer (fun e he => ?_) (fun member state mailPtr h => ?_)
    rest.deleted rest.silent
  · obtain rfl | he := List.mem_cons.mp he
    · rfl
    · exact rest.closing e he
  · exact rest.observed member state mailPtr ((List.mem_cons.mp h).resolve_left nofun)

theorem responses_append (s t : List Entry) : responses (s ++ t) = responses s ++ responses t :=
  List.filterMap_append

theorem failed_append (s t : List Entry) : failed (s ++ t) = (failed s || failed t) :=
  List.any_append

theorem datagrams_append (s t : List Entry) : datagrams (s ++ t) = datagrams s ++ datagrams t :=
  List.filterMap_append

theorem deletions_append (s t : List Entry) : deletions (s ++ t) = deletions s + deletions t :=
  List.countP_append

theorem deleteEntries_responses : responses (deleteEntries lib a socket mail c) = [] := by
  rw [deleteEntries, responses_append]
  exact congrArg (· ++ _) (logEntries_responses socket _)

theorem deleteEntries_failed : failed (deleteEntries lib a socket mail c) = false := by
  rw [deleteEntries, failed_append]
  exact congrArg (· || _) (logEntries_failed socket _)

theorem errorEntries_responses : responses (errorEntries lib a socket mail c) = [] := by
  rw [errorEntries, responses_append, deleteEntries_responses]
  exact congrArg (· ++ _) (logEntries_responses socket _)

theorem responseEntries_responses : responses (responseEntries lib a socket mail c) = [] := by
  rw [responseEntries]
  cases a.response with
  | ok _ => exact deleteEntries_responses socket
  | error _ => exact errorEntries_responses socket

/-- The response stands between the entries that `Finish` makes before it and
those of the end. -/
theorem finishEntries_split (response : Bytes) : ∃ pre post,
    finishEntries lib a socket mail c response = pre ++ .response response :: post ∧
      responses pre = [] ∧ responses post = [] ∧ ∀ e ∈ pre, e.closing = true := by
  refine ⟨.entered .finish c.state c.mailPtr :: logEntries lib a socket mail c (response.drop 1), _,
    rfl, logEntries_responses socket _, responseEntries_responses socket, fun e he => ?_⟩
  obtain rfl | he := List.mem_cons.mp he
  · rfl
  · exact logEntries_closing socket _ e he

theorem justified_of_split {pre post : List Entry} {response : Bytes}
    (before : responses pre = []) (after : responses post = []) (due : Due pre response) :
    Justified (pre ++ .response response :: post) := by
  intro pre' response' post' eq
  rw [responses, List.filterMap_eq_nil_iff] at before after
  obtain ⟨m, rfl, rest⟩ | ⟨m, rfl, rest⟩ := List.append_eq_append_iff.mp eq
  · cases m with
    | nil =>
      cases rest
      rw [List.append_nil]
      exact due
    | cons e m =>
      obtain ⟨rfl, rfl⟩ := List.cons.inj rest
      exact absurd (after (.response response') (by simp)) nofun
  · cases m with
    | nil =>
      cases rest
      rw [List.append_nil] at due
      exact due
    | cons e m =>
      obtain ⟨rfl, rfl⟩ := List.cons.inj rest
      exact absurd (before (.response response') (by simp)) nofun

theorem justified_of_silent {t : List Entry} (silent : responses t = []) : Justified t := by
  rintro pre response post rfl
  rw [responses_append] at silent
  cases (List.append_eq_nil_iff.mp silent).2

theorem Due.code {t : List Entry} {response : Bytes} (due : Due t response) :
    response.take 1 = ascii "K" ∨ response.take 1 = ascii "D" ∨ response.take 1 = ascii "Z" := by
  obtain temporary | ⟨rejected, -⟩ | ⟨action, -, ⟨-, accepted⟩ | ⟨-, rejected⟩ | warrants⟩ := due
  · exact .inr (.inr temporary)
  · exact .inr (.inl rejected)
  · exact .inl accepted
  · exact .inr (.inl rejected)
  · exact warrants.code

theorem Due.ne_nil {t : List Entry} {response : Bytes} (due : Due t response) : response ≠ [] := by
  rintro rfl
  exact due.code.elim nofun fun h => h.elim nofun nofun

section Over

variable (h : Open logging w c)
include h

theorem Open.concluded {text : Bytes} {s : List Entry} (ends : Ends w.logSocket c text s)
    (answered : (responses s).length ≤ 1) (said : text = endingText (w.trace ++ s))
    (justified : Justified (w.trace ++ s)) : Over logging (w.close lib s) := by
  have handled := @entersHandler_closing s w.trace ends.closing
  refine ⟨h.configured, rfl, observed_append h.observed ends.observed, ?_, ?_, fun entered => ?_,
    fun acted => ?_, ?_, fun p hp => ?_, justified⟩
  · simpa only [World.close, responses_append, h.unanswered, List.nil_append] using answered
  · simp only [World.close, deletions_append, h.undeleted, ends.deleted]
  · simp only [World.close, handled, h.entered] at entered
    simp only [World.close, parses_closing ends.closing, h.parsed entered]
  · simp only [World.close, actions_closing ends.closing] at acted
    simp only [World.close, handled, h.entered, h.acted acted]
  · simp only [World.close, datagrams_append, h.unlogged, List.nil_append, ends.counted, handled,
      h.entered, h.configured]
  · simp only [World.close, datagrams_append, h.unlogged, List.nil_append] at hp
    obtain ⟨same, sent⟩ := ends.logged p hp
    refine ⟨same.trans said, fun positive => ?_⟩
    simp only [World.close, actions_closing ends.closing]
    exact h.relays (sent positive)

theorem Open.finish (started : c.state ≠ .init) (unended : c.state ≠ .ended) {response : Bytes}
    (due : Due w.trace response) :
    ∃ w', finish lib a response w = .ok () w' ∧ Over logging w' := by
  obtain ⟨mail, holds⟩ := h.holds
  refine ⟨_, finish_apply holds started unended due.ne_nil, ?_⟩
  obtain ⟨pre, post, eq, before, after, closing⟩ :=
    @finishEntries_split lib a c mail w.logSocket response
  have ends := @finishEntries_ends lib a c mail w.logSocket h.pointer response
  have given : responses (finishEntries lib a w.logSocket mail c response) = [response] := by
    rw [eq, responses_append, before]
    exact congrArg (response :: ·) after
  refine h.concluded ends (by rw [given]; rfl) ?_ ?_
  · rw [endingText, responses_append, h.unanswered, given]
    rfl
  · rw [eq, ← List.append_assoc]
    refine justified_of_split ?_ after ((due_closing closing).mpr due)
    rw [responses_append, h.unanswered, before]
    rfl

theorem Open.onError (e : Exception) : ∃ w', onError lib a e w = .ok () w' ∧ Over logging w' := by
  obtain ⟨mail, holds⟩ := h.holds
  refine ⟨_, onError_apply holds e, ?_⟩
  have none := @errorEntries_responses lib a c mail w.logSocket
  have silent : responses (w.trace ++ errorEntries lib a w.logSocket mail c) = [] := by
    rw [responses_append, h.unanswered, none]
    rfl
  refine h.concluded (errorEntries_ends _ h.pointer) (by rw [none]; decide) ?_
    (justified_of_silent silent)
  rw [endingText, silent, failed_append]
  exact (if_pos (by simp [errorEntries, failed])).symm

theorem Open.onDisconnect : ∃ w', onDisconnect lib a w = .ok () w' ∧ Over logging w' := by
  obtain ⟨mail, holds⟩ := h.holds
  refine ⟨_, onDisconnect_apply holds, ?_⟩
  have none : responses (.entered .onDisconnect c.state c.mailPtr ::
      deleteEntries lib a w.logSocket mail c) = [] := deleteEntries_responses _
  have unfailed : failed (.entered .onDisconnect c.state c.mailPtr ::
      deleteEntries lib a w.logSocket mail c) = false := deleteEntries_failed _
  have silent :=
    (responses_append w.trace _).trans ((congrArg₂ (· ++ ·) h.unanswered none).trans rfl)
  refine h.concluded (disconnect_ends _ h.pointer) (by rw [none]; decide) ?_
    (justified_of_silent silent)
  rw [endingText, silent, failed_append, h.unfailed, unfailed]
  rfl

end Over

end QmqpRelayConnection

end Qrelay
