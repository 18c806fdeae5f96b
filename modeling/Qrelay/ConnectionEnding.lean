import Qrelay.Connection

/-! How a connection ends. Whatever calls `Finish`, `OnError` or
`OnDisconnect`, the connection is deleted when they return, and what they add
to the trace is known. -/

namespace Qrelay
open Lib Lib.Decimal
namespace QmqpRelayConnection

section Entries

variable (lib : Libcommon) (a : Answers) (socket : Bool) (mail : MutableMail)

def logEntries (c : QmqpRelayConnection) (text : Bytes) : List Entry :=
  if c.mailPtr then
    .entered .log c.state true ::
      if socket then [.logged text (datagram lib a c mail text)] else []
  else []

def logged (c : QmqpRelayConnection) : QmqpRelayConnection :=
  if c.mailPtr && socket then { c with state := .ended, mailPtr := false } else c

def deleteEntries (c : QmqpRelayConnection) : List Entry :=
  .entered .destructor c.state c.mailPtr ::
    logEntries lib a socket mail c (ascii "canceled") ++ [.deleted]

def errorEntries (c : QmqpRelayConnection) : List Entry :=
  .entered .onError c.state c.mailPtr ::
    logEntries lib a socket mail c (ascii "client error") ++
      deleteEntries lib a socket mail (logged socket c)

def responseEntries (c : QmqpRelayConnection) : List Entry :=
  match a.response with
  | .ok () => deleteEntries lib a socket mail c
  | .error _ => errorEntries lib a socket mail c

def finishEntries (c : QmqpRelayConnection) (response : Bytes) : List Entry :=
  .entered .finish c.state c.mailPtr :: logEntries lib a socket mail c (response.drop 1) ++
    .response response :: responseEntries lib a socket mail (logged socket c)

end Entries

namespace World

/-- The connection lives, and `mail_ptr` points to the mail in the right states. -/
structure Holds (w : World) (c : QmqpRelayConnection) (mail : MutableMail) : Prop where
  alive : w.connection = some c
  pointer : c.mailPtr = c.state.hasMail
  mail : c.mailPtr = true → ∃ object, w.mail = some object ∧ object.toMutableMail = mail

def goOn (w : World) (c : QmqpRelayConnection) (es : List Entry) : World :=
  { w with connection := some c, trace := w.trace ++ es }

def close (lib : Libcommon) (w : World) (es : List Entry) : World :=
  { w with
    connection := none
    mail := w.mail.map fun mail => MailUse.close.after lib mail
    trace := w.trace ++ es }

@[simp] theorem goOn_goOn (w : World) (c c' : QmqpRelayConnection) (es es' : List Entry) :
    (w.goOn c es).goOn c' es' = w.goOn c' (es ++ es') := by
  simp [goOn]

@[simp] theorem close_goOn (lib : Libcommon) (w : World) (c : QmqpRelayConnection)
    (es es' : List Entry) : (w.goOn c es).close lib es' = w.close lib (es ++ es') := by
  simp [goOn, close]

theorem goOn_self {w : World} {c : QmqpRelayConnection} (h : w.connection = some c) :
    w.goOn c [] = w := by
  cases w
  cases h
  simp [goOn]

theorem Holds.goOn {w : World} {c : QmqpRelayConnection} {mail : MutableMail}
    (h : w.Holds c mail) (es : List Entry) : (w.goOn c es).Holds c mail :=
  ⟨rfl, h.pointer, h.mail⟩

end World

variable {lib : Libcommon} {a : Answers} {w : World} {c : QmqpRelayConnection}
  {mail : MutableMail}

theorem note_apply (h : w.connection = some c) (e : Entry) :
    note e w = .ok () (w.goOn c [e]) := by
  cases w
  cases h
  rfl

theorem enter_apply (h : w.connection = some c) (member : Member) :
    enter member w = .ok () (w.goOn c [.entered member c.state c.mailPtr]) := by
  have alive : self.get w = some c := h
  rw [enter, Place.read_alive_bind alive, note_apply h]

theorem modify_apply (h : w.connection = some c) (f : QmqpRelayConnection → QmqpRelayConnection) :
    self.modify f w = .ok () (w.goOn (f c) []) := by
  have alive : self.get w = some c := h
  rw [Place.modify_alive alive, World.goOn, List.append_nil]
  rfl

theorem derefMail_apply {object : IncomingMail} (h : w.connection = some c)
    (pending : c.mailPtr = true) (mail : w.mail = some object) :
    derefMail w = .ok object w := by
  have alive : self.get w = some c := h
  rw [derefMail, Place.read_alive_bind alive, check_bind, if_pos pending, get_bind]
  simp only [mail]
  rfl

theorem log_apply (h : w.Holds c mail) (unlogged : c.state ≠ .ended) (pending : c.mailPtr = true)
    (text : Bytes) : log lib a text w = .ok ()
      (w.goOn (logged w.logSocket c) (logEntries lib a w.logSocket mail c text)) := by
  obtain ⟨object, points, rfl⟩ := h.mail pending
  have read (es : List Entry) : self.get (w.goOn c es) = some c := rfl
  rw [log, bind_ok (enter_apply h.alive _), pending, Place.read_alive_bind (read _), check_bind,
    if_pos unlogged, Place.read_alive_bind (read _), check_bind, if_pos pending, get_bind]
  by_cases socket : w.logSocket = true
  · have deref : derefMail (w.goOn c [.entered .log c.state true]) =
        .ok object (w.goOn c [.entered .log c.state true]) := derefMail_apply rfl pending points
    rw [if_pos (by exact socket), bind_ok deref, Place.read_alive_bind (read _),
      bind_ok (note_apply rfl _)]
    have ends (w : World) (h : w.connection = some c) : (do
        self.modify fun c => { c with state := .ended }
        self.modify fun c => { c with mailPtr := false } : Code World Unit) w =
        .ok () (w.goOn { c with state := .ended, mailPtr := false } []) := by
      rw [bind_ok (modify_apply h _), modify_apply rfl, World.goOn_goOn]
      rfl
    simp only [logEntries, logged, pending, socket, if_true, Bool.and_self]
    cases a.send with
    | ok _ => exact (ends _ rfl).trans (by simp)
    | error _ => exact (ends _ rfl).trans (by simp)
  · rw [if_neg (by exact socket)]
    simp only [logEntries, logged, pending, socket, if_true, Bool.and_false, Bool.false_eq_true,
      if_false]
    rfl

theorem logEntries_nil (h : c.mailPtr = false) (socket : Bool) (text : Bytes) :
    logEntries lib a socket mail c text = [] := by
  simp [logEntries, h]

theorem logged_self (h : c.mailPtr = false) (socket : Bool) : logged socket c = c := by
  simp [logged, h]

theorem World.Holds.unlogged (h : w.Holds c mail) (pending : c.mailPtr = true) :
    c.state ≠ .ended := by
  intro ended
  rw [h.pointer, ended] at pending
  cases pending

theorem World.Holds.logged (h : w.Holds c mail) (es : List Entry) :
    (w.goOn (logged w.logSocket c) es).Holds (logged w.logSocket c) mail := by
  rw [QmqpRelayConnection.logged]
  split_ifs with done
  · exact ⟨rfl, rfl, nofun⟩
  · exact h.goOn es

theorem logPending_bind {β : Type} (h : w.Holds c mail) (text : Bytes) (k : Unit → Code World β) :
    (self.read >>= fun c => if c.mailPtr = true then log lib a text >>= k else k ()) w =
      k () (w.goOn (logged w.logSocket c) (logEntries lib a w.logSocket mail c text)) := by
  rw [Place.read_alive_bind h.alive]
  by_cases pending : c.mailPtr = true
  · rw [if_pos pending, bind_ok (log_apply h (h.unlogged pending) pending text)]
  · have none : c.mailPtr = false := by simpa using pending
    rw [if_neg pending, logEntries_nil none, logged_self none, World.goOn_self h.alive]

theorem destructor_apply (h : w.Holds c mail) : destructor lib a w = .ok () (w.goOn
    { logged w.logSocket c with thread := false }
    (.entered .destructor c.state c.mailPtr ::
      logEntries lib a w.logSocket mail c (ascii "canceled"))) := by
  rw [destructor, bind_ok (enter_apply h.alive _)]
  refine ((logPending_bind (h.goOn _) _ _).trans (modify_apply rfl _)).trans ?_
  rw [World.goOn_goOn, World.goOn_goOn, List.append_nil]
  rfl

theorem delete_apply (h : w.Holds c mail) :
    delete lib a w = .ok () (w.close lib (deleteEntries lib a w.logSocket mail c)) := by
  rw [delete, bind_ok (destructor_apply h), modify_bind]
  simp only [note, Lib.modify_apply, World.goOn, World.close, deleteEntries, List.append_assoc]

theorem onDisconnect_apply (h : w.Holds c mail) : onDisconnect lib a w =
    .ok () (w.close lib (.entered .onDisconnect c.state c.mailPtr ::
      deleteEntries lib a w.logSocket mail c)) := by
  rw [onDisconnect, bind_ok (enter_apply h.alive _), delete_apply (h.goOn _), World.close_goOn]
  rfl

theorem onError_apply (h : w.Holds c mail) (e : Exception) :
    onError lib a e w = .ok () (w.close lib (errorEntries lib a w.logSocket mail c)) := by
  rw [onError, bind_ok (enter_apply h.alive _)]
  refine ((logPending_bind (h.goOn _) _ _).trans (delete_apply ((h.goOn _).logged _))).trans ?_
  rw [World.close_goOn, World.close_goOn]
  rfl

theorem sendResponse_apply (h : w.Holds c mail) (response : Bytes) :
    sendResponse lib a response w = match a.response with
      | .ok () => .ok true (w.goOn c [.response response])
      | .error _ => .ok false
          (w.close lib (.response response :: errorEntries lib a w.logSocket mail c)) := by
  rw [sendResponse, Place.read_alive_bind h.alive, bind_ok (note_apply h.alive _)]
  cases a.response with
  | ok _ => rfl
  | error e =>
    refine (bind_ok (onError_apply (h.goOn _) e)).trans ?_
    rw [World.close_goOn]
    rfl

/-- `Finish` deletes the connection, either itself or through `OnError`. -/
theorem finish_apply (h : w.Holds c mail) (started : c.state ≠ .init) (unended : c.state ≠ .ended)
    {response : Bytes} (some : response ≠ []) : finish lib a response w =
      .ok () (w.close lib (finishEntries lib a w.logSocket mail c response)) := by
  have read (es : List Entry) : self.get (w.goOn c es) = .some c := rfl
  rw [finish, bind_ok (enter_apply h.alive _), Place.read_alive_bind (read _),
    Place.read_alive_bind (read _), check_bind, if_pos ⟨started, unended⟩, check_bind, if_pos some]
  refine (logPending_bind (h.goOn _) _ _).trans ?_
  have sent := @sendResponse_apply lib a _ _ _ ((h.goOn [.entered .finish c.state c.mailPtr]).logged
    (logEntries lib a w.logSocket mail c (response.drop 1))) response
  cases written : a.response with
  | ok _ =>
    rw [written] at sent
    refine ((bind_ok sent).trans (delete_apply (((h.goOn _).logged _).goOn _))).trans ?_
    simp only [World.close_goOn, finishEntries, responseEntries, written]
    rfl
  | error e =>
    rw [written] at sent
    refine (bind_ok sent).trans ?_
    simp only [World.close_goOn, finishEntries, responseEntries, written]
    rfl

end QmqpRelayConnection

end Qrelay
