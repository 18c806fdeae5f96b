import Qrelay.Submissions
import Qrelay.Lib.Abstraction

/-! What a submission comes to, without the objects, callbacks, state variable
and log of Connection.cxx. The connection follows this outline in every run,
and the log has no part in it. -/

namespace Qrelay
open Lib Lib.Decimal
namespace QmqpRelayConnection

inductive Outline where
  /-- The request has not come yet. -/
  | waiting
  /-- The handler has the mail. -/
  | deciding (mail : IncomingMail) (suspended : Bool)
  | relaying (action : LuaAction) (relay : Relay)
  | ended (action : Option LuaAction) (response : Option Bytes)

namespace Outline

section Code

variable (lib : Libcommon) (peerAuth : SocketPeerAuth) (a : Answers)

def reacted (action : LuaAction) : Reaction Relay Callback → Outline
  | .stay relay => relaying action relay
  | .finish _ callback | .linger _ callback => ended (some action) (some callback.bytes)

def start (action : LuaAction) (mail : MutableMail) (headers : List (StringView Storage)) :
    Option RelayCall :=
  match h : action.type with
  | .connect => some (.remote (.new lib mail headers) (.start a.connect))
  | .exec => some (.exec (.new lib mail headers) (.start action h a.spawn))
  | .execRaw => some (.rawExec (.new mail headers) (.start action h a.spawn a.write))
  | .undefined | .discard | .reject => none

def acted (action : LuaAction) (mail : MutableMail) : Outline :=
  match start lib a action mail (mail.headerViews ++ receivedView lib peerAuth) with
  | some call => reacted action (call.react lib)
  | none => ended (some action)
      (some (if action.type = .discard then ascii "Kdiscarded" else ascii "Drejected"))

def decided (step : HandlerStep) (mail : IncomingMail) : Outline :=
  let mail := step.uses.foldl (MailUse.after lib) mail
  match step.outcome with
  | .suspended => deciding mail true
  | .returned (some action) => acted lib peerAuth a action mail.toMutableMail
  | .returned none | .failed _ => ended none (some (ascii "Zscript failed"))

def received (payload : Buffer) (step : HandlerStep) : Outline :=
  match (MutableMail.new payload).parse lib with
  | .ok (.success, mail) => decided lib peerAuth a step { toMutableMail := mail.stripMessage lib }
  | .ok (.malformed, _) => ended none (some (ascii "Dmalformed input"))
  | .ok (.badAddress, _) => ended none (some (ascii "Dbad address"))
  | .ok (.tooManyRecipients, _) => ended none (some (ascii "Dtoo many recipients"))
  | .error _ => ended none none

def returns (step : HandlerStep) (mail : IncomingMail) : Option (LuaAction × IncomingMail) :=
  match step.outcome with
  | .returned (some action) => some (action, step.uses.foldl (MailUse.after lib) mail)
  | _ => none

/-- The action and the mail that `Do` gets in this event. -/
def does (e : Event) (o : Outline) : Option (LuaAction × IncomingMail) :=
  match e, o with
  | .request payload step, waiting =>
    match (MutableMail.new payload).parse lib with
    | .ok (.success, mail) => returns lib step { toMutableMail := mail.stripMessage lib }
    | _ => none
  | .resume step, deciding mail true => returns lib step mail
  | _, _ => none

end Code

def lost : Outline → Outline
  | relaying action _ => ended (some action) none
  | ended action response => ended action response
  | _ => ended none none

def next (lib : Libcommon) (peerAuth : SocketPeerAuth) (e : Event × Answers) (o : Outline) :
    Outline :=
  match e.1, o with
  | .request payload step, waiting => received lib peerAuth e.2 payload step
  | .resume step, deciding mail true => decided lib peerAuth e.2 step mail
  | .mail use, deciding mail suspended => deciding (use.after lib mail) suspended
  | .relay e, relaying action relay =>
    match relay.call e with
    | some call => reacted action (call.react lib)
    | none => o
  | .relayTimeout, relaying action _ =>
    if 0 < action.timeout then ended (some action) (some (ascii "Ztimeout")) else o
  | .disconnect, o | .error _, o => lost o
  | _, o => o

theorem next_ended (lib : Libcommon) (peerAuth : SocketPeerAuth) (e : Event × Answers)
    (action : Option LuaAction) (response : Option Bytes) :
    next lib peerAuth e (ended action response) = ended action response := by
  obtain ⟨e, a⟩ := e
  cases e <;> rfl

theorem decided_returns {lib : Libcommon} {peerAuth : SocketPeerAuth} {a : Answers}
    {step : HandlerStep} {before mail : IncomingMail} {action : LuaAction}
    (returned : returns lib step before = some (action, mail)) :
    decided lib peerAuth a step before = acted lib peerAuth a action mail.toMutableMail := by
  rw [returns] at returned
  split at returned <;> cases returned
  simp only [decided, ‹step.outcome = _›]

theorem next_does {lib : Libcommon} {peerAuth : SocketPeerAuth} {o : Outline}
    {action : LuaAction} {mail : IncomingMail} (e : Event × Answers)
    (acts : o.does lib e.1 = some (action, mail)) :
    o.next lib peerAuth e = acted lib peerAuth e.2 action mail.toMutableMail := by
  obtain ⟨e, a⟩ := e
  cases o with
  | waiting =>
    cases e with
    | request payload step =>
      rw [does] at acts
      split at acts
      · simp only [next, received, ‹MutableMail.parse lib _ = _›]
        exact decided_returns acts
      · cases acts
    | _ => cases acts
  | deciding before suspended =>
    cases e with
    | resume step =>
      cases suspended with
      | false => cases acts
      | true => exact decided_returns acts
    | _ => cases acts
  | relaying | ended => cases e <;> cases acts

end Outline

/-- What the world of a connection has of an outline. -/
def Shows (peerAuth : SocketPeerAuth) (w : World) : Outline → Prop
  | .waiting => ∃ c, w.connection = some c ∧ c.peerAuth = peerAuth ∧ c.state = .init ∧
      actions w.trace = []
  | .deciding mail suspended => ∃ c, w.connection = some c ∧ c.peerAuth = peerAuth ∧
      c.state = .lua ∧ c.thread = suspended ∧ w.mail = some mail ∧ actions w.trace = []
  | .relaying action relay => ∃ c, w.connection = some c ∧ c.peerAuth = peerAuth ∧
      c.state = .relaying ∧ c.relayOperation = some relay ∧
      c.relayTimeout = (if 0 < action.timeout then some action.timeout else none) ∧
      actions w.trace = [action]
  | .ended action response => w.connection = none ∧ actions w.trace = action.toList ∧
      responses w.trace = response.toList ∧ ∀ mail, w.mail = some mail → mail.stale = true

abbrev Follows (lib : Libcommon) (peerAuth : SocketPeerAuth) :
    Outline → Outcome World Unit → Prop :=
  Reaches (Outline.next lib peerAuth) (Shows peerAuth)

theorem warrants_ne_nil {kind : Action.Kind} {es : List RelayEvent} {response : Bytes}
    (h : Warrants kind es response) : response ≠ [] := by
  rintro rfl
  exact h.code.elim nofun fun h => h.elim nofun nofun

variable {lib : Libcommon} {a : Answers} {logging : Bool} {peerAuth : SocketPeerAuth} {w : World}
  {c : QmqpRelayConnection} {action : Option LuaAction}

section Ending

variable (h : Open logging w c) (acted : actions w.trace = action.toList)
include h acted

theorem follows_close {response : Option Bytes} {es : List Entry}
    (closing : ∀ e ∈ es, e.closing = true) (given : responses es = response.toList)
    {o : Outcome World Unit} (eq : o = .ok () (w.close lib es)) :
    Follows lib peerAuth (.ended action response) o := by
  rw [eq]
  refine ⟨rfl, ?_, ?_, fun mail eq => ?_⟩
  · rw [World.close, actions_closing closing, acted]
  · rw [World.close, responses_append, h.unanswered, given, List.nil_append]
  · obtain ⟨before, -, rfl⟩ := Option.map_eq_some_iff.mp eq
    rfl

theorem finish_follows (started : c.state ≠ .init) (unended : c.state ≠ .ended) {response : Bytes}
    (nonempty : response ≠ []) :
    Follows lib peerAuth (.ended action (some response)) (finish lib a response w) := by
  obtain ⟨mail, holds⟩ := h.holds
  refine follows_close h acted (finishEntries_ends _ h.pointer response).closing ?_
    (finish_apply holds started unended nonempty)
  obtain ⟨pre, post, eq, before, after, -⟩ :=
    @finishEntries_split lib a c mail w.logSocket response
  rw [eq, responses_append, before]
  exact congrArg (response :: ·) after

theorem onError_follows (e : Exception) :
    Follows lib peerAuth (.ended action none) (onError lib a e w) := by
  obtain ⟨mail, holds⟩ := h.holds
  exact follows_close h acted (errorEntries_ends _ h.pointer).closing (errorEntries_responses _)
    (onError_apply holds e)

theorem onDisconnect_follows :
    Follows lib peerAuth (.ended action none) (onDisconnect lib a w) := by
  obtain ⟨mail, holds⟩ := h.holds
  have none : responses (.entered .onDisconnect c.state c.mailPtr ::
      deleteEntries lib a w.logSocket mail c) = [] := deleteEntries_responses _
  exact follows_close h acted (disconnect_ends _ h.pointer).closing none (onDisconnect_apply holds)

theorem onLuaError_follows (state : c.state = .lua) (e : Exception) :
    Follows lib peerAuth (.ended action (some (ascii "Zscript failed")))
      (onLuaError lib a e w) := by
  have read (es : List Entry) : self.get (w.goOn c es) = some c := rfl
  have pending : c.mailPtr = true := by rw [h.pointer, state]; rfl
  rw [onLuaError, bind_ok (enter_apply h.alive _), Place.read_alive_bind (read _), check_bind,
    if_pos state, Place.read_alive_bind (read _), check_bind, if_pos pending]
  refine finish_follows (h.enter .onLuaError (by decide)) ?_ (by simp [state]) (by simp [state])
    (by decide)
  rw [World.goOn, actions_closing (by simp [Entry.closing]), acted]

theorem relayHandler_follows (state : c.state = .relaying) {callback : Callback}
    (nonempty : callback.bytes ≠ []) : Follows lib peerAuth (.ended action (some callback.bytes))
      ((relayHandler lib a).call callback w) := by
  have acted' (member : Member) :
      actions (w.trace ++ [.entered member c.state c.mailPtr]) = action.toList := by
    rw [actions_closing (by simp [Entry.closing]), acted]
  cases callback with
  | response response =>
    have called : (relayHandler lib a).call (.response response) w = _ :=
      bind_ok (enter_apply h.alive .onRelayResponse)
    rw [called]
    exact finish_follows (h.enter .onRelayResponse (by decide)) (acted' _) (by simp [state])
      (by simp [state]) nonempty
  | error response e =>
    have called : (relayHandler lib a).call (.error response e) w = _ :=
      bind_ok (enter_apply h.alive .onRelayError)
    rw [called]
    exact finish_follows (h.enter .onRelayError (by decide)) (acted' _) (by simp [state])
      (by simp [state]) nonempty

end Ending

section Relaying

variable {action : LuaAction}

/-- A call of the relay's class leads to what the reaction of the relay says. -/
theorem relay_follows {call : RelayCall} (h : Open logging w c) (auth : c.peerAuth = peerAuth)
    (state : c.state = .relaying) (operation : c.relayOperation = some call.relay)
    (timeout : c.relayTimeout = if 0 < action.timeout then some action.timeout else none)
    (acted : actions w.trace = [action]) (valid : call.relay.Valid)
    (meets : (call.react lib).Meets (fun _ => True) fun callback => callback.bytes ≠ []) :
    Follows lib peerAuth (.reacted action (call.react lib))
      (call.code lib relayPlace (relayHandler lib a) w) := by
  have alive : relayPlace.get w = some call.relay := by
    simp [relayPlace, Place.part, self, h.alive, relayOperationPart, operation]
  have set (r : Relay) : relayPlace.set r w = w.goOn { c with relayOperation := some r } [] := by
    simp [relayPlace, Place.part, self, h.alive, relayOperationPart, operation, World.goOn]
  have performs := @RelayCall.code_performs lib _ relayPlace (relayHandler lib a) w call alive valid
  have opened (r : Relay) :
      Open logging (relayPlace.set r w) { c with relayOperation := some r } := by
    rw [set]
    exact h.change rfl rfl
  have same (r : Relay) : actions (relayPlace.set r w).trace = (some action).toList := by
    rw [set, World.goOn, List.append_nil, acted]
    rfl
  cases reaction : call.react lib with
  | stay r =>
    rw [reaction] at performs
    rw [performs]
    exact ⟨_, (opened r).alive, auth, state, rfl, timeout, same r⟩
  | finish r callback =>
    rw [reaction] at performs meets
    rw [performs]
    exact relayHandler_follows (opened r) (same r) state meets
  | linger r callback =>
    rw [reaction] at performs meets
    obtain ⟨rest, needs, eq⟩ := performs
    have ends :=
      @relayHandler_follows lib a _ peerAuth _ _ _ (opened r) (same r) state callback meets
    rw [eq]
    cases called : (relayHandler lib a).call callback (relayPlace.set r w) with
    | ok _ w' =>
      rw [called] at ends
      have dead : relayPlace.get w' = none := by
        simp [relayPlace, Place.part, self, ends.1]
      rw [bind_ok called, needs w' dead]
      exact ⟨ends, fun e => Outline.next_ended lib peerAuth e _ _⟩
    | error f w' =>
      rw [called] at ends
      rw [bind_error called]
      exact ends

theorem startRelay_apply {mail : MutableMail} {create : List (StringView Storage) → RelayCall}
    (alive : w.connection = some c) : startRelay lib a action mail create w =
      let call := create (mail.headerViews ++ receivedView lib c.peerAuth)
      call.code lib relayPlace (relayHandler lib a) (w.goOn { c with
        relayTimeout := timeoutAfter action c, receivedBuffer := receivedHeader lib c.peerAuth,
        relayOperation := some call.relay } []) := by
  have scheduled := scheduleTimeout_apply alive action
  set timeout := timeoutAfter action c
  have assembled :=
    @assembleHeaders_apply lib (w.goOn { c with relayTimeout := timeout } []) _ rfl mail
  rw [startRelay, bind_ok scheduled, bind_ok assembled, World.goOn_goOn,
    bind_ok (modify_apply rfl _), World.goOn_goOn]
  rfl

theorem startRelay_follows {mail : MutableMail} {create : List (StringView Storage) → RelayCall}
    (h : Open logging w c) (auth : c.peerAuth = peerAuth) (state : c.state = .relaying)
    (timeout : c.relayTimeout = none) (acted : actions w.trace = [action])
    (starts : ∀ headers, (create headers).Starts) :
    Follows lib peerAuth (.reacted action
      ((create (mail.headerViews ++ receivedView lib peerAuth)).react lib))
      (startRelay lib a action mail create w) := by
  rw [startRelay_apply h.alive, ← auth]
  refine relay_follows (h.change rfl rfl) rfl state rfl ?_ ?_ (starts _).valid ?_
  · rw [timeoutAfter, timeout]
  · rw [World.goOn, List.append_nil, acted]
  · exact (start_warranted (starts _)).mono (fun _ _ => trivial) fun _ => warrants_ne_nil

section Start

variable {mail : MutableMail} {headers : List (StringView Storage)}

theorem start_connect (type : action.type = .connect) : Outline.start lib a action mail headers =
    some (.remote (.new lib mail headers) (.start a.connect)) := by
  rw [Outline.start]
  split <;> first | rfl | exact absurd (type.symm.trans ‹_›) (by decide)

theorem start_exec (type : action.type = .exec) : Outline.start lib a action mail headers =
    some (.exec (.new lib mail headers) (.start action type a.spawn)) := by
  rw [Outline.start]
  split <;> first | rfl | exact absurd (type.symm.trans ‹_›) (by decide)

theorem start_execRaw (type : action.type = .execRaw) : Outline.start lib a action mail headers =
    some (.rawExec (.new mail headers) (.start action type a.spawn a.write)) := by
  rw [Outline.start]
  split <;> first | rfl | exact absurd (type.symm.trans ‹_›) (by decide)

theorem start_none (type : action.type = .discard ∨ action.type = .reject) :
    Outline.start lib a action mail headers = none := by
  rw [Outline.start]
  split <;> first | rfl | simp_all

end Start

theorem doAction_follows {mail : MutableMail} (h : Open logging w c) (auth : c.peerAuth = peerAuth)
    (state : c.state = .lua) (timeout : c.relayTimeout = none)
    (acted : actions w.trace = [action]) :
    Follows lib peerAuth (.acted lib peerAuth a action mail) (doAction lib a action mail w) := by
  have pending : c.mailPtr = true := by rw [h.pointer, state]; rfl
  have same : actions (w.trace ++ []) = (some action).toList := by rw [List.append_nil, acted]; rfl
  have refuse {response : Bytes} (nonempty : response ≠ []) :
      Follows lib peerAuth (.ended (some action) (some response)) ((do
        self.modify fun c => { c with state := .notRelaying }
        finish lib a response : Code World Unit) w) := by
    rw [bind_ok (modify_apply h.alive _)]
    have opened : Open logging (w.goOn { c with state := .notRelaying } [])
        { c with state := .notRelaying } :=
      h.goOn rfl pending nofun nofun (fun _ => rfl) (.inr rfl) nofun
    exact finish_follows opened same nofun nofun nonempty
  have relay (relays : Relays action) {create : List (StringView Storage) → RelayCall}
      (starts : ∀ headers, (create headers).Starts) : Follows lib peerAuth (.reacted action
        ((create (mail.headerViews ++ receivedView lib peerAuth)).react lib)) ((do
        self.modify fun c => { c with state := .relaying }
        startRelay lib a action mail create : Code World Unit) w) := by
    rw [bind_ok (modify_apply h.alive _)]
    have opened : Open logging (w.goOn { c with state := .relaying } [])
        { c with state := .relaying } :=
      h.goOn rfl pending nofun nofun (fun _ => rfl) (.inr rfl) fun _ => ⟨action, same, relays⟩
    exact startRelay_follows opened auth rfl timeout same starts
  generalize run : doAction lib a action mail = code
  rw [doAction] at run
  split at run
  · exact absurd ‹action.type = .undefined› action.defined
  · rw [← run, Outline.acted, start_none (.inl ‹_›)]
    simp only [‹action.type = _›]
    exact refuse (by decide)
  · rw [← run, Outline.acted, start_none (.inr ‹_›)]
    simp only [‹action.type = _›]
    exact refuse (by decide)
  · rw [← run, Outline.acted, start_connect ‹_›]
    exact relay (.inl ‹_›) fun _ => trivial
  · rw [← run, Outline.acted, start_exec ‹_›]
    exact relay (.inr (.inl ‹_›)) fun _ => rfl
  · rw [← run, Outline.acted, start_execRaw ‹_›]
    exact relay (.inr (.inr ‹_›)) fun _ => (by decide : 1 ≤ 256)

end Relaying

section Deciding

variable {mail : IncomingMail}

theorem onLuaFinished_apply (h : Open logging w c) (state : c.state = .lua)
    (object : w.mail = some mail) (action : LuaAction) : ∃ w', Open logging w' c ∧
      w'.trace = w.trace ++ [.entered .onLuaFinished c.state c.mailPtr, .acted action] ∧
      w'.mail = w.mail ∧ w'.requested = w.requested ∧
      onLuaFinished lib a (some action) w = doAction lib a action mail.toMutableMail w' := by
  have read (es : List Entry) : self.get (w.goOn c es) = some c := rfl
  have pending : c.mailPtr = true := by rw [h.pointer, state]; rfl
  have deref : derefMail (w.goOn c [.entered .onLuaFinished c.state c.mailPtr]) =
      .ok mail (w.goOn c [.entered .onLuaFinished c.state c.mailPtr]) :=
    derefMail_apply rfl pending object
  have acted : Open logging ((w.goOn c [.entered .onLuaFinished c.state c.mailPtr]).goOn c
      [.acted action]) c :=
    (h.enter .onLuaFinished (by decide)).goOn rfl h.pointer (by simp [Entry.plain])
      (by simp [Observed]) (fun _ => rfl) (.inl pending) fun relaying => by simp [state] at relaying
  refine ⟨_, acted, by simp [World.goOn], rfl, rfl, ?_⟩
  unfold onLuaFinished
  rw [bind_ok (enter_apply h.alive _), Place.read_alive_bind (read _), check_bind,
    if_pos state, Place.read_alive_bind (read _), check_bind, if_pos pending]
  exact (bind_ok deref).trans (bind_ok (note_apply rfl _))

theorem onLuaFinished_follows (h : Open logging w c) (auth : c.peerAuth = peerAuth)
    (state : c.state = .lua) (timeout : c.relayTimeout = none) (idle : actions w.trace = [])
    (object : w.mail = some mail) (action : LuaAction) :
    Follows lib peerAuth (.acted lib peerAuth a action mail.toMutableMail)
      (onLuaFinished lib a (some action) w) := by
  obtain ⟨w', acted, trace, -, -, does⟩ := @onLuaFinished_apply lib a _ _ _ _ h state object action
  rw [does]
  refine doAction_follows acted auth state timeout ?_
  rw [actions] at idle
  simp [trace, actions, idle]

theorem onLuaFinished_none (h : Open logging w c) (state : c.state = .lua)
    (idle : actions w.trace = []) :
    Follows lib peerAuth (.ended none (some (ascii "Zscript failed")))
      (onLuaFinished lib a none w) := by
  have read (es : List Entry) : self.get (w.goOn c es) = some c := rfl
  have pending : c.mailPtr = true := by rw [h.pointer, state]; rfl
  unfold onLuaFinished
  rw [bind_ok (enter_apply h.alive _), Place.read_alive_bind (read _), check_bind,
    if_pos state, Place.read_alive_bind (read _), check_bind, if_pos pending]
  refine onLuaError_follows (h.enter .onLuaFinished (by decide)) ?_ state _
  rw [World.goOn, actions_closing (by simp [Entry.closing]), idle]
  rfl

theorem resume_follows (h : Handling logging w c) (auth : c.peerAuth = peerAuth)
    (object : w.mail = some mail) (step : HandlerStep) :
    Follows lib peerAuth (.decided lib peerAuth a step mail) (resume lib a step w) := by
  have used := h.opened.useMail fun mail => step.uses.foldl (MailUse.after lib) mail
  have idle : actions (w.trace ++ []) = [] := by rw [List.append_nil, h.idle]
  have after : w.mail.map (fun mail => step.uses.foldl (MailUse.after lib) mail) =
      some (step.uses.foldl (MailUse.after lib) mail) := by rw [object, Option.map_some]
  have changed (thread : Bool) := @Open.change _ _ _ { c with thread } used rfl rfl
  rw [resume, modify_bind, Outline.decided]
  cases step.outcome with
  | suspended =>
    refine (congrArg (Follows lib peerAuth _) (modify_apply used.alive _)).mpr ?_
    exact ⟨_, rfl, auth, h.state, rfl, after, idle⟩
  | returned action =>
    refine (congrArg (Follows lib peerAuth _) (bind_ok (modify_apply used.alive _))).mpr ?_
    cases action with
    | some action =>
      exact onLuaFinished_follows (changed false) auth h.state h.timeout idle after action
    | none => exact onLuaFinished_none (changed false) h.state idle
  | failed e =>
    refine (congrArg (Follows lib peerAuth _) (bind_ok (modify_apply used.alive _))).mpr ?_
    have none : actions (w.trace ++ []) = (none : Option LuaAction).toList := idle
    exact onLuaError_follows (changed false) none h.state e

theorem Open.received (h : Open logging w c) (state : c.state = .init)
    (result : QmqpMail.ParseResult) :
    Open logging ((w.goOn c [.entered .onRequest c.state c.mailPtr]).goOn
      { c with state := .received } [.parsed result]) { c with state := .received } :=
  (h.enter .onRequest (by decide)).goOn rfl (by rw [h.pointer, state]; rfl) (by simp [Entry.plain])
    (by simp [Observed]) (fun some => by rw [h.pointer, state] at some; cases some)
    (.inr rfl) (fun relaying => by cases relaying)

section Request

variable (h : Open logging w c) (state : c.state = .init) {payload : Buffer} {step : HandlerStep}
  {parsedMail : MutableMail}

include h state

theorem onRequest_apply (result : QmqpMail.ParseResult) :
    (MutableMail.new payload).parse lib = .ok (result, parsedMail) →
    onRequest lib a payload step w = (match result with
    | .malformed => finish lib a (ascii "Dmalformed input")
    | .badAddress => finish lib a (ascii "Dbad address")
    | .tooManyRecipients => finish lib a (ascii "Dtoo many recipients")
    | .success => do
      check ((← self.read).state = .received) .assertion
      modify fun w => { w with mail := some { toMutableMail := parsedMail.stripMessage lib } }
      self.modify fun c => { c with mailPtr := true }
      self.modify fun c => { c with state := .lua }
      note .handler
      resume lib a step : Code World Unit) ((w.goOn c
        [.entered .onRequest c.state c.mailPtr]).goOn
        { c with state := .received } [.parsed result]) := by
  intro parsed
  have read (es : List Entry) : self.get (w.goOn c es) = some c := rfl
  have noted : note (.parsed result) ((w.goOn c [.entered .onRequest c.state c.mailPtr]).goOn
      { c with state := .received } []) = .ok () ((w.goOn c
        [.entered .onRequest c.state c.mailPtr]).goOn { c with state := .received }
        [.parsed result]) := by
    rw [note_apply rfl, World.goOn_goOn]
    rfl
  unfold onRequest
  rw [bind_ok (enter_apply h.alive _), Place.read_alive_bind (read _), check_bind, if_pos state,
    bind_ok (modify_apply rfl _), parsed]
  exact bind_ok noted

theorem onRequest_resumes
    (parsed : (MutableMail.new payload).parse lib = .ok (.success, parsedMail))
    (requested : w.requested = true) (operation : c.relayOperation = none)
    (timeout : c.relayTimeout = none) (unparsed : parses w.trace = [])
    (idle : actions w.trace = []) (silent : events w.trace = []) :
    ∃ w' c', Handling logging w' c' ∧ c'.peerAuth = c.peerAuth ∧
      w'.mail = some { toMutableMail := parsedMail.stripMessage lib } ∧
      onRequest lib a payload step w = resume lib a step w' := by
  have mailed := handling_of_received (h.received state .success) (parsedMail.stripMessage lib) rfl
    requested operation timeout (by rw [parses] at unparsed; simp [World.goOn, parses, unparsed])
    (by rw [actions] at idle; simp [World.goOn, actions, idle])
    (by rw [events] at silent; simp [World.goOn, events, silent])
  refine ⟨_, _, mailed, rfl, rfl, (onRequest_apply h state _ parsed).trans ?_⟩
  refine (Place.read_alive_bind rfl _).trans ?_
  rw [check_bind, if_pos rfl, modify_bind, bind_ok (modify_apply rfl _),
    bind_ok (modify_apply rfl _), bind_ok (note_apply rfl _)]
  simp only [World.goOn_goOn, List.append_nil, List.nil_append]

end Request

theorem onRequest_follows (h : Open logging w c) (auth : c.peerAuth = peerAuth)
    (state : c.state = .init) (requested : w.requested = true)
    (operation : c.relayOperation = none) (timeout : c.relayTimeout = none)
    (unparsed : parses w.trace = []) (idle : actions w.trace = []) (silent : events w.trace = [])
    (payload : Buffer) (step : HandlerStep) :
    Follows lib peerAuth (.received lib peerAuth a payload step)
      (onRequest lib a payload step w) := by
  obtain ⟨result, mail, parsed⟩ := MutableMail.parse_total lib payload
  have reject {response : Bytes} (nonempty : response ≠ []) :
      Follows lib peerAuth (.ended none (some response)) (finish lib a response ((w.goOn c
        [.entered .onRequest c.state c.mailPtr]).goOn
        { c with state := .received } [.parsed result])) := by
    refine finish_follows (h.received state result) ?_ (by simp) (by simp) nonempty
    rw [actions] at idle
    simp [World.goOn, actions, idle]
  rw [Outline.received, parsed]
  cases result with
  | malformed =>
    rw [onRequest_apply h state _ parsed]
    exact reject (by decide)
  | badAddress =>
    rw [onRequest_apply h state _ parsed]
    exact reject (by decide)
  | tooManyRecipients =>
    rw [onRequest_apply h state _ parsed]
    exact reject (by decide)
  | success =>
    obtain ⟨w', c', mailed, same, object, resumes⟩ := @onRequest_resumes lib a _ _ _ h state _ step
      _ parsed requested operation timeout unparsed idle silent
    rw [resumes]
    exact resume_follows mailed (same.trans auth) object step

end Deciding

theorem relayEvent_follows {action : LuaAction} {relay : Relay} {e : RelayEvent} {call : RelayCall}
    (h : Open logging w c) (auth : c.peerAuth = peerAuth) (state : c.state = .relaying)
    (operation : c.relayOperation = some relay)
    (timeout : c.relayTimeout = if 0 < action.timeout then some action.timeout else none)
    (acted : actions w.trace = [action]) (knows : relay.Knows (events w.trace))
    (eq : relay.call e = some call) : Follows lib peerAuth (.reacted action (call.react lib))
      ((do
        note (.relay e)
        call.code lib relayPlace (relayHandler lib a) : Code World Unit) w) := by
  obtain ⟨rfl, meets⟩ := @react_warranted lib _ _ e call knows eq
  have acted' : actions (w.trace ++ [.relay e]) = [action] := by
    rw [actions] at acted
    simp [actions, acted]
  have opened : Open logging (w.goOn c [.relay e]) c :=
    h.keep rfl rfl (by simp [Entry.plain]) (by simp [Observed]) rfl (acted'.trans acted.symm)
  rw [bind_ok (note_apply h.alive _)]
  exact relay_follows opened auth state operation timeout acted' knows.valid
    (meets.mono (fun _ _ => trivial) fun _ => warrants_ne_nil)

theorem onRelayTimeout_follows (h : Open logging w c) (state : c.state = .relaying)
    (acted : actions w.trace = action.toList) :
    Follows lib peerAuth (.ended action (some (ascii "Ztimeout"))) (onRelayTimeout lib a w) := by
  rw [onRelayTimeout, bind_ok (enter_apply h.alive _)]
  refine finish_follows (h.enter .onRelayTimeout (by decide)) ?_ (by simp [state]) (by simp [state])
    (by decide)
  rw [World.goOn, actions_closing (by simp [Entry.closing]), acted]

theorem waiting_follows (stable : Stable logging w) (shows : Shows peerAuth w .waiting)
    (e : Event) :
    Follows lib peerAuth (.next lib peerAuth (e, a) .waiting) (step lib (e, a) w) := by
  obtain ⟨c, alive, auth, state, idle⟩ := id shows
  obtain ⟨h, phase⟩ := stable.living alive
  rw [Phase, state] at phase
  obtain ⟨unrequested, thread, operation, timeout, unparsed, -, silent⟩ := phase
  have none : actions w.trace = (none : Option LuaAction).toList := idle
  rw [step, alive]
  cases e with
  | request payload step =>
    simp only [handle, get_bind, unrequested]
    exact onRequest_follows h.request auth state rfl operation timeout unparsed idle silent
      payload step
  | resume step =>
    simp only [handle, thread]
    exact shows
  | relay e =>
    simp only [handle, operation]
    exact shows
  | relayTimeout =>
    simp only [handle, timeout]
    exact shows
  | disconnect => exact onDisconnect_follows h none
  | error e => exact onError_follows h none e
  | mail use => exact shows

theorem deciding_follows {mail : IncomingMail} {suspended : Bool} (stable : Stable logging w)
    (shows : Shows peerAuth w (.deciding mail suspended)) (e : Event) :
    Follows lib peerAuth (.next lib peerAuth (e, a) (.deciding mail suspended))
      (step lib (e, a) w) := by
  obtain ⟨c, alive, auth, state, thread, object, idle⟩ := id shows
  obtain ⟨h, phase⟩ := stable.living alive
  rw [Phase, state] at phase
  obtain ⟨requested, operation, timeout, -, silent⟩ := phase
  have none : actions w.trace = (none : Option LuaAction).toList := idle
  rw [step, alive]
  cases e with
  | request payload step =>
    simp only [handle, get_bind, requested]
    exact shows
  | resume step =>
    simp only [handle]
    cases suspended with
    | false =>
      rw [if_neg (by simp [thread])]
      exact shows
    | true =>
      rw [if_pos thread]
      exact resume_follows ⟨h, state, requested, operation, timeout, idle, silent⟩ auth object step
  | relay e =>
    simp only [handle, operation]
    exact shows
  | relayTimeout =>
    simp only [handle, timeout]
    exact shows
  | disconnect => exact onDisconnect_follows h none
  | error e => exact onError_follows h none e
  | mail use =>
    exact ⟨c, alive, auth, state, thread, congrArg (Option.map (use.after lib)) object, idle⟩

structure Doing (logging : Bool) (w : World) (c : QmqpRelayConnection) (action : LuaAction) :
    Prop where
  opened : Open logging w c
  state : c.state = .lua
  requested : w.requested = true
  thread : c.thread = false
  timeout : c.relayTimeout = none
  acted : actions w.trace = [action]
  silent : events w.trace = []

section Does

variable {action : LuaAction} {mail mail' : IncomingMail}

theorem onLuaFinished_does (h : Handling logging w c) (thread : c.thread = false)
    (object : w.mail = some mail) :
    ∃ w', Doing logging w' c action ∧ w'.mail = some mail ∧
      onLuaFinished lib a (some action) w = doAction lib a action mail.toMutableMail w' := by
  obtain ⟨w', opened, trace, same, requested, does⟩ :=
    @onLuaFinished_apply lib a _ _ _ _ h.opened h.state object action
  refine ⟨w', ⟨opened, h.state, requested.trans h.requested, thread, h.timeout, ?_, ?_⟩,
    same.trans object, does⟩
  · have idle := h.idle
    rw [actions] at idle
    simp [trace, actions, idle]
  · have silent := h.silent
    rw [events] at silent
    simp [trace, events, silent]

theorem resume_does (h : Handling logging w c) (object : w.mail = some mail) {step : HandlerStep}
    (returns : Outline.returns lib step mail = some (action, mail')) :
    ∃ w' c', Doing logging w' c' action ∧ c'.peerAuth = c.peerAuth ∧ w'.mail = some mail' ∧
      resume lib a step w = doAction lib a action mail'.toMutableMail w' := by
  have used := h.opened.useMail fun mail => step.uses.foldl (MailUse.after lib) mail
  have changed := @Open.change _ _ _ { c with thread := false } used rfl rfl
  have idle : actions (w.trace ++ []) = [] := by rw [List.append_nil, h.idle]
  have silent : events (w.trace ++ []) = [] := by rw [List.append_nil, h.silent]
  have after : w.mail.map (fun mail => step.uses.foldl (MailUse.after lib) mail) =
      some (step.uses.foldl (MailUse.after lib) mail) := by rw [object, Option.map_some]
  rw [Outline.returns] at returns
  split at returns
  · cases returns
    obtain ⟨w', doing, same, does⟩ := @onLuaFinished_does lib a _ _ _ action _
      ⟨changed, h.state, h.requested, h.operation, h.timeout, idle, silent⟩ rfl after
    refine ⟨w', _, doing, rfl, same, ?_⟩
    rw [resume, modify_bind, ‹step.outcome = _›]
    exact (bind_ok (modify_apply used.alive _)).trans does
  · cases returns

theorem step_does {o : Outline} {e : Event} (stable : Stable logging w)
    (shows : Shows peerAuth w o) (does : o.does lib e = some (action, mail)) :
    ∃ w' c, Doing logging w' c action ∧ c.peerAuth = peerAuth ∧ w'.mail = some mail ∧
      step lib (e, a) w = doAction lib a action mail.toMutableMail w' := by
  cases o with
  | waiting =>
    obtain ⟨c, alive, auth, state, idle⟩ := id shows
    obtain ⟨h, phase⟩ := stable.living alive
    rw [Phase, state] at phase
    obtain ⟨unrequested, thread, operation, timeout, unparsed, -, silent⟩ := phase
    cases e with
    | request payload step =>
      rw [Outline.does] at does
      split at does
      · obtain ⟨w', c', handling, same, object, resumes⟩ := @onRequest_resumes lib a _ _ _
          h.request state _ step _ ‹_› rfl operation timeout unparsed idle silent
        obtain ⟨w'', c'', doing, same', object', done⟩ :=
          @resume_does lib a _ _ _ _ _ _ handling object _ does
        refine ⟨w'', c'', doing, (same'.trans same).trans auth, object', ?_⟩
        rw [QmqpRelayConnection.step, alive]
        simp only [handle, get_bind, unrequested]
        exact resumes.trans done
      · cases does
    | _ => cases does
  | deciding mail suspended =>
    obtain ⟨c, alive, auth, state, thread, object, idle⟩ := id shows
    obtain ⟨h, phase⟩ := stable.living alive
    rw [Phase, state] at phase
    obtain ⟨requested, operation, timeout, -, silent⟩ := phase
    cases e with
    | resume step =>
      cases suspended with
      | false => cases does
      | true =>
        obtain ⟨w', c', doing, same, object', done⟩ := @resume_does lib a _ _ _ _ _ _
          ⟨h, state, requested, operation, timeout, idle, silent⟩ object _ does
        refine ⟨w', c', doing, same.trans auth, object', ?_⟩
        rw [QmqpRelayConnection.step, alive]
        simp only [handle]
        rw [if_pos thread]
        exact done
    | _ => cases does
  | relaying action relay | ended action response => cases e <;> cases does

end Does

theorem relaying_follows {action : LuaAction} {relay : Relay} (stable : Stable logging w)
    (shows : Shows peerAuth w (.relaying action relay)) (e : Event) :
    Follows lib peerAuth (.next lib peerAuth (e, a) (.relaying action relay))
      (step lib (e, a) w) := by
  obtain ⟨c, alive, auth, state, operation, timeout, acted⟩ := id shows
  obtain ⟨h, phase⟩ := stable.living alive
  rw [Phase, state] at phase
  obtain ⟨requested, thread, relay', -, operation', -, -, knows⟩ := phase
  obtain rfl : relay = relay' := Option.some.inj (operation.symm.trans operation')
  have same : actions w.trace = (some action).toList := acted
  rw [step, alive]
  cases e with
  | request payload step =>
    simp only [handle, get_bind, requested]
    exact shows
  | resume step =>
    simp only [handle, thread]
    exact shows
  | relay e =>
    simp only [handle, operation, Option.bind_some, Outline.next]
    cases eq : relay.call e with
    | none => exact shows
    | some call => exact relayEvent_follows h auth state operation timeout acted knows eq
  | relayTimeout =>
    simp only [handle, timeout, Outline.next]
    by_cases scheduled : 0 < action.timeout
    · rw [if_pos scheduled, if_pos scheduled]
      refine (congrArg (Follows lib peerAuth _) (bind_ok (modify_apply h.alive _))).mpr ?_
      exact onRelayTimeout_follows (h.change rfl rfl) state
        (by rw [World.goOn, List.append_nil, same])
    · rw [if_neg scheduled, if_neg scheduled]
      exact shows
  | disconnect => exact onDisconnect_follows h same
  | error e => exact onError_follows h same e
  | mail use => exact shows

/-- One event takes the connection and the outline along together. -/
theorem step_follows (e : Event × Answers) (w : World) (o : Outline) (stable : Stable logging w)
    (shows : Shows peerAuth w o) :
    Follows lib peerAuth (o.next lib peerAuth e) (step lib e w) := by
  cases o with
  | waiting => exact waiting_follows stable shows e.1
  | deciding mail suspended => exact deciding_follows stable shows e.1
  | relaying action relay => exact relaying_follows stable shows e.1
  | ended action response =>
    rw [Outline.next_ended, step, shows.1]
    exact shows

section Submissions

variable (lib : Libcommon) (logSocket : Bool) (startTime : ℤ) (peerAuth : SocketPeerAuth)
  (es : List (Event × Answers))

def outline : Outline := follow (Outline.next lib peerAuth) es .waiting

variable {lib logSocket startTime peerAuth es}

theorem submission_shows : Shows peerAuth
    (Outcome.state (submission lib logSocket startTime peerAuth es)) (outline lib peerAuth es) := by
  have new : Shows peerAuth (new logSocket startTime peerAuth) .waiting := ⟨_, rfl, rfl, rfl, rfl⟩
  exact (run_reaches (fun _ _ stable _ => stable.step_ok) step_follows es
    (new_stable logSocket startTime peerAuth) new).state

/-- In a run, `Do` is called with the action and the mail of the outline. -/
theorem submission_does {action : LuaAction} {mail : IncomingMail} {e : Event}
    (does : (outline lib peerAuth es).does lib e = some (action, mail)) (a : Answers) :
    ∃ w c, Doing logSocket w c action ∧ c.peerAuth = peerAuth ∧ w.mail = some mail ∧
      submission lib logSocket startTime peerAuth (es ++ [(e, a)]) =
        doAction lib a action mail.toMutableMail w := by
  have lands := @submission_lands lib logSocket startTime peerAuth es
  have shows := @submission_shows lib logSocket startTime peerAuth es
  cases outcome : submission lib logSocket startTime peerAuth es with
  | ok _ w =>
    rw [outcome] at lands shows
    obtain ⟨w', c, doing, auth, object, done⟩ := @step_does lib a _ _ _ _ _ _ _ lands shows does
    refine ⟨w', c, doing, auth, object, ?_⟩
    rw [submission, run_append outcome, run_singleton, done]
  | error f w =>
    -- the connection is gone then, and has nothing to do
    rw [outcome] at lands shows
    have gone := lands.2.2.gone
    cases o : outline lib peerAuth es with
    | waiting | deciding =>
      rw [o] at shows
      obtain ⟨c, alive, -⟩ := shows
      cases alive.symm.trans gone
    | relaying | ended =>
      rw [o] at does
      cases e <;> cases does

/-- What is to be seen of a connection: where it stands, and what it has done. -/
def Course (w : World) :
    Option (State × Option Relay × Option ℤ) × List LuaAction × List Bytes :=
  (w.connection.map fun c => (c.state, c.relayOperation, c.relayTimeout),
    actions w.trace, responses w.trace)

namespace Outline

def course : Outline → Option (State × Option Relay × Option ℤ) × List LuaAction × List Bytes
  | waiting => (some (.init, none, none), [], [])
  | deciding .. => (some (.lua, none, none), [], [])
  | relaying action relay => (some (.relaying, some relay,
      if 0 < action.timeout then some action.timeout else none), [action], [])
  | ended action response => (none, action.toList, response.toList)

end Outline

theorem course_of_shows {o : Outline} (stable : Stable logSocket w) (shows : Shows peerAuth w o) :
    Course w = o.course := by
  cases o with
  | waiting =>
    obtain ⟨c, alive, -, state, idle⟩ := shows
    obtain ⟨h, phase⟩ := stable.living alive
    rw [Phase, state] at phase
    simp only [Course, Outline.course, alive, Option.map_some, state, idle, h.unanswered,
      phase.2.2.1, phase.2.2.2.1]
  | deciding mail suspended =>
    obtain ⟨c, alive, -, state, -, -, idle⟩ := shows
    obtain ⟨h, phase⟩ := stable.living alive
    rw [Phase, state] at phase
    simp only [Course, Outline.course, alive, Option.map_some, state, idle, h.unanswered,
      phase.2.1, phase.2.2.1]
  | relaying action relay =>
    obtain ⟨c, alive, -, state, operation, timeout, acted⟩ := shows
    obtain ⟨h, -⟩ := stable.living alive
    simp only [Course, Outline.course, alive, Option.map_some, state, operation, timeout, acted,
      h.unanswered]
  | ended action response =>
    obtain ⟨gone, acted, given, -⟩ := shows
    simp only [Course, Outline.course, gone, Option.map_none, acted, given]

theorem submission_course :
    Course (Outcome.state (submission lib logSocket startTime peerAuth es)) =
      (outline lib peerAuth es).course :=
  course_of_shows submission_stable submission_shows

/-- Every run of a connection follows the outline, to whatever end. -/
theorem submission_follows_outline (lib : Libcommon) (logSocket : Bool) (startTime : ℤ)
    (peerAuth : SocketPeerAuth) (es : List (Event × Answers)) :
    let w := Outcome.state (submission lib logSocket startTime peerAuth es)
    Shows peerAuth w (outline lib peerAuth es) ∧ Course w = (outline lib peerAuth es).course :=
  ⟨submission_shows, submission_course⟩

/-- No run acts upon a mail twice, and a connection has a relay exactly once it
has acted upon its mail. As long as the relay is at work its timer is the one
that the action asks for. -/
theorem acted_at_most_once (lib : Libcommon) (logSocket : Bool) (startTime : ℤ)
    (peerAuth : SocketPeerAuth) (es : List (Event × Answers)) :
    let w := Outcome.state (submission lib logSocket startTime peerAuth es)
    (actions w.trace).length ≤ 1 ∧ ∀ c, w.connection = some c →
      (c.relayOperation.isSome = true ↔ actions w.trace ≠ []) ∧
      ∀ action ∈ actions w.trace,
        c.relayTimeout = if 0 < action.timeout then some action.timeout else none := by
  intro w
  have course : Course w = (outline lib peerAuth es).course := submission_course
  generalize outline lib peerAuth es = o at course
  have acted : actions w.trace = o.course.2.1 := congrArg (·.2.1) course
  have state : w.connection.map (fun c => (c.state, c.relayOperation, c.relayTimeout)) =
      o.course.1 := congrArg (·.1) course
  refine ⟨?_, fun c alive => ?_⟩
  · rw [acted]
    cases o with
    | waiting | deciding => exact Nat.zero_le 1
    | relaying => exact le_rfl
    | ended action response => cases action <;> simp [Outline.course]
  · rw [alive, Option.map_some] at state
    rw [acted]
    cases o with
    | waiting | deciding =>
      simp only [Outline.course, Option.some.injEq, Prod.mk.injEq] at state
      simp [state.2.1, Outline.course]
    | relaying action relay =>
      simp only [Outline.course, Option.some.injEq, Prod.mk.injEq] at state
      simp [state.2, Outline.course]
    | ended action response => cases state

/-- The same event, with the same answers to the relay. -/
def Alike (e e' : Event × Answers) : Prop :=
  e.1 = e'.1 ∧ e.2.connect = e'.2.connect ∧ e.2.spawn = e'.2.spawn ∧ e.2.write = e'.2.write

theorem next_alike {e e' : Event × Answers} (alike : Alike e e') (o : Outline) :
    o.next lib peerAuth e = o.next lib peerAuth e' := by
  obtain ⟨e, a⟩ := e
  obtain ⟨e', a'⟩ := e'
  obtain ⟨rfl, connect, spawn, write⟩ := alike
  have start : Outline.start lib a = Outline.start lib a' := by
    unfold Outline.start
    rw [connect, spawn, write]
  have acted : Outline.acted lib peerAuth a = Outline.acted lib peerAuth a' := by
    unfold Outline.acted
    rw [start]
  have decided : Outline.decided lib peerAuth a = Outline.decided lib peerAuth a' := by
    unfold Outline.decided
    rw [acted]
  unfold Outline.next Outline.received
  rw [decided]

/-- The log has no part in a submission: whether there is a log socket, what
sending to it comes to, the clocks, and even whether the response can be
written make no difference to the action, the relay, the timer and the response. -/
theorem log_immaterial (lib : Libcommon) (peerAuth : SocketPeerAuth)
    {es es' : List (Event × Answers)} (alike : List.Forall₂ Alike es es') (socket socket' : Bool)
    (startTime startTime' : ℤ) :
    Course (Outcome.state (submission lib socket startTime peerAuth es)) =
      Course (Outcome.state (submission lib socket' startTime' peerAuth es')) := by
  rw [submission_course, submission_course]
  have same : ∀ o, follow (Outline.next lib peerAuth) es o =
      follow (Outline.next lib peerAuth) es' o := by
    induction alike with
    | nil => exact fun _ => rfl
    | cons first _ ih =>
      intro o
      rw [follow_cons, follow_cons, next_alike first, ih]
  rw [outline, outline, same]

def troubled : Answers :=
  { sampleAnswers with
    steadyNow := 3600
    send := .error (.errno 111 (ascii "Failed to send"))
    response := .error (.errno 32 (ascii "Failed to send")) }

set_option maxRecDepth 4000 in
theorem log_immaterial_sample :
    Course (Outcome.state (submission .reference true 0 none acceptance)) =
      Course (Outcome.state (submission .reference false 7 none
        (acceptance.map fun e => (e.1, troubled)))) := by
  apply log_immaterial
  rw [List.forall₂_map_right_iff, List.forall₂_same]
  intro e among
  obtain ⟨event, -, rfl⟩ := List.mem_map.mp among
  exact ⟨rfl, rfl, rfl, rfl⟩

end Submissions

end QmqpRelayConnection

end Qrelay
