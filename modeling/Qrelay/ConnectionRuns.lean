import Qrelay.ConnectionTrace

/-! Runs of a connection. Between two events it waits for the request, its
handler is suspended, or its relay is at work; every event leaves it like that
or ends it. -/

namespace Qrelay
open Lib Lib.Decimal
namespace QmqpRelayConnection

def Entry.plain : Entry → Bool
  | .entered .onError .. => false
  | .entered .. | .parsed _ | .acted _ | .relay _ => true
  | _ => false

variable {lib : Libcommon} {a : Answers} {logging : Bool} {w : World} {c c' : QmqpRelayConnection}
  {es : List Entry}

section Plain

variable (h : ∀ e ∈ es, e.plain = true)
include h

theorem responses_plain : responses es = [] :=
  List.filterMap_eq_nil_iff.mpr fun e he => by
    have plain := h e he
    cases e <;> first | rfl | cases plain

theorem datagrams_plain : datagrams es = [] :=
  List.filterMap_eq_nil_iff.mpr fun e he => by
    have plain := h e he
    cases e <;> first | rfl | cases plain

theorem deletions_plain : deletions es = 0 :=
  List.countP_eq_zero.mpr fun e he => by
    have plain := h e he
    cases e <;> first | exact Bool.false_ne_true | cases plain

theorem failed_plain : failed es = false :=
  List.any_eq_false.mpr fun e he => by
    have plain := h e he
    cases e with
    | entered member _ _ => cases member <;> first | exact Bool.false_ne_true | cases plain
    | _ => exact Bool.false_ne_true

theorem entersHandler_plain : entersHandler es = false :=
  List.any_eq_false.mpr fun e he => by
    have plain := h e he
    cases e <;> first | exact Bool.false_ne_true | cases plain

end Plain

theorem parses_append (s t : List Entry) : parses (s ++ t) = parses s ++ parses t :=
  List.filterMap_append

theorem actions_append (s t : List Entry) : actions (s ++ t) = actions s ++ actions t :=
  List.filterMap_append

theorem entersHandler_append (s t : List Entry) :
    entersHandler (s ++ t) = (entersHandler s || entersHandler t) :=
  List.any_append

namespace Open

theorem goOn (h : Open logging w c) (pending : c'.mailPtr = c.mailPtr)
    (pointer : c'.mailPtr = c'.state.hasMail) (plain : ∀ e ∈ es, e.plain = true)
    (observed : Observed es) (unparsed : c.mailPtr = true → parses es = [])
    (acted : c.mailPtr = true ∨ actions es = [])
    (relays : c'.state = .relaying → ∃ action, actions (w.trace ++ es) = [action] ∧ Relays action) :
    Open logging (w.goOn c' es) c' where
  configured := h.configured
  alive := rfl
  pointer
  object some := h.object (pending ▸ some)
  observed := observed_append h.observed observed
  unanswered := by simp [World.goOn, responses_append, h.unanswered, responses_plain plain]
  unlogged := by simp [World.goOn, datagrams_append, h.unlogged, datagrams_plain plain]
  undeleted := by simp [World.goOn, deletions_append, h.undeleted, deletions_plain plain]
  unfailed := by simp [World.goOn, failed_append, h.unfailed, failed_plain plain]
  entered := by
    simp [World.goOn, entersHandler_append, h.entered, entersHandler_plain plain, pending]
  parsed some := by
    rw [World.goOn, parses_append, h.parsed (pending ▸ some), unparsed (pending ▸ some)]
    rfl
  acted some := by
    rw [pending]
    obtain pending | unacted := acted
    · exact pending
    · rw [World.goOn, actions_append, unacted, List.append_nil] at some
      exact h.acted some
  relays

theorem keep (h : Open logging w c) (pending : c'.mailPtr = c.mailPtr) (state : c'.state = c.state)
    (plain : ∀ e ∈ es, e.plain = true) (observed : Observed es) (unparsed : parses es = [])
    (idle : actions (w.trace ++ es) = actions w.trace) : Open logging (w.goOn c' es) c' :=
  h.goOn pending (by rw [pending, state, h.pointer]) plain observed (fun _ => unparsed)
    (.inr (List.append_right_eq_self.mp ((actions_append _ _).symm.trans idle))) fun relaying => by
      rw [idle]
      exact h.relays (state ▸ relaying)

theorem change (h : Open logging w c) (pending : c'.mailPtr = c.mailPtr)
    (state : c'.state = c.state) :
    Open logging (w.goOn c' []) c' :=
  h.keep pending state nofun nofun rfl (by rw [List.append_nil])

theorem enter (h : Open logging w c) (member : Member) (other : member ≠ .onError) :
    Open logging (w.goOn c [.entered member c.state c.mailPtr]) c := by
  refine h.keep rfl rfl (fun e he => ?_) (observed_cons h.pointer nofun) rfl
    (actions_closing ?_)
  · rw [List.mem_singleton.mp he]
    cases member <;> first | rfl | exact absurd rfl other
  · intro e he
    rw [List.mem_singleton.mp he]
    rfl

theorem request (h : Open logging w c) : Open logging { w with requested := true } c :=
  ⟨h.configured, h.alive, h.pointer, h.object, h.observed, h.unanswered, h.unlogged, h.undeleted,
    h.unfailed, h.entered, h.parsed, h.acted, h.relays⟩

theorem useMail (h : Open logging w c) (f : IncomingMail → IncomingMail) :
    Open logging { w with mail := w.mail.map f } c :=
  ⟨h.configured, h.alive, h.pointer, fun some => by simpa using h.object some, h.observed,
    h.unanswered, h.unlogged, h.undeleted, h.unfailed, h.entered, h.parsed, h.acted, h.relays⟩

end Open

def Phase (w : World) (c : QmqpRelayConnection) : Prop :=
  match c.state with
  | .init => w.requested = false ∧ c.thread = false ∧ c.relayOperation = none ∧
      c.relayTimeout = none ∧ parses w.trace = [] ∧ actions w.trace = [] ∧ events w.trace = []
  | .lua => w.requested = true ∧ c.relayOperation = none ∧ c.relayTimeout = none ∧
      actions w.trace = [] ∧ events w.trace = []
  | .relaying => w.requested = true ∧ c.thread = false ∧ ∃ relay action,
      c.relayOperation = some relay ∧ actions w.trace = [action] ∧ action.type = relay.kind ∧
      relay.Knows (events w.trace)
  | _ => False

/-- What is true of a connection between two events. -/
def Stable (logging : Bool) (w : World) : Prop := Over logging w ∨ ∃ c, Open logging w c ∧ Phase w c

theorem Stable.living (stable : Stable logging w) (alive : w.connection = some c) :
    Open logging w c ∧ Phase w c := by
  obtain past | ⟨c', opened, phase⟩ := stable
  · cases alive.symm.trans past.gone
  · obtain rfl : c = c' := Option.some.inj (alive.symm.trans opened.alive)
    exact ⟨opened, phase⟩

/-- How a piece of code ends: with something stable, or, if a relay goes on
after it has reported, where that relay is used. -/
def Lands (logging : Bool) (lingers : Prop) (o : Outcome World Unit) : Prop :=
  Outcome.Ends (Stable logging) (fun f w => lingers ∧ f = .dangling relayObject ∧ Over logging w) o

theorem Lands.of_over {lingers : Prop} {o : Outcome World Unit}
    (h : ∃ w', o = .ok () w' ∧ Over logging w') : Lands logging lingers o := by
  obtain ⟨w', rfl, past⟩ := h
  exact .inl past

theorem Lands.mono {p q : Prop} {o : Outcome World Unit} (h : Lands logging p o) (imp : p → q) :
    Lands logging q o := by
  cases o with
  | ok a s => exact h
  | error f s => exact ⟨imp h.1, h.2⟩

theorem onLuaError_lands (h : Open logging w c) (state : c.state = .lua) (e : Exception) :
    Lands logging False (onLuaError lib a e w) := by
  have read (es : List Entry) : self.get (w.goOn c es) = some c := rfl
  have pending : c.mailPtr = true := by rw [h.pointer, state]; rfl
  rw [onLuaError, bind_ok (enter_apply h.alive _), Place.read_alive_bind (read _), check_bind,
    if_pos state, Place.read_alive_bind (read _), check_bind, if_pos pending]
  exact .of_over ((h.enter .onLuaError (by decide)).finish (by simp [state]) (by simp [state])
    (.inl rfl))

theorem relayHandler_over (h : Open logging w c) (state : c.state = .relaying) {callback : Callback}
    (due : Due w.trace callback.bytes) :
    ∃ w', (relayHandler lib a).call callback w = .ok () w' ∧ Over logging w' := by
  have due' (member : Member) : Due (w.trace ++ [.entered member c.state c.mailPtr])
      callback.bytes := (due_closing (by simp [Entry.closing])).mpr due
  cases callback with
  | response response =>
    have called : (relayHandler lib a).call (.response response) w = _ :=
      bind_ok (enter_apply h.alive .onRelayResponse)
    rw [called]
    exact (h.enter .onRelayResponse (by decide)).finish (by simp [state]) (by simp [state]) (due' _)
  | error response e =>
    have called : (relayHandler lib a).call (.error response e) w = _ :=
      bind_ok (enter_apply h.alive .onRelayError)
    rw [called]
    exact (h.enter .onRelayError (by decide)).finish (by simp [state]) (by simp [state]) (due' _)

section RelayCalls

variable {call : RelayCall} {action : LuaAction}

theorem relayPlace_get {r : Relay} (alive : w.connection = some c)
    (operation : c.relayOperation = some r) : relayPlace.get w = some r := by
  simp [relayPlace, Place.part, self, alive, relayOperationPart, operation]

theorem relayPlace_set {r : Relay} (alive : w.connection = some c)
    (operation : c.relayOperation = some r) (r' : Relay) :
    relayPlace.set r' w = w.goOn { c with relayOperation := some r' } [] := by
  simp [relayPlace, Place.part, self, alive, relayOperationPart, operation, World.goOn]

theorem relay_callback (h : Open logging w c) (state : c.state = .relaying)
    (operation : c.relayOperation = some call.relay) (acted : actions w.trace = [action])
    (kind : action.type = call.relay.kind) (r : Relay) {callback : Callback}
    (warrants : Warrants call.relay.kind (events w.trace) callback.bytes) :
    ∃ w', (relayHandler lib a).call callback (relayPlace.set r w) = .ok () w' ∧
      Over logging w' := by
  rw [relayPlace_set h.alive operation]
  have opened := @Open.change _ _ _ { c with relayOperation := some r } h rfl rfl
  refine relayHandler_over opened state ?_
  rw [World.goOn, List.append_nil]
  exact .inr (.inr ⟨action, acted, .inr (.inr (by rw [kind]; exact warrants))⟩)

/-- A relay that goes on after it has reported is used where it is gone. -/
theorem relay_lingers (h : Open logging w c) (state : c.state = .relaying)
    (operation : c.relayOperation = some call.relay) (acted : actions w.trace = [action])
    (kind : action.type = call.relay.kind) (valid : call.relay.Valid) {r : Relay}
    {callback : Callback} (reaction : call.react lib = .linger r callback)
    (warrants : Warrants call.relay.kind (events w.trace) callback.bytes) :
    ∃ w', call.code lib relayPlace (relayHandler lib a) w = .error (.dangling relayObject) w' ∧
      Over logging w' := by
  have performs := @RelayCall.code_performs lib _ relayPlace (relayHandler lib a) w call
    (relayPlace_get h.alive operation) valid
  rw [reaction] at performs
  obtain ⟨rest, needs, eq⟩ := performs
  obtain ⟨w', called, past⟩ :=
    @relay_callback lib a _ _ _ _ _ h state operation acted kind r _ warrants
  have dead : relayPlace.get w' = none := by
    simp [relayPlace, Place.part, self, past.gone]
  exact ⟨w', by rw [eq, bind_ok called, needs w' dead]; rfl, past⟩

theorem relay_lands (h : Open logging w c) (state : c.state = .relaying)
    (requested : w.requested = true) (thread : c.thread = false)
    (operation : c.relayOperation = some call.relay) (acted : actions w.trace = [action])
    (kind : action.type = call.relay.kind) (valid : call.relay.Valid)
    (meets : (call.react lib).Meets
      (fun r => r.Knows (events w.trace) ∧ r.kind = call.relay.kind)
      fun callback => Warrants call.relay.kind (events w.trace) callback.bytes) :
    Lands logging (call.react lib).Lingers (call.code lib relayPlace (relayHandler lib a) w) := by
  have performs := @RelayCall.code_performs lib _ relayPlace (relayHandler lib a) w call
    (relayPlace_get h.alive operation) valid
  cases reaction : call.react lib with
  | stay r =>
    rw [reaction] at performs meets
    rw [performs, relayPlace_set h.alive operation]
    refine .inr ⟨_, h.change rfl rfl, ?_⟩
    rw [Phase, state]
    refine ⟨requested, thread, r, action, rfl, ?_, ?_, ?_⟩
    · simpa only [World.goOn, List.append_nil] using acted
    · rw [kind, meets.2]
    · simpa only [World.goOn, List.append_nil] using meets.1
  | finish r callback =>
    rw [reaction] at performs meets
    rw [performs]
    exact .of_over (relay_callback h state operation acted kind r meets)
  | linger r callback =>
    rw [reaction] at meets
    obtain ⟨w', faults, past⟩ := @relay_lingers lib a _ _ _ _ _ h state operation acted kind valid
      _ _ reaction meets
    rw [faults]
    exact ⟨trivial, rfl, past⟩

end RelayCalls

def timeoutAfter (action : LuaAction) (c : QmqpRelayConnection) : Option ℤ :=
  if 0 < action.timeout then some action.timeout else c.relayTimeout

theorem scheduleTimeout_apply (alive : w.connection = some c) (action : LuaAction) :
    scheduleTimeout action w =
      .ok () (w.goOn { c with relayTimeout := timeoutAfter action c } []) := by
  rw [scheduleTimeout]
  by_cases positive : 0 < action.timeout
  · rw [if_pos positive, timeoutAfter, if_pos positive]
    exact modify_apply alive _
  · rw [if_neg positive, timeoutAfter, if_neg positive]
    rw [show ({ c with relayTimeout := c.relayTimeout } : QmqpRelayConnection) = c from rfl,
      World.goOn_self alive]
    rfl

theorem assembleHeaders_apply (alive : w.connection = some c) (mail : MutableMail) :
    assembleHeaders lib mail w = .ok (mail.headerViews ++ receivedView lib c.peerAuth)
      (w.goOn { c with receivedBuffer := receivedHeader lib c.peerAuth } []) := by
  have read : self.get w = some c := alive
  rw [assembleHeaders, Place.read_alive_bind read, assembleHeaders_eq]
  exact bind_ok (modify_apply alive _)

theorem startRelay_stays {action : LuaAction} {mail : MutableMail}
    {create : List (StringView Storage) → RelayCall} {after : Relay} (alive : w.connection = some c)
    (reacts : (create (mail.headerViews ++ receivedView lib c.peerAuth)).react lib = .stay after)
    (valid : (create (mail.headerViews ++ receivedView lib c.peerAuth)).relay.Valid) :
    startRelay lib a action mail create w = .ok () (w.goOn { c with
      relayTimeout := timeoutAfter action c, receivedBuffer := receivedHeader lib c.peerAuth,
      relayOperation := some after } []) := by
  have scheduled := scheduleTimeout_apply alive action
  set timeout := timeoutAfter action c
  set headers := mail.headerViews ++ receivedView lib c.peerAuth
  have assembled :=
    @assembleHeaders_apply lib (w.goOn { c with relayTimeout := timeout } []) _ rfl mail
  set w' := w.goOn { c with
    relayTimeout := timeout, receivedBuffer := receivedHeader lib c.peerAuth,
    relayOperation := some (create headers).relay } [] with hw'
  have created : self.modify (fun c => { c with relayOperation := some (create headers).relay })
      (w.goOn { c with
        relayTimeout := timeout, receivedBuffer := receivedHeader lib c.peerAuth } []) =
      .ok () w' := by
    rw [modify_apply rfl, World.goOn_goOn]
    rfl
  have performs := @RelayCall.code_performs lib _ relayPlace (relayHandler lib a) w'
    (create headers) rfl valid
  rw [reacts] at performs
  rw [startRelay, bind_ok scheduled, bind_ok assembled, World.goOn_goOn]
  refine (bind_ok created).trans (performs.trans ?_)
  simp [relayPlace, Place.part, self, relayOperationPart, World.goOn, hw']

section Relaying

variable {action : LuaAction} {mail : MutableMail}

theorem doAction_connect (type : action.type = .connect) : doAction lib a action mail = (do
    self.modify fun c => { c with state := .relaying }
    doConnect lib a action mail) := by
  rw [doAction]
  split <;> first | rfl | exact absurd (type.symm.trans ‹_›) (by decide)

theorem doAction_exec (type : action.type = .exec) : doAction lib a action mail = (do
    self.modify fun c => { c with state := .relaying }
    doExec lib a action type mail) := by
  rw [doAction]
  split <;> first | rfl | exact absurd (type.symm.trans ‹_›) (by decide)

theorem doAction_execRaw (type : action.type = .execRaw) : doAction lib a action mail = (do
    self.modify fun c => { c with state := .relaying }
    doRawExec lib a action type mail) := by
  rw [doAction]
  split <;> first | rfl | exact absurd (type.symm.trans ‹_›) (by decide)

end Relaying

theorem startRelay_lands {action : LuaAction} {mail : MutableMail}
    {create : List (StringView Storage) → RelayCall} (h : Open logging w c)
    (state : c.state = .relaying)
    (requested : w.requested = true) (thread : c.thread = false)
    (acted : actions w.trace = [action]) (silent : events w.trace = [])
    (starts : ∀ headers, (create headers).Starts ∧ action.type = (create headers).relay.kind) :
    Lands logging False (startRelay lib a action mail create w) := by
  have scheduled := scheduleTimeout_apply h.alive action
  set timeout := timeoutAfter action c
  have open1 := @Open.change _ w c { c with relayTimeout := timeout } h rfl rfl
  have assembled := @assembleHeaders_apply lib _ _ open1.alive mail
  set headers := mail.headerViews ++ receivedView lib c.peerAuth
  set buffer := receivedHeader lib c.peerAuth
  have open2 := @Open.change _ _ _ { c with relayTimeout := timeout, receivedBuffer := buffer }
    open1 rfl rfl
  have open3 := @Open.change _ _ _ { c with
    relayTimeout := timeout, receivedBuffer := buffer,
    relayOperation := some (create headers).relay } open2 rfl rfl
  rw [startRelay, bind_ok scheduled, bind_ok assembled, bind_ok (modify_apply open2.alive _)]
  simp only [World.goOn_goOn, List.append_nil] at open3 ⊢
  obtain ⟨start, kind⟩ := starts headers
  refine (relay_lands open3 state requested thread rfl (?_ : _ = [action]) kind start.valid ?_).mono
    start.not_lingers
  · simpa only [World.goOn, List.append_nil] using acted
  · simp only [World.goOn, List.append_nil, silent]
    exact start_warranted start

theorem doAction_lands {action : LuaAction} {mail : MutableMail} (h : Open logging w c)
    (state : c.state = .lua) (requested : w.requested = true) (thread : c.thread = false)
    (acted : actions w.trace = [action]) (silent : events w.trace = []) :
    Lands logging False (doAction lib a action mail w) := by
  have pending : c.mailPtr = true := by rw [h.pointer, state]; rfl
  have refuse {response : Bytes} (due : Due w.trace response) : Lands logging False ((do
      self.modify fun c => { c with state := .notRelaying }
      finish lib a response : Code World Unit) w) := by
    rw [bind_ok (modify_apply h.alive _)]
    have opened : Open logging (w.goOn { c with state := .notRelaying } [])
        { c with state := .notRelaying } :=
      h.goOn rfl pending nofun nofun (fun _ => rfl) (.inr rfl) nofun
    exact .of_over (opened.finish nofun nofun
      (by simpa only [World.goOn, List.append_nil] using due))
  have relay (relays : Relays action) {create : List (StringView Storage) → RelayCall}
      (starts : ∀ headers, (create headers).Starts ∧ action.type = (create headers).relay.kind) :
      Lands logging False ((do
        self.modify fun c => { c with state := .relaying }
        startRelay lib a action mail create : Code World Unit) w) := by
    rw [bind_ok (modify_apply h.alive _)]
    have same : actions (w.trace ++ []) = [action] := by rw [List.append_nil, acted]
    have opened : Open logging (w.goOn { c with state := .relaying } [])
        { c with state := .relaying } :=
      h.goOn rfl pending nofun nofun (fun _ => rfl) (.inr rfl) fun _ => ⟨action, same, relays⟩
    exact startRelay_lands opened rfl requested thread same
      (by simpa only [World.goOn, List.append_nil] using silent) starts
  generalize run : doAction lib a action mail = code
  rw [doAction] at run
  split at run
  · exact absurd ‹action.type = .undefined› action.defined
  · rw [← run]
    exact refuse (.inr (.inr ⟨action, acted, .inl ⟨‹_›, rfl⟩⟩))
  · rw [← run]
    exact refuse (.inr (.inr ⟨action, acted, .inr (.inl ⟨‹_›, rfl⟩)⟩))
  · rw [← run]
    exact relay (.inl ‹_›) fun _ => ⟨trivial, ‹_›⟩
  · rw [← run]
    exact relay (.inr (.inl ‹_›)) fun _ => ⟨rfl, ‹_›⟩
  · rw [← run]
    exact relay (.inr (.inr ‹_›)) fun _ => ⟨(by decide : 1 ≤ 256), ‹_›⟩

theorem onLuaFinished_lands (h : Open logging w c) (state : c.state = .lua)
    (requested : w.requested = true) (thread : c.thread = false) (idle : actions w.trace = [])
    (silent : events w.trace = []) (action : Option LuaAction) :
    Lands logging False (onLuaFinished lib a action w) := by
  have read (es : List Entry) : self.get (w.goOn c es) = some c := rfl
  have pending : c.mailPtr = true := by rw [h.pointer, state]; rfl
  have entered := h.enter .onLuaFinished (by decide)
  unfold onLuaFinished
  rw [bind_ok (enter_apply h.alive _), Place.read_alive_bind (read _), check_bind,
    if_pos state, Place.read_alive_bind (read _), check_bind, if_pos pending]
  cases action with
  | none => exact onLuaError_lands entered state _
  | some action =>
    obtain ⟨object, points⟩ := Option.isSome_iff_exists.mp (h.object pending)
    have deref : derefMail (w.goOn c [.entered .onLuaFinished c.state c.mailPtr]) =
        .ok object (w.goOn c [.entered .onLuaFinished c.state c.mailPtr]) :=
      derefMail_apply rfl pending points
    refine (congrArg (Lands logging False)
      ((bind_ok deref).trans (bind_ok (note_apply rfl _)))).mpr ?_
    have acted : Open logging ((w.goOn c [.entered .onLuaFinished c.state c.mailPtr]).goOn c
        [.acted action]) c :=
      entered.goOn rfl h.pointer (by simp [Entry.plain]) (by simp [Observed]) (fun _ => rfl)
        (.inl pending) fun relaying => by simp [state] at relaying
    refine doAction_lands acted state requested thread ?_ ?_
    · rw [actions] at idle
      simp [World.goOn, actions, idle]
    · rw [events] at silent
      simp [World.goOn, events, silent]

structure Handling (logging : Bool) (w : World) (c : QmqpRelayConnection) : Prop where
  opened : Open logging w c
  state : c.state = .lua
  requested : w.requested = true
  operation : c.relayOperation = none
  timeout : c.relayTimeout = none
  idle : actions w.trace = []
  silent : events w.trace = []

theorem resume_lands (h : Handling logging w c) (step : HandlerStep) :
    Lands logging False (resume lib a step w) := by
  have used := h.opened.useMail fun mail => step.uses.foldl (MailUse.after lib) mail
  have idle : actions (w.trace ++ []) = [] := by rw [List.append_nil, h.idle]
  have silent : events (w.trace ++ []) = [] := by rw [List.append_nil, h.silent]
  have changed (thread : Bool) := @Open.change _ _ _ { c with thread } used rfl rfl
  rw [resume, modify_bind]
  cases step.outcome with
  | suspended =>
    refine (congrArg (Lands logging False) (modify_apply used.alive _)).mpr
      (.inr ⟨_, changed true, ?_⟩)
    simp only [Phase, h.state]
    exact ⟨h.requested, h.operation, h.timeout, idle, silent⟩
  | returned action =>
    refine (congrArg (Lands logging False) (bind_ok (modify_apply used.alive _))).mpr ?_
    exact onLuaFinished_lands (changed false) h.state h.requested rfl idle silent action
  | failed e =>
    refine (congrArg (Lands logging False) (bind_ok (modify_apply used.alive _))).mpr ?_
    exact onLuaError_lands (changed false) h.state e

theorem handling_of_received (h : Open logging w c) (mail : MutableMail)
    (state : c.state = .received)
    (requested : w.requested = true) (operation : c.relayOperation = none)
    (timeout : c.relayTimeout = none) (parsed : parses w.trace = [.success])
    (idle : actions w.trace = []) (silent : events w.trace = []) :
    Handling logging ({ w with mail := some { toMutableMail := mail } }.goOn
      { c with mailPtr := true, state := .lua } [.handler])
      { c with mailPtr := true, state := .lua } := by
  have unhandled : entersHandler w.trace = false := by rw [h.entered, h.pointer, state]; rfl
  refine ⟨⟨h.configured, rfl, rfl, fun _ => rfl, observed_append h.observed (by simp [Observed]),
    ?_, ?_, ?_, ?_, ?_, fun _ => ?_, fun _ => rfl, nofun⟩, rfl, requested, operation, timeout, ?_,
    ?_⟩
  · rw [World.goOn, responses_append, h.unanswered]
    rfl
  · rw [World.goOn, datagrams_append, h.unlogged]
    rfl
  · rw [World.goOn, deletions_append, h.undeleted]
    rfl
  · rw [World.goOn, failed_append, h.unfailed]
    rfl
  · rw [World.goOn, entersHandler_append, unhandled]
    rfl
  · rw [World.goOn, parses_append, parsed]
    rfl
  · rw [World.goOn, actions, List.filterMap_append]
    exact congrArg (· ++ []) idle
  · rw [World.goOn, events, List.filterMap_append]
    exact congrArg (· ++ []) silent

theorem onRequest_lands (h : Open logging w c) (state : c.state = .init)
    (requested : w.requested = true)
    (operation : c.relayOperation = none) (timeout : c.relayTimeout = none)
    (unparsed : parses w.trace = []) (idle : actions w.trace = []) (silent : events w.trace = [])
    (payload : Buffer) (step : HandlerStep) :
    Lands logging False (onRequest lib a payload step w) := by
  have read (es : List Entry) : self.get (w.goOn c es) = some c := rfl
  obtain ⟨result, mail, parsed⟩ := MutableMail.parse_total lib payload
  have entered := h.enter .onRequest (by decide)
  have received : Open logging ((w.goOn c [.entered .onRequest c.state c.mailPtr]).goOn
      { c with state := .received } [.parsed result]) { c with state := .received } :=
    entered.goOn rfl (by rw [h.pointer, state]; rfl) (by simp [Entry.plain]) (by simp [Observed])
      (fun some => by rw [h.pointer, state] at some; cases some) (.inr rfl)
      (fun relaying => by cases relaying)
  have reject {response : Bytes} (code : response.take 1 = ascii "D") (failed : result ≠ .success) :
      Lands logging False (finish lib a response ((w.goOn c
        [.entered .onRequest c.state c.mailPtr]).goOn
        { c with state := .received } [.parsed result])) := by
    refine .of_over (received.finish (by simp) (by simp) (.inr (.inl ⟨code, result, ?_, failed⟩)))
    rw [parses] at unparsed
    simp [World.goOn, parses, unparsed]
  have noted : note (.parsed result) ((w.goOn c [.entered .onRequest c.state c.mailPtr]).goOn
      { c with state := .received } []) = .ok () ((w.goOn c
        [.entered .onRequest c.state c.mailPtr]).goOn { c with state := .received }
        [.parsed result]) := by
    rw [note_apply rfl, World.goOn_goOn]
    rfl
  unfold onRequest
  rw [bind_ok (enter_apply h.alive _), Place.read_alive_bind (read _), check_bind,
    if_pos state, bind_ok (modify_apply rfl _), parsed]
  refine (congrArg (Lands logging False) (bind_ok noted)).mpr ?_
  cases result with
  | malformed => exact reject rfl (by decide)
  | badAddress => exact reject rfl (by decide)
  | tooManyRecipients => exact reject rfl (by decide)
  | success =>
    have mailed := handling_of_received received (mail.stripMessage lib) rfl requested operation
      timeout (by rw [parses] at unparsed; simp [World.goOn, parses, unparsed])
      (by rw [actions] at idle; simp [World.goOn, actions, idle])
      (by rw [events] at silent; simp [World.goOn, events, silent])
    refine (congrArg (Lands logging False) (?_ : _ = resume lib a step _)).mpr
      (resume_lands mailed step)
    refine (Place.read_alive_bind rfl _).trans ?_
    rw [check_bind, if_pos rfl, modify_bind, bind_ok (modify_apply rfl _),
      bind_ok (modify_apply rfl _), bind_ok (note_apply rfl _)]
    simp only [World.goOn_goOn, List.append_nil, List.nil_append]

theorem onRelayTimeout_lands (h : Open logging w c) (state : c.state = .relaying) :
    Lands logging False (onRelayTimeout lib a w) := by
  rw [onRelayTimeout, bind_ok (enter_apply h.alive _)]
  exact .of_over ((h.enter .onRelayTimeout (by decide)).finish (by simp [state]) (by simp [state])
    (.inl rfl))

section RelayEvents

variable {relay : Relay} {e : RelayEvent} {call : RelayCall} (h : Open logging w c)
  (phase : Phase w c) (state : c.state = .relaying) (operation : c.relayOperation = some relay)
  (eq : relay.call e = some call)

include h phase state operation eq

theorem relayEvent_opened : ∃ action, Open logging (w.goOn c [.relay e]) c ∧
    w.requested = true ∧ c.thread = false ∧ c.relayOperation = some call.relay ∧
    actions (w.goOn c [.relay e]).trace = [action] ∧ action.type = call.relay.kind ∧
    call.relay.Valid ∧ (call.react lib).Meets
      (fun r => r.Knows (events (w.goOn c [.relay e]).trace) ∧ r.kind = call.relay.kind)
      fun callback => Warrants call.relay.kind (events (w.goOn c [.relay e]).trace)
        callback.bytes := by
  rw [Phase, state] at phase
  obtain ⟨requested, thread, r, action, same, acted, kind, knows⟩ := phase
  obtain rfl : relay = r := Option.some.inj (operation.symm.trans same)
  obtain ⟨rfl, meets⟩ := @react_warranted lib _ _ e call knows eq
  have acted' : actions (w.trace ++ [.relay e]) = [action] := by
    rw [actions] at acted
    simp [actions, acted]
  have events' : events (w.trace ++ [.relay e]) = events w.trace ++ [e] := by simp [events]
  have opened : Open logging (w.goOn c [.relay e]) c :=
    h.keep rfl rfl (by simp [Entry.plain]) (by simp [Observed]) rfl (acted'.trans acted.symm)
  refine ⟨action, opened, requested, thread, operation, acted', kind, knows.valid, ?_⟩
  simp only [World.goOn, events']
  exact meets

theorem relayEvent_lands : Lands logging e.FailsAtHangup
    ((do note (.relay e); call.code lib relayPlace (relayHandler lib a) : Code World Unit) w) := by
  obtain ⟨action, opened, requested, thread, operation', acted, kind, valid, meets⟩ :=
    @relayEvent_opened lib _ _ _ _ _ _ h phase state operation eq
  rw [bind_ok (note_apply h.alive _)]
  exact (relay_lands opened state requested thread operation' acted kind valid meets).mono
    (Relay.call_lingers eq)

theorem relayEvent_lingers (lingers : (call.react lib).Lingers) : ∃ w',
    (do note (.relay e); call.code lib relayPlace (relayHandler lib a) : Code World Unit) w =
      .error (.dangling relayObject) w' ∧ Over logging w' := by
  obtain ⟨action, opened, -, -, operation', acted, kind, valid, meets⟩ :=
    @relayEvent_opened lib _ _ _ _ _ _ h phase state operation eq
  rw [bind_ok (note_apply h.alive _)]
  cases reaction : call.react lib with
  | stay r =>
    rw [reaction] at lingers
    exact lingers.elim
  | finish r callback =>
    rw [reaction] at lingers
    exact lingers.elim
  | linger r callback =>
    rw [reaction] at meets
    exact relay_lingers opened state operation' acted kind valid reaction meets

end RelayEvents

def Event.FailsAtHangup : Event → Prop
  | relay e => e.FailsAtHangup
  | _ => False

/-- Every event leaves the connection stable. -/
theorem step_lands (stable : Stable logging w) (e : Event × Answers) :
    Lands logging e.1.FailsAtHangup (step lib e w) := by
  obtain ⟨e, a⟩ := e
  obtain past | ⟨c, h, phase⟩ := stable
  · rw [step, past.gone]
    exact .inl past
  have unchanged {p : Prop} : Lands logging p (.ok () w) := .inr ⟨c, h, phase⟩
  rw [step, h.alive]
  cases e with
  | request payload step =>
    simp only [handle, get_bind]
    by_cases requested : w.requested = true
    · rw [if_neg (by simp [requested])]
      exact unchanged
    rw [if_pos requested]
    cases state : c.state <;> rw [Phase, state] at phase
    case init =>
      obtain ⟨-, -, operation, timeout, unparsed, idle, silent⟩ := phase
      exact onRequest_lands h.request state rfl operation timeout unparsed idle silent payload step
    case lua => exact absurd phase.1 requested
    case relaying => exact absurd phase.1 requested
    all_goals exact phase.elim
  | resume step =>
    simp only [handle]
    by_cases suspended : c.thread = true
    · rw [if_pos suspended]
      cases state : c.state <;> rw [Phase, state] at phase
      case init => exact absurd suspended (by simp [phase.2.1])
      case lua =>
        obtain ⟨requested, operation, timeout, idle, silent⟩ := phase
        exact resume_lands ⟨h, state, requested, operation, timeout, idle, silent⟩ step
      case relaying => exact absurd suspended (by simp [phase.2.1])
      all_goals exact phase.elim
    · rw [if_neg suspended]
      exact unchanged
  | relay e =>
    simp only [handle]
    cases operation : c.relayOperation with
    | none => exact unchanged
    | some relay =>
      cases eq : relay.call e with
      | none =>
        simp only [Option.bind_some, eq]
        exact unchanged
      | some call =>
        simp only [Option.bind_some, eq]
        cases state : c.state with
        | relaying => exact relayEvent_lands h phase state operation eq
        | _ => simp [Phase, state, operation] at phase
  | relayTimeout =>
    simp only [handle]
    by_cases scheduled : c.relayTimeout.isSome = true
    · rw [if_pos scheduled]
      cases state : c.state with
      | relaying =>
        rw [bind_ok (modify_apply h.alive _)]
        exact onRelayTimeout_lands (h.change rfl rfl) state
      | init =>
        rw [Phase, state] at phase
        simp [phase.2.2.2.1] at scheduled
      | lua =>
        rw [Phase, state] at phase
        simp [phase.2.2.1] at scheduled
      | _ => simp [Phase, state] at phase
    · rw [if_neg scheduled]
      exact unchanged
  | disconnect => exact .of_over h.onDisconnect
  | error e => exact .of_over (h.onError e)
  | mail use => exact .inr ⟨c, h.useMail _, phase⟩

theorem Stable.step_ok {e : Event × Answers} {w' : World} (stable : Stable logging w)
    (eq : step lib e w = .ok () w') : Stable logging w' := by
  have lands := @step_lands lib _ _ stable e
  rw [eq] at lands
  exact lands

theorem Stable.step_fine (stable : Stable logging w) (e : Event × Answers)
    (fine : ¬ e.1.FailsAtHangup) : ∃ w', step lib e w = .ok () w' ∧ Stable logging w' := by
  have lands := @step_lands lib _ _ stable e
  cases outcome : step lib e w with
  | ok _ w' =>
    rw [outcome] at lands
    exact ⟨w', rfl, lands⟩
  | error f w' =>
    rw [outcome] at lands
    exact absurd lands.1 fine

theorem new_stable (logSocket : Bool) (startTime : ℤ) (peerAuth : SocketPeerAuth) :
    Stable logSocket (new logSocket startTime peerAuth) :=
  .inr ⟨_, ⟨rfl, rfl, rfl, nofun, nofun, rfl, rfl, rfl, rfl, rfl, nofun, absurd rfl, nofun⟩, rfl,
    rfl, rfl, rfl, rfl, rfl, rfl⟩

/-- A run leaves the connection stable, or a relay goes on after it has reported. -/
theorem run_lands (logSocket : Bool) (startTime : ℤ) (peerAuth : SocketPeerAuth)
    (es : List (Event × Answers)) : Lands logSocket (∃ e ∈ es, e.1.FailsAtHangup)
      (run (step lib) es (new logSocket startTime peerAuth)) :=
  run_ends (fun e he _ stable => (step_lands stable e).mono fun fails => ⟨e, he, fails⟩) _
    (new_stable logSocket startTime peerAuth)

end QmqpRelayConnection

end Qrelay
