import Qrelay.RelayRoundTrip
import Qrelay.Spawn

/-! The fixed capacities behind the Lua interface, over everything that scripts
can do: several mails, actions that are kept and returned later or for another
mail, and errors that are caught. -/

namespace Qrelay
open Lib Lib.Decimal

structure ScriptState where
  mails : List IncomingMail := []
  actions : List Action := []

inductive ScriptCall where
  /-- The handler is called for another mail. -/
  | receive (payload : Buffer)
  | mail (index : ℕ) (use : MailUse)
  | connect (stack : List LuaArgument) (address : Except LuaError Unit)
  | discard (stack : List LuaArgument)
  | reject (stack : List LuaArgument)
  | exec (stack : List LuaArgument)
  | execRaw (stack : List LuaArgument)

namespace ScriptCall

variable (lib : Libcommon)

/-- A Lua error leaves no action behind, and may be caught. -/
def keep : Except Raised Action → Code ScriptState Unit
  | .ok action => modify fun s => { s with actions := s.actions ++ [action] }
  | .error (.error _) => pure ()
  | .error (.fault f) => throw f

def code : ScriptCall → Code ScriptState Unit
  | receive payload =>
    match (MutableMail.new payload).parse lib with
    | .error f => throw f
    | .ok (.success, parsed) => modify fun s =>
      { s with mails := s.mails ++ [{ toMutableMail := parsed.stripMessage lib }] }
    | .ok _ => pure ()
  | mail index use => modify fun s => { s with mails := s.mails.modify index (use.after lib) }
  | connect stack address => keep (newConnectAction stack address)
  | discard stack => keep (newDiscardAction stack)
  | reject stack => keep (newRejectAction stack)
  | exec stack => keep (newExecAction stack)
  | execRaw stack => keep (newExecRawAction stack)

end ScriptCall

structure HeadersCounted (mail : IncomingMail) : Prop where
  counted : mail.headers.length ≤ mail.nHeaders
  bounded : mail.nHeaders ≤ IncomingMail.maxHeaders

theorem HeadersCounted.edit {lib : Libcommon} {mail mail' : IncomingMail} {call : MailCall}
    (h : HeadersCounted mail) (edit : MailCall.Edit lib mail call mail') :
    HeadersCounted mail' := by
  cases edit with
  | header _ _ _ _ room => exact ⟨Nat.succ_le_succ h.counted, room⟩
  | sender => exact ⟨h.counted, h.bounded⟩
  | account => exact ⟨h.counted, h.bounded⟩

theorem HeadersCounted.after (lib : Libcommon) {mail : IncomingMail} (h : HeadersCounted mail)
    (use : MailUse) : HeadersCounted (use.after lib mail) := by
  cases use with
  | call c =>
    rcases @MailCall.outcome lib mail c with ⟨e, rejected⟩ | ⟨mail', accepted, edit⟩
    · rw [MailUse.after, rejected]
      exact h
    · rw [MailUse.after, accepted]
      exact h.edit edit
  | close => exact ⟨Nat.zero_le _, h.bounded⟩

/-- An action as the handler of a connection may return it. -/
def Prepared (action : Action) : Prop := ∃ made : LuaAction, made.toAction = action

structure Sound (s : ScriptState) : Prop where
  mails : ∀ mail ∈ s.mails, HeadersCounted mail
  actions : ∀ action ∈ s.actions, Prepared action

theorem prepared_plain {type : Action.Kind} (defined : type ≠ .undefined)
    (plain : ¬ (type = .exec ∨ type = .execRaw)) : Prepared { type } :=
  ⟨⟨{ type }, defined, fun starts => absurd starts plain⟩, rfl⟩

theorem newPlainAction_prepared {type : Action.Kind} (defined : type ≠ .undefined)
    (plain : ¬ (type = .exec ∨ type = .execRaw)) (stack : List LuaArgument) :
    (∃ e, newPlainAction type stack = .error (.error e)) ∨
      ∃ action, newPlainAction type stack = .ok action ∧ Prepared action :=
  (newPlainAction_outcome type stack).imp_right fun run => ⟨_, run, prepared_plain defined plain⟩

theorem newProcessAction_prepared {type : Action.Kind} (starts : type = .exec ∨ type = .execRaw)
    (stack : List LuaArgument) : (∃ e, newProcessAction type stack = .error (.error e)) ∨
      ∃ action, newProcessAction type stack = .ok action ∧ Prepared action := by
  rcases newProcessAction_outcome type stack with raised | ⟨action, run, rfl, made⟩
  · exact .inl raised
  · obtain ⟨texts, pairs, collected⟩ := made
    refine .inr ⟨action, run, ⟨action, ?_, fun _ => ?_⟩, rfl⟩
    · rcases starts with type | type <;> rw [type] <;> decide
    · rw [collected.exec]
      exact collected.nonempty

namespace ScriptCall

variable {lib : Libcommon} {s : ScriptState}

theorem keep_sound (h : Sound s) {made : Except Raised Action}
    (outcome : (∃ e, made = .error (.error e)) ∨ ∃ action, made = .ok action ∧ Prepared action) :
    ∃ s', keep made s = .ok () s' ∧ Sound s' := by
  rcases outcome with ⟨e, rfl⟩ | ⟨action, rfl, prepared⟩
  · exact ⟨s, rfl, h⟩
  · refine ⟨_, rfl, h.mails, fun other mem => ?_⟩
    rcases List.mem_append.mp mem with old | new
    · exact h.actions other old
    · rw [List.mem_singleton.mp new]
      exact prepared

theorem code_sound (h : Sound s) (call : ScriptCall) :
    ∃ s', call.code lib s = .ok () s' ∧ Sound s' := by
  cases call with
  | receive payload =>
    obtain ⟨result, parsed, run⟩ := MutableMail.parse_total lib payload
    rw [code, run]
    cases result with
    | success =>
      refine ⟨_, rfl, fun mail mem => ?_, h.actions⟩
      rcases List.mem_append.mp mem with old | new
      · exact h.mails mail old
      · have fresh : parsed.headers = [] := congrArg MutableMail.headers (parse_success run).1
        have empty : (parsed.stripMessage lib).headers.length ≤ 0 := by
          rw [MutableMail.stripMessage, fresh, List.length_nil]
        rw [List.mem_singleton.mp new]
        exact ⟨empty, Nat.zero_le _⟩
    | _ => exact ⟨s, rfl, h⟩
  | mail index use =>
    refine ⟨_, rfl, fun mail mem => ?_, h.actions⟩
    obtain ⟨j, bound, rfl⟩ := List.mem_iff_getElem.mp mem
    have before : j < s.mails.length := by simpa using bound
    have counted := h.mails _ (List.getElem_mem before)
    simp only [List.getElem_modify]
    split_ifs
    · exact counted.after lib use
    · exact counted
  | connect stack address =>
    apply keep_sound h
    unfold newConnectAction
    split_ifs
    · exact .inl ⟨_, rfl⟩
    · cases address with
      | error e => exact .inl ⟨e, rfl⟩
      | ok _ => exact .inr ⟨_, rfl, prepared_plain (by decide) (by decide)⟩
  | discard stack => exact keep_sound h (newPlainAction_prepared (by decide) (by decide) stack)
  | reject stack => exact keep_sound h (newPlainAction_prepared (by decide) (by decide) stack)
  | exec stack => exact keep_sound h (newProcessAction_prepared (.inl rfl) stack)
  | execRaw stack => exact keep_sound h (newProcessAction_prepared (.inr rfl) stack)

end ScriptCall

section Fits

/-- The handler of a connection may return the action, `Do` has a case for it, and
`Start` stays inside the two arrays that it fills for `pidfd_spawn`. -/
structure ActionFits (action : Action) : Prop where
  prepared : Prepared action
  defined : action.type ≠ .undefined
  total : ∃ result, spawnVectors action = .ok result
  starts : ∀ vectors, spawnVectors action = .ok (some vectors) →
    (action.type = .exec ∨ action.type = .execRaw) ∧
    1 ≤ action.exec.elements.length ∧ action.exec.elements.length ≤ 32 ∧
    action.env.elements.length ≤ 32 ∧
    vectors.argv.elements = action.exec.elements.map some ++ [none] ∧
    vectors.env.elements = action.env.elements.map some ++ [none]

/-- The `Received` line fits its buffer, and the request its segments. -/
structure RequestFits (lib : Libcommon) (peerAuth : SocketPeerAuth) (mail : MutableMail) :
    Prop where
  received : ∀ cred, peerAuth = some cred → (receivedLine lib cred).length ≤ receivedBufferSize
  assembled : ∃ headers receivedBuffer,
    assembleHeaders lib peerAuth mail = .ok (headers, receivedBuffer) ∧
    ((BasicRelay.new lib mail headers).sendRequest lib).request.length ≤ 25 ∧
    (RawExecRelay.new mail headers).requestBuffer.segments.length ≤ 18

theorem starts_of_spawnVectors {action : Action} {vectors : SpawnVectors}
    (h : spawnVectors action = .ok (some vectors)) :
    action.type = .exec ∨ action.type = .execRaw := by
  unfold spawnVectors at h
  cases type : action.type with
  | exec => exact .inl rfl
  | execRaw => exact .inr rfl
  | _ =>
    rw [type] at h
    cases h

theorem actionFits_of_prepared {action : Action} (h : Prepared action) : ActionFits action := by
  obtain ⟨made, rfl⟩ := h
  refine ⟨⟨made, rfl⟩, made.defined, ?_, fun vectors run => ?_⟩
  · by_cases starts : made.type = .exec ∨ made.type = .execRaw
    · obtain ⟨vectors, run, -⟩ := spawnVectors_ok starts (made.nonempty starts)
      exact ⟨_, run⟩
    · have defined := made.defined
      unfold spawnVectors
      cases type : made.type with
      | undefined => exact absurd type defined
      | exec => exact absurd (.inl type) starts
      | execRaw => exact absurd (.inr type) starts
      | _ => exact ⟨none, rfl⟩
  · have starts := starts_of_spawnVectors run
    have nonempty := made.nonempty starts
    obtain ⟨filled, fills, argv, env⟩ := spawnVectors_ok starts nonempty
    rw [run] at fills
    cases fills
    exact ⟨starts, List.length_pos_of_ne_nil nonempty, made.exec.length_le, made.env.length_le,
      argv, env⟩

theorem headerViews_length (mail : MutableMail) :
    mail.headerViews.length = mail.headers.length := by
  simp [MutableMail.headerViews]

theorem receivedView_length_le (lib : Libcommon) (peerAuth : SocketPeerAuth) :
    (receivedView lib peerAuth).length ≤ 1 := by
  cases peerAuth <;> simp [receivedView]

/-- The message, the sender header, the sender, the tail, and four segments of
the two generators go with the headers. -/
theorem request_length (lib : Libcommon) (mail : MutableMail)
    (headers : List (StringView Storage)) :
    ((BasicRelay.new lib mail headers).sendRequest lib).request.length = headers.length + 8 := by
  simp [BasicRelay.new, BasicRelay.sendRequest, lib.netstringGenerator_eq]

theorem requestFits_of_counted {lib : Libcommon} {mail : IncomingMail} (h : HeadersCounted mail)
    (peerAuth : SocketPeerAuth) : RequestFits lib peerAuth mail.toMutableMail := by
  have counted := h.counted
  have bounded : mail.nHeaders ≤ 16 := h.bounded
  have one := receivedView_length_le lib peerAuth
  have views := headerViews_length mail.toMutableMail
  refine ⟨fun cred _ => receivedLine_length_le cred, _, _, assembleHeaders_eq peerAuth _, ?_, ?_⟩
  · rw [request_length, List.length_append]
    omega
  · rw [RawExecRelay.new_segments, List.length_append, List.length_append, List.length_singleton]
    omega

end Fits

theorem sound_start : Sound {} where
  mails _ mem := absurd mem List.not_mem_nil
  actions _ mem := absurd mem List.not_mem_nil

theorem ScriptCall.run_sound (lib : Libcommon) (calls : List ScriptCall) :
    ∃ s, run (code lib) calls {} = .ok () s ∧ Sound s :=
  run_invariant (fun call _ _ h => code_sound h call) sound_start

/-- No capacity is exceeded and no precondition missed, whatever scripts do,
and whichever action is returned for whichever mail. -/
theorem capacities_respected (lib : Libcommon) (calls : List ScriptCall) :
    ∃ s, run (ScriptCall.code lib) calls {} = .ok () s ∧
      (∀ action ∈ s.actions, ActionFits action) ∧
      ∀ mail ∈ s.mails, ∀ peerAuth, RequestFits lib peerAuth mail.toMutableMail := by
  obtain ⟨s, ran, sound⟩ := ScriptCall.run_sound lib calls
  exact ⟨s, ran, fun action mem => actionFits_of_prepared (sound.actions action mem),
    fun mail mem peerAuth => requestFits_of_counted (sound.mails mail mem) peerAuth⟩

end Qrelay
