import Qrelay.Collected

/-! Which calls of `exec` and `exec_raw` are accepted, and which raise an
error: the loops of LMail.cxx run to their end exactly if every argument,
option and environment entry is of the right type and there is room for all of
them. -/

namespace Qrelay
open Lib Lib.Decimal

section Loops

variable {action : Action}

theorem full_eq_false_iff {α : Type} {capacity : ℕ} {v : StaticVector α capacity} :
    v.full = false ↔ v.elements.length < capacity := by
  have bound := v.length_le
  simp only [StaticVector.full, decide_eq_false_iff_not]
  omega

theorem emplaceExec_accepts (s : Bytes) (room : action.exec.elements.length < Action.maxExec) :
    Accepts (emplaceExec s) action := by
  obtain ⟨exec, run, -⟩ := StaticVector.emplaceBack_ok room s
  apply accepts_get_bind.mpr
  rw [run]
  exact ⟨(), _, rfl⟩

theorem emplaceEnv_accepts (s : Bytes) (room : action.env.elements.length < Action.maxEnv) :
    Accepts (emplaceEnv s) action := by
  obtain ⟨env, run, -⟩ := StaticVector.emplaceBack_ok room s
  apply accepts_get_bind.mpr
  rw [run]
  exact ⟨(), _, rfl⟩

theorem collectExecEnv_accepts_iff (entries : List (LuaValue × LuaValue)) :
    Accepts (collectExecEnv entries) action ↔
      (∃ pairs : List (Bytes × Bytes), entries = pairs.map luaPair) ∧
        action.env.elements.length + entries.length ≤ Action.maxEnv := by
  induction entries generalizing action with
  | nil => exact iff_of_true (accepts_pure ()) ⟨⟨[], rfl⟩, action.env.length_le⟩
  | cons entry rest ih =>
    obtain ⟨name, value⟩ := entry
    have one (s : Bytes) (room : action.env.elements.length < Action.maxEnv) :
        Accepts (emplaceEnv s >>= fun _ => collectExecEnv rest) action ↔
          (∃ pairs : List (Bytes × Bytes), rest = pairs.map luaPair) ∧
            action.env.elements.length + 1 + rest.length ≤ Action.maxEnv := by
      rw [accepts_bind_iff (emplaceEnv_yields s room) fun _ after more => ?_]
      · exact and_iff_right (emplaceEnv_accepts s room)
      · rw [ih, more.env, List.length_append, List.length_singleton]
    simp only [collectExecEnv]
    rw [accepts_get_bind, accepts_check_bind, full_eq_false_iff, accepts_require_bind]
    constructor
    · rintro ⟨room, n, hn, accepted⟩
      obtain ⟨v, hv, accepted⟩ := accepts_require_bind.mp accepted
      obtain ⟨⟨pairs, eq⟩, fits⟩ := (one _ room).mp accepted
      refine ⟨⟨(n, v) :: pairs, ?_⟩, by rw [List.length_cons]; omega⟩
      rw [eq, asString_eq_some hn, asString_eq_some hv]
      rfl
    · rintro ⟨⟨pairs, eq⟩, fits⟩
      rw [List.length_cons] at fits
      cases pairs with
      | nil => cases eq
      | cons pair pairs =>
        cases eq
        have room : action.env.elements.length < Action.maxEnv := by omega
        refine ⟨room, pair.1, rfl, accepts_require_bind.mpr ⟨pair.2, rfl, ?_⟩⟩
        exact (one _ room).mpr ⟨⟨pairs, rfl⟩, by omega⟩

theorem collectArguments_accepts_iff (i : ℕ) (args : List LuaArgument) :
    Accepts (collectArguments i args) action ↔
      (∃ texts : List Bytes, args.map LuaArgument.text = texts.map some) ∧
        action.exec.elements.length + args.length ≤ Action.maxExec := by
  induction args generalizing i action with
  | nil => exact iff_of_true (accepts_pure ()) ⟨⟨[], rfl⟩, action.exec.length_le⟩
  | cons arg rest ih =>
    have one (s : Bytes) (room : action.exec.elements.length < Action.maxExec) :
        Accepts (emplaceExec s >>= fun _ => collectArguments (i + 1) rest) action ↔
          (∃ texts : List Bytes, rest.map LuaArgument.text = texts.map some) ∧
            action.exec.elements.length + 1 + rest.length ≤ Action.maxExec := by
      rw [accepts_bind_iff (emplaceExec_yields s room) fun _ after more => ?_]
      · exact and_iff_right (emplaceExec_accepts s room)
      · rw [ih, more.exec, List.length_append, List.length_singleton]
    simp only [collectArguments]
    rw [accepts_get_bind, accepts_check_bind, full_eq_false_iff, accepts_require_bind]
    constructor
    · rintro ⟨room, s, hs, accepted⟩
      obtain ⟨⟨texts, eq⟩, fits⟩ := (one s room).mp accepted
      refine ⟨⟨s :: texts, ?_⟩, by rw [List.length_cons]; omega⟩
      rw [List.map_cons, List.map_cons, eq, hs]
    · rintro ⟨⟨texts, eq⟩, fits⟩
      rw [List.length_cons] at fits
      cases texts with
      | nil => cases eq
      | cons s texts =>
        obtain ⟨text, eq⟩ := List.cons_eq_cons.mp eq
        have room : action.exec.elements.length < Action.maxExec := by omega
        exact ⟨room, s, text, (one s room).mpr ⟨⟨texts, eq⟩, by omega⟩⟩

def ValidTimeout (value : OptionValue) : Prop :=
  ∃ seconds, value.number = some (.finite seconds) ∧ isNormal seconds ∧ 0 < seconds ∧
    seconds ≤ 3600

theorem collectTimeout_accepts_iff (value : OptionValue) :
    Accepts (collectTimeout value) action ↔ ValidTimeout value := by
  unfold collectTimeout ValidTimeout
  rw [accepts_require_bind]
  constructor
  · rintro ⟨number, given, accepted⟩
    cases number with
    | notFinite => exact absurd accepted (not_accepts_throw _)
    | finite seconds =>
      obtain ⟨valid, -⟩ := accepts_check_bind.mp accepted
      simp only [not_or, not_le, not_lt, Bool.not_eq_false] at valid
      exact ⟨seconds, given, valid.1, valid.2.1, valid.2.2⟩
  · rintro ⟨seconds, given, normal, positive, bounded⟩
    refine ⟨.finite seconds, given, accepts_check_bind.mpr ⟨?_, ⟨(), _, rfl⟩⟩⟩
    simp only [not_or, not_le, not_lt, Bool.not_eq_false]
    exact ⟨normal, positive, bounded⟩

/-- An option that is accepted while there is room for `room` environment variables. -/
def ValidOption (room : ℕ) (key : Bytes) (value : OptionValue) : Prop :=
  (key = ascii "env" ∧ ∃ env, value = .table env ∧
    (∃ pairs : List (Bytes × Bytes), env.entries = pairs.map luaPair) ∧
      env.entries.length ≤ room) ∨
  (key = ascii "timeout" ∧ ValidTimeout value)

theorem validOption_congr {room room' : ℕ} {key : Bytes} (h : key = ascii "env" → room = room')
    (value : OptionValue) : ValidOption room key value ↔ ValidOption room' key value := by
  by_cases isEnv : key = ascii "env"
  · rw [h isEnv]
  · simp only [ValidOption, isEnv, false_and]

theorem collectExecOption_accepts_iff (key : Bytes) (value : OptionValue) :
    Accepts (collectExecOption key value) action ↔
      ValidOption (Action.maxEnv - action.env.elements.length) key value := by
  have bound := action.env.length_le
  have differ : ascii "env" ≠ ascii "timeout" := by decide
  unfold collectExecOption ValidOption
  by_cases isEnv : key = ascii "env"
  · rw [if_pos isEnv]
    simp only [isEnv, differ, true_and, false_and, or_false]
    cases value with
    | scalar number => exact iff_of_false (not_accepts_throw _) nofun
    | table env =>
      simp only [collectExecEnv_accepts_iff, OptionValue.table.injEq, exists_eq_left']
      exact and_congr_right fun _ => by omega
  rw [if_neg isEnv]
  by_cases isTimeout : key = ascii "timeout"
  · rw [if_pos isTimeout]
    simp only [isTimeout, differ.symm, true_and, false_and, false_or]
    exact collectTimeout_accepts_iff value
  · rw [if_neg isTimeout]
    simp only [isEnv, isTimeout, false_and, or_false]
    exact iff_of_false (not_accepts_throw _) not_false

theorem collectExecOption_yields (key : Bytes) (value : OptionValue) :
    Yields (collectExecOption key value) action (fun _ after => key ≠ ascii "env" →
      after.env.elements = action.env.elements) Raised.IsError := by
  unfold collectExecOption
  split_ifs with isEnv isTimeout
  · cases value with
    | scalar number => exact yields_throw trivial
    | table env =>
      exact (collectExecEnv_yields env.entries).mono fun _ _ _ other => absurd isEnv other
  · refine (collectTimeout_yields value).mono ?_
    rintro _ after ⟨seconds, -, -, more⟩ -
    rw [more.env, List.append_nil]
  · exact yields_throw trivial

theorem collectExecOptions_accepts_iff {entries : List (LuaValue × OptionValue)}
    (distinct : (entries.filterMap fun entry => entry.1.asString).Nodup) :
    Accepts (collectExecOptions entries) action ↔ ∀ entry ∈ entries, ∃ key,
      entry.1.asString = some key ∧
        ValidOption (Action.maxEnv - action.env.elements.length) key entry.2 := by
  induction entries generalizing action with
  | nil => exact iff_of_true (accepts_pure ()) (by simp)
  | cons entry rest ih =>
    obtain ⟨key, value⟩ := entry
    simp only [collectExecOptions, List.forall_mem_cons]
    rw [accepts_require_bind, ← exists_and_right]
    refine exists_congr fun k => ?_
    rw [and_assoc]
    refine and_congr_right fun hk => ?_
    have keys : ((key, value) :: rest).filterMap (fun entry => entry.1.asString) =
        k :: rest.filterMap fun entry => entry.1.asString := List.filterMap_cons_some hk
    rw [keys, List.nodup_cons] at distinct
    obtain ⟨new, distinct⟩ := distinct
    rw [accepts_bind_iff (collectExecOption_yields k value) fun _ after more => ?_]
    · exact and_congr_left fun _ => collectExecOption_accepts_iff k value
    · rw [ih distinct]
      refine forall_congr' fun other => forall_congr' fun mem => exists_congr fun k' => ?_
      refine and_congr_right fun hk' => validOption_congr (fun isEnv => ?_) other.2
      -- the environment has grown only if there is no other `env` option
      have differs : k ≠ ascii "env" := by
        rintro rfl
        exact new (List.mem_filterMap.mpr ⟨other, mem, hk'.trans (congrArg some isEnv)⟩)
      rw [more differs]

end Loops

/-- What `exec` and `exec_raw` accept: a program, at most 31 arguments for it, and
options for the environment and the timeout. -/
structure Acceptable (stack : List LuaArgument) : Prop where
  program : 2 ≤ stack.length
  texts : ∃ texts : List Bytes, (arguments stack).map LuaArgument.text = texts.map some
  fits : (arguments stack).length ≤ Action.maxExec
  options : ∀ options, optionsTable stack = some options → ∀ entry ∈ options.entries, ∃ key,
    entry.1.asString = some key ∧ ValidOption Action.maxEnv key entry.2

theorem collectExec_accepts_iff (stack : List LuaArgument) (type : Action.Kind) :
    Accepts (collectExec stack) { type } ↔
      (∀ options, optionsTable stack = some options → ∀ entry ∈ options.entries, ∃ key,
        entry.1.asString = some key ∧ ValidOption Action.maxEnv key entry.2) ∧
      (∃ texts : List Bytes, (arguments stack).map LuaArgument.text = texts.map some) ∧
        (arguments stack).length ≤ Action.maxExec := by
  have collected (args : List LuaArgument) {after : Action} (none : after.exec.elements = []) :
      Accepts (collectArguments 2 args) after ↔
        (∃ texts : List Bytes, args.map LuaArgument.text = texts.map some) ∧
          args.length ≤ Action.maxExec := by
    rw [collectArguments_accepts_iff, none, List.length_nil, Nat.zero_add]
  unfold collectExec arguments
  cases table : optionsTable stack with
  | none =>
    rw [if_neg (by simp), and_iff_right (by simp)]
    exact collected stack.tail rfl
  | some options =>
    have chosen : ∀ P : LuaTable OptionValue → Prop,
        (∀ other, some options = some other → P other) ↔ P options := by simp
    rw [if_pos (by simp), chosen]
    simp only
    rw [accepts_bind_iff (collectExecOptions_yields options.distinct)
      fun _ after more => collected stack.dropLast.tail ?_]
    · exact and_congr_left fun _ => collectExecOptions_accepts_iff options.distinct
    · obtain ⟨pairs, t, -, -, extended⟩ := more
      exact extended.exec

theorem newProcessAction_accepts (type : Action.Kind) (stack : List LuaArgument) :
    (∃ action, newProcessAction type stack = .ok action) ↔ Acceptable stack := by
  have made : (∃ action, newProcessAction type stack = .ok action) ↔
      2 ≤ stack.length ∧ Accepts (collectExec stack) { type } := by
    unfold newProcessAction construct
    by_cases short : stack.length < 2
    · rw [if_pos short]
      refine iff_of_false ?_ fun both => absurd both.1 (not_le.mpr short)
      rintro ⟨action, made⟩
      cases made
    · rw [if_neg short, and_iff_right (not_lt.mp short), Accepts]
      cases run : collectExec stack { type } with
      | ok _ action => exact iff_of_true ⟨action, rfl⟩ ⟨(), action, rfl⟩
      | error e _ =>
        apply iff_of_false
        · rintro ⟨action, made⟩
          cases made
        · rintro ⟨x, after, accepted⟩
          cases accepted
  rw [made, collectExec_accepts_iff]
  constructor
  · rintro ⟨program, options, texts, fits⟩
    exact ⟨program, texts, fits, options⟩
  · rintro ⟨program, texts, fits, options⟩
    exact ⟨program, options, texts, fits⟩

/-- An acceptable call makes an action of its arguments; every other one raises
an error, and no call leaves the bounds of the action's vectors. -/
theorem newProcessAction_accepts_iff (type : Action.Kind) (stack : List LuaArgument) :
    (Acceptable stack → ∃ action texts pairs, newProcessAction type stack = .ok action ∧
      action.type = type ∧ Collected stack action texts pairs) ∧
    (¬ Acceptable stack → ∃ e, newProcessAction type stack = .error (.error e)) := by
  have accepts := newProcessAction_accepts type stack
  rcases newProcessAction_outcome type stack with
    ⟨e, raised⟩ | ⟨action, made, kind, texts, pairs, collected⟩
  · refine ⟨fun acceptable => ?_, fun _ => ⟨e, raised⟩⟩
    obtain ⟨action, made⟩ := accepts.mpr acceptable
    cases raised.symm.trans made
  · exact ⟨fun _ => ⟨action, texts, pairs, made, kind, collected⟩,
      fun refused => absurd (accepts.mp ⟨action, made⟩) refused⟩

end Qrelay
