import Qrelay.LuaActions

/-! What the constructor functions make of their arguments when they accept
them. None of them leaves the bounds of the vectors it fills. -/

namespace Qrelay
open Lib Lib.Decimal

def Raised.IsError : Raised → Prop
  | error _ => True
  | fault _ => False

structure Extended (before after : Action) (exec env : List Bytes) (timeout : ℤ) : Prop where
  type : after.type = before.type
  exec : after.exec.elements = before.exec.elements ++ exec
  env : after.env.elements = before.env.elements ++ env
  timeout : after.timeout = timeout

theorem Extended.refl (action : Action) : Extended action action [] [] action.timeout :=
  ⟨rfl, (List.append_nil _).symm, (List.append_nil _).symm, rfl⟩

theorem Extended.trans {a b c : Action} {exec env exec' env' : List Bytes} {t t' : ℤ}
    (first : Extended a b exec env t) (second : Extended b c exec' env' t') :
    Extended a c (exec ++ exec') (env ++ env') t' where
  type := second.type.trans first.type
  exec := by rw [second.exec, first.exec, List.append_assoc]
  env := by rw [second.env, first.env, List.append_assoc]
  timeout := second.timeout

section Collect

variable {action : Action}

theorem emplaceExec_yields (s : Bytes) (room : action.exec.elements.length < Action.maxExec) :
    Yields (emplaceExec s) action (fun _ after => Extended action after [s] [] action.timeout)
      Raised.IsError := by
  obtain ⟨exec, run, elements⟩ := StaticVector.emplaceBack_ok room s
  apply yields_get
  rw [run]
  exact yields_modify ⟨rfl, elements, (List.append_nil _).symm, rfl⟩

theorem emplaceEnv_yields (s : Bytes) (room : action.env.elements.length < Action.maxEnv) :
    Yields (emplaceEnv s) action (fun _ after => Extended action after [] [s] action.timeout)
      Raised.IsError := by
  obtain ⟨env, run, elements⟩ := StaticVector.emplaceBack_ok room s
  apply yields_get
  rw [run]
  exact yields_modify ⟨rfl, (List.append_nil _).symm, elements, rfl⟩

def luaPair (pair : Bytes × Bytes) : LuaValue × LuaValue := (.string pair.1, .string pair.2)

def envStrings (pairs : List (Bytes × Bytes)) : List Bytes :=
  pairs.map fun pair => envString pair.1 pair.2

theorem asString_eq_some {v : LuaValue} {s : Bytes} (h : v.asString = some s) : v = .string s := by
  cases v with
  | string t =>
    cases h
    rfl
  | _ => cases h

theorem collectExecEnv_yields (entries : List (LuaValue × LuaValue)) :
    Yields (collectExecEnv entries) action
      (fun _ after => ∃ pairs, entries = pairs.map luaPair ∧
        Extended action after [] (envStrings pairs) action.timeout) Raised.IsError := by
  induction entries generalizing action with
  | nil => exact yields_pure ⟨[], rfl, .refl action⟩
  | cons entry rest ih =>
    obtain ⟨name, value⟩ := entry
    apply yields_get
    apply yields_check trivial
    intro room
    apply yields_require trivial
    intro n hn
    apply yields_require trivial
    intro v hv
    have one := emplaceEnv_yields (envString n v) (StaticVector.length_lt_of_not_full room)
    refine one.bind fun _ added first => ih.mono ?_
    rintro _ after ⟨pairs, eq, second⟩
    refine ⟨(n, v) :: pairs, ?_, first.timeout ▸ first.trans second⟩
    rw [eq, asString_eq_some hn, asString_eq_some hv]
    rfl

theorem collectArguments_yields (i : ℕ) (args : List LuaArgument) :
    Yields (collectArguments i args) action
      (fun _ after => ∃ texts, args.map LuaArgument.text = texts.map some ∧
        Extended action after texts [] action.timeout) Raised.IsError := by
  induction args generalizing i action with
  | nil => exact yields_pure ⟨[], rfl, .refl action⟩
  | cons arg rest ih =>
    apply yields_get
    apply yields_check trivial
    intro room
    apply yields_require trivial
    intro s hs
    have one := emplaceExec_yields s (StaticVector.length_lt_of_not_full room)
    refine one.bind fun _ added first => (ih (i + 1)).mono ?_
    rintro _ after ⟨texts, eq, second⟩
    refine ⟨s :: texts, ?_, first.timeout ▸ first.trans second⟩
    rw [List.map_cons, List.map_cons, eq, hs]

theorem collectTimeout_yields (value : OptionValue) :
    Yields (collectTimeout value) action
      (fun _ after => ∃ seconds, value.number = some (.finite seconds) ∧ 0 < seconds ∧
        Extended action after [] [] (durationCast seconds)) Raised.IsError := by
  apply yields_require trivial
  intro number given
  cases number with
  | notFinite => exact yields_throw trivial
  | finite seconds =>
    apply yields_check trivial
    intro valid
    have positive : 0 < seconds := not_le.mp fun small => valid (.inr (.inl small))
    exact yields_modify ⟨seconds, given, positive, rfl, (List.append_nil _).symm,
      (List.append_nil _).symm, rfl⟩

end Collect

def lookup {α : Type} (key : Bytes) (entries : List (LuaValue × α)) : Option α :=
  (entries.find? fun entry => entry.1.asString = some key).map Prod.snd

theorem lookup_cons_self {α : Type} {key : Bytes} {k : LuaValue} (h : k.asString = some key)
    (v : α) (rest : List (LuaValue × α)) : lookup key ((k, v) :: rest) = some v := by
  simp [lookup, h]

theorem lookup_cons_other {α : Type} {key other : Bytes} {k : LuaValue}
    (h : k.asString = some other) (ne : other ≠ key) (v : α) (rest : List (LuaValue × α)) :
    lookup key ((k, v) :: rest) = lookup key rest := by
  simp [lookup, h, ne]

theorem lookup_eq_none {α : Type} {key : Bytes} {entries : List (LuaValue × α)}
    (h : key ∉ entries.filterMap fun entry => entry.1.asString) : lookup key entries = none := by
  rw [lookup, Option.map_eq_none_iff, List.find?_eq_none]
  intro entry mem found
  exact h (List.mem_filterMap.mpr ⟨entry, mem, of_decide_eq_true found⟩)

def envEntriesOf : Option OptionValue → List (LuaValue × LuaValue)
  | some (.table env) => env.entries
  | _ => []

def TimeoutSet (given : Option OptionValue) (before after : ℤ) : Prop :=
  match given with
  | none => after = before
  | some value => ∃ seconds, value.number = some (.finite seconds) ∧ 0 < seconds ∧
      after = durationCast seconds

theorem collectExecOptions_yields {action : Action} {entries : List (LuaValue × OptionValue)}
    (distinct : (entries.filterMap fun entry => entry.1.asString).Nodup) :
    Yields (collectExecOptions entries) action
      (fun _ after => ∃ pairs t, envEntriesOf (lookup (ascii "env") entries) = pairs.map luaPair ∧
        TimeoutSet (lookup (ascii "timeout") entries) action.timeout t ∧
        Extended action after [] (envStrings pairs) t) Raised.IsError := by
  induction entries generalizing action with
  | nil => exact yields_pure ⟨[], _, rfl, rfl, .refl action⟩
  | cons entry rest ih =>
    obtain ⟨key, value⟩ := entry
    apply yields_require trivial
    intro k hk
    have keys : ((key, value) :: rest).filterMap (fun entry => entry.1.asString) =
        k :: rest.filterMap fun entry => entry.1.asString := List.filterMap_cons_some hk
    rw [keys, List.nodup_cons] at distinct
    obtain ⟨new, distinct⟩ := distinct
    simp only [collectExecOption]
    split_ifs with isEnv isTimeout
    · subst isEnv
      cases value with
      | scalar number => exact (yields_throw trivial).bind (Q := fun _ _ => False) nofun
      | table env =>
        refine (collectExecEnv_yields env.entries).bind ?_
        rintro _ added ⟨pairs, entriesEq, first⟩
        refine (ih distinct).mono ?_
        rintro _ after ⟨none, t, noneEq, timeout, second⟩
        rw [lookup_eq_none new] at noneEq
        have empty : none = [] := List.map_eq_nil_iff.mp noneEq.symm
        subst empty
        rw [lookup_cons_self hk, lookup_cons_other hk (by decide)]
        refine ⟨pairs, t, entriesEq, first.timeout ▸ timeout, ?_⟩
        simpa [envStrings] using first.trans second
    · subst isTimeout
      refine (collectTimeout_yields value).bind ?_
      rintro _ added ⟨seconds, number, positive, first⟩
      refine (ih distinct).mono ?_
      rintro _ after ⟨pairs, t, entriesEq, timeout, second⟩
      rw [lookup_eq_none new] at timeout
      rw [lookup_cons_self hk, lookup_cons_other hk (by decide)]
      refine ⟨pairs, t, entriesEq, ⟨seconds, number, positive, ?_⟩, first.trans second⟩
      exact timeout.trans first.timeout
    · exact (yields_throw trivial).bind (Q := fun _ _ => False) nofun

/-- What the script calls a constructor function with. -/
def option (stack : List LuaArgument) (key : Bytes) : Option OptionValue :=
  (optionsTable stack).bind fun options => lookup key options.entries

/-- The parameters behind the mail, without the options. -/
def arguments (stack : List LuaArgument) : List LuaArgument :=
  if (optionsTable stack).isSome then stack.dropLast.tail else stack.tail

theorem optionsTable_long {stack : List LuaArgument} {options : LuaTable OptionValue}
    (h : optionsTable stack = some options) : 2 < stack.length := by
  unfold optionsTable at h
  split at h
  · split_ifs at h with long
    exact long
  · cases h

theorem arguments_ne_nil {stack : List LuaArgument} (h : 2 ≤ stack.length) :
    arguments stack ≠ [] := by
  apply List.ne_nil_of_length_pos
  unfold arguments
  cases table : optionsTable stack with
  | none =>
    rw [if_neg (by simp), List.length_tail]
    omega
  | some options =>
    have long := optionsTable_long table
    rw [if_pos (by simp), List.length_tail, List.length_dropLast]
    omega

/-- What `exec` and `exec_raw` make of arguments that they accept. -/
structure Collected (stack : List LuaArgument) (action : Action) (texts : List Bytes)
    (pairs : List (Bytes × Bytes)) : Prop where
  nonempty : texts ≠ []
  argumentTexts : (arguments stack).map LuaArgument.text = texts.map some
  envPairs : envEntriesOf (option stack (ascii "env")) = pairs.map luaPair
  exec : action.exec.elements = texts
  env : action.env.elements = envStrings pairs
  timeout : TimeoutSet (option stack (ascii "timeout")) (-1) action.timeout

theorem collectExec_yields {stack : List LuaArgument} (long : 2 ≤ stack.length)
    (type : Action.Kind) :
    Yields (collectExec stack) { type } (fun _ after => after.type = type ∧
      ∃ texts pairs, Collected stack after texts pairs) Raised.IsError := by
  have some_argument := arguments_ne_nil long
  have texts_ne {texts : List Bytes}
      (eq : (arguments stack).map LuaArgument.text = texts.map some) : texts ≠ [] := by
    rintro rfl
    exact some_argument (List.map_eq_nil_iff.mp eq)
  unfold collectExec
  cases table : optionsTable stack with
  | none =>
    refine (collectArguments_yields 2 stack.tail).mono ?_
    rintro _ after ⟨texts, eq, extended⟩
    have args : (arguments stack).map LuaArgument.text = texts.map some := by
      rw [← eq, arguments, table]
      rfl
    refine ⟨extended.type, texts, [], texts_ne args, args, ?_, extended.exec, extended.env, ?_⟩
    · rw [option, table]
      rfl
    · rw [option, table]
      exact extended.timeout
  | some options =>
    refine (collectExecOptions_yields options.distinct).bind ?_
    rintro _ opted ⟨pairs, t, entriesEq, timeout, first⟩
    refine (collectArguments_yields 2 stack.dropLast.tail).mono ?_
    rintro _ after ⟨texts, eq, second⟩
    have args : (arguments stack).map LuaArgument.text = texts.map some := by
      rw [← eq, arguments, table]
      rfl
    have extended := first.trans second
    refine ⟨extended.type, texts, pairs, texts_ne args, args, ?_, extended.exec, ?_, ?_⟩
    · rwa [option, table]
    · rw [extended.env, List.append_nil]
      rfl
    · rw [option, table, extended.timeout, first.timeout]
      exact timeout

theorem construct_outcome {type : Action.Kind} {collect : ActionCall Unit} {P : Action → Prop}
    (h : Yields collect { type } (fun _ after => P after) Raised.IsError) :
    (∃ e, construct type collect = .error (.error e)) ∨
      ∃ action, construct type collect = .ok action ∧ P action := by
  unfold Yields at h
  unfold construct
  cases run : collect { type } with
  | ok _ after =>
    rw [run] at h
    exact .inr ⟨after, rfl, h⟩
  | error raised _ =>
    rw [run] at h
    cases raised with
    | error e => exact .inl ⟨e, rfl⟩
    | fault f => exact h.elim

theorem newPlainAction_outcome (type : Action.Kind) (stack : List LuaArgument) :
    (∃ e, newPlainAction type stack = .error (.error e)) ∨
      newPlainAction type stack = .ok { type } := by
  unfold newPlainAction
  split_ifs
  · exact .inl ⟨_, rfl⟩
  · exact .inr rfl

/-- A program is executed with what has been collected, or an error is raised. -/
theorem newProcessAction_outcome (type : Action.Kind) (stack : List LuaArgument) :
    (∃ e, newProcessAction type stack = .error (.error e)) ∨
      ∃ action, newProcessAction type stack = .ok action ∧ action.type = type ∧
        ∃ texts pairs, Collected stack action texts pairs := by
  unfold newProcessAction
  split_ifs with short
  · exact .inl ⟨_, rfl⟩
  · exact construct_outcome (collectExec_yields (not_lt.mp short) type)

theorem newProcessAction_collected {type : Action.Kind} {stack : List LuaArgument}
    {action : Action} (accepted : newProcessAction type stack = .ok action) :
    action.type = type ∧ ∃ texts pairs, Collected stack action texts pairs := by
  rcases newProcessAction_outcome type stack with ⟨e, raised⟩ | ⟨made, run, collected⟩
  · rw [raised] at accepted
    cases accepted
  · rw [run] at accepted
    cases accepted
    exact collected

end Qrelay
