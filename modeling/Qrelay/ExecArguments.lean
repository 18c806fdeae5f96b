import Qrelay.ConnectionRuns
import Qrelay.Lib.Separator
import Qrelay.Spawn
import Mathlib.Algebra.Order.BigOperators.Group.List

/-! What the child process of `exec` and `exec_raw` finds of the arguments that
the script gave: the strings become C strings, the pairs of the `env` option
become strings `NAME=VALUE`, and the timeout becomes a number of ticks. -/

namespace Qrelay
open Lib Lib.Decimal

theorem cString_prefix (s : Bytes) : cString s <+: s := List.takeWhile_prefix _

theorem zero_notMem_cString (s : Bytes) : 0 ∉ cString s := by
  intro mem
  simpa using List.mem_takeWhile_imp mem

theorem cString_eq_iff {s : Bytes} : cString s = s ↔ 0 ∉ s := by
  constructor
  · intro eq
    rw [← eq]
    exact zero_notMem_cString s
  · intro clean
    apply List.takeWhile_eq_self_iff.mpr
    intro b mem
    simpa using fun eq : b = 0 => clean (eq ▸ mem)

/-- A string of the environment, cut at its first `=`, as an entry of a table. -/
def envEntry (s : Bytes) : Option (LuaValue × LuaValue) :=
  (Separator.cut (ascii "=") s).map luaPair

/-- Nothing of the pair is lost or renamed on its way. -/
structure CleanPair (pair : Bytes × Bytes) : Prop where
  name : 0 ∉ pair.1
  separator : 61 ∉ pair.1
  value : 0 ∉ pair.2

theorem envEntry_clean {pair : Bytes × Bytes} (h : CleanPair pair) :
    envEntry (cString (envString pair.1 pair.2)) = some (luaPair pair) := by
  have whole : cString (envString pair.1 pair.2) = pair.1 ++ (61 :: ([] ++ pair.2)) := by
    have string : envString pair.1 pair.2 = pair.1 ++ (61 :: ([] ++ pair.2)) := List.append_assoc ..
    rw [string, cString_eq_iff]
    simp [h.name, h.value]
  have cut : Separator.cut (ascii "=") (pair.1 ++ (61 :: ([] ++ pair.2))) = some pair :=
    Separator.cut_append h.separator pair.2
  rw [envEntry, whole, cut]
  rfl

/-- A measure of an entry that any loss makes smaller. -/
def entryWeight : Option (LuaValue × LuaValue) → ℕ
  | some (.string name, .string value) => 2 * name.length + value.length + 1
  | _ => 0

theorem weight_luaPair (pair : Bytes × Bytes) :
    entryWeight (some (luaPair pair)) = 2 * pair.1.length + pair.2.length + 1 := rfl

theorem name_length_le {name value first second : Bytes} (clean : 61 ∉ first)
    (h : first ++ 61 :: second <+: envString name value) : first.length ≤ name.length := by
  by_contra longer
  have whole : envString name value = name ++ [61] ++ value := rfl
  have start : name ++ [61] <+: envString name value := by
    rw [whole]
    exact List.prefix_append _ _
  have inside : name ++ [61] <+: first := by
    apply List.prefix_of_prefix_length_le start ((List.prefix_append _ _).trans h)
    rw [List.length_append, List.length_singleton]
    omega
  exact clean (inside.subset (by simp))

/-- Every loss makes the entry lighter. -/
theorem weight_received (pair : Bytes × Bytes) :
    entryWeight (envEntry (cString (envString pair.1 pair.2))) ≤ entryWeight (some (luaPair pair)) ∧
      (entryWeight (envEntry (cString (envString pair.1 pair.2))) =
        entryWeight (some (luaPair pair)) → CleanPair pair) := by
  obtain ⟨name, value⟩ := pair
  dsimp only
  have read := cString_prefix (envString name value)
  cases cutEq : Separator.cut (ascii "=") (cString (envString name value)) with
  | none =>
    rw [envEntry, cutEq]
    refine ⟨Nat.zero_le _, fun heavy => ?_⟩
    cases heavy
  | some parts =>
    obtain ⟨eq, clean⟩ := Separator.cut_eq_some cutEq
    obtain ⟨first, second⟩ := parts
    dsimp only at eq clean
    have received : envEntry (cString (envString name value)) = some (luaPair (first, second)) := by
      rw [envEntry, cutEq]
      rfl
    have short := name_length_le clean (eq ▸ read)
    have total := read.length_le
    have whole : (envString name value).length = name.length + 1 + value.length := by
      rw [envString, List.length_append, List.length_append]
      rfl
    rw [eq, List.length_append, List.length_cons] at total
    rw [received, weight_luaPair, weight_luaPair]
    dsimp only
    refine ⟨by omega, fun heavy => ?_⟩
    -- nothing is cut off, so the name ends at the pair's own separator
    have complete : cString (envString name value) = envString name value := by
      apply read.eq_of_length
      rw [eq, List.length_append, List.length_cons]
      omega
    have free := cString_eq_iff.mp complete
    have start : first <+: envString name value := (List.prefix_append _ _).trans (eq ▸ read)
    have nameStart : name <+: envString name value := by
      rw [envString, List.append_assoc]
      exact List.prefix_append _ _
    have same : first = name := by
      apply (List.prefix_of_prefix_length_le start nameStart short).eq_of_length
      omega
    exact
      { name := fun mem => free (by simp [envString, mem])
        separator := same ▸ clean
        value := fun mem => free (by simp [envString, mem]) }

theorem env_received_iff (pairs : List (Bytes × Bytes)) :
    (((envStrings pairs).map cString).map envEntry).Perm ((pairs.map luaPair).map some) ↔
      ∀ pair ∈ pairs, CleanPair pair := by
  have received : ((envStrings pairs).map cString).map envEntry =
      pairs.map fun pair => envEntry (cString (envString pair.1 pair.2)) := by
    rw [envStrings, List.map_map, List.map_map]
    rfl
  rw [received, List.map_map]
  constructor
  · intro perm pair mem
    by_contra damaged
    have weights := (perm.map entryWeight).sum_eq
    rw [List.map_map, List.map_map] at weights
    have lighter := List.sum_lt_sum (fun pair : Bytes × Bytes =>
        entryWeight (envEntry (cString (envString pair.1 pair.2))))
      (fun pair => entryWeight (some (luaPair pair))) (fun pair _ => (weight_received pair).1)
      ⟨pair, mem, lt_of_le_of_ne (weight_received pair).1 (mt (weight_received pair).2 damaged)⟩
    exact lighter.ne weights
  · intro clean
    rw [List.map_congr_left fun pair mem => envEntry_clean (clean pair mem)]
    rfl

theorem arguments_received_iff (texts : List Bytes) :
    texts.map cString = texts ↔ ∀ s ∈ texts, 0 ∉ s := by
  have same : texts.map cString = texts ↔ texts.map cString = texts.map id := by rw [List.map_id]
  rw [same, List.map_inj_left]
  exact forall₂_congr fun s _ => cString_eq_iff

section Timeout

open QmqpRelayConnection

structure Started (a : Answers) : Prop where
  spawn : ∀ argv env, a.spawn argv env = .ok ()
  write : ∃ accepted, a.write = .ok accepted

/-- `DoExec` and `DoRawExec` arm `relay_timeout` first of all, and leave it like
that when they have started the child process. -/
structure ArmsTimeout (action : LuaAction) : Prop where
  schedules : ∀ w c, w.connection = some c → ∃ t, scheduleTimeout action w =
    .ok () { w with connection := some { c with relayTimeout := some t } }
  stays : ∀ lib a mail w c, w.connection = some c → Started a → ∃ w' c' t,
    doAction lib a action mail w = .ok () w' ∧ w'.connection = some c' ∧ c'.relayTimeout = some t

theorem doAction_started {action : LuaAction} (type : action.type = .exec ∨ action.type = .execRaw)
    {lib : Libcommon} {a : Answers} {mail : MutableMail} {w : World} {c : QmqpRelayConnection}
    (alive : w.connection = some c) (started : Started a) :
    ∃ w' c', doAction lib a action mail w = .ok () w' ∧ w'.connection = some c' ∧
      c'.relayTimeout = timeoutAfter action c := by
  have relaying : self.modify (fun c => { c with state := .relaying }) w =
      .ok () (w.goOn { c with state := .relaying } []) := modify_apply alive _
  rcases type with type | type
  · have stays := @startRelay_stays lib a _ _ action mail
      (fun headers => .exec (.new lib mail headers) (.start action type a.spawn)) _
      (rfl : (w.goOn { c with state := .relaying } []).connection = _)
      (by rw [RelayCall.react, ExecRelay.react, started.spawn]; rfl) trivial
    rw [doAction_exec type, bind_ok relaying, doExec]
    exact ⟨_, _, stays, rfl, rfl⟩
  · obtain ⟨accepted, write⟩ := started.write
    have stays := @startRelay_stays lib a _ _ action mail
      (fun headers => .rawExec (.new mail headers) (.start action type a.spawn a.write)) _
      (rfl : (w.goOn { c with state := .relaying } []).connection = _)
      (by rw [RelayCall.react, RawExecRelay.react, started.spawn, write]; rfl)
      (show 1 ≤ 256 by decide)
    rw [doAction_execRaw type, bind_ok relaying, doRawExec]
    exact ⟨_, _, stays, rfl, rfl⟩

theorem armsTimeout_iff {action : LuaAction}
    (type : action.type = .exec ∨ action.type = .execRaw) :
    ArmsTimeout action ↔ 0 < action.timeout := by
  constructor
  · intro arms
    by_contra unarmed
    obtain ⟨t, run⟩ := arms.schedules (new false 0 none) { startTime := 0, peerAuth := none } rfl
    rw [scheduleTimeout, if_neg unarmed] at run
    cases run
  · intro positive
    refine ⟨fun w c alive => ⟨action.timeout, ?_⟩, fun lib a mail w c alive started => ?_⟩
    · rw [scheduleTimeout, if_pos positive]
      exact Place.modify_alive alive _
    · obtain ⟨w', c', run, after, timer⟩ := @doAction_started _ type lib _ mail _ _ alive started
      rw [timeoutAfter, if_pos positive] at timer
      exact ⟨w', c', _, run, after, timer⟩

end Timeout

/-- What the script asked for is what the child process and the timer get. -/
structure Delivered (stack : List LuaArgument) (action : Action) (vectors : SpawnVectors) :
    Prop where
  spawns : spawnVectors action = .ok (some vectors)
  argv : (childStrings vectors.argv.elements).map some = (arguments stack).map LuaArgument.text
  env : ((childStrings vectors.env.elements).map envEntry).Perm
    ((envEntriesOf (option stack (ascii "env"))).map some)
  timeout : (option stack (ascii "timeout")).isSome →
    ∃ start : LuaAction, start.toAction = action ∧ ArmsTimeout start

/-- No string that becomes a C string has a null byte, no name has the
separator, and the timeout is not below the resolution of the timer. -/
structure Lossless (stack : List LuaArgument) : Prop where
  arguments : ∀ arg ∈ arguments stack, ∀ s, arg.text = some s → 0 ∉ s
  env : ∀ name value, (.string name, .string value) ∈ envEntriesOf (option stack (ascii "env")) →
    CleanPair (name, value)
  timeout : ∀ seconds, option stack (ascii "timeout") = some (.scalar (some (.finite seconds))) →
    1 - 1 / 2 ^ 54 ≤ seconds * 10 ^ 9

theorem collected_of_accepted {stack : List LuaArgument} {action : Action}
    (accepted : newExecAction stack = .ok action ∨ newExecRawAction stack = .ok action) :
    (action.type = .exec ∨ action.type = .execRaw) ∧
      ∃ texts pairs, Collected stack action texts pairs := by
  rcases accepted with accepted | accepted
  · exact (newProcessAction_collected accepted).imp_left .inl
  · exact (newProcessAction_collected accepted).imp_left .inr

section Accepted

variable {stack : List LuaArgument} {action : Action} {texts : List Bytes}
  {pairs : List (Bytes × Bytes)} (collected : Collected stack action texts pairs)

include collected

theorem Collected.argumentsLossless_iff :
    (∀ arg ∈ arguments stack, ∀ s, arg.text = some s → 0 ∉ s) ↔ ∀ s ∈ texts, 0 ∉ s := by
  have mem_iff (s : Bytes) : s ∈ texts ↔ ∃ arg ∈ arguments stack, arg.text = some s := by
    rw [← List.mem_map, collected.argumentTexts]
    simp
  constructor
  · intro clean s mem
    obtain ⟨arg, argMem, text⟩ := (mem_iff s).mp mem
    exact clean arg argMem s text
  · intro clean arg argMem s text
    exact clean s ((mem_iff s).mpr ⟨arg, argMem, text⟩)

theorem Collected.envLossless_iff :
    (∀ name value, (.string name, .string value) ∈ envEntriesOf (option stack (ascii "env")) →
      CleanPair (name, value)) ↔ ∀ pair ∈ pairs, CleanPair pair := by
  rw [collected.envPairs]
  constructor
  · intro clean pair mem
    exact clean pair.1 pair.2 (List.mem_map_of_mem mem)
  · intro clean name value mem
    obtain ⟨pair, pairMem, eq⟩ := List.mem_map.mp mem
    cases eq
    exact clean pair pairMem

theorem Collected.timeoutLossless_iff :
    (∀ seconds, option stack (ascii "timeout") = some (.scalar (some (.finite seconds))) →
      1 - 1 / 2 ^ 54 ≤ seconds * 10 ^ 9) ↔
      ((option stack (ascii "timeout")).isSome → 0 < action.timeout) := by
  have set := collected.timeout
  cases given : option stack (ascii "timeout") with
  | none => simp
  | some value =>
    rw [given] at set
    obtain ⟨seconds, number, positive, eq⟩ := set
    cases value with
    | table env => cases number
    | scalar n =>
      cases number
      rw [eq, durationCast_pos positive]
      constructor
      · intro long _
        exact long seconds rfl
      · intro long other same
        cases same
        exact long rfl

end Accepted

/-- The child process and the timer get what the script asked for exactly if
nothing of it is lost in the encoding. -/
theorem arguments_delivered_iff {stack : List LuaArgument} {action : Action}
    (accepted : newExecAction stack = .ok action ∨ newExecRawAction stack = .ok action) :
    (∃ vectors, Delivered stack action vectors) ↔ Lossless stack := by
  obtain ⟨type, texts, pairs, collected⟩ := collected_of_accepted accepted
  have nonempty : action.exec.elements ≠ [] := by
    rw [collected.exec]
    exact collected.nonempty
  obtain ⟨vectors, run, argvEq, envEq⟩ := spawnVectors_ok type nonempty
  have defined : action.type ≠ .undefined := by
    rcases type with type | type <;> rw [type] <;> nofun
  let start : LuaAction := { action with defined, nonempty := fun _ => nonempty }
  have argv : (childStrings vectors.argv.elements).map some =
      (arguments stack).map LuaArgument.text ↔ ∀ s ∈ texts, 0 ∉ s := by
    rw [argvEq, childStrings_terminated, collected.exec, collected.argumentTexts,
      ← arguments_received_iff]
    exact (Option.some_injective Bytes).list_map.eq_iff
  have env : ((childStrings vectors.env.elements).map envEntry).Perm
      ((envEntriesOf (option stack (ascii "env"))).map some) ↔ ∀ pair ∈ pairs, CleanPair pair := by
    rw [envEq, childStrings_terminated, collected.env, collected.envPairs]
    exact env_received_iff pairs
  constructor
  · rintro ⟨vectors', delivered⟩
    have same := delivered.spawns
    rw [run] at same
    cases same
    refine ⟨collected.argumentsLossless_iff.mpr (argv.mp delivered.argv),
      collected.envLossless_iff.mpr (env.mp delivered.env),
      collected.timeoutLossless_iff.mpr fun given => ?_⟩
    obtain ⟨other, rfl, arms⟩ := delivered.timeout given
    exact (armsTimeout_iff type).mp arms
  · intro lossless
    have positive := collected.timeoutLossless_iff.mp lossless.timeout
    exact ⟨vectors, run, argv.mpr (collected.argumentsLossless_iff.mp lossless.arguments),
      env.mpr (collected.envLossless_iff.mp lossless.env),
      fun given => ⟨start, rfl, (armsTimeout_iff type).mpr (positive given)⟩⟩

section Sample

def sampleOptions : LuaTable OptionValue where
  entries :=
    [(.string (ascii "timeout"), .scalar (some (.finite 2))),
    (.string (ascii "env"), .table
      { entries := [(.string (ascii "A"), .string (ascii "b=c"))], distinct := by decide })]
  distinct := by decide

/-- The arguments of `exec_raw("/bin/x", {timeout=2, env={A="b=c"}})`. -/
def sampleStack : List LuaArgument :=
  [.value .other, .value (.string (ascii "/bin/x")), .table sampleOptions]

def sampleAction : Action where
  type := .execRaw
  exec := ⟨[ascii "/bin/x"], by decide⟩
  env := ⟨[ascii "A=b=c"], by decide⟩
  timeout := durationCast 2

theorem isNormal_of_one_le {value : ℚ} (h : 1 ≤ value) : isNormal value = true := by
  have small : smallestNormal ≤ 1 := by
    rw [smallestNormal, one_div]
    exact inv_le_one_of_one_le₀ (one_le_pow₀ one_le_two)
  exact decide_eq_true ((small.trans h).trans (le_abs_self value))

theorem sample_accepted : newExecRawAction sampleStack = .ok sampleAction := by
  have timeout (action : Action) : collectTimeout (.scalar (some (.finite 2))) action =
      .ok () { action with timeout := durationCast 2 } := by
    refine (bind_ok rfl).trans ((check_bind _ _ _ _).trans (if_pos ?_))
    rw [isNormal_of_one_le one_le_two]
    norm_num
  have options : collectExecOptions sampleOptions.entries { type := .execRaw } =
      .ok () { sampleAction with exec := {} } := by
    rw [sampleOptions, collectExecOptions]
    refine (bind_ok rfl).trans ?_
    exact (bind_ok (timeout _)).trans rfl
  have run : collectExec sampleStack { type := .execRaw } = .ok () sampleAction :=
    (bind_ok options).trans rfl
  rw [newExecRawAction, newProcessAction, if_neg (by decide), construct, run]

theorem arguments_delivered_iff_sample :
    newExecRawAction sampleStack = .ok sampleAction ∧
      ∃ vectors, Delivered sampleStack sampleAction vectors := by
  refine ⟨sample_accepted, (arguments_delivered_iff (.inr sample_accepted)).mpr ?_⟩
  constructor
  · decide
  · intro name value mem
    have entry : (name, value) = (ascii "A", ascii "b=c") := by
      cases List.mem_singleton.mp mem
      rfl
    rw [entry]
    exact ⟨by decide, by decide, by decide⟩
  · intro seconds given
    cases given
    norm_num

/-- The arguments of `exec("/bin/x", "a\0b")`. -/
def nullStack : List LuaArgument :=
  [.value .other, .value (.string (ascii "/bin/x")), .value (.string [97, 0, 98])]

theorem argument_truncated : ∃ action, newExecAction nullStack = .ok action ∧
    (∃ vectors, spawnVectors action = .ok (some vectors) ∧
      childStrings vectors.argv.elements = [ascii "/bin/x", ascii "a"]) ∧
    ¬ ∃ vectors, Delivered nullStack action vectors := by
  refine ⟨_, rfl, ⟨_, rfl, rfl⟩, ?_⟩
  rintro ⟨vectors, delivered⟩
  have run := delivered.spawns
  cases run
  exact absurd delivered.argv (by decide)

end Sample

end Qrelay
