import Qrelay.Action
import Qrelay.Lib.Double
import Qrelay.MutableMail
import Mathlib.Algebra.Order.Floor.Ring

/-! The functions of LMail.cxx that make actions. They fill a new action from
the Lua arguments; an error on the way discards it. -/

namespace Qrelay
open Lib Lib.Decimal

namespace StaticVector

variable {α : Type} {capacity : ℕ}

def full (v : StaticVector α capacity) : Bool := v.elements.length = capacity

def emplaceBack (v : StaticVector α capacity) (x : α) : Except Fault (StaticVector α capacity) :=
  if room : v.elements.length < capacity then
    .ok ⟨v.elements ++ [x], by rw [List.length_append, List.length_singleton]; omega⟩
  else .error .outOfRange

theorem emplaceBack_ok {v : StaticVector α capacity} (room : v.elements.length < capacity) (x : α) :
    ∃ v', v.emplaceBack x = .ok v' ∧ v'.elements = v.elements ++ [x] :=
  ⟨_, dif_pos room, rfl⟩

theorem length_lt_of_not_full {v : StaticVector α capacity} (h : v.full = false) :
    v.elements.length < capacity := by
  have other : v.elements.length ≠ capacity := by simpa [full] using h
  have bound := v.length_le
  omega

end StaticVector

/-- A number of Lua, which is a `double`. -/
inductive LuaNumber where
  | finite (value : ℚ)
  | notFinite
  deriving DecidableEq, Repr

/-- The string, if `lua_type` is `LUA_TSTRING`. -/
def LuaValue.asString : LuaValue → Option Bytes
  | .string s => some s
  | _ => none

/-- A table, in the order of `lua_next`; equal strings are the same key. -/
structure LuaTable (α : Type) where
  entries : List (LuaValue × α)
  distinct : (entries.filterMap fun entry => entry.1.asString).Nodup

inductive OptionValue where
  | table (env : LuaTable LuaValue)
  /-- No table; with the number that Lua converts it to, if any. -/
  | scalar (number : Option LuaNumber)

inductive LuaArgument where
  | value (v : LuaValue)
  | table (options : LuaTable OptionValue)

def LuaArgument.text : LuaArgument → Option Bytes
  | value v => v.text
  | table _ => none

def OptionValue.number : OptionValue → Option LuaNumber
  | table _ => none
  | scalar number => number

inductive Raised where
  | error (e : LuaError)
  | fault (f : Fault)
  deriving DecidableEq, Repr

abbrev ActionCall := EStateM Raised Action

section Timeout

def smallestNormal : ℚ := 1 / 2 ^ 1022

/-- `std::isnormal`, for a finite number. -/
def isNormal (value : ℚ) : Bool := smallestNormal ≤ |value|

/-- `duration_cast` of a number of seconds to nanoseconds: a product of doubles, truncated. -/
def durationCast (seconds : ℚ) : ℤ :=
  let ticks := Double.round (seconds * 10 ^ 9)
  if 0 ≤ ticks then ⌊ticks⌋ else ⌈ticks⌉

theorem durationCast_pos {seconds : ℚ} (positive : 0 < seconds) :
    0 < durationCast seconds ↔ 1 - 1 / 2 ^ 54 ≤ seconds * 10 ^ 9 := by
  rw [← Double.one_le_round_iff (by linarith)]
  simp only [durationCast]
  split_ifs with sign
  · exact Int.floor_pos
  · have negative : ⌈Double.round (seconds * 10 ^ 9)⌉ ≤ 0 := Int.ceil_nonpos.mpr (by linarith)
    constructor
    · omega
    · intro one
      linarith

end Timeout

def emplaceExec (s : Bytes) : ActionCall Unit := do
  match (← get).exec.emplaceBack s with
  | .ok exec => modify fun action => { action with exec }
  | .error f => throw (.fault f)

def emplaceEnv (s : Bytes) : ActionCall Unit := do
  match (← get).env.emplaceBack s with
  | .ok env => modify fun action => { action with env }
  | .error f => throw (.fault f)

def envString (name value : Bytes) : Bytes := name ++ ascii "=" ++ value

def collectExecEnv : List (LuaValue × LuaValue) → ActionCall Unit
  | [] => pure ()
  | (name, value) :: rest => do
    check ((← get).env.full = false) (.error (.message (ascii "Too many environment variables")))
    let name ← require name.asString (.error (.message (ascii "Environment name is not a string")))
    let value ←
      require value.asString (.error (.message (ascii "Environment value is not a string")))
    emplaceEnv (envString name value)
    collectExecEnv rest

def collectTimeout (value : OptionValue) : ActionCall Unit := do
  let seconds ← require value.number (.error (.message (ascii "Timeout is not a number")))
  match seconds with
  | .notFinite => throw (.error (.message (ascii "Bad timeout value")))
  | .finite seconds =>
    check (¬ (isNormal seconds = false ∨ seconds ≤ 0 ∨ 3600 < seconds))
      (.error (.message (ascii "Bad timeout value")))
    modify fun action => { action with timeout := durationCast seconds }

def collectExecOption (key : Bytes) (value : OptionValue) : ActionCall Unit :=
  if key = ascii "env" then
    match value with
    | .table env => collectExecEnv env.entries
    | .scalar _ => throw (.error (.message (ascii "Env is not a table")))
  else if key = ascii "timeout" then collectTimeout value
  else throw (.error (.message (ascii "Unknown option")))

def collectExecOptions : List (LuaValue × OptionValue) → ActionCall Unit
  | [] => pure ()
  | (key, value) :: rest => do
    let key ← require key.asString (.error (.message (ascii "Option key is not a string")))
    collectExecOption key value
    collectExecOptions rest

/-- The loop of `CollectExec`, from the stack index `i` on. -/
def collectArguments : ℕ → List LuaArgument → ActionCall Unit
  | _, [] => pure ()
  | i, arg :: rest => do
    check ((← get).exec.full = false) (.error (.argument i (ascii "Too many arguments")))
    let s ← require arg.text (.error (.expectedString i))
    emplaceExec s
    collectArguments (i + 1) rest

/-- The options, if the last parameter is a table behind other ones. -/
def optionsTable (stack : List LuaArgument) : Option (LuaTable OptionValue) :=
  match stack.getLast? with
  | some (.table options) => if 2 < stack.length then some options else none
  | _ => none

def collectExec (stack : List LuaArgument) : ActionCall Unit :=
  match optionsTable stack with
  | some options => do
    collectExecOptions options.entries
    collectArguments 2 stack.dropLast.tail
  | none => collectArguments 2 stack.tail

def construct (type : Action.Kind) (collect : ActionCall Unit) : Except Raised Action :=
  match collect { type } with
  | .ok _ action => .ok action
  | .error e _ => .error e

/-- `Lua::ToSocketAddress` accepts the second parameter or raises an error. -/
def newConnectAction (stack : List LuaArgument) (address : Except LuaError Unit) :
    Except Raised Action :=
  if stack.length ≠ 2 then .error (.error (.message (ascii "Invalid parameters")))
  else
    match address with
    | .error e => .error (.error e)
    | .ok () => construct .connect (pure ())

def newPlainAction (type : Action.Kind) (stack : List LuaArgument) : Except Raised Action :=
  if stack.length ≠ 1 then .error (.error (.message (ascii "Invalid parameters")))
  else construct type (pure ())

def newDiscardAction : List LuaArgument → Except Raised Action := newPlainAction .discard

def newRejectAction : List LuaArgument → Except Raised Action := newPlainAction .reject

def newProcessAction (type : Action.Kind) (stack : List LuaArgument) : Except Raised Action :=
  if stack.length < 2 then .error (.error (.message (ascii "Not enough parameters")))
  else construct type (collectExec stack)

def newExecAction : List LuaArgument → Except Raised Action := newProcessAction .exec

def newExecRawAction : List LuaArgument → Except Raised Action := newProcessAction .execRaw

end Qrelay
