import Qrelay.Collected
import Qrelay.Connection

/-! The argument and environment vectors that the relays pass to `pidfd_spawn`:
arrays of pointers to C strings, with a null pointer behind the last one. -/

namespace Qrelay
open Lib Lib.Decimal

/-- `char *argv[size]`, as far as it has been filled: what an entry points at,
`none` for the null pointer. -/
abbrev PointerArray (size : ℕ) := StaticVector (Option Bytes) size

def storePointers {size : ℕ} : List Bytes → PointerArray size → Except Fault (PointerArray size)
  | [], array => array.emplaceBack none
  | s :: rest, array => do storePointers rest (← array.emplaceBack (some s))

structure SpawnVectors where
  argv : PointerArray (Action.maxExec + 1)
  env : PointerArray (Action.maxEnv + 1)

/-- `Start` of the relay class for actions of this type, until it calls `pidfd_spawn`. -/
def startVectors (type : Action.Kind) (action : Action) : Except Fault SpawnVectors :=
  if action.type = type ∧ action.exec.elements ≠ [] then do
    let argv ← storePointers action.exec.elements {}
    let env ← storePointers action.env.elements {}
    return { argv, env }
  else throw .assertion

/-- `Do`, for actions that start a process also `Start`. -/
def spawnVectors (action : Action) : Except Fault (Option SpawnVectors) :=
  match action.type with
  | .undefined => throw .assertion
  | .discard | .reject | .connect => return none
  | .exec => some <$> startVectors .exec action
  | .execRaw => some <$> startVectors .execRaw action

def pointedAt : List (Option Bytes) → List Bytes
  | some s :: rest => s :: pointedAt rest
  | _ => []

/-- What the child process reads, where a string ends at its first null byte. -/
def childStrings (array : List (Option Bytes)) : List Bytes := (pointedAt array).map cString

theorem pointedAt_terminated (strings : List Bytes) :
    pointedAt (strings.map some ++ [none]) = strings := by
  induction strings with
  | nil => rfl
  | cons s rest ih => rw [List.map_cons, List.cons_append, pointedAt, ih]

theorem storePointers_ok {size : ℕ} (strings : List Bytes) {array : PointerArray size}
    (room : array.elements.length + strings.length < size) :
    ∃ filled, storePointers strings array = .ok filled ∧
      filled.elements = array.elements ++ (strings.map some ++ [none]) := by
  induction strings generalizing array with
  | nil => exact StaticVector.emplaceBack_ok room none
  | cons s rest ih =>
    rw [List.length_cons] at room
    have free : array.elements.length < size := by omega
    obtain ⟨next, run, elements⟩ := StaticVector.emplaceBack_ok free (some s)
    have length : next.elements.length = array.elements.length + 1 := by
      rw [elements, List.length_append, List.length_singleton]
    obtain ⟨filled, rest_run, filled_eq⟩ := @ih next (by omega)
    refine ⟨filled, ?_, ?_⟩
    · simp only [storePointers, run]
      exact rest_run
    · rw [filled_eq, elements, List.append_assoc]
      rfl

theorem startVectors_ok {action : Action} {type : Action.Kind} (matching : action.type = type)
    (nonempty : action.exec.elements ≠ []) :
    ∃ vectors, startVectors type action = .ok vectors ∧
      vectors.argv.elements = action.exec.elements.map some ++ [none] ∧
      vectors.env.elements = action.env.elements.map some ++ [none] := by
  have execBound := action.exec.length_le
  have envBound := action.env.length_le
  obtain ⟨argv, argvRun, argvEq⟩ :=
    @storePointers_ok (Action.maxExec + 1) action.exec.elements {} (by rw [List.length_nil]; omega)
  obtain ⟨env, envRun, envEq⟩ :=
    @storePointers_ok (Action.maxEnv + 1) action.env.elements {} (by rw [List.length_nil]; omega)
  refine ⟨⟨argv, env⟩, ?_, argvEq, envEq⟩
  rw [startVectors, if_pos ⟨matching, nonempty⟩, argvRun]
  simp only [bind, Except.bind, envRun]
  rfl

theorem spawnVectors_ok {action : Action} (type : action.type = .exec ∨ action.type = .execRaw)
    (nonempty : action.exec.elements ≠ []) :
    ∃ vectors, spawnVectors action = .ok (some vectors) ∧
      vectors.argv.elements = action.exec.elements.map some ++ [none] ∧
      vectors.env.elements = action.env.elements.map some ++ [none] := by
  obtain ⟨vectors, run, elements⟩ := startVectors_ok rfl nonempty
  refine ⟨vectors, ?_, elements⟩
  unfold spawnVectors
  rcases type with type | type
  · rw [type] at run ⊢
    simp only [run]
    rfl
  · rw [type] at run ⊢
    simp only [run]
    rfl

theorem childStrings_terminated (strings : List Bytes) :
    childStrings (strings.map some ++ [none]) = strings.map cString := by
  rw [childStrings, pointedAt_terminated]

end Qrelay
