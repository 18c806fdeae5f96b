import Qrelay.Libcommon

/-! Action.hxx: what a Lua handler decides to do with a mail, and the actions
that Lua code can get hold of. -/

namespace Qrelay

/-- `StaticVector`: a list that never exceeds its capacity. -/
structure StaticVector (α : Type) (capacity : ℕ) where
  elements : List α := []
  length_le : elements.length ≤ capacity := by decide
  deriving DecidableEq, Repr

namespace Action

def maxExec : ℕ := 32
def maxEnv : ℕ := 32

inductive Kind where
  | undefined
  | discard
  | reject
  | connect
  | exec
  | execRaw
  deriving DecidableEq, Repr

end Action

structure Action where
  type : Action.Kind := .undefined
  exec : StaticVector Bytes Action.maxExec := ⟨[], Nat.zero_le _⟩
  env : StaticVector Bytes Action.maxEnv := ⟨[], Nat.zero_le _⟩
  /-- In ticks of `Event::Duration`; negative for none. -/
  timeout : ℤ := -1
  deriving DecidableEq, Repr

/-- An action as the constructor functions of LMail.cxx leave it to a script. -/
structure LuaAction extends Action where
  defined : type ≠ .undefined
  nonempty : type = .exec ∨ type = .execRaw → exec.elements ≠ []
  deriving DecidableEq, Repr

end Qrelay
