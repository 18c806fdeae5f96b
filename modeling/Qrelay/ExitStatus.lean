import Qrelay.Libcommon

/-! Wait statuses of child processes, and the response of ExitStatus.hxx. The
status that an `ExitListener` gets is negative when `waitid` failed. -/

namespace Qrelay
open Lib.Decimal

def exitSuccess : ℤ := 0
def exUsage : ℤ := 64
def exOsFile : ℤ := 72
def exNoPerm : ℤ := 77
def exConfig : ℤ := 78

def exitStatusToQmqpResponse (status : ℤ) : Bytes :=
  if status = exUsage ∨ status = exOsFile ∨ status = exNoPerm ∨ status = exConfig then
    ascii "Dinternal server error"
  else
    ascii "Zinternal server error"

def wTermSig (status : ℤ) : ℤ := status % 128

/-- `WIFSIGNALED`; 127 marks a stopped process. -/
def wIfSignaled (status : ℤ) : Bool := 0 < wTermSig status && wTermSig status < 127

def wCoreDump (status : ℤ) : Bool := status / 128 % 2 = 1

def wExitStatus (status : ℤ) : ℤ := status / 256 % 256

inductive ChildExit where
  | waitFailed (errno : ℕ) (positive : 0 < errno)
  | signaled (signal : ℕ) (core : Bool) (range : 0 < signal ∧ signal < 127)
  | exited (code : UInt8)
  deriving DecidableEq, Repr

namespace ChildExit

def status : ChildExit → ℤ
  | waitFailed errno _ => -errno
  | signaled signal core _ => signal + if core then 128 else 0
  | exited code => 256 * code.toNat

/-- The response that stands for the exit status alone; `K` for success. -/
def response : ChildExit → Bytes
  | exited code =>
    if (code.toNat : ℤ) = exitSuccess then ascii "K" else exitStatusToQmqpResponse code.toNat
  | _ => ascii "Zinternal server error"

def Succeeded (exit : ChildExit) : Prop := exit = exited 0

instance : DecidablePred Succeeded := fun exit => inferInstanceAs (Decidable (exit = exited 0))

@[simp] theorem status_waitFailed_neg (errno : ℕ) (h : 0 < errno) :
    (waitFailed errno h).status < 0 := by
  simp only [status]
  omega

@[simp] theorem status_signaled (signal : ℕ) (core : Bool) (h : 0 < signal ∧ signal < 127) :
    ¬ (signaled signal core h).status < 0 ∧ wIfSignaled (signaled signal core h).status = true := by
  cases core <;>
    simp only [status, wIfSignaled, wTermSig, Bool.and_eq_true, decide_eq_true_eq, if_true,
      Bool.false_eq_true, if_false] <;>
    omega

@[simp] theorem status_exited (code : UInt8) : ¬ (exited code).status < 0 ∧
    wIfSignaled (exited code).status = false ∧ wExitStatus (exited code).status = code.toNat := by
  have small := code.toNat_lt
  have signal : wTermSig (exited code).status = 0 := by
    simp only [status, wTermSig]
    omega
  refine ⟨?_, ?_, ?_⟩
  · simp only [status]
    omega
  · simp [wIfSignaled, signal]
  · simp only [status, wExitStatus]
    omega

end ChildExit

end Qrelay
