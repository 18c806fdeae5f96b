import Qrelay.RawExecOutput

/-! Whole runs of a RawExecRelay with its child. Without a broken write, what
the relay reports depends on the output and the exit status alone. A broken
write ends the run with a response of its own. -/

namespace Qrelay
open Lib Lib.Decimal
namespace RawExecRelay

theorem Tracks.act {r : RawExecRelay} {child : Child} (h : r.Tracks child) (act : ChildAct) :
    r.Tracks (child.act act) := by
  cases act with
  | write data =>
    rw [Child.act]
    split_ifs with writable
    · exact
        { output := h.output.imp fun _ h => ⟨by simp only [h.1, List.append_assoc], h.2⟩
          running := h.running
          reported := h.reported
          closed := fun closed => by
            have shut := (h.closed closed).1
            rw [writable] at shut
            cases shut }
    · exact h
  | closeInput => exact ⟨h.output, h.running, h.reported, h.closed⟩
  | closeOutput => exact ⟨h.output, h.running, h.reported, fun closed => ⟨rfl, (h.closed closed).2⟩⟩
  | exit => exact ⟨h.output, h.running, h.reported, h.closed⟩

theorem Reports.act {r : RawExecRelay} {c : Callback} {child : Child} (h : r.Reports c child)
    (act : ChildAct) : r.Reports c (child.act act) := by
  cases act with
  | write data =>
    rw [Child.act, if_neg (by simp [h.outputOver])]
    exact h
  | closeInput => exact ⟨h.closed, h.exited, h.outputOver, h.reported, h.fill, h.success, h.bytes⟩
  | closeOutput => exact ⟨h.closed, h.exited, rfl, h.reported, h.fill, h.success, h.bytes⟩
  | exit => exact ⟨h.closed, h.exited, h.outputOver, h.reported, h.fill, h.success, h.bytes⟩

theorem Tracks.acts {r : RawExecRelay} {child : Child} (h : r.Tracks child)
    (acts : List ChildAct) : r.Tracks (acts.foldl Child.act child) := by
  induction acts generalizing child with
  | nil => exact h
  | cons act acts ih => exact ih (h.act act)

theorem Tracks.fill {r : RawExecRelay} {child : Child} (h : r.Tracks child) :
    1 ≤ r.responseFill ∧ r.responseFill ≤ 256 := by
  obtain ⟨seen, -, holds⟩ := h.output
  exact ⟨holds.fill_pos, holds.fill_le⟩

namespace ChildRun

variable {lib : Libcommon} {w : ChildRun} {r : RawExecRelay}

def Sound (exit : ChildExit) (w : ChildRun) : Prop :=
  w.child.exit = exit ∧
  match w.solo.object with
  | some r => w.solo.calls = [] ∧ r.Tracks w.child ∧ (r.responsePipe = true ∨ r.pidfd = true)
  | none => ∃ r c, w.solo.calls = [(r, c)] ∧ r.Reports c w.child

section Launch

variable {mail : MutableMail} {headers : List (StringView Storage)} {action : LuaAction}
  {type : action.type = .execRaw} {exit : ChildExit} {early : List ChildAct} {accepted : ℕ}

def spawned (mail : MutableMail) (headers : List (StringView Storage)) : RawExecRelay :=
  { new mail headers with pidfd := true, responsePipe := true, requestPipe := true }

end Launch

/-- The event loop has nothing more to say about the exit or the response pipe. -/
def Quiet (w : ChildRun) : Prop := ∀ r, w.solo.object = some r →
  Delivery.childProcessExit.event r w.child = none ∧
  ∀ readiness, (Delivery.responsePipeReady readiness).event r w.child = none

/-- One callback, after both ends; until then the relay awaits one of them. -/
def Answers (exit : ChildExit) (w : ChildRun) : Prop :=
  match w.solo.object with
  | some r => w.solo.calls = [] ∧ (1 ≤ r.responseFill ∧ r.responseFill ≤ 256) ∧
      (r.responsePipe = true ∨ r.pidfd = true)
  | none => ∃ r c, w.solo.calls = [(r, c)] ∧ (1 ≤ r.responseFill ∧ r.responseFill ≤ 256) ∧
      (r.responsePipe = false ∧ w.child.outputOpen = false) ∧
      (r.pidfd = false ∧ w.child.reported = true) ∧
      ((∃ response, c = .response response) ↔ exit = .exited 0) ∧
      c.bytes = dueResponse exit w.child.output

theorem Sound.answers {exit : ChildExit} (sound : w.Sound exit) : w.Answers exit := by
  obtain ⟨⟨object, calls⟩, child⟩ := w
  obtain ⟨rfl, rest⟩ := sound
  cases object with
  | some r =>
    obtain ⟨silent, tracks, awaits⟩ := rest
    exact ⟨silent, tracks.fill, awaits⟩
  | none =>
    obtain ⟨r, c, calls, h⟩ := rest
    exact ⟨r, c, calls, h.fill, ⟨h.closed, h.outputOver⟩, ⟨h.exited, h.reported⟩, h.success,
      h.bytes⟩

theorem Answers.settled {exit : ChildExit} (answers : w.Answers exit)
    (ended : w.child.ended = true) (shut : w.child.outputOpen = false) (quiet : w.Quiet) :
    w.solo.calls.length = 1 := by
  obtain ⟨⟨object, calls⟩, child⟩ := w
  cases object with
  | some r =>
    exfalso
    obtain ⟨-, -, awaits⟩ := answers
    obtain ⟨unreported, silent⟩ := quiet r rfl
    obtain defined | running := awaits
    · have hangup := silent .readHangup
      rw [Delivery.event, if_pos ⟨defined, shut⟩] at hangup
      cases hangup
    · rw [Delivery.event, if_pos ⟨running, ended⟩] at unreported
      cases unreported
  | none =>
    obtain ⟨r, c, eq, -⟩ := answers
    exact congrArg List.length eq

end ChildRun

open ChildRun

def sampleMail : MutableMail :=
  { MutableMail.new ⟨ascii "1:m,1:s,1:r,", by decide⟩ with message := some ⟨.buffer, 2, 1⟩ }

/-- The code that the manual documents for an exit status. -/
def documentedCode : ChildExit → Bytes
  | .exited code =>
    if code = 0 then ascii "K"
    else if code = 64 ∨ code = 72 ∨ code = 77 ∨ code = 78 then ascii "D"
    else ascii "Z"
  | _ => ascii "Z"

theorem response_code (exit : ChildExit) : exit.response.take 1 = documentedCode exit := by
  cases exit with
  | waitFailed => rfl
  | signaled => rfl
  | exited code =>
    have same (n : UInt8) : (code.toNat : ℤ) = (n.toNat : ℤ) ↔ code = n := by
      rw [Int.natCast_inj, UInt8.toNat_inj]
    have success : (code.toNat : ℤ) = exitSuccess ↔ code = 0 := same 0
    have permanent : ((code.toNat : ℤ) = exUsage ∨ (code.toNat : ℤ) = exOsFile ∨
        (code.toNat : ℤ) = exNoPerm ∨ (code.toNat : ℤ) = exConfig) ↔
        code = 64 ∨ code = 72 ∨ code = 77 ∨ code = 78 :=
      or_congr (same 64) (or_congr (same 72) (or_congr (same 77) (same 78)))
    simp only [ChildExit.response, exitStatusToQmqpResponse, documentedCode, success, permanent]
    split_ifs <;> rfl

end RawExecRelay

end Qrelay
