import Qrelay.RawExecChild

/-! What the response of a RawExecRelay is made of. While the relay is there it
tracks its child: the response buffer holds the beginning of what was read, and
each of the two ends it waits for has happened if it has been seen. -/

namespace Qrelay
open Lib Lib.Decimal
namespace RawExecRelay

/-- The filled part of the response buffer behind the byte for the code. -/
def body (r : RawExecRelay) : Bytes := (r.responseBuffer.toList.take r.responseFill).drop 1

structure Holds (r : RawExecRelay) (seen : Bytes) : Prop where
  body : r.body = seen.take 255
  fill : r.responseFill = 1 + (seen.take 255).length

theorem Holds.fill_pos {r : RawExecRelay} {seen : Bytes} (h : r.Holds seen) :
    1 ≤ r.responseFill := by
  rw [h.fill]
  exact Nat.le_add_right 1 _

theorem Holds.fill_le {r : RawExecRelay} {seen : Bytes} (h : r.Holds seen) :
    r.responseFill ≤ 256 := by
  rw [h.fill, List.length_take]
  omega

theorem Holds.destSize {r : RawExecRelay} {seen : Bytes} (h : r.Holds seen) :
    r.destSize = 255 - seen.length := by
  rw [RawExecRelay.destSize, h.fill, List.length_take]
  omega

theorem overwrite_take (buffer : Vector UInt8 256) {fill : ℕ} {data : Bytes}
    (fits : fill + data.length ≤ 256) :
    (overwrite buffer fill data).toList.take (fill + data.length) =
      buffer.toList.take fill ++ data := by
  apply List.ext_getElem
  · simp only [List.length_take, Vector.length_toList, List.length_append]
    omega
  · intro i h h'
    simp only [List.length_take, Vector.length_toList] at h
    simp only [List.getElem_take, Vector.getElem_toList, overwrite, Vector.getElem_ofFn]
    by_cases early : i < fill
    · rw [if_neg (by omega), List.getElem_append_left (by simp; omega)]
      simp
    · have inside : i - fill < data.length := by omega
      rw [if_pos (by omega), List.getElem?_eq_getElem inside, Option.getD_some,
        List.getElem_append_right (by simp; omega)]
      congr 1
      simp
      omega

theorem Holds.received {r : RawExecRelay} {seen : Bytes} (h : r.Holds seen) (available : Bytes) :
    (r.received available).Holds (seen ++ available.take r.readSize) := by
  have size := h.destSize
  by_cases full : r.destSize = 0
  · have long : 255 ≤ seen.length := by omega
    have same : (seen ++ available.take r.readSize).take 255 = seen.take 255 :=
      List.take_append_of_le_length long
    rw [RawExecRelay.received, if_pos full]
    exact ⟨by rw [same, h.body], by rw [same, h.fill]⟩
  · have short : seen.length < 255 := by omega
    have before : seen.take 255 = seen := List.take_of_length_le short.le
    have after : (seen ++ available.take r.destSize).take 255 =
        seen ++ available.take r.destSize := by
      apply List.take_of_length_le
      rw [List.length_append, List.length_take]
      omega
    have fill := h.fill
    have body := h.body
    rw [before] at fill body
    have fits : r.responseFill + (available.take r.destSize).length ≤ 256 := by
      rw [List.length_take]
      omega
    have first : 1 ≤ (r.responseBuffer.toList.take r.responseFill).length := by
      rw [List.length_take, Vector.length_toList]
      omega
    rw [RawExecRelay.received, if_neg full, readSize, if_neg full]
    constructor
    · rw [after, RawExecRelay.body]
      simp only []
      rw [overwrite_take _ fits, List.drop_append_of_le_length first]
      exact congrArg (· ++ _) body
    · rw [after, List.length_append, ← Nat.add_assoc, ← fill]

/-- What the exit status and the output make of the response. -/
def dueResponse (exit : ChildExit) (output : Bytes) : Bytes :=
  if output = [] then exit.response else exit.response.take 1 ++ output.take 255

theorem defaultResponse_status (exit : ChildExit) :
    defaultResponse exit.status = exit.response := by
  cases exit with
  | waitFailed errno positive =>
    rw [defaultResponse, if_pos (.inl (ChildExit.status_waitFailed_neg errno positive))]
    rfl
  | signaled signal core range =>
    rw [defaultResponse, if_pos (.inr (ChildExit.status_signaled signal core range).2)]
    rfl
  | exited code =>
    obtain ⟨nonneg, signaled, status⟩ := ChildExit.status_exited code
    rw [defaultResponse, if_neg (by simp [nonneg, signaled]), status, ChildExit.response]
    by_cases success : (code.toNat : ℤ) = exitSuccess
    · rw [if_pos success, if_neg (not_not.mpr success)]
    · rw [if_neg success, if_pos success]

variable {lib : Libcommon}

theorem report_bytes (status : ℤ) (response : Bytes) :
    (report lib status response).bytes = response := by
  unfold report
  split_ifs <;> rfl

/-- How far a living relay is with its child. -/
structure Tracks (r : RawExecRelay) (child : Child) : Prop where
  output : ∃ seen, child.output = seen ++ child.pending ∧ r.Holds seen
  running : r.pidfd = true → child.reported = false
  reported : r.pidfd = false → child.reported = true ∧ r.status = child.exit.status
  closed : r.responsePipe = false →
    child.outputOpen = false ∧ (child.pending = [] ∨ r.destSize = 0)

structure Reports (r : RawExecRelay) (c : Callback) (child : Child) : Prop where
  closed : r.responsePipe = false
  exited : r.pidfd = false
  outputOver : child.outputOpen = false
  reported : child.reported = true
  fill : 1 ≤ r.responseFill ∧ r.responseFill ≤ 256
  success : (∃ b, c = .response b) ↔ child.exit.Succeeded
  bytes : c.bytes = dueResponse child.exit child.output

@[simp] theorem received_pidfd (r : RawExecRelay) (available : Bytes) :
    (r.received available).pidfd = r.pidfd := by
  rw [received]
  split_ifs <;> rfl

@[simp] theorem received_status (r : RawExecRelay) (available : Bytes) :
    (r.received available).status = r.status := by
  rw [received]
  split_ifs <;> rfl

end RawExecRelay

end Qrelay
