import Qrelay.RelayLifetime

/-! The two event sources of an ExecRelay. Whichever of them is first, a
failing exit status is to be reported as such and only success lets the
netstring decide. The class gets there by postponing a payload; an error of the
netstring is not postponed. -/

namespace Qrelay
open Lib Lib.Decimal
namespace ExecRelay

variable (lib : Libcommon)

def outcomeResponse : NetstringOutcome → Bytes
  | .response payload => (BasicRelay.payloadCallback payload).bytes
  | .error _ => ascii "Zrelay failed"

/-- The response of a child run: the exit status wins unless it is success. -/
def dueResponse (outcome : NetstringOutcome) (exit : ChildExit) : Bytes :=
  if exit.Succeeded then outcomeResponse outcome else exit.response

def started (mail : MutableMail) (headers : List (StringView Storage)) : ExecRelay :=
  { (BasicRelay.new lib mail headers).sendRequest lib with pidfd := true }

/-- From a new relay on, `Start` and then these events end in one callback
with the response. -/
def Delivers (mail : MutableMail) (headers : List (StringView Storage)) (action : LuaAction)
    (type : action.type = .exec) (es : List Event) (response : Bytes) : Prop :=
  ∃ r c, run (aloneStep lib) (.start action type (fun _ _ => .ok ()) :: es)
      ⟨some (.new lib mail headers), []⟩ = .ok () ⟨none, [(r, c)]⟩ ∧ c.bytes = response

variable {lib} {mail : MutableMail} {headers : List (StringView Storage)} {action : LuaAction}
  {type : action.type = .exec}

theorem delivers_iff (es : List Event) (response : Bytes) :
    Delivers lib mail headers action type es response ↔
      ∃ r c, run (aloneStep lib) es ⟨some (started lib mail headers), []⟩ =
        .ok () ⟨none, [(r, c)]⟩ ∧ c.bytes = response := by
  have first : aloneStep lib (.start action type fun _ _ => .ok ())
      ⟨some (.new lib mail headers), []⟩ = .ok () ⟨some (started lib mail headers), []⟩ :=
    Solo.step_stay alone_performs rfl trivial rfl
  rw [Delivers, run_cons_ok first]

theorem failure_eq_none (exit : ChildExit) :
    failure lib exit.status = none ↔ exit.Succeeded := by
  cases exit with
  | waitFailed errno h =>
    rw [failure, if_pos (ChildExit.status_waitFailed_neg errno h)]
    simp [ChildExit.Succeeded]
  | signaled signal core h =>
    obtain ⟨nonneg, signaled⟩ := ChildExit.status_signaled signal core h
    rw [failure, if_neg nonneg, if_pos signaled]
    simp [ChildExit.Succeeded]
  | exited code =>
    obtain ⟨nonneg, signaled, status⟩ := ChildExit.status_exited code
    rw [failure, if_neg nonneg, if_neg (by simp [signaled]), status]
    simp only [exitSuccess, ChildExit.Succeeded, ChildExit.exited.injEq, ← UInt8.toNat_inj]
    split_ifs <;> simp

theorem failure_bytes {exit : ChildExit} {c : Callback} (h : failure lib exit.status = some c) :
    c.bytes = exit.response := by
  cases exit with
  | waitFailed errno positive =>
    rw [failure, if_pos (ChildExit.status_waitFailed_neg errno positive)] at h
    cases h
    rfl
  | signaled signal core range =>
    obtain ⟨nonneg, signaled⟩ := ChildExit.status_signaled signal core range
    rw [failure, if_neg nonneg, if_pos signaled] at h
    cases h
    rfl
  | exited code =>
    obtain ⟨nonneg, signaled, status⟩ := ChildExit.status_exited code
    rw [failure, if_neg nonneg, if_neg (by simp [signaled]), status] at h
    split_ifs at h with nonzero
    cases h
    rw [ChildExit.response, if_neg nonzero]
    rfl

theorem delivers_finish {e : Event} {es : List Event} {r : ExecRelay} {c : Callback}
    (eq : react lib (started lib mail headers) e = .finish r c) :
    Delivers lib mail headers action type (e :: es) c.bytes :=
  (delivers_iff _ _).mpr ⟨r, c, Solo.run_finish alone_performs rfl trivial eq es, rfl⟩

theorem delivers_stay {e e' : Event} {r r' : ExecRelay} {c : Callback}
    (eq : react lib (started lib mail headers) e = .stay r) (eq' : react lib r e' = .finish r' c) :
    Delivers lib mail headers action type [e, e'] c.bytes := by
  refine (delivers_iff _ _).mpr ⟨r', c, ?_, rfl⟩
  have first : aloneStep lib e ⟨some (started lib mail headers), []⟩ = .ok () ⟨some r, []⟩ :=
    Solo.step_stay alone_performs rfl trivial eq
  rw [run_cons_ok first]
  exact Solo.run_finish alone_performs rfl trivial eq' []

theorem Delivers.unique {es : List Event} {a b : Bytes}
    (ha : Delivers lib mail headers action type es a)
    (hb : Delivers lib mail headers action type es b) : a = b := by
  obtain ⟨r, c, run, rfl⟩ := ha
  obtain ⟨r', c', run', rfl⟩ := hb
  rw [run] at run'
  cases run'
  rfl

theorem react_exit_failed {r : ExecRelay} (running : r.pidfd = true) {status : ℤ} {c : Callback}
    (failed : failure lib status = some c) :
    react lib r (.childProcessExit status) = .finish { r with pidfd := false } c := by
  simp only [react, running, if_true, failed]

theorem delivers_exit_failed {exit : ChildExit} (failed : ¬ exit.Succeeded) (es : List Event) :
    Delivers lib mail headers action type (.childProcessExit exit.status :: es) exit.response := by
  obtain ⟨c, eq⟩ := Option.ne_none_iff_exists'.mp (mt (failure_eq_none exit).mp failed)
  rw [← failure_bytes eq]
  exact delivers_finish (react_exit_failed rfl eq)

theorem exit_response_ne (exit : ChildExit) : exit.response ≠ ascii "Zrelay failed" := by
  cases exit with
  | waitFailed => exact (by decide : ascii "Zinternal server error" ≠ ascii "Zrelay failed")
  | signaled => exact (by decide : ascii "Zinternal server error" ≠ ascii "Zrelay failed")
  | exited code =>
    simp only [ChildExit.response, exitStatusToQmqpResponse]
    split_ifs <;> decide

/-- Both orders end in one callback with the due response, exactly if the
child succeeds or the netstring outcome is a payload. -/
theorem order_independent_iff (lib : Libcommon) (mail : MutableMail)
    (headers : List (StringView Storage)) (action : LuaAction) (type : action.type = .exec)
    (outcome : NetstringOutcome) (exit : ChildExit) :
    (Delivers lib mail headers action type [.netstring outcome, .childProcessExit exit.status]
        (dueResponse outcome exit) ∧
      Delivers lib mail headers action type [.childProcessExit exit.status, .netstring outcome]
        (dueResponse outcome exit)) ↔
    exit.Succeeded ∨ ∃ payload, outcome = .response payload := by
  by_cases success : exit.Succeeded
  · refine iff_of_true ?_ (.inl success)
    rw [dueResponse, if_pos success]
    have none := (@failure_eq_none lib exit).mpr success
    have exitFirst : react lib (started lib mail headers) (.childProcessExit exit.status) =
        .stay { started lib mail headers with pidfd := false } := by
      simp only [react, started, if_true, none]
    cases outcome with
    | response payload =>
      have exitSecond : react lib { started lib mail headers with deferredResponse := some payload }
          (.childProcessExit exit.status) = .finish { started lib mail headers with
            deferredResponse := some payload, pidfd := false }
            (BasicRelay.payloadCallback payload) := by
        simp only [react, started, if_true, none]
      exact ⟨delivers_stay rfl exitSecond, delivers_stay exitFirst rfl⟩
    | error e =>
      exact ⟨delivers_finish (c := .error _ e) rfl, delivers_stay (c := .error _ e) exitFirst rfl⟩
  · rw [dueResponse, if_neg success]
    obtain ⟨c, failed⟩ := Option.ne_none_iff_exists'.mp (mt (failure_eq_none exit).mp success)
    cases outcome with
    | response payload =>
      refine iff_of_true ⟨?_, delivers_exit_failed success _⟩ (.inr ⟨payload, rfl⟩)
      rw [← failure_bytes failed]
      exact delivers_stay rfl (react_exit_failed rfl failed)
    | error e =>
      refine iff_of_false (fun both => ?_) (by simp [success])
      have early : Delivers lib mail headers action type
          [.netstring (.error e), .childProcessExit exit.status] (ascii "Zrelay failed") :=
        delivers_finish (c := .error _ e) rfl
      exact exit_response_ne exit (both.1.unique early)

def sampleAction : LuaAction where
  type := .exec
  exec := { elements := [ascii "/usr/lib/relay"] }
  defined := by decide
  nonempty := by decide

def silentUsage : NetstringOutcome × ChildExit :=
  (.error (.runtime (ascii "Connection closed prematurely")), .exited 64)

abbrev SampleDelivers (es : List Event) (response : Bytes) : Prop :=
  Delivers .reference (.new ⟨[], sizeLimit_pos⟩) [] sampleAction rfl es response

theorem order_independent_iff_accepted :
    SampleDelivers [.netstring (.response (ascii "Kok")), .childProcessExit 0] (ascii "Kok") ∧
      SampleDelivers [.childProcessExit 0, .netstring (.response (ascii "Kok"))] (ascii "Kok") :=
  (order_independent_iff .reference (.new ⟨[], by decide⟩) [] sampleAction rfl
    (.response (ascii "Kok")) (.exited 0)).mpr (.inl rfl)

/-- The two orders give different responses, and only one of them is due. -/
theorem netstringError_hides_exit :
    SampleDelivers [.netstring silentUsage.1, .childProcessExit silentUsage.2.status]
        (ascii "Zrelay failed") ∧
      SampleDelivers [.childProcessExit silentUsage.2.status, .netstring silentUsage.1]
        (ascii "Dinternal server error") ∧
      dueResponse silentUsage.1 silentUsage.2 = ascii "Dinternal server error" ∧
      ¬ ∃ response,
        SampleDelivers [.netstring silentUsage.1, .childProcessExit silentUsage.2.status] response ∧
        SampleDelivers [.childProcessExit silentUsage.2.status, .netstring silentUsage.1]
          response := by
  have netstringFirst : SampleDelivers
      [.netstring silentUsage.1, .childProcessExit silentUsage.2.status] (ascii "Zrelay failed") :=
    ⟨_, _, rfl, rfl⟩
  have exitFirst : SampleDelivers
      [.childProcessExit silentUsage.2.status, .netstring silentUsage.1]
      (ascii "Dinternal server error") := ⟨_, _, rfl, rfl⟩
  refine ⟨netstringFirst, exitFirst, by decide, fun ⟨response, first, second⟩ => ?_⟩
  have same : ascii "Zrelay failed" = ascii "Dinternal server error" :=
    (netstringFirst.unique first).trans (second.unique exitFirst)
  exact absurd same (by decide)

end ExecRelay

end Qrelay
