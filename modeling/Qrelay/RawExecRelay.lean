import Qrelay.Handler

/-! RawExecRelay: the message goes to the standard input of a child process,
and its output and exit status make the response. As for the other relays,
`code` follows the statements of the class and `react` is what comes out. -/

namespace Qrelay
open Lib Lib.Decimal

/-- `MultiWriteBuffer`: segments, and how much of them has been written. -/
structure WriteBuffer where
  segments : List (StringView Storage) := []
  position : ℕ := 0
  deriving DecidableEq, Repr

namespace WriteBuffer

inductive Result where
  | more
  | finished
  deriving DecidableEq, Repr

def push (buffer : WriteBuffer) (s : StringView Storage) : WriteBuffer :=
  { buffer with segments := buffer.segments ++ [s] }

def total (buffer : WriteBuffer) : ℕ := (buffer.segments.map StringView.size).sum

def remaining (buffer : WriteBuffer) : ℕ := buffer.total - buffer.position

def advance (buffer : WriteBuffer) (accepted : ℕ) : WriteBuffer :=
  { buffer with position := buffer.position + min accepted buffer.remaining }

def result (buffer : WriteBuffer) : Result :=
  if buffer.remaining = 0 then .finished else .more

end WriteBuffer

structure PipeFlags where
  read : Bool := false
  write : Bool := false
  hangup : Bool := false
  error : Bool := false
  deriving DecidableEq, Repr

def PipeFlags.onlyHangup : PipeFlags := { hangup := true }

/-- How many bytes the kernel would take. -/
abbrev WriteAnswer := Except Exception ℕ

/-- The bytes that are there to be read; a read returns as many as it asks for. -/
abbrev ReadAnswer := Except Exception Bytes

structure RawExecRelay where
  /-- Whether `pidfd` is set. -/
  pidfd : Bool := false
  requestBuffer : WriteBuffer := {}
  /-- Whether the pipes are defined. -/
  requestPipe : Bool := false
  responsePipe : Bool := false
  responseBuffer : Vector UInt8 256 := Vector.replicate 256 0
  responseFill : ℕ := 1
  /-- Not initialised; it is set when `pidfd` is cleared. -/
  status : ℤ := 0
  deriving DecidableEq, Repr

namespace RawExecRelay

inductive Event where
  | start (action : LuaAction) (type : action.type = .execRaw) (spawn : SpawnAnswer)
    (write : WriteAnswer)
  | requestPipeReady (flags : PipeFlags) (write : WriteAnswer)
  | responsePipeReady (flags : PipeFlags) (read : ReadAnswer)
  | childProcessExit (status : ℤ)

def discardBufferSize : ℕ := 1024

variable (lib : Libcommon)

def new (mail : MutableMail) (additionalHeaders : List (StringView Storage)) : RawExecRelay :=
  { requestBuffer := (additionalHeaders.foldl WriteBuffer.push {}).push mail.message }

theorem new_segments (mail : MutableMail) (headers : List (StringView Storage)) :
    (new mail headers).requestBuffer.segments = headers ++ [mail.message] := by
  have pushed (buffer : WriteBuffer) :
      (headers.foldl WriteBuffer.push buffer).segments = buffer.segments ++ headers := by
    induction headers generalizing buffer with
    | nil => simp
    | cons s headers ih => simp [ih, WriteBuffer.push]
  simp [new, WriteBuffer.push, pushed]

def overwrite (buffer : Vector UInt8 256) (fill : ℕ) (data : Bytes) : Vector UInt8 256 :=
  Vector.ofFn fun i =>
    if fill ≤ i.val then data[i.val - fill]?.getD buffer[i] else buffer[i]

/-- `std::span{response_buffer}.subspan(response_fill).size()`. -/
def destSize (r : RawExecRelay) : ℕ := 256 - r.responseFill

section Code

variable {σ : Type} (self : Place σ RawExecRelay) (handler : RelayHandler σ)

def tryWrite (answer : WriteAnswer) : Code σ Bool := do
  let _ ← self.read
  match answer with
  | .ok accepted =>
    self.modify fun r => { r with requestBuffer := r.requestBuffer.advance accepted }
    match (← self.read).requestBuffer.result with
    | .more => pure () -- the pipe stays scheduled for writing
    | .finished => self.modify fun r => { r with requestPipe := false }
    return true
  | .error e =>
    relayError self handler (ascii "Zwrite error") e
    return true

def onRequestPipeReady (answer : WriteAnswer) : Code σ Unit :=
  discard (tryWrite self handler answer)

def start (action : Action) (spawn : SpawnAnswer) (write : WriteAnswer) : Code σ Bool := do
  check (action.type = .execRaw) .assertion
  check (action.exec.elements ≠ []) .assertion
  match spawn action.exec.elements action.env.elements with
  | .error e =>
    relayError self handler (ascii "Zinternal server error") e
    return false
  | .ok () =>
    self.modify fun r => { r with pidfd := true }
    self.modify fun r => { r with responsePipe := true }
    self.modify fun r => { r with requestPipe := true }
    tryWrite self handler write

/-- False when the end of the pipe has been seen. -/
def tryRead (answer : ReadAnswer) : Code σ Bool := do
  let r ← self.read
  check (r.responseFill ≤ 256) .outOfRange
  match answer with
  | .error e =>
    relayError self handler (ascii "Zread error") e
    return true
  | .ok available =>
    if destSize r = 0 then
      -- the buffer is full; the rest is discarded
      return available.take discardBufferSize ≠ []
    else
      let data := available.take (destSize r)
      self.modify fun r => { r with
        responseBuffer := overwrite r.responseBuffer r.responseFill data
        responseFill := r.responseFill + data.length }
      return data ≠ []

def finish : Code σ Unit := do
  let r ← self.read
  check (r.responsePipe = false) .assertion
  check (r.pidfd = false) .assertion
  let response :=
    if r.status < 0 ∨ wIfSignaled r.status then ascii "Zinternal server error"
    else if wExitStatus r.status ≠ exitSuccess then
      exitStatusToQmqpResponse (wExitStatus r.status)
    else ascii "K"
  let response ← if 1 < r.responseFill then do
      check (r.responseFill ≤ 256) .outOfRange
      self.modify fun r => { r with
        responseBuffer := r.responseBuffer.set 0 (response.headD 0) }
      pure ((← self.read).responseBuffer.toList.take r.responseFill)
    else pure response
  if r.status < 0 then
    relayError self handler response (.errno (-r.status) (ascii "waitid() failed"))
  else if wIfSignaled r.status then
    relayError self handler response (.runtime (signalText lib r.status))
  else if wExitStatus r.status ≠ exitSuccess then
    relayError self handler response (.runtime (exitText lib r.status))
  else
    relayResponse self handler response

/-- The condition of `OnResponsePipeReady`; without other flags than `HANGUP`
nothing is read. -/
def seesEnd (flags : PipeFlags) (answer : ReadAnswer) : Code σ Bool :=
  if flags = PipeFlags.onlyHangup then pure true
  else do
    let more ← tryRead self handler answer
    return !more || flags.hangup

def onResponsePipeReady (flags : PipeFlags) (answer : ReadAnswer) : Code σ Unit := do
  if ← seesEnd self handler flags answer then
    self.modify fun r => { r with responsePipe := false }
    if (← self.read).pidfd = false then
      finish lib self handler

def onChildProcessExit (status : ℤ) : Code σ Unit := do
  self.modify fun r => { r with pidfd := false }
  self.modify fun r => { r with status }
  if (← self.read).responsePipe = false then
    finish lib self handler

/-- A pipe has events while it is defined, the exit is reported while `pidfd` is set. -/
def code : Event → Code σ Unit
  | .start action _ spawn write => discard (start self handler action.toAction spawn write)
  | .requestPipeReady _ write => do
    if (← self.read).requestPipe then
      onRequestPipeReady self handler write
  | .responsePipeReady flags read => do
    if (← self.read).responsePipe then
      onResponsePipeReady lib self handler flags read
  | .childProcessExit status => do
    if (← self.read).pidfd then
      onChildProcessExit lib self handler status

end Code

def defaultResponse (status : ℤ) : Bytes :=
  if status < 0 ∨ wIfSignaled status then ascii "Zinternal server error"
  else if wExitStatus status ≠ exitSuccess then exitStatusToQmqpResponse (wExitStatus status)
  else ascii "K"

def report (status : ℤ) (response : Bytes) : Callback :=
  if status < 0 then .error response (.errno (-status) (ascii "waitid() failed"))
  else if wIfSignaled status then .error response (.runtime (signalText lib status))
  else if wExitStatus status ≠ exitSuccess then .error response (.runtime (exitText lib status))
  else .response response

def coded (r : RawExecRelay) : RawExecRelay :=
  if 1 < r.responseFill then
    { r with responseBuffer := r.responseBuffer.set 0 ((defaultResponse r.status).headD 0) }
  else r

def finalResponse (r : RawExecRelay) : Bytes :=
  if 1 < r.responseFill then (coded r).responseBuffer.toList.take r.responseFill
  else defaultResponse r.status

def finishing (r : RawExecRelay) : Reaction RawExecRelay Callback :=
  .finish (coded r) (report lib r.status (finalResponse r))

def closing (r : RawExecRelay) : Reaction RawExecRelay Callback :=
  if r.pidfd then .stay { r with responsePipe := false }
  else finishing lib { r with responsePipe := false }

def afterWrite (r : RawExecRelay) (accepted : ℕ) : RawExecRelay :=
  { r with
    requestBuffer := r.requestBuffer.advance accepted
    requestPipe := r.requestPipe && (r.requestBuffer.advance accepted).result = .more }

def writing (r : RawExecRelay) : WriteAnswer → Reaction RawExecRelay Callback
  | .ok accepted => .stay (afterWrite r accepted)
  | .error e => .finish r (.error (ascii "Zwrite error") e)

def readSize (r : RawExecRelay) : ℕ := if destSize r = 0 then discardBufferSize else destSize r

def received (r : RawExecRelay) (available : Bytes) : RawExecRelay :=
  if destSize r = 0 then r
  else { r with
    responseBuffer := overwrite r.responseBuffer r.responseFill (available.take (destSize r))
    responseFill := r.responseFill + (available.take (destSize r)).length }

def reading (r : RawExecRelay) (flags : PipeFlags) : ReadAnswer → Reaction RawExecRelay Callback
  | .error e =>
    if flags.hangup then .linger r (.error (ascii "Zread error") e)
    else .finish r (.error (ascii "Zread error") e)
  | .ok available =>
    if available.take (readSize r) = [] ∨ flags.hangup then closing lib (received r available)
    else .stay (received r available)

def react (r : RawExecRelay) : Event → Reaction RawExecRelay Callback
  | .start action _ spawn write =>
    match spawn action.exec.elements action.env.elements with
    | .error e => .finish r (.error (ascii "Zinternal server error") e)
    | .ok () => writing { r with pidfd := true, responsePipe := true, requestPipe := true } write
  | .requestPipeReady _ write => if r.requestPipe then writing r write else .stay r
  | .responsePipeReady flags read =>
    if r.responsePipe then
      if flags = PipeFlags.onlyHangup then closing lib r else reading lib r flags read
    else .stay r
  | .childProcessExit status =>
    if r.pidfd then
      if r.responsePipe then .stay { r with pidfd := false, status }
      else finishing lib { r with pidfd := false, status }
    else .stay r

section Performs

variable {lib} {σ : Type} {self : Place σ RawExecRelay} {handler : RelayHandler σ} {s : σ}
  {r : RawExecRelay}

theorem report_alive (h : self.get s = some r) (status : ℤ) (response : Bytes) :
    (if status < 0 then
      relayError self handler response (.errno (-status) (ascii "waitid() failed"))
    else if wIfSignaled status then
      relayError self handler response (.runtime (signalText lib status))
    else if wExitStatus status ≠ exitSuccess then
      relayError self handler response (.runtime (exitText lib status))
    else relayResponse self handler response) s = handler.call (report lib status response) s := by
  unfold report
  split_ifs
  · exact relayError_alive h _ _
  · exact relayError_alive h _ _
  · exact relayError_alive h _ _
  · exact relayResponse_alive h _

theorem finish_performs (h : self.get s = some r) (closed : r.responsePipe = false)
    (exited : r.pidfd = false) (fill : r.responseFill ≤ 256) :
    (finishing lib r).Performs self handler.call s (finish lib self handler s) := by
  have alive := Place.alive_set h (coded r)
  rw [finish, Place.read_alive_bind h, check_bind, if_pos closed, check_bind, if_pos exited]
  simp only [finishing, Reaction.Performs, finalResponse]
  by_cases more : 1 < r.responseFill
  · have step : coded r = { r with
        responseBuffer := r.responseBuffer.set 0 ((defaultResponse r.status).headD 0) } :=
      if_pos more
    rw [step] at alive ⊢
    simp only [if_pos more, check_bind, if_pos fill]
    rw [Place.modify_alive_bind h]
    refine (Place.read_alive_bind alive _).trans ?_
    rw [pure_bind]
    exact report_alive alive _ _
  · have step : coded r = r := if_neg more
    rw [step, self.set_get r s h]
    simp only [if_neg more, pure_bind]
    exact report_alive h _ _

theorem closing_performs (h : self.get s = some r) (fill : r.responseFill ≤ 256) :
    (closing lib r).Performs self handler.call s ((do
      self.modify fun r => { r with responsePipe := false }
      if (← self.read).pidfd = false then
        finish lib self handler : Code σ Unit) s) := by
  have alive := Place.alive_set h { r with responsePipe := false }
  rw [Place.modify_alive_bind h, Place.read_alive_bind alive, closing]
  by_cases running : r.pidfd = true
  · rw [if_pos running, if_neg (by simp [running])]
    rfl
  · have exited : r.pidfd = false := by simpa using running
    rw [if_neg running, if_pos exited]
    exact (Reaction.performs_set _).mp (finish_performs alive rfl exited fill)

theorem tryWrite_performs (h : self.get s = some r) (answer : WriteAnswer) :
    (writing r answer).Performs self handler.call s
      ((discard (tryWrite self handler answer) : Code σ PUnit) s) := by
  have first : (discard (tryWrite self handler answer) : Code σ PUnit) s = _ :=
    discard_congr (Place.read_alive_bind h _)
  rw [first]
  cases answer with
  | error e =>
    have same : self.set r s = s := self.set_get r s h
    simp only [writing, Reaction.Performs, same]
    exact (discard_return _ s).trans (relayError_alive h _ e)
  | ok accepted =>
    have alive := Place.alive_set h
      { r with requestBuffer := r.requestBuffer.advance accepted }
    refine (discard_congr ((Place.modify_alive_bind h _ _).trans
      (Place.read_alive_bind alive _))).trans ?_
    simp only [afterWrite]
    cases result : (r.requestBuffer.advance accepted).result with
    | more => simp [discard, Functor.mapConst, Function.comp, EStateM.map, pure, EStateM.pure]
    | finished =>
      refine (discard_return _ _).trans ?_
      rw [Place.modify_alive alive, self.set_set]
      simp

theorem tryRead_ok (h : self.get s = some r) (fill : r.responseFill ≤ 256) (available : Bytes) :
    tryRead self handler (.ok available) s =
      .ok (available.take (readSize r) ≠ []) (self.set (received r available) s) := by
  rw [tryRead, Place.read_alive_bind h, check_bind, if_pos fill]
  by_cases full : destSize r = 0
  · simp only [if_pos full, readSize, received, self.set_get r s h]
    rfl
  · simp only [if_neg full, readSize, received]
    rw [Place.modify_alive_bind h]
    rfl

theorem tryRead_error (h : self.get s = some r) (fill : r.responseFill ≤ 256) (e : Exception) :
    tryRead self handler (.error e) s =
      (do handler.call (.error (ascii "Zread error") e); return true) s := by
  rw [tryRead, Place.read_alive_bind h, check_bind, if_pos fill]
  exact bind_congr (relayError_alive h _ e) _

theorem received_fill (r : RawExecRelay) (available : Bytes) (fill : r.responseFill ≤ 256) :
    (received r available).responseFill ≤ 256 := by
  unfold received
  split_ifs with full
  · exact fill
  · simp only [destSize, List.length_take]
    omega

theorem reading_performs (h : self.get s = some r) (fill : r.responseFill ≤ 256)
    (flags : PipeFlags) (answer : ReadAnswer) (other : flags ≠ PipeFlags.onlyHangup) :
    (reading lib r flags answer).Performs self handler.call s
      (onResponsePipeReady lib self handler flags answer s) := by
  rw [onResponsePipeReady, seesEnd, if_neg other, bind_assoc]
  simp only [pure_bind]
  cases answer with
  | error e =>
    rw [bind_congr (tryRead_error h fill e), reading]
    by_cases hangup : flags.hangup = true
    · rw [if_pos hangup]
      refine ⟨(do
        self.modify fun r => { r with responsePipe := false }
        if (← self.read).pidfd = false then
          finish lib self handler : Code σ Unit), fun t dead => ?_, ?_⟩
      · exact bind_error (Place.modify_dead dead _)
      · simp [self.set_get r s h, hangup]
    · rw [if_neg hangup]
      simp [Reaction.Performs, self.set_get r s h, hangup]
  | ok available =>
    have alive := Place.alive_set h (received r available)
    have closed := @closing_performs lib _ _ handler _ _ alive (received_fill r available fill)
    rw [bind_ok (tryRead_ok h fill available), reading]
    by_cases ends : available.take (readSize r) = [] ∨ flags.hangup
    · rw [if_pos ends, if_pos (by simpa using ends)]
      exact (Reaction.performs_set _).mp closed
    · rw [if_neg ends, if_neg (by simpa using ends)]
      rfl

/-- The class does on every event what `react` says. -/
theorem code_performs (h : self.get s = some r) (fill : r.responseFill ≤ 256) (e : Event) :
    (react lib r e).Performs self handler.call s (code lib self handler e s) := by
  have same : self.set r s = s := self.set_get r s h
  cases e with
  | start action type spawn write =>
    have started : start self handler action.toAction spawn write s = (do
        match spawn action.exec.elements action.env.elements with
        | .error e =>
          relayError self handler (ascii "Zinternal server error") e
          return false
        | .ok () =>
          self.modify fun r => { r with pidfd := true }
          self.modify fun r => { r with responsePipe := true }
          self.modify fun r => { r with requestPipe := true }
          tryWrite self handler write : Code σ Bool) s := by
      rw [start, check_bind, if_pos type, check_bind, if_pos (action.nonempty (.inr type))]
    have code_eq : code lib self handler (.start action type spawn write) s = _ :=
      discard_congr started
    rw [code_eq, react]
    cases spawn action.exec.elements action.env.elements with
    | error e =>
      simp only [Reaction.Performs, same]
      exact (discard_return _ s).trans (relayError_alive h _ e)
    | ok _ =>
      have first := Place.alive_set h { r with pidfd := true }
      have second := Place.alive_set first { r with pidfd := true, responsePipe := true }
      have third := Place.alive_set second
        { r with pidfd := true, responsePipe := true, requestPipe := true }
      rw [discard_congr ((Place.modify_alive_bind h _ _).trans
        ((Place.modify_alive_bind first _ _).trans (Place.modify_alive_bind second _ _)))]
      have written := @tryWrite_performs _ _ handler _ _ third write
      simpa only [Reaction.performs_set] using written
  | requestPipeReady flags write =>
    simp only [react, code]
    rw [Place.read_alive_bind h]
    by_cases defined : r.requestPipe = true
    · rw [if_pos defined, if_pos defined]
      exact tryWrite_performs h write
    · rw [if_neg defined, if_neg defined]
      simp only [Reaction.Performs, same]
      rfl
  | responsePipeReady flags read =>
    simp only [react, code]
    rw [Place.read_alive_bind h]
    by_cases defined : r.responsePipe = true
    · rw [if_pos defined, if_pos defined]
      by_cases only : flags = PipeFlags.onlyHangup
      · rw [if_pos only, onResponsePipeReady, seesEnd, if_pos only, pure_bind, if_pos rfl]
        exact closing_performs h fill
      · rw [if_neg only]
        exact reading_performs h fill flags read only
    · rw [if_neg defined, if_neg defined]
      simp only [Reaction.Performs, same]
      rfl
  | childProcessExit status =>
    simp only [react, code]
    rw [Place.read_alive_bind h]
    by_cases running : r.pidfd = true
    · have first := Place.alive_set h { r with pidfd := false }
      have second := Place.alive_set first { r with pidfd := false, status }
      rw [if_pos running, if_pos running, onChildProcessExit, Place.modify_alive_bind h,
        Place.modify_alive_bind first, Place.read_alive_bind second]
      by_cases closed : r.responsePipe = true
      · rw [if_pos closed, if_neg (by simp [closed])]
        simp only [Reaction.Performs, self.set_set]
        rfl
      · have ended : r.responsePipe = false := by simpa using closed
        rw [if_neg closed, if_pos ended]
        have finished := @finish_performs lib _ _ handler _ _ second ended rfl fill
        simpa only [Reaction.performs_set] using finished
    · rw [if_neg running, if_neg running]
      simp only [Reaction.Performs, same]
      rfl

end Performs

end RawExecRelay

end Qrelay
