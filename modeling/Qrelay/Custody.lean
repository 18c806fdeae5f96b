import Qrelay.RelayResponses

/-! The child processes of ExecRelay and RawExecRelay. A relay watches its child
until the exit is reported; a relay that is destroyed earlier, in a callback or
because its connection ends, hands the child over to ChildProcessTerminator. -/

namespace Qrelay
open Lib Lib.Decimal

def Relay.watches : Relay → Bool
  | remote _ => false
  | exec r => r.pidfd
  | rawExec r => r.pidfd

namespace RelayCall

def spawns : RelayCall → Bool
  | exec _ (.start action _ answer) =>
    (answer action.exec.elements action.env.elements).toBool
  | rawExec _ (.start action _ spawn _) =>
    (spawn action.exec.elements action.env.elements).toBool
  | _ => false

/-- PidfdEvent has waited for the child and reports its exit. -/
def reaps : RelayCall → Bool
  | exec r (.childProcessExit _) => r.pidfd
  | rawExec r (.childProcessExit _) => r.pidfd
  | _ => false

end RelayCall

structure Children where
  spawned : ℕ := 0
  reaped : ℕ := 0
  /-- By `ChildProcessTerminator::Kill(…, SIGTERM)`. -/
  terminated : ℕ := 0
  deriving DecidableEq, Repr

structure Custody where
  relay : Option Relay
  children : Children := {}

namespace Custody

def place : Place Custody Relay where
  object := relayObject
  get s := s.relay
  set r s := { s with relay := some r }
  get_set _ _ _ := rfl
  set_set _ _ _ := rfl
  set_get r s h := by cases s; cases h; rfl

def destroy : Code Custody Unit := do
  let r ← place.read
  if r.watches then
    modify fun s => { s with
      children := { s.children with terminated := s.children.terminated + 1 } }
  modify fun s => { s with relay := none }

def handler : RelayHandler Custody where
  onRelayResponse _ := destroy
  onRelayError _ _ := destroy

variable (lib : Libcommon)

/-- A call of the relay, with what the kernel does to children in it. -/
def perform (call : RelayCall) : Code Custody Unit := do
  modify fun s => { s with
    children := { s.children with
      spawned := s.children.spawned + call.spawns.toNat
      reaped := s.children.reaped + call.reaps.toNat } }
  call.code lib place handler

inductive Event where
  | relay (e : RelayEvent)
  /-- The connection ends: a timeout, its client, or the end of the server. -/
  | cancel

def step : Event → Code Custody Unit
  | .relay e => fun s =>
    match s.relay.bind (·.call e) with
    | none => .ok () s
    | some call => perform lib call s
  | .cancel => fun s => if s.relay.isSome then destroy s else .ok () s

def life (start : RelayCall) (es : List Event) : Code Custody Unit := do
  perform lib start
  run (step lib) es

end Custody

section Pidfd

variable {lib : Libcommon}

theorem ExecRelay.react_pidfd (r : ExecRelay) (e : ExecRelay.Event)
    (fresh : (RelayCall.exec r e).spawns → r.pidfd = false) :
    (react lib r e).object.pidfd.toNat + (RelayCall.exec r e).reaps.toNat =
      r.pidfd.toNat + (RelayCall.exec r e).spawns.toNat := by
  cases e with
  | start action type answer =>
    simp only [react, RelayCall.spawns, RelayCall.reaps] at fresh ⊢
    cases spawned : answer action.exec.elements action.env.elements with
    | error e => rfl
    | ok _ =>
      rw [spawned] at fresh
      rw [fresh rfl]
      rfl
  | netstring outcome =>
    cases outcome with
    | error e => rfl
    | response payload =>
      simp only [react]
      split_ifs <;> rfl
  | childProcessExit status =>
    simp only [react, RelayCall.spawns, RelayCall.reaps]
    split_ifs with running
    · rw [running]
      split <;> rfl
    · rw [Bool.not_eq_true] at running
      simp [Reaction.object, running]

namespace RawExecRelay

theorem writing_pidfd (r : RawExecRelay) (write : WriteAnswer) :
    (writing r write).object.pidfd = r.pidfd := by
  cases write <;> rfl

theorem coded_pidfd (r : RawExecRelay) : (coded r).pidfd = r.pidfd := by
  unfold coded
  split_ifs <;> rfl

theorem closing_pidfd (r : RawExecRelay) : (closing lib r).object.pidfd = r.pidfd := by
  unfold closing
  split_ifs
  · rfl
  · exact coded_pidfd _

theorem reading_pidfd (r : RawExecRelay) (flags : PipeFlags) (read : ReadAnswer) :
    (reading lib r flags read).object.pidfd = r.pidfd := by
  cases read with
  | error e =>
    simp only [reading]
    split_ifs <;> rfl
  | ok available =>
    simp only [reading]
    split_ifs
    · rw [closing_pidfd, received_pidfd]
    · exact received_pidfd r available

theorem react_pidfd (r : RawExecRelay) (e : RawExecRelay.Event)
    (fresh : (RelayCall.rawExec r e).spawns → r.pidfd = false) :
    (react lib r e).object.pidfd.toNat + (RelayCall.rawExec r e).reaps.toNat =
      r.pidfd.toNat + (RelayCall.rawExec r e).spawns.toNat := by
  cases e with
  | start action type spawn write =>
    simp only [react, RelayCall.spawns, RelayCall.reaps] at fresh ⊢
    cases spawned : spawn action.exec.elements action.env.elements with
    | error e => rfl
    | ok _ =>
      rw [spawned] at fresh
      rw [writing_pidfd, fresh rfl]
      rfl
  | requestPipeReady flags write =>
    simp only [react]
    split_ifs
    · rw [writing_pidfd]
      rfl
    · rfl
  | responsePipeReady flags read =>
    simp only [react]
    split_ifs
    · rw [closing_pidfd]
      rfl
    · rw [reading_pidfd]
      rfl
    · rfl
  | childProcessExit status =>
    simp only [react, RelayCall.spawns, RelayCall.reaps]
    split_ifs with running defined
    · rw [running]
      rfl
    · rw [running]
      simp only [finishing, Reaction.object, coded_pidfd]
      rfl
    · rw [Bool.not_eq_true] at running
      simp [Reaction.object, running]

end RawExecRelay

/-- A call makes or loses a child of the relay only where it is counted. -/
theorem RelayCall.react_watches (call : RelayCall)
    (fresh : call.spawns → call.relay.watches = false) :
    (call.react lib).object.watches.toNat + call.reaps.toNat =
      call.relay.watches.toNat + call.spawns.toNat := by
  cases call with
  | remote r e =>
    rw [react, Reaction.object_map]
    rfl
  | exec r e =>
    rw [react, Reaction.object_map]
    exact ExecRelay.react_pidfd r e fresh
  | rawExec r e =>
    rw [react, Reaction.object_map]
    exact RawExecRelay.react_pidfd r e fresh

end Pidfd

namespace RelayCall

theorem react_valid {lib : Libcommon} {call : RelayCall} {r : Relay} (valid : call.relay.Valid)
    (eq : call.react lib = .stay r) : r.Valid := by
  cases call with
  | remote q e =>
    rw [react] at eq
    cases h : RemoteRelay.react lib q e <;> rw [h] at eq <;> cases eq
    trivial
  | exec q e =>
    rw [react] at eq
    cases h : ExecRelay.react lib q e <;> rw [h] at eq <;> cases eq
    trivial
  | rawExec q e =>
    rw [react] at eq
    cases h : RawExecRelay.react lib q e <;> rw [h] at eq <;> cases eq
    exact RawExecRelay.react_fill e q _ valid h

theorem call_not_spawns {r : Relay} {e : RelayEvent} {call : RelayCall}
    (eq : r.call e = some call) : call.relay = r ∧ call.spawns = false := by
  cases r <;> cases e <;> simp only [Relay.call] at eq <;> (try split_ifs at eq) <;> cases eq <;>
    exact ⟨rfl, rfl⟩

end RelayCall

namespace Custody

/-- Every child is with its relay, has been waited for, or has been terminated. -/
structure Balanced (s : Custody) : Prop where
  valid : ∀ r, s.relay = some r → r.Valid
  once : s.children.spawned ≤ 1
  balance : s.children.spawned = s.children.reaped + s.children.terminated +
    s.relay.elim 0 fun r => r.watches.toNat

variable {lib : Libcommon} {s : Custody}

theorem destroy_apply {r : Relay} (alive : s.relay = some r) : destroy s = .ok ()
    { relay := none, children := { s.children with
        terminated := s.children.terminated + r.watches.toNat } } := by
  rw [destroy, bind_ok (@Place.read_alive _ _ place _ _ alive)]
  cases r.watches <;> rfl

def Settled (s : Custody) : Prop := Balanced s ∧ s.relay = none

theorem destroy_settled {r : Relay} (alive : s.relay = some r) (once : s.children.spawned ≤ 1)
    (balance : s.children.spawned = s.children.reaped + s.children.terminated + r.watches.toNat) :
    ∃ s', destroy s = .ok () s' ∧ Settled s' :=
  ⟨_, destroy_apply alive, ⟨fun _ h => (by cases h), once, by simpa [add_assoc] using balance⟩, rfl⟩

theorem handler_call (c : Callback) : handler.call c = destroy := by
  cases c <;> rfl

/-- A call keeps the balance; a relay that goes on after its report has been
destroyed before. -/
theorem perform_balanced {call : RelayCall} (alive : s.relay = some call.relay)
    (h : Balanced s) (fresh : call.spawns → s.children.spawned = 0) :
    Outcome.Ends Balanced (fun _ => Settled) (perform lib call s) := by
  have unwatched : call.spawns → call.relay.watches = false := by
    intro spawns
    have balance := h.balance
    rw [fresh spawns, alive] at balance
    have none := balance.symm
    simp only [Option.elim_some, Nat.add_eq_zero_iff, Bool.toNat_eq_zero] at none
    exact none.2
  have watches := @RelayCall.react_watches lib call unwatched
  rw [perform, modify_bind]
  generalize counted : { s with children := { s.children with
      spawned := s.children.spawned + call.spawns.toNat
      reaped := s.children.reaped + call.reaps.toNat } } = t
  have there : place.get t = some call.relay := by rw [← counted]; exact alive
  have once : t.children.spawned ≤ 1 := by
    rw [← counted]
    cases spawns : call.spawns with
    | false => simpa using h.once
    | true => simp [fresh spawns]
  have balance : t.children.spawned = t.children.reaped + t.children.terminated +
      (call.react lib).object.watches.toNat := by
    have before := h.balance
    rw [alive] at before
    simp only [Option.elim_some] at before
    simp only [← counted]
    omega
  have destroyed (r : Relay) (same : (call.react lib).object = r) :
      ∃ u, destroy (place.set r t) = .ok () u ∧ Settled u := by
    refine @destroy_settled (place.set r t) r rfl once ?_
    rw [same] at balance
    exact balance
  have performed := @RelayCall.code_performs lib _ place handler t call there (h.valid _ alive)
  cases reaction : call.react lib with
  | stay r =>
    rw [reaction] at performed balance
    rw [show call.code lib place handler t = _ from performed]
    refine ⟨fun q eq => ?_, once, balance⟩
    cases eq
    exact RelayCall.react_valid (h.valid _ alive) reaction
  | finish r c =>
    rw [reaction] at performed
    obtain ⟨u, settled, gone⟩ := destroyed r (by rw [reaction]; rfl)
    rw [show call.code lib place handler t = _ from performed, handler_call, settled]
    exact gone.1
  | linger r c =>
    rw [reaction] at performed
    obtain ⟨rest, needs, eq⟩ := performed
    obtain ⟨u, settled, gone⟩ := destroyed r (by rw [reaction]; rfl)
    rw [eq, handler_call, bind_ok settled, needs u gone.2]
    exact gone

theorem step_balanced (e : Event) (h : Balanced s) :
    Outcome.Ends Balanced (fun _ => Settled) (step lib e s) := by
  cases alive : s.relay with
  | none =>
    cases e <;> simp only [step, alive] <;> exact h
  | some r =>
    cases e with
    | relay e =>
      simp only [step, alive, Option.bind_some]
      cases called : r.call e with
      | none => exact h
      | some call =>
        obtain ⟨same, spawns⟩ := RelayCall.call_not_spawns called
        refine perform_balanced (by rw [same]; exact alive) h fun spawned => ?_
        rw [spawns] at spawned
        cases spawned
    | cancel =>
      have balance := h.balance
      rw [alive] at balance
      obtain ⟨u, settled, gone⟩ := destroy_settled alive h.once balance
      have canceled : step lib .cancel s = destroy s := by simp only [step, alive]; rfl
      rw [canceled, settled]
      exact gone.1

theorem life_balanced {start : RelayCall} (starts : start.Starts)
    (fresh : start.relay.watches = false) (es : List Event) :
    Outcome.Ends Balanced (fun _ => Settled)
      (life lib start es { relay := some start.relay }) := by
  have created : Balanced { relay := some start.relay } :=
    ⟨fun r eq => Option.some.inj eq ▸ starts.valid, by simp, by simp [fresh]⟩
  have started := @perform_balanced lib _ start rfl created fun _ => rfl
  rw [life]
  cases outcome : perform lib start { relay := some start.relay } with
  | ok u t =>
    rw [outcome] at started
    rw [bind_ok outcome]
    exact run_ends (fun e _ t => step_balanced e) t started
  | error f t =>
    rw [outcome] at started
    rw [bind_error outcome]
    exact started

/-- A relay starts at most one child, and loses none: whatever happens, in
whatever order, the child runs under its relay, or it has been waited for, or it
has been terminated. -/
theorem child_accounted_for (lib : Libcommon) (start : RelayCall) (starts : start.Starts)
    (fresh : start.relay.watches = false) (es : List Event) :
    let s := Outcome.state (life lib start es { relay := some start.relay })
    s.children.spawned ≤ 1 ∧
      s.children.reaped + s.children.terminated ≤ s.children.spawned ∧
      (s.children.reaped + s.children.terminated < s.children.spawned ↔
        ∃ r, s.relay = some r ∧ r.watches = true) := by
  have ends := @life_balanced lib start starts fresh es
  have balanced : Balanced (Outcome.state (life lib start es { relay := some start.relay })) :=
    ends.state (fun _ h => h) fun _ _ h => h.1
  have balance := balanced.balance
  refine ⟨balanced.once, by omega, ?_⟩
  cases alive : (Outcome.state (life lib start es { relay := some start.relay })).relay with
  | none =>
    rw [alive] at balance
    simp [balance]
  | some r =>
    rw [alive] at balance
    cases watched : r.watches <;> simp [balance, watched]

def sampleStart : RelayCall :=
  .rawExec (.new .free []) (.start rawExecAction rawExecAction_type (fun _ _ => .ok ()) (.ok 0))

theorem child_accounted_for_sample :
    let s := Outcome.state (life .reference sampleStart
      [.relay (.responsePipeReady { read := true, hangup := true } (.error (.errno 5 [])))]
      { relay := some sampleStart.relay })
    s.children = { spawned := 1, terminated := 1 } ∧
      (s.children.reaped + s.children.terminated < s.children.spawned ↔
        ∃ r, s.relay = some r ∧ r.watches = true) :=
  ⟨rfl, (child_accounted_for .reference sampleStart (by decide : 1 ≤ 256) rfl _).2.2⟩

end Custody

end Qrelay
