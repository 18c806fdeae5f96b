import Mathlib.Data.List.MinMax
import Mathlib.Data.List.Nodup
import Qrelay.MutableMail

/-! Main.cxx and Instance.cxx: the configuration script calls `qmqp_listen` for
the sockets that the server listens on. Some of them may be passed by systemd.
A script that keeps the function can call it later on, when the server runs. -/

namespace Qrelay
open Lib Lib.Decimal

inductive ListenValue where
  | string (s : Bytes)
  /-- The global `systemd`. -/
  | systemd
  /-- A Lua function, by its number. -/
  | function (f : ℕ)
  | other
  deriving DecidableEq, Repr

structure Listener where
  descriptor : ℕ
  maxSize : ℕ
  handler : ℕ
  deriving DecidableEq, Repr

/-- How `SocketConfig::Create` ends, given the descriptors in use. -/
structure SocketAnswer where
  create : List ℕ → Except LuaError ℕ
  fresh : ∀ used fd, create used = .ok fd → fd ∉ used

structure Process where
  /-- The global `max_size`, as the integer that it converts to; `none` if it is
  no number. -/
  maxSize : Option ℤ
  /-- Newest first. -/
  listeners : List Listener := []
  /-- What `sd_listen_fds` returns; the first call unsets its environment variables. -/
  listenFds : ℤ
  /-- The descriptors of listeners, and those that systemd has passed. -/
  used : List ℕ
  deriving DecidableEq, Repr

namespace Process

def listenFdsStart : ℕ := 3

def defaultMaxSize : ℤ := 16 * 1024 * 1024

abbrev Call := EStateM LuaError Process

def addListener (descriptor maxSize handler : ℕ) : Call Unit :=
  modify fun p => { p with listeners := ⟨descriptor, maxSize, handler⟩ :: p.listeners }

def listenAt (socket : SocketAnswer) (maxSize handler : ℕ) : Call Unit := do
  match socket.create (← get).used with
  | .error e => throw e
  | .ok fd =>
    modify fun p => { p with used := fd :: p.used }
    addListener fd maxSize handler

/-- One listener for each of the next `n` descriptors. -/
def adopt (maxSize handler : ℕ) : (n fd : ℕ) → Call Unit
  | 0, _ => pure ()
  | n + 1, fd => do
    addListener fd maxSize handler
    adopt maxSize handler n (fd + 1)

def addSystemdListener (maxSize handler : ℕ) : Call Unit := do
  let n := (← get).listenFds
  modify fun p => { p with listenFds := 0 }
  -- an error, or no socket: this is only logged
  if n ≤ 0 then pure ()
  else adopt maxSize handler n.toNat listenFdsStart

def getMaxSize : Call ℤ := do
  require (← get).maxSize (.message (ascii "`max_size` must be a number"))

/-- `l_qmqp_listen`. -/
def qmqpListen (socket : SocketAnswer) (args : List ListenValue) : Call Unit := do
  match args with
  | [address, .function handler] =>
    let maxSize ← getMaxSize
    check (1024 ≤ maxSize) (.message (ascii "`max_size` is too small"))
    check (maxSize ≤ 1024 * 1024 * 1024) (.message (ascii "`max_size` is too large"))
    match address with
    | .string _ => listenAt socket maxSize.toNat handler
    | .systemd => addSystemdListener maxSize.toNat handler
    | _ => throw (.argument 1 (ascii "path expected"))
  | [_, _] => throw (.argument 2 (ascii "function expected"))
  | _ => throw (.message (ascii "Invalid parameter count"))

inductive Act where
  | setMaxSize (n : Option ℤ)
  | listen (args : List ListenValue) (socket : SocketAnswer) (caught : Bool)

def Act.code : Act → Call Unit
  | setMaxSize n => modify fun p => { p with maxSize := n }
  | listen args socket caught => fun p =>
    match qmqpListen socket args p with
    | .ok _ q => .ok () q
    | .error e q => if caught then .ok () q else .error e q

/-- The value of `log_server`: `nil`, or whether a socket can be connected to it. -/
abbrev LogServer := Option (Except LuaError Unit)

def setupLogSocket : LogServer → Call Bool
  | none => return false
  | some (.error e) => throw e
  | some (.ok ()) => return true

/-- `Run`, up to the event loop; with whether there is a log socket. -/
def start (config : List Act) (logServer : LogServer) : Call Bool := do
  config.forM Act.code
  check ((← get).listeners ≠ []) (.message (ascii "No QMQP listeners configured"))
  let logSocket ← setupLogSocket logServer
  modify fun p => { p with maxSize := none }
  return logSocket

/-- `SetupConfigState`, when this is passed by systemd. -/
def initial (listenFds : ℤ) : Process where
  maxSize := some defaultMaxSize
  listenFds := listenFds
  used := List.range' listenFdsStart listenFds.toNat

def Act.after (p : Process) (act : Act) : Process :=
  match act.code p with
  | .ok _ q | .error _ q => q

/-- The process listens on sockets of its own, each with a size within the limits;
it has not yet used what it may get from systemd. -/
structure Owned (p : Process) : Prop where
  sizes : ∀ l ∈ p.listeners, 1024 ≤ l.maxSize ∧ l.maxSize ≤ 1024 * 1024 * 1024
  distinct : (p.listeners.map Listener.descriptor).Nodup
  used : ∀ l ∈ p.listeners, l.descriptor ∈ p.used
  passed : ∀ fd ∈ List.range' listenFdsStart p.listenFds.toNat,
    fd ∈ p.used ∧ fd ∉ p.listeners.map Listener.descriptor

def adopted (maxSize handler fd n : ℕ) : List Listener :=
  ((List.range' fd n).map fun fd => ⟨fd, maxSize, handler⟩).reverse

variable {p q : Process} {socket : SocketAnswer} {args : List ListenValue}

theorem adopt_apply (maxSize handler n fd : ℕ) (p : Process) : adopt maxSize handler n fd p =
    .ok () { p with listeners := adopted maxSize handler fd n ++ p.listeners } := by
  induction n generalizing fd p with
  | zero => rfl
  | succ n ih =>
    rw [adopt, addListener, modify_bind, ih]
    simp [adopted, List.range'_succ]

theorem addSystemdListener_apply (maxSize handler : ℕ) (p : Process) :
    addSystemdListener maxSize handler p = .ok () { p with
      listenFds := 0
      listeners := adopted maxSize handler listenFdsStart p.listenFds.toNat ++ p.listeners } := by
  rw [addSystemdListener, get_bind, modify_bind]
  split_ifs with none
  · rw [Int.toNat_eq_zero.mpr none]
    rfl
  · rw [adopt_apply]

/-- A call that fails changes nothing; another one adds the new socket, or all
that are left of those from systemd. -/
theorem qmqpListen_cases (socket : SocketAnswer) (args : List ListenValue) (p : Process) :
    (∃ e, qmqpListen socket args p = .error e p) ∨
      ∃ n handler, p.maxSize = some n ∧ 1024 ≤ n ∧ n ≤ 1024 * 1024 * 1024 ∧
        ((∃ fd, socket.create p.used = .ok fd ∧ qmqpListen socket args p = .ok () { p with
            used := fd :: p.used
            listeners := ⟨fd, n.toNat, handler⟩ :: p.listeners }) ∨
          qmqpListen socket args p = .ok () { p with
            listenFds := 0
            listeners :=
              adopted n.toNat handler listenFdsStart p.listenFds.toNat ++ p.listeners }) := by
  match args with
  | [] | [_] => exact .inl ⟨_, rfl⟩
  | _ :: handler :: _ :: _ => cases handler <;> exact .inl ⟨_, rfl⟩
  | [_, .string _] | [_, .systemd] | [_, .other] => exact .inl ⟨_, rfl⟩
  | [address, .function handler] =>
    obtain none | ⟨n, size⟩ := Option.eq_none_or_eq_some p.maxSize
    · have failed : getMaxSize p =
          .error (.message (ascii "`max_size` must be a number")) p := by
        rw [getMaxSize, get_bind, none]
        rfl
      exact .inl ⟨_, bind_error failed⟩
    have got : getMaxSize p = .ok n p := by
      rw [getMaxSize, get_bind, size]
      rfl
    rw [qmqpListen, bind_ok got, check_bind]
    split_ifs with least
    swap
    · exact .inl ⟨_, rfl⟩
    rw [check_bind]
    split_ifs with most
    swap
    · exact .inl ⟨_, rfl⟩
    cases address with
    | string path =>
      dsimp only
      rw [listenAt, get_bind]
      cases created : socket.create p.used with
      | error e => exact .inl ⟨e, rfl⟩
      | ok fd => exact .inr ⟨n, handler, size, least, most, .inl ⟨fd, rfl, rfl⟩⟩
    | systemd =>
      have adopts := addSystemdListener_apply n.toNat handler p
      exact .inr ⟨n, handler, size, least, most, .inr adopts⟩
    | function f => exact .inl ⟨_, rfl⟩
    | other => exact .inl ⟨_, rfl⟩

theorem adopted_descriptors (maxSize handler fd n : ℕ) :
    (adopted maxSize handler fd n).map Listener.descriptor = (List.range' fd n).reverse := by
  simp [adopted, Function.comp_def]

theorem mem_adopted {maxSize handler fd n : ℕ} {l : Listener}
    (h : l ∈ adopted maxSize handler fd n) :
    l.maxSize = maxSize ∧ l.descriptor ∈ List.range' fd n := by
  obtain ⟨d, range, rfl⟩ := List.mem_map.mp (List.mem_reverse.mp h)
  exact ⟨rfl, range⟩

namespace Owned

theorem setMaxSize (h : Owned p) (n : Option ℤ) : Owned { p with maxSize := n } :=
  ⟨h.sizes, h.distinct, h.used, h.passed⟩

theorem create (h : Owned p) {fd n : ℕ} (fresh : fd ∉ p.used) (least : 1024 ≤ n)
    (most : n ≤ 1024 * 1024 * 1024) (handler : ℕ) :
    Owned { p with used := fd :: p.used, listeners := ⟨fd, n, handler⟩ :: p.listeners } where
  sizes := List.forall_mem_cons.mpr ⟨⟨least, most⟩, h.sizes⟩
  distinct := by
    refine List.nodup_cons.mpr ⟨fun among => ?_, h.distinct⟩
    obtain ⟨l, mem, same⟩ := List.mem_map.mp among
    have eq : l.descriptor = fd := same
    exact fresh (eq ▸ h.used l mem)
  used := List.forall_mem_cons.mpr
    ⟨List.mem_cons_self, fun l mem => List.mem_cons_of_mem _ (h.used l mem)⟩
  passed := by
    intro d range
    obtain ⟨used, free⟩ := h.passed d range
    refine ⟨List.mem_cons_of_mem _ used, fun among => ?_⟩
    obtain rfl | among := List.mem_cons.mp among
    · exact fresh used
    · exact free among

theorem adopt (h : Owned p) {n : ℕ} (least : 1024 ≤ n) (most : n ≤ 1024 * 1024 * 1024)
    (handler : ℕ) : Owned { p with
      listenFds := 0
      listeners := adopted n handler listenFdsStart p.listenFds.toNat ++ p.listeners } where
  sizes := List.forall_mem_append.mpr
    ⟨fun l mem => (mem_adopted mem).1 ▸ ⟨least, most⟩, h.sizes⟩
  distinct := by
    rw [List.map_append, adopted_descriptors]
    refine List.Nodup.append (List.nodup_reverse.mpr List.nodup_range') h.distinct ?_
    exact fun d range => (h.passed d (List.mem_reverse.mp range)).2
  used := List.forall_mem_append.mpr ⟨fun l mem => (h.passed _ (mem_adopted mem).2).1, h.used⟩
  passed := by simp

theorem after (h : Owned p) (act : Act) : Owned (act.after p) := by
  cases act with
  | setMaxSize n => exact h.setMaxSize n
  | listen args socket caught =>
    obtain ⟨e, failed⟩ | ⟨n, handler, -, least, most, ⟨fd, created, ok⟩ | ok⟩ :=
      qmqpListen_cases socket args p
    · have same : (Act.listen args socket caught).after p = p := by
        cases caught <;> simp [Act.after, Act.code, failed]
      rwa [same]
    · simp only [Act.after, Act.code, ok]
      exact h.create (socket.fresh _ _ created) (by omega) (by omega) handler
    · simp only [Act.after, Act.code, ok]
      exact h.adopt (by omega) (by omega) handler

theorem initial (listenFds : ℤ) : Owned (initial listenFds) where
  sizes := by simp [Process.initial]
  distinct := by simp [Process.initial]
  used := by simp [Process.initial]
  passed := fun fd range => ⟨range, by simp [Process.initial]⟩

end Owned

theorem after_unset (unset : p.maxSize = none) {act : Act} (other : ∀ n, act ≠ .setMaxSize n) :
    act.after p = p := by
  cases act with
  | setMaxSize n => exact absurd rfl (other n)
  | listen args socket caught =>
    obtain ⟨e, failed⟩ | ⟨n, handler, size, -⟩ := qmqpListen_cases socket args p
    · cases caught <;> simp [Act.after, Act.code, failed]
    · rw [unset] at size
      cases size

theorem after_suffix (p : Process) (act : Act) : p.listeners <:+ (act.after p).listeners := by
  cases act with
  | setMaxSize n => exact List.suffix_rfl
  | listen args socket caught =>
    obtain ⟨e, failed⟩ | ⟨n, handler, -, -, -, ⟨fd, -, ok⟩ | ok⟩ := qmqpListen_cases socket args p
    · cases caught <;> simp [Act.after, Act.code, failed]
    · simp only [Act.after, Act.code, ok]
      exact List.suffix_cons _ _
    · simp only [Act.after, Act.code, ok]
      exact List.suffix_append _ _

theorem foldl_owned (h : Owned p) (acts : List Act) : Owned (acts.foldl Act.after p) := by
  induction acts generalizing p with
  | nil => exact h
  | cons act acts ih => exact ih (h.after act)

theorem foldl_suffix (p : Process) (acts : List Act) :
    p.listeners <:+ (acts.foldl Act.after p).listeners := by
  induction acts generalizing p with
  | nil => exact List.suffix_rfl
  | cons act acts ih => exact (after_suffix p act).trans (ih _)

theorem foldl_unset (unset : p.maxSize = none) {acts : List Act}
    (other : ∀ act ∈ acts, ∀ n, act ≠ .setMaxSize n) : acts.foldl Act.after p = p := by
  induction acts with
  | nil => rfl
  | cons act acts ih =>
    obtain ⟨first, rest⟩ := List.forall_mem_cons.mp other
    rw [List.foldl_cons, after_unset unset first, ih rest]

theorem forM_foldl {acts : List Act} (ok : acts.forM Act.code p = .ok () q) :
    q = acts.foldl Act.after p := by
  induction acts generalizing p with
  | nil =>
    cases ok
    rfl
  | cons act acts ih =>
    have unfolded : (act.code >>= fun _ => acts.forM Act.code) p = .ok () q := ok
    cases first : act.code p with
    | ok u r =>
      rw [bind_ok first] at unfolded
      rw [List.foldl_cons, Act.after, first]
      exact ih unfolded
    | error e r =>
      rw [bind_error first] at unfolded
      cases unfolded

theorem start_ok {config : List Act} {logServer : LogServer} {logSocket : Bool}
    (started : start config logServer p = .ok logSocket q) :
    q.listeners ≠ [] ∧ q = { config.foldl Act.after p with maxSize := none } := by
  rw [start] at started
  cases configured : config.forM Act.code p with
  | error e r =>
    rw [bind_error configured] at started
    cases started
  | ok u r =>
    rw [bind_ok configured, get_bind, check_bind] at started
    split_ifs at started with listening
    rw [← forM_foldl configured]
    cases logServer with
    | none =>
      cases started
      exact ⟨listening, rfl⟩
    | some answer =>
      cases answer <;> cases started
      exact ⟨listening, rfl⟩

/-- Once the server runs, it has listeners, each on a descriptor of its own and
with a size within the limits, whatever the configuration has done. All scripts
together only ever add such listeners, and they add none unless they set
`max_size` again. -/
theorem startup_listens {listenFds : ℤ} {config : List Act} {logServer : LogServer}
    {logSocket : Bool} {p : Process}
    (started : start config logServer (initial listenFds) = .ok logSocket p) (acts : List Act) :
    let q := acts.foldl Act.after p
    p.listeners ≠ [] ∧ p.listeners <:+ q.listeners ∧
      (q.listeners.map Listener.descriptor).Nodup ∧
      (∀ l ∈ q.listeners, 1024 ≤ l.maxSize ∧ l.maxSize ≤ 1024 * 1024 * 1024) ∧
      ((∀ act ∈ acts, ∀ n, act ≠ .setMaxSize n) → q = p) := by
  intro q
  obtain ⟨listening, eq⟩ := start_ok started
  have configured : Owned p := by
    rw [eq]
    exact (foldl_owned (.initial listenFds) config).setMaxSize none
  have owned : Owned q := foldl_owned configured acts
  have unset : p.maxSize = none := by rw [eq]
  exact ⟨listening, foldl_suffix p acts, owned.distinct, owned.sizes, foldl_unset unset⟩

def nextDescriptor : SocketAnswer where
  create used := .ok (used.foldr max 0 + 1)
  fresh used fd created := by
    cases created
    intro among
    have le := List.le_max_of_le' 0 among le_rfl
    omega

/-- One socket of its own and two from systemd, which it gets once. -/
def sampleConfig : List Act :=
  [.listen [.string (ascii "/run/qrelay.sock"), .function 1] nextDescriptor false,
    .setMaxSize (some 4096), .listen [.systemd, .function 2] nextDescriptor false,
    .listen [.systemd, .function 3] nextDescriptor false]

def sampleProcess : Process where
  maxSize := none
  listeners := [⟨4, 4096, 2⟩, ⟨3, 4096, 2⟩, ⟨5, 16777216, 1⟩]
  listenFds := 0
  used := [5, 3, 4]

theorem startup_listens_sample :
    start sampleConfig (some (.ok ())) (initial 2) = .ok true sampleProcess ∧
      Act.after sampleProcess (.listen [.systemd, .function 4] nextDescriptor true) =
        sampleProcess := by
  have started : start sampleConfig (some (.ok ())) (initial 2) = .ok true sampleProcess := rfl
  obtain ⟨-, -, -, -, unset⟩ :=
    startup_listens started [.listen [.systemd, .function 4] nextDescriptor true]
  exact ⟨started, unset (by simp)⟩

end Process

end Qrelay
