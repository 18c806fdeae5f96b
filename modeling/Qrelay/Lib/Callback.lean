import Qrelay.Lib.Run

/-! Objects that report to a handler which may destroy them. One event makes
such an object change, or change and make one callback. An object that goes on
after its callback uses itself, which is a fault once the handler has destroyed
it. `Solo` is the object alone, with a handler that destroys it at the first
callback and keeps what was reported. -/

namespace Qrelay.Lib

variable {σ ρ χ ε : Type}

/-- What an event makes of an object in the state given with it. -/
inductive Reaction (ρ χ : Type) where
  | stay (object : ρ)
  | finish (object : ρ) (callback : χ)
  /-- The callback is not the last thing that happens. -/
  | linger (object : ρ) (callback : χ)
  deriving DecidableEq, Repr

namespace Reaction

def Lingers : Reaction ρ χ → Prop
  | linger _ _ => True
  | _ => False

def object : Reaction ρ χ → ρ
  | stay r | finish r _ | linger r _ => r

def Meets (P : ρ → Prop) (Q : χ → Prop) : Reaction ρ χ → Prop
  | stay r => P r
  | finish _ c | linger _ c => Q c

def map {τ : Type} (f : ρ → τ) : Reaction ρ χ → Reaction τ χ
  | stay r => stay (f r)
  | finish r c => finish (f r) c
  | linger r c => linger (f r) c

/-- The code does what the reaction says. -/
def Performs (self : Place σ ρ) (handler : χ → Code σ Unit) (s : σ) :
    Reaction ρ χ → Outcome σ Unit → Prop
  | stay r, o => o = .ok () (self.set r s)
  | finish r c, o => o = handler c (self.set r s)
  | linger r c, o => ∃ rest : Code σ Unit,
      (∀ t, self.get t = none → rest t = .error (.dangling self.object) t) ∧
      o = (handler c >>= fun _ => rest) (self.set r s)

theorem performs_set {self : Place σ ρ} {handler : χ → Code σ Unit} {s : σ} (t : ρ)
    {reaction : Reaction ρ χ} {o : Outcome σ Unit} :
    reaction.Performs self handler (self.set t s) o ↔ reaction.Performs self handler s o := by
  cases reaction <;> simp only [Performs, self.set_set]

@[simp] theorem object_map {τ : Type} {f : ρ → τ} {reaction : Reaction ρ χ} :
    (reaction.map f).object = f reaction.object := by
  cases reaction <;> rfl

@[simp] theorem lingers_map {τ : Type} {f : ρ → τ} {reaction : Reaction ρ χ} :
    (reaction.map f).Lingers ↔ reaction.Lingers := by
  cases reaction <;> rfl

theorem meets_map {τ : Type} {f : ρ → τ} {P : τ → Prop} {Q : χ → Prop} {reaction : Reaction ρ χ} :
    (reaction.map f).Meets P Q ↔ reaction.Meets (fun r => P (f r)) Q := by
  cases reaction <;> rfl

theorem Meets.mono {P P' : ρ → Prop} {Q Q' : χ → Prop} {reaction : Reaction ρ χ}
    (h : reaction.Meets P Q) (object : ∀ r, P r → P' r) (callback : ∀ c, Q c → Q' c) :
    reaction.Meets P' Q' := by
  cases reaction with
  | stay r => exact object r h
  | finish r c => exact callback c h
  | linger r c => exact callback c h

theorem Performs.of_part {τ : Type} {self : Place σ ρ} {p : Part ρ τ}
    {handler : χ → Code σ Unit} {s : σ} {reaction : Reaction τ χ} {o : Outcome σ Unit} {r : ρ}
    (alive : self.get s = some r) (has : (p.project r).isSome)
    (h : reaction.Performs (self.part p) handler s o) :
    (reaction.map (p.inject · r)).Performs self handler s o := by
  have set := Place.part_set alive has
  cases reaction with
  | stay t => simpa only [map, Performs, set] using h
  | finish t c => simpa only [map, Performs, set] using h
  | linger t c =>
    obtain ⟨rest, needs, eq⟩ := h
    refine ⟨rest, fun u dead => needs u ?_, by rw [← set]; exact eq⟩
    simp [Place.part, dead]

end Reaction

/-- An object that is destroyed at its first callback; what it was like then
is kept with what it reported. -/
structure Solo (ρ χ : Type) where
  object : Option ρ
  calls : List (ρ × χ) := []
  deriving DecidableEq, Repr

namespace Solo

def place (number : ℕ) : Place (Solo ρ χ) ρ where
  object := number
  get s := s.object
  set r s := { s with object := some r }
  get_set _ _ _ := rfl
  set_set _ _ _ := rfl
  set_get r s h := by cases s; cases h; rfl

/-- The handler; a second callback destroys the object again. -/
def dispose (number : ℕ) (c : χ) : Code (Solo ρ χ) Unit := fun s =>
  match s.object with
  | some r => .ok () { object := none, calls := s.calls ++ [(r, c)] }
  | none => .error (.dangling number) s

/-- Events are delivered while the object is there. -/
def step (code : ε → Code (Solo ρ χ) Unit) (e : ε) : Code (Solo ρ χ) Unit := do
  if (← get).object.isSome then
    code e

variable {number : ℕ} {code : ε → Code (Solo ρ χ) Unit} {react : ε → ρ → Reaction ρ χ}

theorem step_dead {s : Solo ρ χ} (h : s.object = none) (e : ε) : step code e s = .ok () s := by
  rw [step, get_bind]
  simp only [h, Option.isSome_none, Bool.false_eq_true, if_false]
  rfl

theorem step_alive {s : Solo ρ χ} {r : ρ} (h : s.object = some r) (e : ε) :
    step code e s = code e s := by
  rw [step, get_bind]
  simp only [h, Option.isSome_some, if_true]

theorem run_dead {s : Solo ρ χ} (h : s.object = none) (es : List ε) :
    run (step code) es s = .ok () s := by
  induction es with
  | nil => rfl
  | cons e es ih => rw [run_cons_ok (step_dead h e), ih]

section Reacts

variable {Inv : ρ → Prop}
  (performs : ∀ e s r, s.object = some r → Inv r →
    (react e r).Performs (place number) (dispose number) s (code e s))
include performs

theorem step_stay {s : Solo ρ χ} {r r' : ρ} {e : ε} (h : s.object = some r) (inv : Inv r)
    (eq : react e r = .stay r') : step code e s = .ok () { s with object := some r' } := by
  have performed := performs e s r h inv
  rw [eq] at performed
  rw [step_alive h]
  exact performed

theorem step_finish {s : Solo ρ χ} {r r' : ρ} {c : χ} {e : ε} (h : s.object = some r)
    (inv : Inv r) (eq : react e r = .finish r' c) :
    step code e s = .ok () { object := none, calls := s.calls ++ [(r', c)] } := by
  have performed := performs e s r h inv
  rw [eq] at performed
  rw [step_alive h]
  exact performed

theorem step_linger {s : Solo ρ χ} {r r' : ρ} {c : χ} {e : ε} (h : s.object = some r)
    (inv : Inv r) (eq : react e r = .linger r' c) : step code e s =
      .error (.dangling number) { object := none, calls := s.calls ++ [(r', c)] } := by
  have performed := performs e s r h inv
  rw [eq] at performed
  obtain ⟨rest, needs, outcome⟩ := performed
  have first : dispose number c ((place number).set r' s) =
      .ok () { object := none, calls := s.calls ++ [(r', c)] } := rfl
  rw [bind_ok first, needs _ rfl] at outcome
  rw [step_alive h]
  exact outcome

theorem run_finish {s : Solo ρ χ} {r r' : ρ} {c : χ} {e : ε} (h : s.object = some r)
    (inv : Inv r) (eq : react e r = .finish r' c) (es : List ε) :
    run (step code) (e :: es) s = .ok () { object := none, calls := s.calls ++ [(r', c)] } := by
  rw [run_cons_ok (step_finish performs h inv eq), run_dead rfl]

variable (keeps : ∀ e r r', Inv r → react e r = .stay r' → Inv r')
include keeps

/-- A run ends without a fault exactly if no event makes the object linger. -/
theorem run_finished_iff (es : List ε) {s : Solo ρ χ} (inv : ∀ r, s.object = some r → Inv r) :
    Outcome.Finished (run (step code) es s) ↔
      Along (step code) (fun s e => ∀ r, s.object = some r → ¬ (react e r).Lingers) s es := by
  refine Lib.run_finished_iff (fun e s (inv : ∀ r, s.object = some r → Inv r) good => ?_)
    (fun e s inv bad => ?_) es inv
  · cases h : s.object with
    | none => exact ⟨s, step_dead h e, inv⟩
    | some r =>
      have stays := good r h
      cases eq : react e r with
      | stay r' =>
        refine ⟨_, step_stay performs h (inv r h) eq, fun t ht => ?_⟩
        rw [← Option.some.inj ht]
        exact keeps e r r' (inv r h) eq
      | finish r' c => exact ⟨_, step_finish performs h (inv r h) eq, fun t ht => by cases ht⟩
      | linger r' c =>
        rw [eq] at stays
        exact absurd trivial stays
  · simp only [Classical.not_forall, Classical.not_not, exists_prop] at bad
    obtain ⟨r, h, lingers⟩ := bad
    cases eq : react e r with
    | stay r' =>
      rw [eq] at lingers
      exact lingers.elim
    | finish r' c =>
      rw [eq] at lingers
      exact lingers.elim
    | linger r' c =>
      rw [step_linger performs h (inv r h) eq]
      exact id

/-- No run makes a second callback, wherever it ends. -/
theorem run_calls_le_one (es : List ε) {r : ρ} (inv : Inv r) :
    (Outcome.state (run (step code) es { object := some r })).calls.length ≤ 1 := by
  have outcome := @run_ends _ _ (step code)
    (fun s => (∀ r, s.object = some r → Inv r ∧ s.calls = []) ∧ s.calls.length ≤ 1)
    (fun _ s => s.calls.length ≤ 1) es (fun e _ s h => by
      cases alive : s.object with
      | none =>
        rw [step_dead alive]
        exact h
      | some r =>
        obtain ⟨inv, none⟩ := h.1 r alive
        cases eq : react e r with
        | stay r' =>
          rw [step_stay performs alive inv eq]
          refine ⟨fun t ht => ?_, h.2⟩
          rw [← Option.some.inj ht]
          exact ⟨keeps e r r' inv eq, none⟩
        | finish r' c =>
          rw [step_finish performs alive inv eq]
          exact ⟨fun t ht => (by cases ht), by simp [none]⟩
        | linger r' c =>
          rw [step_linger performs alive inv eq]
          simp [Outcome.Ends, none]) { object := some r }
    ⟨fun t ht => ⟨Option.some.inj ht ▸ inv, rfl⟩, by simp⟩
  exact outcome.state (fun _ h => h.2) fun _ _ h => h

end Reacts

end Solo

end Qrelay.Lib
