import Qrelay.Lib.Code

/-! Runs of a system that takes one event after the other. A run stops at the
first fault. The rules lift what holds of one step to whole runs. -/

namespace Qrelay.Lib

variable {σ ε : Type} (step : ε → Code σ Unit)

def run : List ε → Code σ Unit
  | [] => pure ()
  | e :: es => do
    step e
    run es

/-- Every step of the run from a state meets `P`. -/
def Along (P : σ → ε → Prop) : σ → List ε → Prop
  | _, [] => True
  | s, e :: es => P s e ∧ ∀ s', step e s = .ok () s' → Along P s' es

variable {step}

@[simp] theorem run_nil (s : σ) : run step [] s = .ok () s := rfl

theorem run_cons_ok {e : ε} {es : List ε} {s s' : σ} (h : step e s = .ok () s') :
    run step (e :: es) s = run step es s' :=
  bind_ok h

theorem run_cons_error {e : ε} {es : List ε} {s s' : σ} {f : Fault}
    (h : step e s = .error f s') : run step (e :: es) s = .error f s' :=
  bind_error h

theorem run_singleton (e : ε) (s : σ) : run step [e] s = step e s := by
  cases outcome : step e s with
  | ok _ s' => exact run_cons_ok outcome
  | error f s' => exact run_cons_error outcome

theorem run_append {es es' : List ε} : ∀ {s s' : σ}, run step es s = .ok () s' →
    run step (es ++ es') s = run step es' s' := by
  induction es with
  | nil =>
    intro s s' h
    cases h
    rfl
  | cons e es ih =>
    intro s s' h
    cases outcome : step e s with
    | ok _ t =>
      rw [run_cons_ok outcome] at h
      rw [List.cons_append, run_cons_ok outcome, ih h]
    | error f t =>
      rw [run_cons_error outcome] at h
      cases h

theorem Along.of_forall {P : σ → ε → Prop} (h : ∀ s e, P s e) {es : List ε} :
    ∀ {s : σ}, Along step P s es := by
  induction es with
  | nil => exact trivial
  | cons e es ih => exact ⟨h _ e, fun _ _ => ih⟩

/-- What every step keeps, a run keeps; `Q` says what may be true at a fault. -/
theorem run_ends {P : σ → Prop} {Q : Fault → σ → Prop} {es : List ε}
    (keeps : ∀ e ∈ es, ∀ s, P s → Outcome.Ends P Q (step e s)) :
    ∀ s, P s → Outcome.Ends P Q (run step es s) := by
  induction es with
  | nil => intro s h; exact h
  | cons e es ih =>
    intro s h
    have one := keeps e List.mem_cons_self s h
    cases hs : step e s with
    | ok _ s' =>
      rw [hs] at one
      rw [run_cons_ok hs]
      exact ih (fun e he => keeps e (List.mem_cons_of_mem _ he)) s' one
    | error f s' =>
      rw [hs] at one
      rw [run_cons_error hs]
      exact one

/-- A step that never faults and keeps the invariant gives runs that do both. -/
theorem run_invariant {Inv : σ → Prop} {es : List ε} :
    (∀ e ∈ es, ∀ s, Inv s → ∃ s', step e s = .ok () s' ∧ Inv s') → ∀ {s : σ}, Inv s →
    ∃ s', run step es s = .ok () s' ∧ Inv s' := by
  induction es with
  | nil => exact fun _ s h => ⟨s, rfl, h⟩
  | cons e es ih =>
    intro keeps s h
    obtain ⟨s', hs, h'⟩ := keeps e List.mem_cons_self s h
    rw [run_cons_ok hs]
    exact ih (fun e member => keeps e (List.mem_cons_of_mem _ member)) h'

/-- When steps fault exactly where `P` fails, a run ends exactly when all of
its steps meet `P`. -/
theorem run_finished_iff {Inv : σ → Prop} {P : σ → ε → Prop}
    (good : ∀ e s, Inv s → P s e → ∃ s', step e s = .ok () s' ∧ Inv s')
    (bad : ∀ e s, Inv s → ¬ P s e → ¬ Outcome.Finished (step e s)) (es : List ε)
    {s : σ} (h : Inv s) : Outcome.Finished (run step es s) ↔ Along step P s es := by
  induction es generalizing s with
  | nil => simp [Along]
  | cons e es ih =>
    by_cases hp : P s e
    · obtain ⟨s', hs, h'⟩ := good e s h hp
      rw [run_cons_ok hs, ih h', Along]
      constructor
      · intro along
        refine ⟨hp, fun t ht => ?_⟩
        rw [hs] at ht
        cases ht
        exact along
      · rintro ⟨-, along⟩
        exact along s' hs
    · constructor
      · intro finished
        exfalso
        apply bad e s h hp
        cases hs : step e s with
        | ok _ s' => trivial
        | error f s' =>
          rw [run_cons_error hs] at finished
          exact finished
      · rintro ⟨hp', -⟩
        exact absurd hp' hp

end Qrelay.Lib
