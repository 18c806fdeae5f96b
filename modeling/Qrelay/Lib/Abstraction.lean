import Qrelay.Lib.Run

/-! Code that takes one event after the other, and a pure machine that says
what it is for. The relation between their states that goes with every step
goes with every run. A fault is only related to a state in which the machine
has ended. Objects that answer requests are compared by their answers. -/

namespace Qrelay.Lib

variable {σ τ ε : Type}

/-- What a pure step function makes of a list of events. -/
def follow (next : ε → τ → τ) (es : List ε) (t : τ) : τ := es.foldl (fun t e => next e t) t

variable {next : ε → τ → τ} {step : ε → Code σ Unit} {rel : σ → τ → Prop}

theorem follow_cons (e : ε) (es : List ε) (t : τ) :
    follow next (e :: es) t = follow next es (next e t) := rfl

theorem follow_append (es es' : List ε) (t : τ) :
    follow next (es ++ es') t = follow next es' (follow next es t) :=
  List.foldl_append

/-- Only some events matter, and these only by a part of them. -/
theorem follow_filterMap {δ : Type} {take : δ → τ → τ} {part : ε → Option δ} {P : τ → Prop}
    {es : List ε}
    (agrees : ∀ e ∈ es, ∀ t, P t → next e t = (part e).elim t (take · t) ∧ P (next e t)) :
    ∀ {t : τ}, P t → follow next es t = follow take (es.filterMap part) t := by
  induction es with
  | nil => exact fun _ => rfl
  | cons e es ih =>
    intro t h
    obtain ⟨same, after⟩ := agrees e List.mem_cons_self t h
    rw [follow_cons, ih (fun e mem => agrees e (List.mem_cons_of_mem _ mem)) after, same]
    cases found : part e with
    | none => rw [List.filterMap_cons_none found, Option.elim_none]
    | some d => rw [List.filterMap_cons_some found, Option.elim_some, follow_cons]

theorem follow_ended {t : τ} (ended : ∀ e, next e t = t) (es : List ε) : follow next es t = t := by
  induction es with
  | nil => rfl
  | cons e es ih => rw [follow_cons, ended, ih]

/-- Where a piece of code ends while the machine is in a state. -/
def Reaches (next : ε → τ → τ) (rel : σ → τ → Prop) (t : τ) : Outcome σ Unit → Prop :=
  Outcome.Ends (rel · t) fun _ s => rel s t ∧ ∀ e, next e t = t

/-- The step goes with the step of the machine; so does every run. -/
theorem run_reaches {Inv : σ → Prop}
    (inv : ∀ e s, Inv s → ∀ s', step e s = .ok () s' → Inv s')
    (reaches : ∀ e s t, Inv s → rel s t → Reaches next rel (next e t) (step e s)) (es : List ε) :
    ∀ {s : σ} {t : τ}, Inv s → rel s t → Reaches next rel (follow next es t) (run step es s) := by
  induction es with
  | nil => exact fun _ related => related
  | cons e es ih =>
    intro s t keeps related
    have one := reaches e s t keeps related
    cases outcome : step e s with
    | ok _ s' =>
      rw [outcome] at one
      rw [run_cons_ok outcome]
      exact ih (inv e s keeps s' outcome) one
    | error f s' =>
      rw [outcome] at one
      rw [run_cons_error outcome, follow_cons, follow_ended one.2]
      exact one

theorem Reaches.state {t : τ} {o : Outcome σ Unit} (h : Reaches next rel t o) :
    rel (Outcome.state o) t :=
  Outcome.Ends.state h (fun _ related => related) fun _ _ related => related.1

section Session

variable {ρ : Type}

def session (respond : ε → σ → ρ × σ) : List ε → σ → List ρ × σ
  | [], s => ([], s)
  | e :: es, s =>
    let rest := session respond es (respond e s).2
    ((respond e s).1 :: rest.1, rest.2)

/-- Objects that give the same answer to every request, and are still related
behind it, cannot be told apart. -/
theorem session_rel {respond : ε → σ → ρ × σ} {respond' : ε → τ → ρ × τ} {rel : σ → τ → Prop}
    (same : ∀ e s t, rel s t → (respond e s).1 = (respond' e t).1 ∧
      rel (respond e s).2 (respond' e t).2) (es : List ε) {s : σ} {t : τ} (related : rel s t) :
    (session respond es s).1 = (session respond' es t).1 ∧
      rel (session respond es s).2 (session respond' es t).2 := by
  induction es generalizing s t with
  | nil => exact ⟨rfl, related⟩
  | cons e es ih =>
    obtain ⟨answer, behind⟩ := same e s t related
    obtain ⟨answers, last⟩ := ih behind
    exact ⟨List.cons_eq_cons.mpr ⟨answer, answers⟩, last⟩

end Session

end Qrelay.Lib
