import Qrelay.Lib.Run

/-! Many components that take their events in any order. A run of all of them
is, for each one, the run on its own events, so that what is known of the runs
of one component holds of every component of every interleaving. -/

namespace Qrelay.Lib

variable {σ ε : Type}

/-- Code of component `i`; nothing happens if there is no such component. -/
def focus (i : ℕ) (code : Code σ Unit) : Code (List σ) Unit := fun s =>
  match s[i]? with
  | none => .ok () s
  | some c =>
    match code c with
    | .ok _ c' => .ok () (s.set i c')
    | .error f c' => .error f (s.set i c')

def among (step : ε → Code σ Unit) (e : ℕ × ε) : Code (List σ) Unit := focus e.1 (step e.2)

def own (i : ℕ) (es : List (ℕ × ε)) : List ε :=
  es.filterMap fun e => if e.1 = i then some e.2 else none

variable {step : ε → Code σ Unit} {i j : ℕ} {code : Code σ Unit} {s s' : List σ} {c : σ}

theorem focus_missing (h : s[i]? = none) : focus i code s = .ok () s := by
  rw [focus, h]

theorem focus_ok {c' : σ} (h : s[i]? = some c) (ok : code c = .ok () c') :
    focus i code s = .ok () (s.set i c') := by
  simp only [focus, h, ok]

theorem focus_error {c' : σ} {f : Fault} (h : s[i]? = some c) (error : code c = .error f c') :
    focus i code s = .error f (s.set i c') := by
  simp only [focus, h, error]

theorem focus_get (ok : focus i code s = .ok () s') (h : s[j]? = some c) :
    ∃ c', s'[j]? = some c' ∧ (if i = j then code c = .ok () c' else c' = c) := by
  by_cases same : i = j
  · subst same
    cases outcome : code c with
    | ok _ c' =>
      rw [focus_ok h outcome] at ok
      cases ok
      refine ⟨c', ?_, if_pos rfl ▸ rfl⟩
      rw [List.getElem?_set_self (List.getElem?_eq_some_iff.mp h).1]
    | error f c' =>
      rw [focus_error h outcome] at ok
      cases ok
  · refine ⟨c, ?_, by rw [if_neg same]⟩
    cases found : s[i]? with
    | none =>
      rw [focus_missing found] at ok
      cases ok
      exact h
    | some d =>
      cases outcome : code d with
      | ok _ d' =>
        rw [focus_ok found outcome] at ok
        cases ok
        rw [List.getElem?_set_ne same, h]
      | error f d' =>
        rw [focus_error found outcome] at ok
        cases ok

theorem own_cons (e : ℕ × ε) (es : List (ℕ × ε)) :
    own i (e :: es) = if e.1 = i then e.2 :: own i es else own i es := by
  by_cases mine : e.1 = i <;> simp [own, mine]

theorem own_append (es es' : List (ℕ × ε)) : own i (es ++ es') = own i es ++ own i es' :=
  List.filterMap_append

/-- In a run of all components, each one goes through the run on its own events. -/
theorem run_among_get {es : List (ℕ × ε)} : ∀ {s : List σ} {c : σ},
    run (among step) es s = .ok () s' → s[i]? = some c →
      ∃ c', s'[i]? = some c' ∧ run step (own i es) c = .ok () c' := by
  induction es with
  | nil =>
    intro s c ok h
    cases ok
    exact ⟨c, h, rfl⟩
  | cons e es ih =>
    intro s c ok h
    cases outcome : among step e s with
    | error f t =>
      rw [run_cons_error outcome] at ok
      cases ok
    | ok _ t =>
      rw [run_cons_ok outcome] at ok
      obtain ⟨d, found, happened⟩ := focus_get outcome h
      obtain ⟨c', found', ran⟩ := ih ok found
      refine ⟨c', found', ?_⟩
      rw [own_cons]
      by_cases mine : e.1 = i
      · rw [if_pos mine] at happened ⊢
        rw [run_cons_ok happened, ran]
      · rw [if_neg mine] at happened ⊢
        rw [← happened, ran]

theorem focus_length (ok : focus i code s = .ok () s') : s'.length = s.length := by
  rw [focus] at ok
  split at ok
  · cases ok
    rfl
  · split at ok
    · cases ok
      exact List.length_set
    · cases ok

theorem run_among_length {es : List (ℕ × ε)} : ∀ {s : List σ},
    run (among step) es s = .ok () s' → s'.length = s.length := by
  induction es with
  | nil =>
    intro s ok
    cases ok
    rfl
  | cons e es ih =>
    intro s ok
    cases outcome : among step e s with
    | error f t =>
      rw [run_cons_error outcome] at ok
      cases ok
    | ok _ t =>
      rw [run_cons_ok outcome] at ok
      exact (ih ok).trans (focus_length outcome)

theorem among_keeps {Inv : σ → Prop} {e : ℕ × ε}
    (keeps : ∀ c, Inv c → ∃ c', step e.2 c = .ok () c' ∧ Inv c') (h : ∀ c ∈ s, Inv c) :
    ∃ s', among step e s = .ok () s' ∧ ∀ c ∈ s', Inv c := by
  cases found : s[e.1]? with
  | none => exact ⟨s, focus_missing found, h⟩
  | some c =>
    obtain ⟨c', ok, inv⟩ := keeps c (h c (List.mem_of_getElem? found))
    refine ⟨_, focus_ok found ok, fun d hd => ?_⟩
    exact (List.mem_or_eq_of_mem_set hd).elim (h d) fun eq => eq ▸ inv

theorem run_among_keeps {Inv : σ → Prop} {es : List (ℕ × ε)}
    (keeps : ∀ e ∈ es, ∀ c, Inv c → ∃ c', step e.2 c = .ok () c' ∧ Inv c') :
    ∀ {s : List σ}, (∀ c ∈ s, Inv c) →
      ∃ s', run (among step) es s = .ok () s' ∧ ∀ c ∈ s', Inv c := by
  induction es with
  | nil => exact fun h => ⟨_, rfl, h⟩
  | cons e es ih =>
    intro s h
    obtain ⟨t, ok, inv⟩ := among_keeps (keeps e List.mem_cons_self) h
    rw [run_cons_ok ok]
    exact ih (fun e he => keeps e (List.mem_cons_of_mem _ he)) inv

end Qrelay.Lib
