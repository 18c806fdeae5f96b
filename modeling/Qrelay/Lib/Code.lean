import Mathlib.Tactic.SplitIfs
import Mathlib.Data.Nat.Notation

/-! Imperative code over a shared state that may stop at a fault, and objects
with a limited lifetime inside that state. Reading or changing an object that
has been destroyed is the fault `dangling`, so code that runs to its end has
used living objects only. -/

namespace Qrelay.Lib

inductive Fault where
  /-- A member of the object with this number was used after it was destroyed. -/
  | dangling (object : ℕ)
  /-- An assertion did not hold. -/
  | assertion
  /-- An index or a position outside of its range was used. -/
  | outOfRange
  /-- An unsigned computation exceeded its type. -/
  | wrapped
  /-- A loop did not end within its bound. -/
  | endless
  deriving DecidableEq, Repr

/-- A fault keeps the state it was met in. -/
abbrev Outcome (σ α : Type) := EStateM.Result Fault σ α

abbrev Code (σ : Type) := EStateM Fault σ

variable {ε σ ρ α β : Type}

def check (p : Prop) [Decidable p] (e : ε) : EStateM ε σ Unit := if p then pure () else throw e

def require (v : Option α) (e : ε) : EStateM ε σ α :=
  match v with
  | some a => pure a
  | none => throw e

section Bind

theorem bind_ok {x : EStateM ε σ α} {f : α → EStateM ε σ β} {s s' : σ} {a : α}
    (h : x s = .ok a s') : (x >>= f) s = f a s' := by
  change EStateM.bind x f s = _
  rw [EStateM.bind, h]

theorem bind_error {x : EStateM ε σ α} {f : α → EStateM ε σ β} {s s' : σ} {e : ε}
    (h : x s = .error e s') : (x >>= f) s = .error e s' := by
  change EStateM.bind x f s = _
  rw [EStateM.bind, h]

theorem bind_congr {x y : EStateM ε σ α} {s t : σ} (h : x s = y t) (f : α → EStateM ε σ β) :
    (x >>= f) s = (y >>= f) t := by
  change EStateM.bind x f s = EStateM.bind y f t
  rw [EStateM.bind, EStateM.bind, h]

theorem get_bind (f : σ → EStateM ε σ β) (s : σ) : (get >>= f) s = f s s := rfl

theorem modify_bind (g : σ → σ) (f : Unit → EStateM ε σ β) (s : σ) :
    (modify g >>= f) s = f () (g s) := rfl

theorem modify_apply (g : σ → σ) (s : σ) :
    (modify g : EStateM ε σ Unit) s = .ok () (g s) := rfl

theorem check_bind (p : Prop) [Decidable p] (e : ε) (f : Unit → EStateM ε σ β) (s : σ) :
    (check p e >>= f) s = if p then f () s else .error e s := by
  unfold check
  split_ifs <;> rfl

/-- Code whose value is not used: a constant as its value makes no difference. -/
theorem discard_return {b : β} (x : EStateM ε σ Unit) (s : σ) :
    (discard (do x; return b : EStateM ε σ β) : EStateM ε σ PUnit) s = x s := by
  cases h : x s with
  | ok a t =>
    have whole : (do x; return b : EStateM ε σ β) s = .ok b t := bind_ok h
    simp only [discard, Functor.mapConst, Function.comp, EStateM.map, whole]
  | error e t =>
    have whole : (do x; return b : EStateM ε σ β) s = .error e t := bind_error h
    simp only [discard, Functor.mapConst, Function.comp, EStateM.map, whole]

theorem discard_congr {x y : EStateM ε σ α} {s t : σ} (h : x s = y t) :
    (discard x : EStateM ε σ PUnit) s = discard y t := by
  simp only [discard, Functor.mapConst, Function.comp, EStateM.map, h]

end Bind

section Yields

/-- The code ends with a value and a state that meet `Q`, or stops at an error that meets `E`. -/
def Yields (x : EStateM ε σ α) (s : σ) (Q : α → σ → Prop) (E : ε → Prop) : Prop :=
  match x s with
  | .ok a s' => Q a s'
  | .error e _ => E e

variable {x : EStateM ε σ α} {s : σ} {Q : α → σ → Prop} {R : β → σ → Prop} {E : ε → Prop}
  {f : α → EStateM ε σ β}

theorem Yields.bind (first : Yields x s Q E) (next : ∀ a s', Q a s' → Yields (f a) s' R E) :
    Yields (x >>= f) s R E := by
  unfold Yields at first ⊢
  cases h : x s with
  | ok a s' =>
    rw [h] at first
    rw [bind_ok h]
    exact next a s' first
  | error e s' =>
    rw [h] at first
    rw [bind_error h]
    exact first

theorem Yields.mono {Q' : α → σ → Prop} (first : Yields x s Q E)
    (weaken : ∀ a s', Q a s' → Q' a s') : Yields x s Q' E := by
  unfold Yields at first ⊢
  cases h : x s with
  | ok a s' =>
    rw [h] at first
    exact weaken a s' first
  | error e s' =>
    rw [h] at first
    exact first

theorem yields_pure {a : α} (h : Q a s) : Yields (pure a) s Q E := h

theorem yields_throw {e : ε} (h : E e) : Yields (throw e) s Q E := h

theorem yields_modify {g : σ → σ} {Q : Unit → σ → Prop} (h : Q () (g s)) :
    Yields (modify g) s Q E := h

theorem yields_get {f : σ → EStateM ε σ β} (next : Yields (f s) s R E) :
    Yields (get >>= f) s R E := next

theorem yields_check {p : Prop} [Decidable p] {e : ε} {f : Unit → EStateM ε σ β} (error : E e)
    (next : p → Yields (f ()) s R E) : Yields (check p e >>= f) s R E := by
  unfold Yields at next ⊢
  rw [check_bind]
  split_ifs with h
  · exact next h
  · exact error

theorem yields_require {v : Option α} {e : ε} (error : E e)
    (next : ∀ a, v = some a → Yields (f a) s R E) : Yields (require v e >>= f) s R E := by
  cases v with
  | none => exact error
  | some a => exact next a rfl

end Yields

section Accepts

def Accepts (x : EStateM ε σ α) (s : σ) : Prop := ∃ a s', x s = .ok a s'

variable {x : EStateM ε σ α} {s : σ} {f : α → EStateM ε σ β}

theorem accepts_pure (a : α) : Accepts (pure a : EStateM ε σ α) s := ⟨a, s, rfl⟩

theorem not_accepts_throw (e : ε) : ¬ Accepts (throw e : EStateM ε σ α) s := by
  rintro ⟨a, s', eq⟩
  cases eq

/-- The rest runs to its end if and only if `P`, whatever the first part leaves. -/
theorem accepts_bind_iff {Q : α → σ → Prop} {E : ε → Prop} {P : Prop} (first : Yields x s Q E)
    (next : ∀ a s', Q a s' → (Accepts (f a) s' ↔ P)) :
    Accepts (x >>= f) s ↔ Accepts x s ∧ P := by
  unfold Yields at first
  cases h : x s with
  | ok a s' =>
    rw [h] at first
    have accepted : Accepts x s := ⟨a, s', h⟩
    rw [← next a s' first, and_iff_right accepted, Accepts, bind_ok h]
    exact Iff.rfl
  | error e s' =>
    have refused : ¬ Accepts x s := by
      rintro ⟨a, t, eq⟩
      rw [h] at eq
      cases eq
    rw [iff_false_right fun both => refused both.1]
    rintro ⟨b, t, eq⟩
    rw [bind_error h] at eq
    cases eq

theorem accepts_get_bind {f : σ → EStateM ε σ β} :
    Accepts (get >>= f) s ↔ Accepts (f s) s := Iff.rfl

theorem accepts_check_bind {p : Prop} [Decidable p] {e : ε} {f : Unit → EStateM ε σ β} :
    Accepts (check p e >>= f) s ↔ p ∧ Accepts (f ()) s := by
  rw [Accepts, check_bind]
  by_cases h : p
  · rw [if_pos h, and_iff_right h]
    exact Iff.rfl
  · rw [if_neg h, iff_false_right fun both => h both.1]
    rintro ⟨a, s', eq⟩
    cases eq

theorem accepts_require_bind {v : Option α} {e : ε} :
    Accepts (require v e >>= f) s ↔ ∃ a, v = some a ∧ Accepts (f a) s := by
  cases v with
  | none =>
    constructor
    · rintro ⟨a, s', eq⟩
      cases eq
    · rintro ⟨a, eq, -⟩
      cases eq
  | some a =>
    constructor
    · exact fun accepted => ⟨a, rfl, accepted⟩
    · rintro ⟨b, eq, accepted⟩
      cases eq
      exact accepted

end Accepts

section Keeps

variable {τ : Type} (part : σ → τ)

/-- The code leaves a part of the state as it was, also where it stops at an error. -/
def Keeps (x : EStateM ε σ α) : Prop :=
  ∀ s, match x s with
    | .ok _ s' | .error _ s' => part s' = part s

variable {part} {x y : EStateM ε σ α} {f : α → EStateM ε σ β}

theorem keeps_pure (a : α) : @Keeps ε σ α τ part (pure a) := fun _ => rfl

theorem keeps_throw (e : ε) : @Keeps ε σ α τ part (throw e) := fun _ => rfl

theorem keeps_get : @Keeps ε σ σ τ part get := fun _ => rfl

theorem keeps_modify {g : σ → σ} (h : ∀ s, part (g s) = part s) :
    @Keeps ε σ Unit τ part (modify g) := h

theorem Keeps.bind (first : Keeps part x) (next : ∀ a, Keeps part (f a)) :
    Keeps part (x >>= f) := by
  intro s
  have one := first s
  cases h : x s with
  | ok a s' =>
    have two := next a s'
    rw [h] at one
    rw [bind_ok h]
    split at two <;> exact two.trans one
  | error e s' =>
    rw [h] at one
    rw [bind_error h]
    exact one

theorem Keeps.ite {p : Prop} [Decidable p] (yes : Keeps part x) (no : Keeps part y) :
    Keeps part (if p then x else y) := by
  split_ifs
  · exact yes
  · exact no

theorem keeps_check (p : Prop) [Decidable p] (e : ε) : @Keeps ε σ Unit τ part (check p e) :=
  (keeps_pure ()).ite (keeps_throw e)

end Keeps

namespace Outcome

def state : Outcome σ α → σ
  | .ok _ s => s
  | .error _ s => s

/-- `P` holds at the end, or `Q` at the fault. -/
def Ends (P : σ → Prop) (Q : Fault → σ → Prop) : Outcome σ α → Prop
  | .ok _ s => P s
  | .error f s => Q f s

def Finished : Outcome σ α → Prop
  | .ok _ _ => True
  | .error _ _ => False

theorem Ends.state {P R : σ → Prop} {Q : Fault → σ → Prop} {o : Outcome σ α} (h : Ends P Q o)
    (ok : ∀ s, P s → R s) (error : ∀ f s, Q f s → R s) : R (state o) := by
  cases o with
  | ok a s => exact ok s h
  | error f s => exact error f s h

@[simp] theorem state_ok (a : α) (s : σ) : state (.ok a s) = s := rfl

@[simp] theorem finished_ok (a : α) (s : σ) : Finished (.ok a s) := trivial

end Outcome

/-- Where an object of type `ρ` lives inside a state; `none` once destroyed. -/
structure Place (σ ρ : Type) where
  object : ℕ
  get : σ → Option ρ
  set : ρ → σ → σ
  get_set : ∀ r s, (get s).isSome → get (set r s) = some r
  set_set : ∀ r r' s, set r (set r' s) = set r s
  set_get : ∀ r s, get s = some r → set r s = s

structure Part (ρ τ : Type) where
  project : ρ → Option τ
  inject : τ → ρ → ρ
  project_inject : ∀ t r, (project r).isSome → project (inject t r) = some t
  inject_inject : ∀ t t' r, inject t (inject t' r) = inject t r
  inject_project : ∀ t r, project r = some t → inject t r = r

namespace Place

def part {τ : Type} (whole : Place σ ρ) (p : Part ρ τ) : Place σ τ where
  object := whole.object
  get s := (whole.get s).bind p.project
  set t s := (whole.get s).elim s fun r =>
    if (p.project r).isSome then whole.set (p.inject t r) s else s
  get_set t s alive := by
    cases h : whole.get s with
    | none => simp [h] at alive
    | some r =>
      have has : (p.project r).isSome := by simpa [h] using alive
      have after := whole.get_set (p.inject t r) s (by simp [h])
      simp only [Option.elim, if_pos has, after, Option.bind_some, p.project_inject t r has]
  set_set t t' s := by
    cases h : whole.get s with
    | none => simp [h]
    | some r =>
      by_cases has : (p.project r).isSome
      · have after := whole.get_set (p.inject t' r) s (by simp [h])
        simp only [Option.elim, if_pos has, after, p.project_inject t' r has, Option.isSome_some,
          if_true, whole.set_set, p.inject_inject]
      · simp only [Option.elim, if_neg has, h]
  set_get t s eq := by
    cases h : whole.get s with
    | none => rfl
    | some r =>
      have has : p.project r = some t := by simpa [h] using eq
      simp only [Option.elim, has, Option.isSome_some, if_true, p.inject_project t r has,
        whole.set_get r s h]

theorem part_set {τ : Type} {whole : Place σ ρ} {p : Part ρ τ} {s : σ} {r : ρ}
    (h : whole.get s = some r) (has : (p.project r).isSome) (t : τ) :
    (whole.part p).set t s = whole.set (p.inject t r) s := by
  simp only [part, h, Option.elim, if_pos has]

variable (self : Place σ ρ)

/-- Use of a member: a fault when the object is gone. -/
def read : Code σ ρ := fun s =>
  match self.get s with
  | some r => .ok r s
  | none => .error (.dangling self.object) s

def modify (f : ρ → ρ) : Code σ Unit := fun s =>
  match self.get s with
  | some r => .ok () (self.set (f r) s)
  | none => .error (.dangling self.object) s

variable {self} {s : σ} {r : ρ}

theorem read_alive (h : self.get s = some r) : self.read s = .ok r s := by
  rw [read, h]

theorem modify_alive (h : self.get s = some r) (f : ρ → ρ) :
    self.modify f s = .ok () (self.set (f r) s) := by
  rw [modify, h]

theorem modify_dead (h : self.get s = none) (f : ρ → ρ) :
    self.modify f s = .error (.dangling self.object) s := by
  rw [modify, h]

theorem alive_set (h : self.get s = some r) (r' : ρ) : self.get (self.set r' s) = some r' :=
  self.get_set r' s (by simp [h])

theorem read_alive_bind (h : self.get s = some r) (f : ρ → Code σ β) :
    (self.read >>= f) s = f r s :=
  bind_ok (read_alive h)

theorem modify_alive_bind (h : self.get s = some r) (g : ρ → ρ) (f : Unit → Code σ β) :
    (self.modify g >>= f) s = f () (self.set (g r) s) :=
  bind_ok (modify_alive h g)

end Place

end Qrelay.Lib
