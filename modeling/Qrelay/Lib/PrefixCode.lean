import Mathlib.Data.List.Basic

/-! Sequences of codewords. `W w x` says that the word `w` encodes `x`; a
string splits into the meanings of its leading words and a rest. When no word
is a prefix of another one, the split is determined by the number of words. -/

namespace Qrelay.Lib.PrefixCode

variable {α β : Type} (W : List α → β → Prop)

/-- The leading word of a string, if there is one, is determined by it. -/
def PrefixFree : Prop :=
  ∀ ⦃w w' x x' r r'⦄, W w x → W w' x' → w ++ r = w' ++ r' → x = x' ∧ r = r'

/-- `Splits s xs r`: the string `s` is a word for each of `xs`, then `r`. -/
inductive Splits : List α → List β → List α → Prop
  | nil (s : List α) : Splits s [] s
  | cons {w : List α} {x : β} {s : List α} {xs : List β} {r : List α} :
      W w x → Splits s xs r → Splits (w ++ s) (x :: xs) r

def Stuck (s : List α) : Prop := ¬ ∃ w x r, W w x ∧ s = w ++ r

variable {W}

@[simp] theorem splits_nil_iff {s r : List α} : Splits W s [] r ↔ s = r := by
  constructor
  · intro h
    cases h
    rfl
  · rintro rfl
    exact .nil _

theorem splits_cons_iff {s r : List α} {x : β} {xs : List β} :
    Splits W s (x :: xs) r ↔ ∃ w s', W w x ∧ s = w ++ s' ∧ Splits W s' xs r := by
  constructor
  · intro h
    cases h with
    | cons hw hs => exact ⟨_, _, hw, rfl, hs⟩
  · rintro ⟨w, s', hw, rfl, hs⟩
    exact .cons hw hs

theorem Splits.length_le {s r : List α} {xs : List β} (h : Splits W s xs r) :
    r.length ≤ s.length := by
  induction h with
  | nil s => exact Nat.le_refl _
  | cons _ _ ih =>
    rw [List.length_append]
    omega

/-- The shorter of two splits of one string is the beginning of the longer. -/
theorem Splits.resume (free : PrefixFree W) {s r t : List α} {xs ys : List β}
    (h : Splits W s xs r) (h' : Splits W s ys t) (le : xs.length ≤ ys.length) :
    ∃ zs, ys = xs ++ zs ∧ Splits W r zs t := by
  induction h generalizing ys with
  | nil s => exact ⟨ys, rfl, h'⟩
  | @cons w x s xs r hw hs ih =>
    cases ys with
    | nil => simp at le
    | cons y ys =>
      obtain ⟨w', s', hw', eq, hs'⟩ := splits_cons_iff.mp h'
      obtain ⟨rfl, rfl⟩ := free hw hw' eq
      obtain ⟨zs, rfl, hz⟩ := ih hs' (by simpa using le)
      exact ⟨zs, rfl, hz⟩

theorem Splits.nil_of_nonempty (nonempty : ∀ w x, W w x → w ≠ []) {xs : List β} {r : List α}
    (h : Splits W [] xs r) : xs = [] := by
  cases xs with
  | nil => rfl
  | cons x xs =>
    obtain ⟨w, s, hw, eq, -⟩ := splits_cons_iff.mp h
    exact absurd (List.append_eq_nil_iff.mp eq.symm).1 (nonempty w x hw)

theorem Splits.unique_whole (free : PrefixFree W) (nonempty : ∀ w x, W w x → w ≠ [])
    {s : List α} {xs ys : List β} (h : Splits W s xs []) (h' : Splits W s ys []) : xs = ys := by
  rcases Nat.le_total xs.length ys.length with le | le
  · obtain ⟨zs, rfl, more⟩ := h.resume free h' le
    rw [more.nil_of_nonempty nonempty, List.append_nil]
  · obtain ⟨zs, rfl, more⟩ := h'.resume free h le
    rw [more.nil_of_nonempty nonempty, List.append_nil]

end Qrelay.Lib.PrefixCode
