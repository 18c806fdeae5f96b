import Mathlib.Data.List.TakeWhile

/-! A message of lines, cut into what stands before its first empty line and
what stands behind it. Lines end with a line feed, or with a carriage return
and a line feed. Lines in front of a message go to the first part; removing
blanks in front of it does so too unless the first part is blank. -/

namespace Qrelay.Lib.HeaderSection

variable {α : Type} [DecidableEq α] (lf cr : α)

/-- `start` says whether a line begins here. -/
def splitFrom : (start : Bool) → List α → List α × List α
  | _, [] => ([], [])
  | start, a :: s =>
    if start = true ∧ a = lf then ([], s)
    else if start = true ∧ a = cr ∧ s.head? = some lf then ([], s.tail)
    else
      let parts := splitFrom (decide (a = lf)) s
      (a :: parts.1, parts.2)

def split (s : List α) : List α × List α := splitFrom lf cr true s

def Line (l : List α) : Prop := ∃ a t, l = a :: t ++ [lf] ∧ a ≠ lf ∧ a ≠ cr ∧ lf ∉ t

variable {lf cr}

theorem splitFrom_inside {t : List α} (h : lf ∉ t) (s : List α) :
    splitFrom lf cr false (t ++ lf :: s) =
      (t ++ lf :: (split lf cr s).1, (split lf cr s).2) := by
  induction t with
  | nil => simp [splitFrom, split]
  | cons a t ih =>
    obtain ⟨other, h⟩ := not_or.mp (mt List.mem_cons.mpr h)
    simp [splitFrom, Ne.symm other, ih h]

theorem splitFrom_text {a : α} (notLf : a ≠ lf) (notCr : a ≠ cr) (start : Bool) (s : List α) :
    splitFrom lf cr start (a :: s) =
      (a :: (splitFrom lf cr false s).1, (splitFrom lf cr false s).2) := by
  simp [splitFrom, notLf, notCr]

theorem split_line {l : List α} (h : Line lf cr l) (s : List α) :
    split lf cr (l ++ s) = (l ++ (split lf cr s).1, (split lf cr s).2) := by
  obtain ⟨a, t, rfl, notLf, notCr, inside⟩ := h
  have shape : a :: t ++ [lf] ++ s = a :: (t ++ lf :: s) := by simp
  rw [shape, split, splitFrom_text notLf notCr, splitFrom_inside inside]
  simp

theorem split_lines {lines : List (List α)} (h : ∀ l ∈ lines, Line lf cr l) (s : List α) :
    split lf cr (lines.flatten ++ s) =
      (lines.flatten ++ (split lf cr s).1, (split lf cr s).2) := by
  induction lines with
  | nil => rfl
  | cons l lines ih =>
    rw [List.flatten_cons, List.append_assoc, split_line (h l List.mem_cons_self),
      ih fun m hm => h m (List.mem_cons_of_mem l hm), List.append_assoc]

section Blank

variable {blank : α → Bool} (blankLf : blank lf) (blankCr : blank cr)
include blankLf blankCr

/-- The line in which the first part stops being blank keeps its place. -/
theorem splitFrom_dropWhile {s : List α} (start : Bool)
    (text : ∃ a ∈ (splitFrom lf cr start s).1, blank a = false) :
    split lf cr (s.dropWhile blank) =
      ((splitFrom lf cr start s).1.dropWhile blank, (splitFrom lf cr start s).2) := by
  induction s generalizing start with
  | nil => simp [splitFrom] at text
  | cons a s ih =>
    by_cases blankA : blank a = true
    · unfold splitFrom at text ⊢
      split_ifs at text ⊢ with empty crlf
      · simp at text
      · simp at text
      · have later : ∃ b ∈ (splitFrom lf cr (decide (a = lf)) s).1, blank b = false := by
          obtain ⟨b, mem, notBlank⟩ := text
          rcases List.mem_cons.mp mem with rfl | mem
          · rw [blankA] at notBlank
            cases notBlank
          · exact ⟨b, mem, notBlank⟩
        simp only [List.dropWhile_cons_of_pos blankA]
        exact ih _ later
    · have notLf : a ≠ lf := fun eq => blankA (eq ▸ blankLf)
      have notCr : a ≠ cr := fun eq => blankA (eq ▸ blankCr)
      rw [List.dropWhile_cons_of_neg blankA, split, splitFrom_text notLf notCr,
        splitFrom_text notLf notCr, List.dropWhile_cons_of_neg blankA]

theorem dropWhile_blank {s : List α} (start : Bool)
    (all : ∀ a ∈ (splitFrom lf cr start s).1, blank a = true) :
    s.dropWhile blank = (splitFrom lf cr start s).2.dropWhile blank := by
  induction s generalizing start with
  | nil => rfl
  | cons a s ih =>
    unfold splitFrom at all ⊢
    split_ifs at all ⊢ with empty crlf
    · rw [empty.2, List.dropWhile_cons_of_pos blankLf]
    · obtain ⟨-, rfl, next⟩ := crlf
      cases s with
      | nil => cases next
      | cons b s =>
        rw [List.head?_cons, Option.some.injEq] at next
        rw [next, List.dropWhile_cons_of_pos blankCr, List.dropWhile_cons_of_pos blankLf]
        rfl
    · rw [List.dropWhile_cons_of_pos (all a List.mem_cons_self)]
      exact ih _ fun b hb => all b (List.mem_cons_of_mem a hb)

/-- Removing the blanks in front keeps the second part, exactly if the first
part is more than blanks or there is no second part. -/
theorem split_dropWhile_iff (s : List α) :
    split lf cr (s.dropWhile blank) =
        ((split lf cr s).1.dropWhile blank, (split lf cr s).2) ↔
      (∃ a ∈ (split lf cr s).1, blank a = false) ∨ (split lf cr s).2 = [] := by
  by_cases text : ∃ a ∈ (split lf cr s).1, blank a = false
  · exact iff_of_true (splitFrom_dropWhile blankLf blankCr true text) (.inl text)
  have all : ∀ a ∈ (split lf cr s).1, blank a = true := by
    intro a mem
    by_contra notBlank
    exact text ⟨a, mem, by simpa using notBlank⟩
  have none : (split lf cr s).1.dropWhile blank = [] := List.dropWhile_eq_nil_iff.mpr all
  have rest := dropWhile_blank blankLf blankCr true all
  rw [← split] at rest
  constructor
  · intro kept
    right
    rw [rest, none] at kept
    cases shape : (split lf cr s).2.dropWhile blank with
    | nil =>
      rw [shape] at kept
      exact (congrArg Prod.snd kept).symm
    | cons a t =>
      have notBlank : blank a ≠ true := by
        have head := List.head?_dropWhile_not blank (split lf cr s).2
        rw [shape] at head
        simpa using head
      have notLf : a ≠ lf := fun eq => notBlank (eq ▸ blankLf)
      have notCr : a ≠ cr := fun eq => notBlank (eq ▸ blankCr)
      rw [shape, split, splitFrom_text notLf notCr] at kept
      cases congrArg Prod.fst kept
  · rintro (found | empty)
    · exact absurd found text
    · rw [rest, none, empty]
      rfl

end Blank

end Qrelay.Lib.HeaderSection
