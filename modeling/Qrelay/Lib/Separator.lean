import Mathlib.Data.List.Basic

/-! Cutting a list at a separator, at its first occurrence or at each one. The
separator is found again behind a list that lacks its first element. -/

namespace Qrelay.Lib.Separator

variable {α : Type} [DecidableEq α] (sep : List α)

/-- What stands before the first occurrence, and what stands after it. -/
def cut : List α → Option (List α × List α)
  | [] => none
  | a :: s =>
    if sep.isPrefixOf (a :: s) then some ([], (a :: s).drop sep.length)
    else (cut s).map fun parts => (a :: parts.1, parts.2)

/-- The pieces between the occurrences; `skip` elements of one are still to come. -/
def pieces : (skip : ℕ) → List α → List (List α)
  | _, [] => [[]]
  | skip + 1, _ :: s => pieces skip s
  | 0, a :: s =>
    if sep.isPrefixOf (a :: s) then [] :: pieces (sep.length - 1) s
    else (pieces 0 s).modifyHead (a :: ·)

variable {sep} {x : α} {rest : List α}

theorem isPrefixOf_append (s : List α) : (x :: rest).isPrefixOf (x :: (rest ++ s)) = true := by
  rw [List.isPrefixOf_iff_prefix]
  exact List.prefix_append (x :: rest) s

theorem isPrefixOf_other {a : α} (h : x ≠ a) (s : List α) :
    (x :: rest).isPrefixOf (a :: s) = false := by
  simp [List.isPrefixOf, h]

theorem cut_append {l : List α} (h : x ∉ l) (s : List α) :
    cut (x :: rest) (l ++ (x :: (rest ++ s))) = some (l, s) := by
  induction l with
  | nil =>
    rw [List.nil_append, cut, if_pos (isPrefixOf_append s)]
    simp
  | cons a l ih =>
    obtain ⟨other, h⟩ := not_or.mp (mt List.mem_cons.mpr h)
    rw [List.cons_append, cut, isPrefixOf_other other, ih h]
    rfl

theorem cut_eq_some {s : List α} {parts : List α × List α} (h : cut [x] s = some parts) :
    s = parts.1 ++ x :: parts.2 ∧ x ∉ parts.1 := by
  induction s generalizing parts with
  | nil => cases h
  | cons a s ih =>
    by_cases found : x = a
    · subst found
      have starts : [x].isPrefixOf (x :: s) = true := isPrefixOf_append s
      rw [cut, if_pos starts] at h
      cases h
      exact ⟨rfl, List.not_mem_nil⟩
    · rw [cut, isPrefixOf_other found, if_neg Bool.false_ne_true, Option.map_eq_some_iff] at h
      obtain ⟨behind, cut_behind, rfl⟩ := h
      obtain ⟨eq, clean⟩ := ih cut_behind
      refine ⟨?_, ?_⟩
      · rw [eq]
        rfl
      · intro mem
        rcases List.mem_cons.mp mem with same | later
        · exact found same
        · exact clean later

theorem pieces_skip (l s : List α) : pieces sep l.length (l ++ s) = pieces sep 0 s := by
  induction l with
  | nil => rfl
  | cons a l ih => rw [List.length_cons, List.cons_append, pieces, ih]

theorem pieces_append {l : List α} (h : x ∉ l) (s : List α) :
    pieces (x :: rest) 0 (l ++ (x :: (rest ++ s))) = l :: pieces (x :: rest) 0 s := by
  induction l with
  | nil =>
    rw [List.nil_append, pieces, if_pos (isPrefixOf_append s)]
    exact congrArg _ (pieces_skip rest s)
  | cons a l ih =>
    obtain ⟨other, h⟩ := not_or.mp (mt List.mem_cons.mpr h)
    rw [List.cons_append, pieces, isPrefixOf_other other, ih h]
    rfl

theorem pieces_ended {lines : List (List α)} (h : ∀ l ∈ lines, x ∉ l) :
    pieces (x :: rest) 0 (lines.flatMap (· ++ x :: rest)) = lines ++ [[]] := by
  induction lines with
  | nil => rfl
  | cons l lines ih =>
    have first := h l List.mem_cons_self
    have others := ih fun m hm => h m (List.mem_cons_of_mem l hm)
    rw [List.flatMap_cons, List.append_assoc, List.cons_append, pieces_append first, others]
    rfl

end Qrelay.Lib.Separator
