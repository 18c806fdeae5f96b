import Qrelay.NetstringParser

/-! Which byte strings `ParseNetstring` takes. They are the canonical
netstrings and one family besides: the check for leading zeroes is made for
positive lengths only, so `00:,` and its like pass for the empty value. -/

namespace Qrelay
open Lib Lib.Decimal Lib.PrefixCode

variable (lib : Libcommon)

/-- `ParseNetstring` on a whole buffer, with the bytes of the value and those
of the new input. -/
def parseBuffer (input : Buffer) : Except Fault (Option Bytes × Bytes) := do
  let (value, next) ← parseNetstring lib input.memory.bytes input.view
  return (value.map (·.contents input.memory.bytes), next.contents input.memory.bytes)

/-- Two or more zeroes as the length of the empty value. -/
def Overlong (s : Bytes) : Prop :=
  ∃ k rest, s = List.replicate (k + 2) zero ++ colon :: comma :: rest

/-- The parser is exact at this input: it runs without a fault, takes the
input exactly if it starts with a canonical netstring, and leaves the input
alone otherwise. -/
structure CanonicalAt (input : Buffer) : Prop where
  total : ∃ result, parseNetstring lib input.memory.bytes input.view = .ok result
  accepts : ∀ v rest, parseBuffer lib input = .ok (some v, rest) ↔ input.bytes = encode v ++ rest
  rejects : (¬ ∃ v rest, input.bytes = encode v ++ rest) →
    parseNetstring lib input.memory.bytes input.view = .ok (none, input.view)

variable {lib} {input : Buffer}

@[simp] theorem Buffer.contents_view (b : Buffer) : b.view.contents b.memory.bytes = b.bytes :=
  View.contents_whole ()

theorem Buffer.within_view (b : Buffer) : b.view.Within b.memory.bytes := View.within_whole ()

theorem parseBuffer_word {w x r : Bytes} (hw : Word w x) (eq : input.bytes = w ++ r) :
    parseBuffer lib input = .ok (some x, r) := by
  have shape : input.view.contents input.memory.bytes = w ++ r := by simpa using eq
  rw [parseBuffer, parseNetstring_word input.within_view hw shape]
  simp only [bind, Except.bind, pure, Except.pure, Option.map_some,
    contents_value input.within_view hw shape, contents_next input.within_view shape]

theorem parseBuffer_stuck (stuck : Stuck Word input.bytes) :
    parseBuffer lib input = .ok (none, input.bytes) := by
  rw [parseBuffer, parseNetstring_stuck input.within_view (by simpa using stuck)]
  simp [bind, Except.bind, pure, Except.pure]

/-- A word is the canonical netstring of its value, or one of the family. -/
theorem word_canonical {w x : Bytes} (hw : Word w x) :
    w = encode x ∨ x = [] ∧ ∃ k, w = List.replicate (k + 2) zero ++ [colon, comma] := by
  obtain ⟨digits, ⟨nonempty, areDigits, reads, head⟩, rfl⟩ := hw
  by_cases positive : 0 < x.length
  · left
    rw [encode, ← reads, numeral_value areDigits (.inr ⟨nonempty, head positive⟩)]
  · have empty : x = [] := List.length_eq_zero_iff.mp (by omega)
    subst empty
    have zeroes := eq_replicate_of_value_zero areDigits reads
    have some : digits.length ≠ 0 := fun h => nonempty (List.length_eq_zero_iff.mp h)
    by_cases single : digits.length = 1
    · left
      rw [single] at zeroes
      rw [zeroes]
      rfl
    · right
      refine ⟨rfl, digits.length - 2, ?_⟩
      rw [show digits.length - 2 + 2 = digits.length by omega, ← zeroes]
      rfl

theorem word_overlong (k : ℕ) : Word (List.replicate (k + 2) zero ++ [colon, comma]) [] := by
  refine ⟨List.replicate (k + 2) zero, ⟨by simp, ?_, value_replicate_zero _, ?_⟩, rfl⟩
  · intro b hb
    rw [List.eq_of_mem_replicate hb]
    exact ⟨by decide, by decide⟩
  · intro h
    simp at h

theorem parseNetstring_total (lib : Libcommon) (input : Buffer) :
    ∃ result, parseNetstring lib input.memory.bytes input.view = .ok result := by
  by_cases h : Stuck Word input.bytes
  · exact ⟨_, parseNetstring_stuck input.within_view (by simpa using h)⟩
  · obtain ⟨w, x, r, hw, eq⟩ := not_not.mp h
    exact ⟨_, parseNetstring_word input.within_view hw (by simpa using eq)⟩

theorem canonicalAt_of_not_overlong (h : ¬ Overlong input.bytes) : CanonicalAt lib input where
  total := parseNetstring_total lib input
  accepts v rest := by
    constructor
    · intro run
      by_cases stuck : Stuck Word input.bytes
      · rw [parseBuffer_stuck stuck] at run
        cases run
      · obtain ⟨w, x, r, hw, eq⟩ := not_not.mp stuck
        rw [parseBuffer_word hw eq] at run
        cases run
        rcases word_canonical hw with rfl | ⟨rfl, k, rfl⟩
        · exact eq
        · exact absurd ⟨k, _, by simpa using eq⟩ h
    · exact parseBuffer_word (word_encode v)
  rejects none := by
    apply parseNetstring_stuck input.within_view
    rw [Buffer.contents_view]
    rintro ⟨w, x, r, hw, eq⟩
    rcases word_canonical hw with rfl | ⟨rfl, k, rfl⟩
    · exact none ⟨x, r, eq⟩
    · exact h ⟨k, r, by simpa using eq⟩

theorem not_canonicalAt_of_overlong (h : Overlong input.bytes) : ¬ CanonicalAt lib input := by
  obtain ⟨k, rest, eq⟩ := h
  intro canonical
  have taken := @parseBuffer_word lib _ _ _ _ (word_overlong k) (by simpa using eq)
  have reencoded := (canonical.accepts [] rest).mp taken
  rw [eq] at reencoded
  -- the canonical netstring has its colon where the overlong one has a zero
  have second := congrArg (fun s => s[1]?) reencoded
  simp [List.replicate_succ, encode, numeral] at second
  exact absurd second (by decide)

/-- The parser is exact on an input unless it starts with an overlong empty
netstring. Among the inputs where it is exact the value determines the bytes
consumed, and on no input at all is an index out of range or a size wrapped. -/
theorem parseNetstring_exact_iff (lib : Libcommon) :
    (∀ input : Buffer, CanonicalAt lib input ↔ ¬ Overlong input.bytes) ∧
    (∀ (a b : Buffer) (v r s : Bytes), ¬ Overlong a.bytes → ¬ Overlong b.bytes →
      parseBuffer lib a = .ok (some v, r) → parseBuffer lib b = .ok (some v, s) →
      ∃ consumed, a.bytes = consumed ++ r ∧ b.bytes = consumed ++ s) ∧
    (∀ input : Buffer, ∃ result, parseNetstring lib input.memory.bytes input.view = .ok result) := by
  refine ⟨fun input => ⟨fun canonical overlong => ?_, canonicalAt_of_not_overlong⟩, ?_,
    parseNetstring_total lib⟩
  · exact not_canonicalAt_of_overlong overlong canonical
  · intro a b v r s ha hb runA runB
    exact ⟨encode v, ((canonicalAt_of_not_overlong ha).accepts v r).mp runA,
      ((canonicalAt_of_not_overlong hb).accepts v s).mp runB⟩

def overlongInput : Buffer := ⟨ascii "00:,", by decide⟩

set_option maxRecDepth 4000 in
theorem parseNetstring_overlong :
    parseBuffer Libcommon.reference overlongInput = .ok (some [], []) ∧
    ¬ CanonicalAt Libcommon.reference overlongInput :=
  ⟨by rfl, not_canonicalAt_of_overlong ⟨0, [], by decide⟩⟩

end Qrelay
