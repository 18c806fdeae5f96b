import Qrelay.Lib.Code
import Qrelay.Lib.PrefixCode
import Qrelay.Libcommon

/-! `ParseNetstring` of djb/NetstringParser.cxx, and the language it takes.
String views are positions in storage, an index or position out of range is a
fault, and so is a `std::size_t` sum that does not fit its type. -/

namespace Qrelay
open Lib Lib.Decimal Lib.PrefixCode

def colon : UInt8 := 58
def comma : UInt8 := 44

namespace StringView

variable {κ : Type} (mem : κ → Bytes)

def index (v : View κ) (i : ℕ) : Except Fault UInt8 :=
  match (v.contents mem)[i]? with
  | some b => .ok b
  | none => .error .outOfRange

def front (v : View κ) : Except Fault UInt8 := index mem v 0

/-- `substr(pos, count)`, which throws when `pos` is behind the end. -/
def substr (v : View κ) (pos count : ℕ) : Except Fault (View κ) :=
  if pos ≤ v.size then .ok (v.part pos (min count (v.size - pos))) else .error .outOfRange

def sizeAdd (a b : ℕ) : Except Fault ℕ :=
  if a + b < sizeLimit then .ok (a + b) else .error .wrapped

end StringView

open StringView

section Parser

variable (lib : Libcommon) {κ : Type} (mem : κ → Bytes)

/-- The second condition is evaluated only if the first one holds. -/
def hasLeadingZero (valueSizeString : View κ) (valueSize : ℕ) : Except Fault Bool :=
  if 0 < valueSize then do
    let first ← front mem valueSizeString
    pure (first = zero)
  else pure false

def lacksComma (rest : View κ) (valueSize : ℕ) : Except Fault Bool :=
  if rest.size ≤ valueSize then pure true
  else do
    let last ← index mem rest valueSize
    pure (last ≠ comma)

/-- The value, null unless there is one, and the new `input_r`. -/
def parseNetstring (input : View κ) : Except Fault (Option (View κ) × View κ) :=
  match lib.split mem input colon with
  | (_, none) => pure (none, input)
  | (valueSizeString, some rest) =>
    match lib.parseIntegerTo (valueSizeString.contents mem) with
    | none => pure (none, input)
    | some valueSize => do
      if ← hasLeadingZero mem valueSizeString valueSize then
        -- reject leading zeroes
        return (none, input)
      if ← lacksComma mem rest valueSize then
        return (none, input)
      let next ← sizeAdd valueSize 1
      let advanced ← substr rest next rest.size
      let value ← substr rest 0 valueSize
      return (some value, advanced)

end Parser

/-- A length numeral as the parser takes it: any digits that read as the length,
but without a leading zero unless the length is zero. -/
def LengthNumeral (digits : Bytes) (n : ℕ) : Prop :=
  digits ≠ [] ∧ (∀ b ∈ digits, IsDigit b) ∧ value digits = n ∧
    (0 < n → digits.head? ≠ some zero)

/-- `w` is a netstring of the value `x` to the parser. -/
def Word (w x : Bytes) : Prop :=
  ∃ digits, LengthNumeral digits x.length ∧ w = digits ++ colon :: (x ++ [comma])

def encode (x : Bytes) : Bytes := numeral x.length ++ colon :: (x ++ [comma])

theorem colon_not_mem {digits : Bytes} (h : ∀ b ∈ digits, IsDigit b) : colon ∉ digits :=
  fun hc => absurd (h colon hc) (by decide)

theorem lengthNumeral_numeral (n : ℕ) : LengthNumeral (numeral n) n := by
  refine ⟨numeral_ne_nil n, numeral_isDigit n, value_numeral n, fun positive head => ?_⟩
  obtain ⟨b, t, eq⟩ := List.exists_cons_of_ne_nil (numeral_ne_nil n)
  rw [eq, List.head?_cons, Option.some_inj] at head
  subst head
  exact positive.ne' (numeral_head_zero eq)

theorem word_encode (x : Bytes) : Word (encode x) x :=
  ⟨numeral x.length, lengthNumeral_numeral _, rfl⟩

theorem before_first {c : UInt8} {p q r s : Bytes} (hp : c ∉ p) (hq : c ∉ q)
    (eq : p ++ c :: r = q ++ c :: s) : p = q ∧ r = s := by
  have left := Libcommon.takeWhile_before r hp
  rw [eq, Libcommon.takeWhile_before s hq] at left
  subst left
  simpa using eq

theorem word_prefixFree : PrefixFree Word := by
  rintro w w' x x' r r' ⟨d, hd, rfl⟩ ⟨d', hd', rfl⟩ eq
  simp only [List.append_assoc, List.cons_append, List.nil_append] at eq
  obtain ⟨rfl, rest⟩ := before_first (colon_not_mem hd.2.1) (colon_not_mem hd'.2.1) eq
  have same : x.length = x'.length := hd.2.2.1.symm.trans hd'.2.2.1
  obtain ⟨rfl, tail⟩ := List.append_inj rest same
  exact ⟨rfl, List.cons_inj_right _ |>.mp tail⟩

section Spec

variable {lib : Libcommon} {κ : Type} {mem : Memory κ} {input : View κ}

theorem Lib.View.Within.size_lt {v : View κ} (h : v.Within mem.bytes) : v.size < sizeLimit := by
  have bound := mem.size_lt v.storage
  have within := h
  simp only [View.Within] at within
  omega

theorem hasLeadingZero_eq {v : View κ} {digits : Bytes} {n : ℕ}
    (eq : v.contents mem.bytes = digits) (nonempty : digits ≠ []) :
    hasLeadingZero mem.bytes v n = .ok (0 < n ∧ digits.head? = some zero) := by
  obtain ⟨b, t, rfl⟩ := List.exists_cons_of_ne_nil nonempty
  by_cases positive : 0 < n
  · simp only [hasLeadingZero, front, index, eq, positive]
    simp
  · simp only [hasLeadingZero, positive]
    simp
    rfl

theorem substr_eq {v : View κ} {pos count : ℕ} (le : pos ≤ v.size) :
    substr v pos count = .ok (v.part pos (min count (v.size - pos))) := by
  rw [substr, if_pos le]

theorem lacksComma_eq {v : View κ} (h : v.Within mem.bytes) (n : ℕ) :
    lacksComma mem.bytes v n = .ok ((v.contents mem.bytes)[n]? ≠ some comma) := by
  have length := h.length_contents
  unfold lacksComma
  split_ifs with short
  · rw [List.getElem?_eq_none (by omega)]
    rfl
  · rw [index, List.getElem?_eq_getElem (by omega)]
    simp

/-- A leading word is taken: its value is returned, and the input starts
behind it. -/
theorem parseNetstring_word (h : input.Within mem.bytes) {w x r : Bytes} (hw : Word w x)
    (eq : input.contents mem.bytes = w ++ r) :
    parseNetstring lib mem.bytes input = .ok
      (some (input.part (w.length - (x.length + 1)) x.length), input.dropFront w.length) := by
  obtain ⟨digits, ⟨nonempty, areDigits, reads, head⟩, rfl⟩ := hw
  have shape : input.contents mem.bytes = digits ++ colon :: (x ++ comma :: r) := by
    simpa using eq
  have length := h.length_contents
  rw [shape] at length
  simp only [List.length_append, List.length_cons] at length
  have small := h.size_lt
  have split := lib.split_some mem.bytes input colon _ _ h shape (colon_not_mem areDigits)
  have first : (input.part 0 digits.length).contents mem.bytes = digits := by
    rw [View.contents_part (by omega), shape]
    simp
  have second : (input.dropFront (digits.length + 1)).contents mem.bytes = x ++ comma :: r := by
    rw [View.contents_dropFront (by omega), shape, List.drop_append]
    simp
  have within : (input.dropFront (digits.length + 1)).Within mem.bytes := h.part (by omega)
  have number : lib.parseIntegerTo digits = some x.length :=
    (lib.parseIntegerTo_iff _ _).mpr ⟨nonempty, areDigits, reads, by omega⟩
  have noZero : ¬ (0 < x.length ∧ digits.head? = some zero) := fun hz => head hz.1 hz.2
  have found : (x ++ comma :: r)[x.length]? = some comma := by simp
  have size : (input.dropFront (digits.length + 1)).size = x.length + 1 + r.length := by
    simp only [View.dropFront, View.part]
    omega
  have sum : sizeAdd x.length 1 = .ok (x.length + 1) := if_pos (by omega)
  have advanced : substr (input.dropFront (digits.length + 1)) (x.length + 1)
      (input.dropFront (digits.length + 1)).size =
      .ok (input.dropFront (digits ++ colon :: (x ++ [comma])).length) := by
    rw [substr_eq (by omega)]
    simp [View.dropFront, View.part]
    omega
  have taken : substr (input.dropFront (digits.length + 1)) 0 x.length =
      .ok (input.part ((digits ++ colon :: (x ++ [comma])).length - (x.length + 1)) x.length) := by
    rw [substr_eq (by omega)]
    simp [View.dropFront, View.part]
    omega
  simp only [parseNetstring, split, first, number, hasLeadingZero_eq first nonempty,
    lacksComma_eq within, second, found, sum, taken, noZero]
  simp only [bind, Except.bind, pure, Except.pure, advanced]
  rfl

theorem contents_value (h : input.Within mem.bytes) {w x r : Bytes} (hw : Word w x)
    (eq : input.contents mem.bytes = w ++ r) :
    (input.part (w.length - (x.length + 1)) x.length).contents mem.bytes = x := by
  obtain ⟨digits, -, rfl⟩ := hw
  have length := h.length_contents
  rw [eq] at length
  simp only [List.length_append, List.length_cons, List.length_nil] at length
  have position : (digits ++ colon :: (x ++ [comma])).length - (x.length + 1) =
      (digits ++ [colon]).length := by
    simp
    omega
  rw [position, View.contents_part (by simp; omega), eq]
  have shape : digits ++ colon :: (x ++ [comma]) ++ r =
      (digits ++ [colon]) ++ (x ++ comma :: r) := by simp
  rw [shape, List.drop_left, List.take_left]

theorem contents_next (h : input.Within mem.bytes) {w r : Bytes}
    (eq : input.contents mem.bytes = w ++ r) :
    (input.dropFront w.length).contents mem.bytes = r := by
  have length := h.length_contents
  rw [eq, List.length_append] at length
  rw [View.contents_dropFront (by omega), eq, List.drop_left]

theorem parseNetstring_stuck (h : input.Within mem.bytes)
    (stuck : Stuck Word (input.contents mem.bytes)) :
    parseNetstring lib mem.bytes input = .ok (none, input) := by
  by_cases hc : colon ∈ input.contents mem.bytes
  · obtain ⟨digits, rest, shape, fresh⟩ := List.eq_append_cons_of_mem hc
    have split := lib.split_some mem.bytes input colon _ _ h shape fresh
    have length := h.length_contents
    rw [shape] at length
    simp only [List.length_append, List.length_cons] at length
    have first : (input.part 0 digits.length).contents mem.bytes = digits := by
      rw [View.contents_part (by omega), shape]
      simp
    have second : (input.dropFront (digits.length + 1)).contents mem.bytes = rest := by
      rw [View.contents_dropFront (by omega), shape, List.drop_append]
      simp
    have within : (input.dropFront (digits.length + 1)).Within mem.bytes := h.part (by omega)
    simp only [parseNetstring, split, first]
    cases number : lib.parseIntegerTo digits with
    | none => rfl
    | some n =>
      obtain ⟨nonempty, areDigits, reads, -⟩ := (lib.parseIntegerTo_iff _ _).mp number
      simp only [hasLeadingZero_eq first nonempty, lacksComma_eq within, second]
      by_cases hz : 0 < n ∧ digits.head? = some zero
      · simp [hz, bind, Except.bind, pure, Except.pure]
      by_cases found : rest[n]? = some comma
      · exfalso
        apply stuck
        -- the bytes before the comma make a word with the digits in front of them
        obtain ⟨bound, at_n⟩ := List.getElem?_eq_some_iff.mp found
        have cut : rest = rest.take n ++ comma :: rest.drop (n + 1) := by
          rw [← at_n, List.cons_getElem_drop_succ, List.take_append_drop]
        have taken : (rest.take n).length = n := by
          rw [List.length_take]
          omega
        refine ⟨digits ++ colon :: (rest.take n ++ [comma]), rest.take n, rest.drop (n + 1),
          ⟨digits, ⟨nonempty, areDigits, ?_, ?_⟩, rfl⟩, ?_⟩
        · rw [taken, reads]
        · rw [taken]
          exact fun positive head => hz ⟨positive, head⟩
        · rw [shape]
          simp [← cut]
      · simp [decide_eq_false hz, found, bind, Except.bind, pure, Except.pure]
  · simp only [parseNetstring, lib.split_none mem.bytes input colon h hc]
    rfl

end Spec

end Qrelay
