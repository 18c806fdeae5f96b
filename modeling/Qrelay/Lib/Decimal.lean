import Mathlib.Data.Nat.Digits.Lemmas

/-! Decimal numerals as byte strings. `value` reads any digit string, leading
zeroes included; `numeral` writes the one without superfluous zeroes. The two
are inverse exactly on the strings that do not start with a spare zero. -/

namespace Qrelay.Lib.Decimal

def ascii (s : String) : List UInt8 := s.toList.map fun c => UInt8.ofNat c.toNat

def zero : UInt8 := 48

def IsDigit (b : UInt8) : Prop := 48 ≤ b.toNat ∧ b.toNat ≤ 57

instance : DecidablePred IsDigit := fun _ => inferInstanceAs (Decidable (_ ∧ _))

def digitValue (b : UInt8) : ℕ := b.toNat - 48

def digitByte (d : ℕ) : UInt8 := UInt8.ofNat (48 + d)

/-- Positional value, most significant digit first. -/
def value (s : List UInt8) : ℕ := Nat.ofDigits 10 (s.reverse.map digitValue)

def numeral (n : ℕ) : List UInt8 :=
  if n = 0 then [zero] else (Nat.digits 10 n).reverse.map digitByte

theorem digitValue_digitByte {d : ℕ} (h : d < 10) : digitValue (digitByte d) = d := by
  simp only [digitValue, digitByte, UInt8.toNat_ofNat']
  omega

theorem digitByte_digitValue {b : UInt8} (h : IsDigit b) : digitByte (digitValue b) = b := by
  have back : 48 + (b.toNat - 48) = b.toNat := by have := h.1; omega
  rw [digitByte, digitValue, back, UInt8.ofNat_toNat]

theorem isDigit_digitByte {d : ℕ} (h : d < 10) : IsDigit (digitByte d) := by
  have small : 48 + d < 2 ^ 8 := by omega
  simp only [IsDigit, digitByte, UInt8.toNat_ofNat', Nat.mod_eq_of_lt small]
  omega

theorem digitValue_lt {b : UInt8} (h : IsDigit b) : digitValue b < 10 := by
  have := h.2
  simp only [digitValue]
  omega

theorem digitValue_eq_zero {b : UInt8} (h : IsDigit b) : digitValue b = 0 ↔ b = zero := by
  constructor
  · intro hz
    rw [← digitByte_digitValue h, hz]
    rfl
  · rintro rfl
    rfl

theorem numeral_ne_nil (n : ℕ) : numeral n ≠ [] := by
  unfold numeral
  split_ifs with h
  · simp
  · simpa using Nat.digits_ne_nil_iff_ne_zero.mpr h

theorem numeral_length_le {n k : ℕ} (positive : 0 < k) (h : n < 10 ^ k) :
    (numeral n).length ≤ k := by
  unfold numeral
  split_ifs with hn
  · exact positive
  · rw [List.length_map, List.length_reverse]
    exact (Nat.digits_length_le_iff (by decide) n).mpr h

theorem numeral_isDigit (n : ℕ) : ∀ b ∈ numeral n, IsDigit b := by
  intro b hb
  unfold numeral at hb
  split_ifs at hb with h
  · rw [List.mem_singleton.mp hb]
    exact ⟨by decide, by decide⟩
  · obtain ⟨d, hd, rfl⟩ := List.mem_map.mp hb
    exact isDigit_digitByte (Nat.digits_lt_base (by decide) (List.mem_reverse.mp hd))

@[simp] theorem value_numeral (n : ℕ) : value (numeral n) = n := by
  unfold numeral
  split_ifs with h
  · subst h
    rfl
  · have back : ((Nat.digits 10 n).map digitByte).map digitValue = Nat.digits 10 n := by
      rw [List.map_map]
      conv_rhs => rw [← List.map_id (Nat.digits 10 n)]
      apply List.map_congr_left
      intro d hd
      exact digitValue_digitByte (Nat.digits_lt_base (by decide) hd)
    rw [value, ← List.map_reverse, List.reverse_reverse, back, Nat.ofDigits_digits]

theorem numeral_head_zero {n : ℕ} {s : List UInt8} (h : numeral n = zero :: s) : n = 0 := by
  by_contra hn
  have digits : (Nat.digits 10 n).reverse.map digitByte = zero :: s := by
    rwa [numeral, if_neg hn] at h
  have nonempty : Nat.digits 10 n ≠ [] := Nat.digits_ne_nil_iff_ne_zero.mpr hn
  have last := Nat.getLast_digit_ne_zero 10 hn
  have head : digitByte ((Nat.digits 10 n).getLast nonempty) = zero := by
    rw [List.map_reverse] at digits
    have := congrArg List.head? digits
    rw [List.head?_reverse, List.getLast?_map, List.getLast?_eq_getLast_of_ne_nil nonempty] at this
    simpa using this
  apply last
  have small := Nat.digits_lt_base (by decide : 1 < 10) (List.getLast_mem nonempty)
  rw [← digitValue_digitByte small, head]
  rfl

theorem value_cons_zero (s : List UInt8) : value (zero :: s) = value s := by
  simp [value, Nat.ofDigits_append, digitValue, zero]

/-- A digit string without a superfluous leading zero is the numeral of its value. -/
theorem numeral_value {s : List UInt8} (digits : ∀ b ∈ s, IsDigit b)
    (canonical : s = [zero] ∨ (s ≠ [] ∧ s.head? ≠ some zero)) : numeral (value s) = s := by
  rcases canonical with rfl | ⟨nonempty, head⟩
  · rfl
  · obtain ⟨b, t, rfl⟩ := List.exists_cons_of_ne_nil nonempty
    have first : digitValue b ≠ 0 := by
      intro hz
      exact head (by rw [(digitValue_eq_zero (digits b (by simp))).mp hz]; rfl)
    have small : ∀ d ∈ (b :: t).reverse.map digitValue, d < 10 := by
      intro d hd
      obtain ⟨c, hc, rfl⟩ := List.mem_map.mp hd
      exact digitValue_lt (digits c (List.mem_reverse.mp hc))
    have last : ∀ h : (b :: t).reverse.map digitValue ≠ [],
        ((b :: t).reverse.map digitValue).getLast h ≠ 0 := by
      intro h
      simpa using first
    have read := Nat.digits_ofDigits 10 (by decide) _ small last
    have positive : value (b :: t) ≠ 0 := by
      intro hz
      rw [value] at hz
      rw [hz] at read
      simp at read
    rw [numeral, if_neg positive, value, read, ← List.map_reverse, List.reverse_reverse,
      List.map_map]
    conv_rhs => rw [← List.map_id (b :: t)]
    apply List.map_congr_left
    intro c hc
    exact digitByte_digitValue (digits c hc)

theorem eq_replicate_of_value_zero {s : List UInt8} (digits : ∀ b ∈ s, IsDigit b)
    (h : value s = 0) : s = List.replicate s.length zero := by
  rw [List.eq_replicate_iff]
  refine ⟨rfl, fun b hb => (digitValue_eq_zero (digits b hb)).mp ?_⟩
  exact Nat.digits_zero_of_eq_zero (by decide) h _ (List.mem_map_of_mem (List.mem_reverse.mpr hb))

theorem value_replicate_zero (k : ℕ) : value (List.replicate k zero) = 0 := by
  induction k with
  | zero => rfl
  | succ k ih => rw [List.replicate_succ, value_cons_zero, ih]

end Qrelay.Lib.Decimal
