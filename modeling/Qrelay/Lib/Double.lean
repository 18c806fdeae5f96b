import Mathlib.Data.Int.Log
import Mathlib.Data.Rat.Floor
import Mathlib.Tactic.Linarith
import Mathlib.Tactic.NormNum

/-! Rounding to a double: 53 significant bits, to the nearest one, at a midpoint
to the even one. The range of the exponent is left out, so this is for results
that are neither subnormal nor too large. -/

namespace Qrelay.Lib.Double

/-- The nearest integer, at a midpoint the even one. -/
def roundEven (y : ℚ) : ℤ :=
  if y - ⌊y⌋ < 1 / 2 then ⌊y⌋
  else if 1 / 2 < y - ⌊y⌋ then ⌊y⌋ + 1
  else if Even ⌊y⌋ then ⌊y⌋
  else ⌊y⌋ + 1

/-- The distance between doubles near `x`. -/
def spacing (x : ℚ) : ℚ := 2 ^ (Int.log 2 |x| - 52)

def round (x : ℚ) : ℚ := roundEven (x / spacing x) * spacing x

theorem le_roundEven {n : ℤ} {y : ℚ} (h : (n : ℚ) ≤ y) : n ≤ roundEven y := by
  have below : n ≤ ⌊y⌋ := Int.le_floor.mpr h
  unfold roundEven
  split_ifs <;> omega

theorem roundEven_le {n : ℤ} {y : ℚ} (h : y ≤ n) : roundEven y ≤ n := by
  rcases h.lt_or_eq with less | rfl
  · have above : ⌊y⌋ < n := Int.floor_lt.mpr less
    unfold roundEven
    split_ifs <;> omega
  · simp [roundEven]

/-- An even integer is reached from its lower midpoint on. -/
theorem le_roundEven_iff {n : ℤ} (even : Even n) {y : ℚ} :
    n ≤ roundEven y ↔ (n : ℚ) - 1 / 2 ≤ y := by
  constructor
  · intro h
    by_contra less
    have short : y < n - 1 / 2 := not_le.mp less
    have above : ⌊y⌋ < n := Int.floor_lt.mpr (by linarith)
    unfold roundEven at h
    split_ifs at h with near
    · omega
    all_goals
      have last : ⌊y⌋ = n - 1 := by omega
      rw [last] at near
      push_cast at near
      exact near (by linarith)
  · intro h
    by_cases reached : (n : ℚ) ≤ y
    · exact le_roundEven reached
    have last : ⌊y⌋ = n - 1 := by
      rw [Int.floor_eq_iff]
      push_cast
      constructor <;> linarith
    have odd : ¬ Even (n - 1) := by
      rw [Int.even_sub_one, not_not]
      exact even
    unfold roundEven
    rw [last, if_neg odd]
    push_cast
    split_ifs with near
    · linarith
    all_goals omega

theorem spacing_pos (x : ℚ) : 0 < spacing x := zpow_pos two_pos _

theorem spacing_mul (x : ℚ) : 2 ^ 52 * spacing x = 2 ^ Int.log 2 |x| := by
  rw [spacing, zpow_sub₀ two_ne_zero]
  norm_num
  ring

theorem one_le_round {x : ℚ} (h : 1 ≤ x) : 1 ≤ round x := by
  have positive : 0 < x := zero_lt_one.trans_le h
  have power := spacing_mul x
  rw [abs_of_pos positive] at power
  have low : (2 : ℚ) ^ Int.log 2 x ≤ x := Int.zpow_log_le_self one_lt_two positive
  have exponent : 0 ≤ Int.log 2 x := by
    rw [Int.log_of_one_le_right 2 h]
    exact Int.natCast_nonneg _
  have quotient : ((2 ^ 52 : ℤ) : ℚ) ≤ x / spacing x := by
    rwa [Int.cast_pow, Int.cast_ofNat, le_div_iff₀ (spacing_pos x), power]
  have bits : (2 : ℚ) ^ 52 ≤ roundEven (x / spacing x) := by
    rw [← Int.cast_ofNat, ← Int.cast_pow]
    exact Int.cast_le.mpr (le_roundEven quotient)
  calc (1 : ℚ) ≤ 2 ^ Int.log 2 x := one_le_zpow₀ one_le_two exponent
    _ = 2 ^ 52 * spacing x := power.symm
    _ ≤ round x := mul_le_mul_of_nonneg_right bits (spacing_pos x).le

theorem round_lt_one {x : ℚ} (positive : 0 < x) (h : x < 1 / 2) : round x < 1 := by
  have power := spacing_mul x
  rw [abs_of_pos positive] at power
  have low : (2 : ℚ) ^ Int.log 2 x ≤ x := Int.zpow_log_le_self one_lt_two positive
  have high : x < (2 : ℚ) ^ (Int.log 2 x + 1) := Int.lt_zpow_succ_log_self one_lt_two x
  rw [zpow_add_one₀ two_ne_zero] at high
  have quotient : x / spacing x ≤ ((2 ^ 53 : ℤ) : ℚ) := by
    rw [Int.cast_pow, Int.cast_ofNat, div_le_iff₀ (spacing_pos x)]
    linarith
  have bits : (roundEven (x / spacing x) : ℚ) ≤ 2 ^ 53 := by
    rw [← Int.cast_ofNat, ← Int.cast_pow]
    exact Int.cast_le.mpr (roundEven_le quotient)
  calc round x ≤ 2 ^ 53 * spacing x := mul_le_mul_of_nonneg_right bits (spacing_pos x).le
    _ = 2 * 2 ^ Int.log 2 x := by rw [← power]; ring
    _ < 1 := by linarith

theorem spacing_below_one {x : ℚ} (half : 1 / 2 ≤ x) (less : x < 1) : spacing x = 1 / 2 ^ 53 := by
  have positive : 0 < x := by linarith
  have low : (2 : ℚ) ^ Int.log 2 x ≤ x := Int.zpow_log_le_self one_lt_two positive
  have high : x < (2 : ℚ) ^ (Int.log 2 x + 1) := Int.lt_zpow_succ_log_self one_lt_two x
  have below : (2 : ℚ) ^ Int.log 2 x < 2 ^ (0 : ℤ) := by
    rw [zpow_zero]
    linarith
  have above : (2 : ℚ) ^ (-1 : ℤ) < 2 ^ (Int.log 2 x + 1) := by
    norm_num at half ⊢
    linarith
  have upper := (zpow_lt_zpow_iff_right₀ one_lt_two).mp below
  have lower := (zpow_lt_zpow_iff_right₀ one_lt_two).mp above
  have exponent : Int.log 2 x = -1 := by omega
  rw [spacing, abs_of_pos positive, exponent]
  norm_num

/-- Where a rounded number reaches one: at the midpoint between one and the
greatest double below it. -/
theorem one_le_round_iff {x : ℚ} (positive : 0 < x) : 1 ≤ round x ↔ 1 - 1 / 2 ^ 54 ≤ x := by
  rcases le_or_gt 1 x with large | less
  · exact iff_of_true (one_le_round large) (by linarith)
  rcases lt_or_ge x (1 / 2) with small | half
  · apply iff_of_false (not_le.mpr (round_lt_one positive small))
    norm_num
    linarith
  have even : Even (2 ^ 53 : ℤ) := by decide
  calc 1 ≤ round x ↔ ((2 ^ 53 : ℤ) : ℚ) ≤ roundEven (x / spacing x) := by
        rw [round, spacing_below_one half less, mul_one_div, le_div_iff₀ (by norm_num), one_mul,
          Int.cast_pow, Int.cast_ofNat]
    _ ↔ ((2 ^ 53 : ℤ) : ℚ) - 1 / 2 ≤ x / spacing x := by
        rw [Int.cast_le, le_roundEven_iff even]
    _ ↔ 1 - 1 / 2 ^ 54 ≤ x := by
        rw [spacing_below_one half less]
        push_cast
        constructor <;> intro h <;> linarith

end Qrelay.Lib.Double
