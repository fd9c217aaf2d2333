import Mathlib.Data.Int.Log
import Mathlib.Data.Rat.Floor
import Mathlib.Tactic.FieldSimp
import Mathlib.Tactic.Linarith
import Mathlib.Tactic.Ring

/-! Binary floating point with 53 significant bits, as the rational numbers it can
represent. The exponent has the lower bound of the format, so that tiny numbers lose bits; it
has no upper bound here, and there are no infinities. -/
namespace Sockcan.Doubles

/-- The integer nearest to `x`, and the even one of two. -/
def roundHalfEven (x : ℚ) : ℤ :=
  let below := ⌊x⌋
  if x - below < 1 / 2 ∨ (x - below = 1 / 2 ∧ below % 2 = 0) then below else below + 1

/-- A double has a mantissa of at most 53 bits. -/
def Representable (x : ℚ) : Prop :=
  ∃ (mantissa exponent : ℤ), |mantissa| < 2 ^ 53 ∧ -1074 ≤ exponent ∧ x = mantissa * 2 ^ exponent

/-- The exponent that leaves 53 bits before the point. -/
def exponent (x : ℚ) : ℤ := max (Int.log 2 |x| - 52) (-1074)

/-- The value of the nearest double. -/
def nearest (x : ℚ) : ℚ := roundHalfEven (x / 2 ^ exponent x) * 2 ^ exponent x

/-- The first power of two that is too large for the format. -/
def limit : ℚ := 2 ^ 1024

variable {x : ℚ} {n : ℤ}

theorem roundHalfEven_le (bound : x ≤ n) : roundHalfEven x ≤ n := by
  have floor_le : ⌊x⌋ ≤ n := Int.floor_le_iff.mpr (by linarith)
  rw [roundHalfEven]
  split
  · exact floor_le
  · rename_i above
    have different : ⌊x⌋ ≠ n := by
      intro same
      have whole := Int.floor_le x
      apply above
      left
      rw [same] at whole ⊢
      linarith
    omega

theorem le_roundHalfEven (bound : (n : ℚ) ≤ x) : n ≤ roundHalfEven x := by
  have le_floor : n ≤ ⌊x⌋ := Int.le_floor.mpr bound
  rw [roundHalfEven]
  split
  · exact le_floor
  · omega

@[simp] theorem roundHalfEven_intCast (n : ℤ) : roundHalfEven n = n :=
  Int.le_antisymm (roundHalfEven_le (Rat.le_refl)) (le_roundHalfEven (Rat.le_refl))

theorem scale_pos (e : ℤ) : (0 : ℚ) < 2 ^ e := zpow_pos two_pos e

/-- Moved to its exponent, a number has at most 53 bits before the point. -/
theorem abs_scaled_lt (x : ℚ) : |x / 2 ^ exponent x| < 2 ^ 53 := by
  have above : |x| < 2 ^ (Int.log 2 |x| + 1) := by
    simpa using Int.lt_zpow_succ_log_self (b := 2) (by decide) |x|
  have reach : Int.log 2 |x| + 1 ≤ 53 + exponent x := by
    rw [exponent]
    omega
  rw [abs_div, abs_of_pos (scale_pos _), div_lt_iff₀ (scale_pos _)]
  calc |x| < 2 ^ (Int.log 2 |x| + 1) := above
    _ ≤ 2 ^ (53 + exponent x) := zpow_le_zpow_right₀ (by norm_num) reach
    _ = 2 ^ 53 * 2 ^ exponent x := by
      rw [zpow_add₀ two_ne_zero]
      norm_num

theorem representable_nearest (x : ℚ) : Representable (nearest x) := by
  have scaled := abs_lt.mp (abs_scaled_lt x)
  have upper : roundHalfEven (x / 2 ^ exponent x) ≤ 2 ^ 53 := roundHalfEven_le (by
    push_cast
    exact scaled.2.le)
  have lower : -2 ^ 53 ≤ roundHalfEven (x / 2 ^ exponent x) := le_roundHalfEven (by
    push_cast
    exact scaled.1.le)
  have exponent_ge : -1074 ≤ exponent x := le_max_right _ _
  by_cases short : |roundHalfEven (x / 2 ^ exponent x)| < 2 ^ 53
  · exact ⟨_, _, short, exponent_ge, rfl⟩
  · -- The mantissa has been rounded up to a power of two: half of it at the next exponent.
    have even : roundHalfEven (x / 2 ^ exponent x) =
        2 * (roundHalfEven (x / 2 ^ exponent x) / 2) := by
      grind
    refine ⟨roundHalfEven (x / 2 ^ exponent x) / 2, exponent x + 1, ?_, by omega, ?_⟩
    · grind
    · rw [nearest, zpow_add₀ two_ne_zero, zpow_one]
      nth_rewrite 1 [even]
      push_cast
      ring

/-- A number that a double can represent is not changed. -/
theorem nearest_of_representable (representable : Representable x) : nearest x = x := by
  obtain ⟨mantissa, e, short, lowest, rfl⟩ := representable
  rcases eq_or_ne mantissa 0 with rfl | nonzero
  · simp [nearest, roundHalfEven]
  · have positive : 0 < |(mantissa : ℚ) * 2 ^ e| := by
      have factor : (mantissa : ℚ) ≠ 0 := Int.cast_ne_zero.mpr nonzero
      exact abs_pos.mpr (mul_ne_zero factor (scale_pos e).ne')
    have below : |(mantissa : ℚ) * 2 ^ e| < 2 ^ (53 + e) := by
      have cast_short : |(mantissa : ℚ)| < 2 ^ (53 : ℤ) := by
        rw [zpow_ofNat]
        exact_mod_cast short
      rw [abs_mul, abs_of_pos (scale_pos e), zpow_add₀ two_ne_zero]
      exact mul_lt_mul_of_pos_right cast_short (scale_pos e)
    have log_lt : Int.log 2 |(mantissa : ℚ) * 2 ^ e| < 53 + e := by
      apply (Int.lt_zpow_iff_log_lt (b := 2) (by decide) positive).mp
      simpa using below
    have finer : exponent (mantissa * 2 ^ e) ≤ e := by
      rw [exponent]
      omega
    obtain ⟨k, shift⟩ := Int.le.dest finer
    have whole : (mantissa : ℚ) * 2 ^ e / 2 ^ exponent (mantissa * 2 ^ e) =
        ((mantissa * 2 ^ k : ℤ) : ℚ) := by
      rw [div_eq_iff (scale_pos _).ne']
      nth_rewrite 1 [← shift]
      rw [zpow_add₀ two_ne_zero, zpow_natCast]
      push_cast
      ring
    rw [nearest, whole, roundHalfEven_intCast, ← whole, div_mul_cancel₀ _ (scale_pos _).ne']

/-- The double nearest to an integer is an integer: it has a fraction only if the integer
itself is a double. -/
theorem exists_nearest_eq_intCast (n : ℤ) : ∃ m : ℤ, nearest n = m := by
  rcases Int.lt_or_le (exponent (n : ℚ)) 0 with down | up
  · obtain ⟨k, scaled⟩ := Int.exists_eq_neg_ofNat down.le
    have whole : (n : ℚ) / 2 ^ exponent (n : ℚ) = ((n * 2 ^ k : ℤ) : ℚ) := by
      rw [scaled, zpow_neg, zpow_natCast, div_inv_eq_mul]
      push_cast
      ring
    refine ⟨n, ?_⟩
    rw [nearest, whole, roundHalfEven_intCast, ← whole, div_mul_cancel₀ _ (scale_pos _).ne']
  · obtain ⟨k, scaled⟩ := Int.eq_ofNat_of_zero_le up
    refine ⟨roundHalfEven (n / 2 ^ exponent (n : ℚ)) * 2 ^ k, ?_⟩
    rw [nearest, scaled]
    push_cast
    rfl

theorem nearest_nonneg (nonneg : 0 ≤ x) : 0 ≤ nearest x := by
  have scaled : ((0 : ℤ) : ℚ) ≤ x / 2 ^ exponent x := by
    rw [Int.cast_zero]
    exact div_nonneg nonneg (scale_pos _).le
  have rounded : 0 ≤ roundHalfEven (x / 2 ^ exponent x) := le_roundHalfEven scaled
  exact mul_nonneg (Int.cast_nonneg rounded) (scale_pos _).le

theorem representable_of_lt (short : |n| < 2 ^ 53) : Representable n :=
  ⟨n, 0, short, by decide, by simp⟩

theorem lt_limit (short : |n| < 2 ^ 53) : |(n : ℚ)| < limit := by
  have cast_short : |(n : ℚ)| < 2 ^ 53 := by exact_mod_cast short
  exact cast_short.trans_le (pow_le_pow_right₀ one_le_two (by decide))

/-- The first integer between two doubles. -/
theorem not_representable : ¬ Representable ((2 ^ 53 + 1 : ℤ) : ℚ) := by
  rintro ⟨mantissa, e, short, _, same⟩
  rcases Int.lt_or_le 0 e with up | down
  · -- A positive exponent makes the number even.
    obtain ⟨k, rfl⟩ := Int.eq_succ_of_zero_lt up
    have even : (2 ^ 53 + 1 : ℤ) = mantissa * 2 ^ (k + 1) := by
      exact_mod_cast same
    have halves : (2 ^ 53 + 1 : ℤ) = 2 * (mantissa * 2 ^ k) := even.trans (by ring)
    omega
  · obtain ⟨k, rfl⟩ := Int.exists_eq_neg_ofNat down
    have large : (2 ^ 53 + 1 : ℤ) * 2 ^ k = mantissa := by
      rw [zpow_neg, zpow_natCast, ← div_eq_mul_inv, eq_div_iff (by positivity)] at same
      exact_mod_cast same
    have grown : (2 ^ 53 + 1 : ℤ) ≤ (2 ^ 53 + 1) * 2 ^ k :=
      le_mul_of_one_le_right (by decide) (one_le_pow₀ (by decide))
    have bound := (abs_lt.mp short).2
    omega

structure Double where
  value : ℚ
  representable : Representable value
  deriving DecidableEq

def round (x : ℚ) : Double := ⟨nearest x, representable_nearest x⟩

theorem round_value (representable : Representable x) : (round x).value = x :=
  nearest_of_representable representable

theorem round_nonneg (nonneg : 0 ≤ x) : 0 ≤ (round x).value := nearest_nonneg nonneg

end Sockcan.Doubles
