import Mathlib.Algebra.Order.Round
import Mathlib.Tactic.Linarith
import Mathlib.Tactic.Ring

/-! Integers next to a number of an ordered field: the nearest ones, and the one that
rounding towards zero picks. -/
namespace Sockcan.Rounding

variable {α : Type} [Field α] [LinearOrder α] [IsStrictOrderedRing α] {q : α} {n limit : ℤ}

/-- No integer is closer. -/
def IsNearest (q : α) (n : ℤ) : Prop := ∀ k : ℤ, |q - n| ≤ |q - k|

theorem isNearest_of_half (half : |q - n| ≤ 1 / 2) : IsNearest q n := by
  intro k
  by_cases same : k = n
  · rw [same]
  · have apart : (1 : α) ≤ |(k : α) - n| := by
      have whole : (1 : ℤ) ≤ |k - n| := Int.one_le_abs (sub_ne_zero.mpr same)
      exact_mod_cast whole
    have between := abs_sub_le (k : α) q n
    rw [abs_sub_comm (k : α) q] at between
    linarith

/-- With steps of any size, the error is at most half of one. -/
theorem abs_scaled_sub_le (half : |q - n| ≤ 1 / 2) (scale offset : α) :
    |(scale * n + offset) - (scale * q + offset)| ≤ |scale| / 2 := by
  have error : (scale * n + offset) - (scale * q + offset) = scale * (n - q) := by ring
  calc |(scale * n + offset) - (scale * q + offset)|
      = |scale| * |q - n| := by rw [error, abs_mul, abs_sub_comm q]
    _ ≤ |scale| * (1 / 2) := mul_le_mul_of_nonneg_left half (abs_nonneg scale)
    _ = |scale| / 2 := mul_one_div _ _

variable [FloorRing α]

theorem isNearest_iff : IsNearest q n ↔ |q - n| ≤ 1 / 2 := by
  constructor
  · intro nearest
    exact (nearest (round q)).trans (abs_sub_round q)
  · exact isNearest_of_half

def towardsZero (q : α) : ℤ := if 0 ≤ q then ⌊q⌋ else ⌈q⌉

theorem abs_sub_towardsZero (q : α) : |q - towardsZero q| = Int.fract |q| := by
  unfold towardsZero
  split
  next nonneg => rw [Int.self_sub_floor, abs_of_nonneg nonneg, Int.abs_fract]
  next negative =>
    have below : q ≤ 0 := (not_le.mp negative).le
    calc |q - (⌈q⌉ : ℤ)|
        = |(-q) - ((⌊-q⌋ : ℤ) : α)| := by
          rw [Int.floor_neg, Int.cast_neg, sub_neg_eq_add, neg_add_eq_sub, abs_sub_comm]
      _ = Int.fract |q| := by rw [Int.self_sub_floor, abs_of_nonpos below, Int.abs_fract]

theorem isNearest_towardsZero_iff : IsNearest q (towardsZero q) ↔ Int.fract |q| ≤ 1 / 2 := by
  rw [isNearest_iff, abs_sub_towardsZero]

theorem towardsZero_nonneg_iff : 0 ≤ towardsZero q ↔ -1 < q := by
  unfold towardsZero
  split
  next nonneg => exact iff_of_true (Int.floor_nonneg.mpr nonneg) (by linarith)
  next negative => rw [Int.le_ceil_iff, Int.cast_zero, zero_sub]

theorem towardsZero_lt_iff (positive : 0 < limit) : towardsZero q < limit ↔ q < limit := by
  have above : (0 : α) < limit := Int.cast_pos.mpr positive
  unfold towardsZero
  split
  next nonneg => exact Int.floor_lt
  next negative =>
    have below : q < 0 := not_le.mp negative
    have ceiling : ⌈q⌉ ≤ 0 := Int.ceil_le.mpr (by simpa using below.le)
    exact iff_of_true (ceiling.trans_lt positive) (below.trans above)

/-- A number that is rounded to an integer of a range is less than a step outside. -/
theorem IsNearest.inside (nearest : IsNearest q n) (nonneg : 0 ≤ n) (below : n < limit) :
    -1 < q ∧ q < limit := by
  have half := abs_le.mp (isNearest_iff.mp nearest)
  have low : (0 : α) ≤ n := by exact_mod_cast nonneg
  have high : (n : α) + 1 ≤ limit := by exact_mod_cast below
  constructor
  · linarith [half.1]
  · linarith [half.2]

end Sockcan.Rounding
