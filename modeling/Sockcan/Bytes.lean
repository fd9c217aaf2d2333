import Mathlib.Data.Nat.Bitwise
import Mathlib.Data.List.Basic

/-! Unsigned little-endian numbers of a fixed width, and their values: every value that
fits is kept. -/
namespace Sockcan.Bytes

/-- The `width` low bytes of `value`, least significant first. -/
def ofNat (width value : Nat) : List UInt8 :=
  (List.range width).map fun i => UInt8.ofNat (value / 256 ^ i)

def toNat (bytes : List UInt8) : Nat :=
  bytes.foldr (fun byte rest => byte.toNat + 256 * rest) 0

/-- Bit `i % 8` of byte `i / 8`. -/
def bit (bytes : List UInt8) (i : Nat) : Bool := (bytes.getD (i / 8) 0).toNat.testBit (i % 8)

@[simp] theorem ofNat_length (width n : Nat) : (ofNat width n).length = width := by
  simp [ofNat]

@[simp] theorem toNat_nil : toNat [] = 0 := rfl

@[simp] theorem toNat_cons (byte : UInt8) (rest : List UInt8) :
    toNat (byte :: rest) = byte.toNat + 256 * toNat rest := rfl

theorem ofNat_succ (width n : Nat) :
    ofNat (width + 1) n = UInt8.ofNat n :: ofNat width (n / 256) := by
  simp only [ofNat, List.range_succ_eq_map, List.map_cons, List.map_map, Nat.pow_zero,
    Nat.div_one, List.cons.injEq, true_and]
  apply List.map_congr_left
  intro i _
  simp only [Function.comp_def, Nat.succ_eq_add_one, Nat.pow_succ', Nat.div_div_eq_div_mul]

theorem testBit_toNat (bytes : List UInt8) (i : Nat) : (toNat bytes).testBit i = bit bytes i := by
  induction bytes generalizing i with
  | nil => simp [bit]
  | cons byte rest ih =>
    have split : toNat (byte :: rest) = 2 ^ 8 * toNat rest + byte.toNat := by
      simp only [toNat_cons, Nat.reducePow, Nat.add_comm]
    rw [split, Nat.testBit_two_pow_mul_add _ byte.toNat_lt]
    by_cases low : i < 8
    · have first : i / 8 = 0 ∧ i % 8 = i := by omega
      simp only [if_pos low, bit, first.1, first.2, List.getD_cons_zero]
    · have later : i / 8 = (i - 8) / 8 + 1 ∧ i % 8 = (i - 8) % 8 := by omega
      simp only [if_neg low, ih, bit, later.1, later.2, List.getD_cons_succ]

/-- Writing keeps the low bytes of the value. -/
theorem toNat_ofNat (width n : Nat) : toNat (ofNat width n) = n % 256 ^ width := by
  induction width generalizing n with
  | zero => simp [ofNat, Nat.mod_one]
  | succ width ih =>
    rw [ofNat_succ, toNat_cons, ih, Nat.pow_succ', Nat.mod_mul]
    simp only [UInt8.toNat_ofNat', Nat.reducePow]

theorem toNat_ofNat_of_lt {width n : Nat} (fits : n < 256 ^ width) :
    toNat (ofNat width n) = n := by
  rw [toNat_ofNat, Nat.mod_eq_of_lt fits]

theorem toNat_lt (bytes : List UInt8) : toNat bytes < 256 ^ bytes.length := by
  induction bytes with
  | nil => decide
  | cons byte rest ih =>
    have low := byte.toNat_lt
    rw [toNat_cons, List.length_cons, Nat.pow_succ']
    omega

/-- Bytes are what is written of their number. -/
theorem ofNat_toNat (bytes : List UInt8) : ofNat bytes.length (toNat bytes) = bytes := by
  induction bytes with
  | nil => rfl
  | cons byte rest ih =>
    have low := byte.toNat_lt
    have above : (byte.toNat + 256 * toNat rest) / 256 = toNat rest := by omega
    have below : UInt8.ofNat (byte.toNat + 256 * toNat rest) = byte := by
      apply UInt8.toNat_inj.mp
      rw [UInt8.toNat_ofNat']
      omega
    rw [toNat_cons, List.length_cons, ofNat_succ, above, below, ih]

end Sockcan.Bytes
