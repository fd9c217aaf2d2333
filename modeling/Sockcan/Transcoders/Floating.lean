import Sockcan.Doubles
import Sockcan.Transcoders.Decoders
import Sockcan.Transcoders.Encoders

/-! The transcoders on the numbers of Python: integers of any size, and doubles. An integer
that meets a double is rounded to one first. -/
namespace Sockcan.Transcoders.Floating
open Doubles (Double Representable)

inductive Number where
  | int (value : ℤ)
  | float (value : Double)
  deriving DecidableEq

namespace Number

def value : Number → ℚ
  | int n => n
  | float x => x.value

/-- `float(number)`. -/
def toFloat : Number → Except Raised Double
  | int n =>
    if |Doubles.nearest n| < Doubles.limit then .ok (Doubles.round n)
    else .error (.overflowError "int too large to convert to float")
  | float x => .ok x

/-- An operator that is exact on two integers and rounds everything else. -/
def operate (ints : ℤ → ℤ → ℤ) (reals : ℚ → ℚ → ℚ) : Number → Number → Except Raised Number
  | int a, int b => .ok (int (ints a b))
  | a, b => do
    let a ← a.toFloat
    let b ← b.toFloat
    return float (Doubles.round (reals a.value b.value))

def add : Number → Number → Except Raised Number := operate (· + ·) (· + ·)

def sub : Number → Number → Except Raised Number := operate (· - ·) (· - ·)

def mul : Number → Number → Except Raised Number := operate (· * ·) (· * ·)

/-- `a / b`, which is never an integer. -/
def truediv : Number → Number → Except Raised Number
  | int a, int b =>
    if b = 0 then .error .zeroDivisionError
    else if |Doubles.nearest (a / b)| < Doubles.limit then .ok (float (Doubles.round (a / b)))
    else .error (.overflowError "integer division result too large for a float")
  | a, b => do
    let a ← a.toFloat
    let b ← b.toFloat
    if b.value = 0 then throw .zeroDivisionError
    else return float (Doubles.round (a.value / b.value))

/-- `int(number)`. -/
def toInt : Number → ℤ
  | int n => n
  | float x => truncate x.value

/-- A float beyond the format is an infinity, of which `int` makes no integer. -/
def finite : Number → Except Raised Number
  | int n => .ok (int n)
  | float x =>
    if |x.value| < Doubles.limit then .ok (float x)
    else .error (.overflowError "cannot convert float infinity to integer")

end Number

inductive SignalValue where
  | number (value : Number)
  | text (label : String)
  deriving DecidableEq

abbrev Payload := AList fun _ : String => SignalValue

structure SignalProperties where
  name : String
  mask : Nat
  bitOffset : Nat
  scale : Number
  offset : Number
  namedValues : Option (AList fun _ : String => ℤ)
  reverseNamedValues : Option (AList fun _ : ℤ => String)

inductive ByteOrder where
  | littleEndian
  | bigEndian
  deriving DecidableEq

/-- A `cantools` signal. The transcoders read neither its byte order nor whether it is
signed. -/
structure Signal where
  name : String
  start : Nat
  length : Nat
  byteOrder : ByteOrder
  isSigned : Bool
  scale : Number
  offset : Number
  choices : Option (AList fun _ : ℤ => String)

/-- A `cantools` message that is not multiplexed, and its length in bytes. -/
structure Message where
  signals : List Signal
  length : Nat

def buildSignalProperties (signal : Signal) : SignalProperties where
  name := signal.name
  mask := ((1 <<< signal.length) - 1) <<< signal.start
  bitOffset := signal.start
  scale := signal.scale
  offset := if signal.offset.value = 0 then .float (Doubles.round 0) else signal.offset
  namedValues := signal.choices.map labels
  reverseNamedValues := (signal.choices.map labels).map reversed

def extractSignalProperties (message : Message) : List SignalProperties :=
  message.signals.map buildSignalProperties

/-- `(value - offset) / scale`. -/
def unscale (signal : SignalProperties) (value : Number) : Except Raised Number := do
  let difference ← value.sub signal.offset
  difference.truediv signal.scale

/-- `int((value - offset) / scale)`. An infinite difference makes the quotient infinite. -/
def toRaw (signal : SignalProperties) (value : Number) : Except Raised ℤ := do
  let difference ← value.sub signal.offset
  let quotient ← difference.truediv signal.scale
  let _ ← difference.finite
  let quotient ← quotient.finite
  return quotient.toInt

/-- The raw value of a signal, before its range is checked. -/
def convert (namedValues : Option Bool) (signal : SignalProperties) (value : SignalValue) :
    Except Raised ℤ :=
  let isText := match value with
    | .text _ => true
    | .number _ => false
  let isNamed := if signal.namedValues.isSome then false else namedValues.getD isText
  if isNamed then
    match signal.namedValues, value with
    | none, _ | _, .number _ => .error .assertionError
    | some table, .text label => match table.lookup label with
      | none => .error (.labelKeyError label)
      | some raw => .ok raw
  else
    match value with
    | .text _ => .error .assertionError
    | .number value => toRaw signal value

/-- What one signal of the payload adds to the encoded message. -/
def encodeField (namedValues : Option Bool) (signal : SignalProperties) (value : SignalValue) :
    Except Raised Nat := do
  let value ← convert namedValues signal value
  let signalLength := Bits.bitCount signal.mask
  let maxValue := (1 <<< signalLength) - 1
  if value < 0 ∨ value > maxValue then
    throw (.overflowError
      s!"Value {value} out of range for signal {signal.name} (0-{maxValue})")
  else
    pure ((value.toNat <<< signal.bitOffset) &&& signal.mask)

/-- The loop of `encode`. -/
def encodeSignals (payload : Payload) (namedValues : Option Bool)
    (signals : List SignalProperties) (encodedMessage : Nat) : Except Raised Nat :=
  signals.foldlM (fun encodedMessage signal => match payload.lookup signal.name with
    | none => .ok encodedMessage
    | some value => do
      let field ← encodeField namedValues signal value
      return encodedMessage ||| field) encodedMessage

def encode (payload : Payload) (signals : List SignalProperties) (dlc : Nat)
    (namedValues : Option Bool) : Except Raised (List UInt8) := do
  let encodedMessage ← encodeSignals payload namedValues signals 0
  toBytes dlc encodedMessage

/-- The encoder that `build_encoder` returns. -/
def buildEncoder (message : Message) (payload : Payload) : Except Raised (List UInt8) :=
  encode payload (extractSignalProperties message) message.length none

/-- The value of a raw value that has no label. An infinite product makes the sum infinite. -/
def rescale (signal : SignalProperties) (rawValue : Nat) : Except Raised Number := do
  let product ← signal.scale.mul (.int rawValue)
  let product ← product.finite
  let sum ← product.add signal.offset
  let sum ← sum.finite
  unscale signal (.int sum.toInt)

/-- The value of one signal. -/
def decodeField (decodeChoices : Bool) (payload : Nat) (signal : SignalProperties) :
    Except Raised SignalValue :=
  let rawValue := Bits.field signal.mask signal.bitOffset payload
  match signal.reverseNamedValues with
  | none => (rescale signal rawValue).map .number
  | some table =>
    if decodeChoices then
      match table.lookup (rawValue : ℤ) with
      | none => .error (.rawKeyError rawValue)
      | some label => .ok (.text label)
    else (rescale signal rawValue).map .number

/-- `decode` without a multiplexer. -/
def decode (payload : List UInt8) (signals : List SignalProperties) (decodeChoices : Bool)
    (container : Option Payload) : Except Raised Payload :=
  Tables.fill SignalProperties.name (decodeField decodeChoices (Bytes.toNat payload)) signals
    (container.getD ∅)

/-- The decoder that `build_decoder` returns. -/
def buildDecoder (message : Message) (decodeChoices : Bool) (container : Option Payload)
    (payload : List UInt8) : Except Raised Payload :=
  decode payload (extractSignalProperties message) decodeChoices container

namespace Number
variable {a b c : Number} {n : ℤ}

/-- The number is an integer of at most 53 bits, of either type. -/
def Small (a : Number) : Prop := ∃ n : ℤ, a.value = n ∧ |n| < 2 ^ 53

theorem small_int : (int n).Small ↔ |n| < 2 ^ 53 := by
  constructor
  · rintro ⟨m, same, short⟩
    have equal : n = m := Int.cast_injective same
    exact equal ▸ short
  · intro short
    exact ⟨n, rfl, short⟩

/-- The number is a double, or becomes one without a change. -/
def Exact (a : Number) : Prop := ∃ x : Double, a.toFloat = .ok x ∧ x.value = a.value

theorem exact_float (x : Double) : (float x).Exact := ⟨x, rfl, rfl⟩

theorem exact_int_iff :
    (int n).Exact ↔ Representable (n : ℚ) ∧ |Doubles.nearest (n : ℚ)| < Doubles.limit := by
  constructor
  · rintro ⟨x, converted, same⟩
    rw [toFloat] at converted
    split at converted
    · next finite =>
      have representable : Representable (int n).value := same ▸ x.representable
      exact ⟨representable, finite⟩
    · contradiction
  · rintro ⟨representable, finite⟩
    exact ⟨Doubles.round n, if_pos finite, Doubles.round_value representable⟩

theorem Small.exact (small : a.Small) : a.Exact := by
  cases a with
  | float x => exact exact_float x
  | int n =>
    have short := small_int.mp small
    have representable := Doubles.representable_of_lt short
    rw [exact_int_iff, Doubles.nearest_of_representable representable]
    exact ⟨representable, Doubles.lt_limit short⟩

theorem toInt_eq (same : a.value = n) : a.toInt = n := by
  cases a with
  | int m => exact Int.cast_injective same
  | float x =>
    have exact_value : x.value = n := same
    simp only [toInt, exact_value, truncate_intCast]

theorem finite_of_lt (short : |a.value| < Doubles.limit) : a.finite = .ok a := by
  cases a with
  | int n => rfl
  | float x => exact if_pos short

theorem finite_eq (checked : a.finite = .ok b) : a = b := by
  cases a with
  | int n =>
    cases checked
    rfl
  | float x =>
    rw [finite] at checked
    split at checked
    · cases checked
      rfl
    · contradiction

/-- An operator whose right operand is a double makes one of the other too. -/
theorem operate_float {ints : ℤ → ℤ → ℤ} {reals : ℚ → ℚ → ℚ} {x y : Double}
    (from_a : a.toFloat = .ok x) :
    operate ints reals a (float y) = .ok (float (Doubles.round (reals x.value y.value))) := by
  have from_y : (float y).toFloat = .ok y := rfl
  cases a with
  | int m =>
    simp only [operate, from_a, from_y]
    rfl
  | float z =>
    simp only [operate, from_a, from_y]
    rfl

theorem toFloat_one (one : b.value = 1) : ∃ y, b.toFloat = .ok y ∧ y.value = 1 := by
  have small : b.Small := ⟨1, by rw [one, Int.cast_one], by decide⟩
  obtain ⟨y, from_b, same⟩ := small.exact
  exact ⟨y, from_b, same.trans one⟩

theorem truediv_one (left : a.Exact) (one : b.value = 1) :
    ∃ c, truediv a b = .ok c ∧ c.value = a.value := by
  obtain ⟨x, from_a, x_value⟩ := left
  obtain ⟨y, from_b, y_value⟩ := toFloat_one one
  have nonzero : y.value ≠ 0 := by
    rw [y_value]
    exact one_ne_zero
  have quotient : (float (Doubles.round (x.value / y.value))).value = a.value := by
    rw [y_value, div_one, ← x_value]
    exact Doubles.round_value x.representable
  cases a with
  | int m =>
    cases b with
    | int n =>
      have unit : n = 1 := Int.cast_injective (one.trans Int.cast_one.symm)
      obtain ⟨representable, finite⟩ := exact_int_iff.mp ⟨x, from_a, x_value⟩
      have whole : (m / n : ℚ) = m := by rw [unit, Int.cast_one, div_one]
      refine ⟨float (Doubles.round (m / n)), ?_, ?_⟩
      · rw [truediv, if_neg (unit ▸ one_ne_zero), whole, if_pos finite]
      · rw [whole]
        exact Doubles.round_value representable
    | float _ =>
      refine ⟨_, ?_, quotient⟩
      simp only [truediv, from_a, from_b, bind, Except.bind, if_neg nonzero]
      rfl
  | float _ =>
    refine ⟨_, ?_, quotient⟩
    simp only [truediv, from_a, from_b, bind, Except.bind, if_neg nonzero]
    rfl

/-- A factor of 1 leaves an integer as it is, or makes the nearest double of it. -/
theorem mul_one_left (raw : ℤ) (one : a.value = 1)
    (finite : |Doubles.nearest (raw : ℚ)| < Doubles.limit) :
    ∃ product x, mul a (int raw) = .ok product ∧ product.finite = .ok product ∧
      product.toFloat = .ok x ∧ x.value = Doubles.nearest raw := by
  have from_raw : (int raw).toFloat = .ok (Doubles.round raw) := if_pos finite
  cases a with
  | int m =>
    obtain rfl : m = 1 := Int.cast_injective (one.trans Int.cast_one.symm)
    refine ⟨int raw, Doubles.round raw, ?_, rfl, from_raw, rfl⟩
    simp only [mul, operate, one_mul]
  | float y =>
    have unit : y.value = 1 := one
    have same : (Doubles.round (y.value * (Doubles.round raw).value)).value =
        Doubles.nearest raw := by
      rw [unit, one_mul]
      exact Doubles.round_value (Doubles.representable_nearest raw)
    refine ⟨float (Doubles.round (y.value * (Doubles.round raw).value)), _, ?_, ?_, rfl, same⟩
    · have from_y : (float y).toFloat = .ok y := rfl
      simp only [mul, operate, from_y, from_raw]
      rfl
    · apply finite_of_lt
      rw [value, same]
      exact finite

theorem finite_of_mul {raw : ℤ} {product : Number} {x : Double} (one : a.value = 1)
    (multiplied : mul a (int raw) = .ok product) (converted : product.toFloat = .ok x) :
    |Doubles.nearest (raw : ℚ)| < Doubles.limit := by
  have finite_of_toFloat {y : Double} (from_raw : (int raw).toFloat = .ok y) :
      |Doubles.nearest (raw : ℚ)| < Doubles.limit := by
    rw [toFloat] at from_raw
    split at from_raw
    · assumption
    · contradiction
  cases a with
  | int m =>
    obtain rfl : m = 1 := Int.cast_injective (one.trans Int.cast_one.symm)
    rw [mul, operate, one_mul] at multiplied
    cases multiplied
    exact finite_of_toFloat converted
  | float y =>
    obtain ⟨_, from_y, rest⟩ := Tables.bind_eq_ok.mp multiplied
    obtain ⟨_, from_raw, _⟩ := Tables.bind_eq_ok.mp rest
    exact finite_of_toFloat from_raw

/-- A computation on two doubles that succeeds has both of them. -/
theorem floats_of_ok {f : Double → Double → Except Raised Number}
    (result : (do let x ← a.toFloat; let y ← b.toFloat; f x y) = .ok c) :
    ∃ x y, a.toFloat = .ok x ∧ b.toFloat = .ok y ∧ f x y = .ok c := by
  obtain ⟨x, from_a, rest⟩ := Tables.bind_eq_ok.mp result
  obtain ⟨y, from_b, done⟩ := Tables.bind_eq_ok.mp rest
  exact ⟨x, y, from_a, from_b, done⟩

theorem toFloat_nonneg {x : Double} (nonneg : 0 ≤ a.value) (from_a : a.toFloat = .ok x) :
    0 ≤ x.value := by
  cases a with
  | float y =>
    cases from_a
    exact nonneg
  | int n =>
    rw [toFloat] at from_a
    split at from_a
    · cases from_a
      exact Doubles.round_nonneg nonneg
    · contradiction

/-- What is not negative before it is rounded is not negative after. -/
theorem operate_nonneg {ints : ℤ → ℤ → ℤ} {reals : ℚ → ℚ → ℚ}
    (integral : ∀ m n, a = int m → b = int n → 0 ≤ ints m n)
    (rounded : ∀ x y, a.toFloat = .ok x → b.toFloat = .ok y → 0 ≤ reals x.value y.value)
    (result : operate ints reals a b = .ok c) : 0 ≤ c.value := by
  unfold operate at result
  split at result
  · cases result
    exact Int.cast_nonneg (integral _ _ rfl rfl)
  · obtain ⟨x, y, from_a, from_b, done⟩ := floats_of_ok result
    cases done
    exact Doubles.round_nonneg (rounded x y from_a from_b)

theorem truediv_nonneg (left : 0 ≤ a.value) (right : 0 ≤ b.value)
    (result : truediv a b = .ok c) : ∃ x : Double, c = float x ∧ 0 ≤ x.value := by
  unfold truediv at result
  split at result
  · split at result
    · contradiction
    · split at result
      · cases result
        exact ⟨_, rfl, Doubles.round_nonneg (div_nonneg left right)⟩
      · contradiction
  · obtain ⟨x, y, from_a, from_b, done⟩ := floats_of_ok result
    have quotient : 0 ≤ x.value / y.value :=
      div_nonneg (toFloat_nonneg left from_a) (toFloat_nonneg right from_b)
    split at done
    · contradiction
    · cases done
      exact ⟨_, rfl, Doubles.round_nonneg quotient⟩

theorem toInt_nonneg (nonneg : 0 ≤ a.value) : 0 ≤ a.toInt := by
  cases a with
  | int n => exact Int.cast_nonneg_iff.mp nonneg
  | float x => exact truncate_nonneg nonneg

end Number

/-- A signal with scale 1, offset 0 and no labels. -/
structure Signal.Plain (signal : Signal) : Prop where
  scale : signal.scale.value = 1
  offset : signal.offset.value = 0
  choices : signal.choices = none

variable {signal : Signal} {value : ℤ} {payload : Nat}

theorem Signal.Plain.offset_eq (plain : signal.Plain) :
    (buildSignalProperties signal).offset = .float (Doubles.round 0) := if_pos plain.offset

theorem Signal.Plain.unlabelled (plain : signal.Plain) :
    (buildSignalProperties signal).namedValues = none ∧
      (buildSignalProperties signal).reverseNamedValues = none := by
  simp only [buildSignalProperties, plain.choices, Option.map_none, and_self]

theorem zero_value : (Doubles.round 0).value = 0 :=
  Doubles.round_value ⟨0, 0, by decide, by decide, by simp⟩

/-- A number that is a double is not changed on the way to its raw value. -/
theorem Signal.Plain.quotient_exact (plain : signal.Plain) {number : Number}
    (exact_number : number.Exact) :
    ∃ difference quotient, number.sub (buildSignalProperties signal).offset = .ok difference ∧
      difference.truediv (buildSignalProperties signal).scale = .ok quotient ∧
      difference.value = number.value ∧ quotient.value = number.value := by
  obtain ⟨x, converted, value_eq⟩ := exact_number
  have same : (Doubles.round (x.value - (Doubles.round 0).value)).value = x.value := by
    rw [zero_value, sub_zero]
    exact Doubles.round_value x.representable
  have subtracted : number.sub (.float (Doubles.round 0)) =
      .ok (.float (Doubles.round (x.value - (Doubles.round 0).value))) :=
    Number.operate_float converted
  obtain ⟨quotient, divided, quotient_eq⟩ :=
    Number.truediv_one (Number.exact_float (Doubles.round (x.value - (Doubles.round 0).value)))
      plain.scale
  refine ⟨_, quotient, ?_, divided, same.trans value_eq, quotient_eq.trans (same.trans value_eq)⟩
  rw [plain.offset_eq]
  exact subtracted

theorem Signal.Plain.unscale_exact (plain : signal.Plain) {number : Number}
    (exact_number : number.Exact) :
    ∃ quotient, unscale (buildSignalProperties signal) number = .ok quotient ∧
      quotient.value = number.value := by
  obtain ⟨difference, quotient, subtracted, divided, _, same⟩ := plain.quotient_exact exact_number
  refine ⟨quotient, ?_, same⟩
  simp only [unscale, subtracted, divided, bind, Except.bind]

/-- A double that is an integer becomes this integer. -/
theorem Signal.Plain.convert_exact (plain : signal.Plain) {number : Number}
    (exact_number : number.Exact) (finite : |number.value| < Doubles.limit)
    (whole : number.value = value) :
    convert none (buildSignalProperties signal) (.number number) = .ok value := by
  obtain ⟨difference, quotient, subtracted, divided, difference_eq, quotient_eq⟩ :=
    plain.quotient_exact exact_number
  have difference_finite : difference.finite = .ok difference :=
    Number.finite_of_lt (difference_eq.symm ▸ finite)
  have quotient_finite : quotient.finite = .ok quotient :=
    Number.finite_of_lt (quotient_eq.symm ▸ finite)
  have back : quotient.toInt = value := Number.toInt_eq (quotient_eq.trans whole)
  simp only [Floating.convert, plain.unlabelled.1, Option.isSome_none, Option.getD_none,
    Bool.false_eq_true, if_false, toRaw, subtracted, divided, difference_finite, quotient_finite,
    back, bind, Except.bind, pure, Except.pure]

theorem Signal.Plain.encodeField_exact (plain : signal.Plain) {number : Number}
    (exact_number : number.Exact) (finite : |number.value| < Doubles.limit)
    (whole : number.value = value) (nonneg : 0 ≤ value) (fits : value < 2 ^ signal.length) :
    encodeField none (buildSignalProperties signal) (.number number) =
      .ok ((value.toNat <<< signal.start) &&& Bits.ones signal.length signal.start) := by
  have mask : (buildSignalProperties signal).mask = Bits.ones signal.length signal.start := rfl
  have cast_fits : value < ((2 ^ signal.length : Nat) : ℤ) := by exact_mod_cast fits
  have within : ¬ (value < 0 ∨ value > ((1 <<< signal.length) - 1 : Nat)) := by
    rw [Nat.one_shiftLeft]
    omega
  simp only [Floating.encodeField, plain.convert_exact exact_number finite whole, mask,
    Bits.bitCount_ones]
  exact if_neg within

theorem Signal.Plain.encodeField (plain : signal.Plain) (nonneg : 0 ≤ value)
    (fits : value < 2 ^ signal.length) (short : |value| < 2 ^ 53) :
    encodeField none (buildSignalProperties signal) (.number (.int value)) =
      .ok ((value.toNat <<< signal.start) &&& Bits.ones signal.length signal.start) :=
  plain.encodeField_exact (Number.small_int.mpr short).exact (Doubles.lt_limit short) rfl nonneg
    fits

/-- What is decoded without a label is the nearest double, as far as there is one. -/
theorem Signal.Plain.rescale_nearest (plain : signal.Plain) {raw : Nat}
    (finite : |Doubles.nearest raw| < Doubles.limit) :
    ∃ number, rescale (buildSignalProperties signal) raw = .ok number ∧
      number.value = Doubles.nearest raw := by
  have scale : (buildSignalProperties signal).scale = signal.scale := rfl
  obtain ⟨product, x, multiplied, product_finite, converted, x_value⟩ :=
    Number.mul_one_left raw plain.scale finite
  let sum := Number.float (Doubles.round (x.value + (Doubles.round 0).value))
  have added : product.add (.float (Doubles.round 0)) = .ok sum := Number.operate_float converted
  obtain ⟨whole, integral⟩ := Doubles.exists_nearest_eq_intCast raw
  have sum_value : sum.value = whole := by
    have exact_sum : (Doubles.round (x.value + (Doubles.round 0).value)).value = x.value := by
      rw [zero_value, add_zero]
      exact Doubles.round_value x.representable
    exact exact_sum.trans (x_value.trans integral)
  have truncated : sum.toInt = whole := Number.toInt_eq sum_value
  have sum_finite : sum.finite = .ok sum := by
    apply Number.finite_of_lt
    rw [sum_value, ← integral]
    exact finite
  have exact_whole : (Number.int whole).Exact := by
    rw [Number.exact_int_iff, ← integral,
      Doubles.nearest_of_representable (Doubles.representable_nearest _)]
    exact ⟨Doubles.representable_nearest _, finite⟩
  obtain ⟨quotient, unscaled, same⟩ := plain.unscale_exact exact_whole
  refine ⟨quotient, ?_, same.trans integral.symm⟩
  simp only [rescale, scale, plain.offset_eq, multiplied, product_finite, added, sum_finite,
    truncated, unscaled, bind, Except.bind]

theorem Signal.Plain.finite_of_rescale (plain : signal.Plain) {raw : Nat} {number : Number}
    (result : rescale (buildSignalProperties signal) raw = .ok number) :
    |Doubles.nearest raw| < Doubles.limit := by
  obtain ⟨product, multiplied, rest⟩ := Tables.bind_eq_ok.mp result
  obtain ⟨_, checked, summed⟩ := Tables.bind_eq_ok.mp rest
  obtain rfl := Number.finite_eq checked
  obtain ⟨sum, added, _⟩ := Tables.bind_eq_ok.mp summed
  rw [plain.offset_eq] at added
  have converted : ∃ x, product.toFloat = .ok x := by
    unfold Number.add Number.operate at added
    split at added
    · contradiction
    · obtain ⟨x, _, from_product, _⟩ := Number.floats_of_ok added
      exact ⟨x, from_product⟩
  obtain ⟨x, from_product⟩ := converted
  exact_mod_cast Number.finite_of_mul plain.scale multiplied from_product

/-- A raw value of at most 53 bits is its own value. -/
theorem Signal.Plain.rescale_short (plain : signal.Plain) {raw : Nat} (short : raw < 2 ^ 53) :
    ∃ number, rescale (buildSignalProperties signal) raw = .ok number ∧ number.value = raw := by
  have magnitude : |(raw : ℤ)| < 2 ^ 53 := by
    rw [Nat.abs_cast]
    exact_mod_cast short
  have exact_value : Doubles.nearest (raw : ℚ) = raw :=
    Doubles.nearest_of_representable (Doubles.representable_of_lt magnitude)
  have finite : |Doubles.nearest (raw : ℚ)| < Doubles.limit := by
    rw [exact_value]
    exact Doubles.lt_limit magnitude
  obtain ⟨number, rescaled, nearest⟩ := plain.rescale_nearest finite
  exact ⟨number, rescaled, nearest.trans exact_value⟩

/-- Whatever is decoded is a double, and not negative. -/
theorem Signal.Plain.rescale_double (plain : signal.Plain) {raw : Nat} {number : Number}
    (result : rescale (buildSignalProperties signal) raw = .ok number) :
    ∃ x : Double, number = .float x ∧ 0 ≤ x.value := by
  have scale : 0 ≤ (buildSignalProperties signal).scale.value := plain.scale ▸ zero_le_one
  have zero : (Number.float (Doubles.round 0)).value = 0 := zero_value
  obtain ⟨product, multiplied, rest⟩ := Tables.bind_eq_ok.mp result
  obtain ⟨_, product_checked, summed⟩ := Tables.bind_eq_ok.mp rest
  obtain rfl := Number.finite_eq product_checked
  obtain ⟨sum, added, converted⟩ := Tables.bind_eq_ok.mp summed
  obtain ⟨_, sum_checked, unscaled⟩ := Tables.bind_eq_ok.mp converted
  obtain rfl := Number.finite_eq sum_checked
  obtain ⟨difference, subtracted, divided⟩ := Tables.bind_eq_ok.mp unscaled
  rw [plain.offset_eq] at added subtracted
  have product_nonneg : 0 ≤ product.value := by
    refine Number.operate_nonneg ?_ ?_ multiplied
    · rintro m n scale_eq same
      cases same
      have factor : 0 ≤ (m : ℚ) := by
        rw [scale_eq] at scale
        exact scale
      exact mul_nonneg (Int.cast_nonneg_iff.mp factor) (Int.natCast_nonneg raw)
    · intro x y from_scale from_raw
      exact mul_nonneg (Number.toFloat_nonneg scale from_scale)
        (Number.toFloat_nonneg (Int.cast_nonneg (Int.natCast_nonneg raw)) from_raw)
  have sum_nonneg : 0 ≤ sum.value := by
    refine Number.operate_nonneg (fun _ _ _ offset_eq => Number.noConfusion offset_eq) ?_ added
    rintro x y from_product ⟨⟩
    exact add_nonneg (Number.toFloat_nonneg product_nonneg from_product) zero.ge
  have difference_nonneg : 0 ≤ difference.value := by
    refine Number.operate_nonneg (fun _ _ _ offset_eq => Number.noConfusion offset_eq) ?_
      subtracted
    rintro x y from_sum ⟨⟩
    have whole : 0 ≤ x.value :=
      Number.toFloat_nonneg (Int.cast_nonneg (Number.toInt_nonneg sum_nonneg)) from_sum
    rw [zero_value, sub_zero]
    exact whole
  exact Number.truediv_nonneg difference_nonneg scale divided

theorem Signal.Plain.decodeField (plain : signal.Plain) (decodeChoices : Bool) :
    decodeField decodeChoices payload (buildSignalProperties signal) =
      (rescale (buildSignalProperties signal)
        (Bits.field (Bits.ones signal.length signal.start) signal.start payload)).map
          .number := by
  simp only [Floating.decodeField, plain.unlabelled.2]
  rfl

theorem Signal.Plain.decodeField_double (plain : signal.Plain) {decodeChoices : Bool}
    {number : Number} (result : Floating.decodeField decodeChoices payload
      (buildSignalProperties signal) = .ok (.number number)) :
    ∃ x : Double, number = .float x ∧ 0 ≤ x.value := by
  rw [plain.decodeField] at result
  cases rescaled : rescale (buildSignalProperties signal)
      (Bits.field (Bits.ones signal.length signal.start) signal.start payload) with
  | error _ =>
    rw [rescaled] at result
    contradiction
  | ok read =>
    rw [rescaled] at result
    cases result
    exact plain.rescale_double rescaled

/-- What a signal adds to the encoded message: nothing, if the payload has no value for it. -/
def contribution (payload : Payload) (namedValues : Option Bool) (signal : SignalProperties) :
    Except Raised Nat :=
  match payload.lookup signal.name with
  | none => .ok 0
  | some value => encodeField namedValues signal value

/-- The contribution, where there is one. -/
def added (payload : Payload) (namedValues : Option Bool) (signal : SignalProperties) : Nat :=
  (contribution payload namedValues signal).toOption.getD 0

theorem added_of_ok {values : Payload} {namedValues : Option Bool} {properties : SignalProperties}
    {part : Nat} (contributes : contribution values namedValues properties = .ok part) :
    added values namedValues properties = part := by
  simp only [added, contributes]
  rfl

/-- A number that is in range adds the bits of its raw value under the mask of the signal. -/
theorem encodeField_ok_iff {namedValues : Option Bool} {properties : SignalProperties}
    {value : SignalValue} {part : Nat} :
    encodeField namedValues properties value = .ok part ↔
      ∃ raw : ℤ, convert namedValues properties value = .ok raw ∧ 0 ≤ raw ∧
        raw < 2 ^ Bits.bitCount properties.mask ∧
        part = (raw.toNat <<< properties.bitOffset) &&& properties.mask := by
  have limit (raw : ℤ) : (raw < 0 ∨ raw > ((1 <<< Bits.bitCount properties.mask) - 1 : Nat)) ↔
      ¬ (0 ≤ raw ∧ raw < 2 ^ Bits.bitCount properties.mask) := by
    have cast_pow : ((2 ^ Bits.bitCount properties.mask : Nat) : ℤ) =
        2 ^ Bits.bitCount properties.mask := by push_cast; rfl
    have positive : 0 < 2 ^ Bits.bitCount properties.mask := Nat.two_pow_pos _
    rw [Nat.one_shiftLeft, ← cast_pow]
    omega
  unfold encodeField
  cases converts : convert namedValues properties value with
  | error raised =>
    constructor
    · intro encoded
      contradiction
    · rintro ⟨raw, converted, _⟩
      contradiction
  | ok raw =>
    simp only [bind, Except.bind, limit]
    by_cases inside : 0 ≤ raw ∧ raw < 2 ^ Bits.bitCount properties.mask
    · rw [if_neg (not_not.mpr inside)]
      constructor
      · rintro ⟨⟩
        exact ⟨raw, rfl, inside.1, inside.2, rfl⟩
      · rintro ⟨other, same, _, _, rfl⟩
        obtain rfl := Except.ok.inj same
        rfl
    · rw [if_pos inside]
      constructor
      · intro encoded
        contradiction
      · rintro ⟨other, same, nonneg, below, _⟩
        obtain rfl := Except.ok.inj same
        exact absurd ⟨nonneg, below⟩ inside

/-- Nothing is added outside the mask of the signal. -/
theorem added_and_mask (values : Payload) (namedValues : Option Bool)
    (properties : SignalProperties) :
    added values namedValues properties &&& properties.mask =
      added values namedValues properties := by
  cases contributes : contribution values namedValues properties with
  | error raised =>
    have nothing : added values namedValues properties = 0 := by
      simp only [added, contributes]
      rfl
    rw [nothing, Nat.zero_and]
  | ok part =>
    rw [added_of_ok contributes]
    unfold contribution at contributes
    split at contributes
    · cases contributes
      exact Nat.zero_and _
    · obtain ⟨raw, _, _, _, rfl⟩ := encodeField_ok_iff.mp contributes
      rw [Nat.and_assoc, Nat.and_self]

/-- The loop of `encode` comes to its end when every signal can be added. -/
theorem encodeSignals_ok_iff {values : Payload} {namedValues : Option Bool}
    {signals : List SignalProperties} {n m : Nat} :
    encodeSignals values namedValues signals n = .ok m ↔
      (∀ signal ∈ signals, ∃ part, contribution values namedValues signal = .ok part) ∧
        m = n ||| Bits.union (added values namedValues) signals := by
  have same : encodeSignals values namedValues signals n = signals.foldlM (fun n signal => do
      let part ← contribution values namedValues signal
      return n ||| part) n := by
    unfold encodeSignals contribution
    congr 1
    funext n signal
    cases values.lookup signal.name with
    | none => exact (congrArg Except.ok (Nat.or_zero n)).symm
    | some value => rfl
  rw [same]
  exact Bits.foldlM_union_iff

/-- Encoding returns the bytes of the union, when they are enough for it. -/
theorem encode_ok_iff {values : Payload} {namedValues : Option Bool}
    {signals : List SignalProperties} {dlc : Nat} {bytes : List UInt8} :
    encode values signals dlc namedValues = .ok bytes ↔
      (∀ signal ∈ signals, ∃ part, contribution values namedValues signal = .ok part) ∧
        bytes.length = dlc ∧ Bytes.toNat bytes = Bits.union (added values namedValues) signals := by
  constructor
  · intro encoded
    obtain ⟨message, united, written⟩ := Tables.bind_eq_ok.mp encoded
    obtain ⟨parts, rfl⟩ := encodeSignals_ok_iff.mp united
    rw [Nat.zero_or, toBytes] at written
    split at written
    · next room =>
      cases written
      exact ⟨parts, Bytes.ofNat_length _ _, Bytes.toNat_ofNat_of_lt room⟩
    · contradiction
  · rintro ⟨parts, rfl, united⟩
    have message := (encodeSignals_ok_iff (n := 0)).mpr ⟨parts, rfl⟩
    rw [Nat.zero_or, ← united] at message
    simp only [encode, message, bind, Except.bind, toBytes, Bytes.toNat_lt, if_true,
      Bytes.ofNat_toNat]

end Sockcan.Transcoders.Floating
