import Sockcan.Bytes
import Sockcan.Transcoders.Common

/-! `encode`: each signal of the payload is converted to its raw value, checked against
the width of its mask and put into its field. -/
namespace Sockcan.Transcoders

/-- `int.to_bytes(dlc, "little")`. -/
def toBytes (dlc value : Nat) : Except Raised (List UInt8) :=
  if value < 256 ^ dlc then .ok (Bytes.ofNat dlc value)
  else .error (.overflowError "int too big to convert")

/-- The raw value of a signal, before its range is checked. -/
def convert (namedValues : Option Bool) (signal : SignalProperties) (value : SignalValue) :
    Except Raised ℤ :=
  let isText := match value with
    | .text _ => true
    | .number _ => false
  let isNamed := if signal.namedValues.isSome then false else namedValues.getD isText
  if isNamed then
    match signal.namedValues, value with
    | none, _ | _, .number _ => .error .assertionError
    | some table, .text label => match table.lookup label with
      | none => .error (.labelKeyError label)
      | some raw => .ok raw
  else
    match value with
    | .text _ => .error .assertionError
    | .number value =>
      if signal.scale = 0 then .error .zeroDivisionError
      else .ok (truncate ((value - signal.offset) / signal.scale))

/-- What one signal of the payload adds to the encoded message. -/
def encodeField (namedValues : Option Bool) (signal : SignalProperties) (value : SignalValue) :
    Except Raised Nat := do
  let value ← convert namedValues signal value
  let signalLength := Bits.bitCount signal.mask
  let maxValue := (1 <<< signalLength) - 1
  if value < 0 ∨ value > maxValue then
    throw (.overflowError
      s!"Value {value} out of range for signal {signal.name} (0-{maxValue})")
  else
    pure ((value.toNat <<< signal.bitOffset) &&& signal.mask)

/-- The loop of `encode`. -/
def encodeSignals (payload : Payload) (namedValues : Option Bool) :
    List SignalProperties → Nat → Except Raised Nat
  | [], encodedMessage => .ok encodedMessage
  | signal :: rest, encodedMessage => match payload.lookup signal.name with
    | none => encodeSignals payload namedValues rest encodedMessage
    | some value => do
      let field ← encodeField namedValues signal value
      encodeSignals payload namedValues rest (encodedMessage ||| field)

def encode (payload : Payload) (signals : List SignalProperties) (dlc : Nat)
    (namedValues : Option Bool) : Except Raised (List UInt8) := do
  let encodedMessage ← encodeSignals payload namedValues signals 0
  toBytes dlc encodedMessage

variable {payload : Payload} {namedValues : Option Bool} {signal : SignalProperties}
  {dlc : Nat}

/-- A signal with a table of its own takes numbers only, and so does every signal where
the caller does not ask for labels. -/
theorem convert_number {value : ℚ} (numeric : namedValues ≠ some true) (scaled : signal.scale ≠ 0) :
    convert namedValues signal (.number value) =
      .ok (truncate ((value - signal.offset) / signal.scale)) := by
  have unnamed : (if signal.namedValues.isSome then false else namedValues.getD false) = false := by
    cases namedValues with
    | none => simp
    | some asked =>
      cases asked with
      | false => simp
      | true => exact absurd rfl numeric
  simp only [convert, unnamed, Bool.false_eq_true, if_false, if_neg scaled]

theorem encodeField_number {value : ℚ} {raw width : Nat} (numeric : namedValues ≠ some true)
    (scaled : signal.scale ≠ 0) (mask : signal.mask = Bits.ones width signal.bitOffset)
    (converts : truncate ((value - signal.offset) / signal.scale) = raw) (fits : raw < 2 ^ width) :
    encodeField namedValues signal (.number value) =
      .ok ((raw <<< signal.bitOffset) &&& signal.mask) := by
  have within : ¬ ((raw : ℤ) < 0 ∨ (raw : ℤ) > ((1 <<< width) - 1 : Nat)) := by
    rw [Nat.one_shiftLeft]
    omega
  simp only [encodeField, convert_number numeric scaled, converts, mask, Bits.bitCount_ones]
  exact if_neg within

section Fields
variable {α : Type} {items : List α} {properties : α → SignalProperties} {field : α → Nat}

theorem encodeSignals_eq_foldlM (signals : List SignalProperties) (encodedMessage : Nat) :
    encodeSignals payload namedValues signals encodedMessage =
      signals.foldlM (fun encodedMessage signal => match payload.lookup signal.name with
        | none => .ok encodedMessage
        | some value => do
          let field ← encodeField namedValues signal value
          return encodedMessage ||| field) encodedMessage := by
  induction signals generalizing encodedMessage with
  | nil => rfl
  | cons signal rest ih =>
    rw [encodeSignals, List.foldlM_cons]
    cases payload.lookup signal.name with
    | none => exact ih encodedMessage
    | some value =>
      cases field : encodeField namedValues signal value with
      | error raised => simp only [field]; rfl
      | ok n => simp only [field]; exact ih (encodedMessage ||| n)

/-- Where every field is encoded, the message is the union of the fields. -/
theorem encodeSignals_ok (present : ∀ item ∈ items, ∃ value,
      payload.lookup (properties item).name = some value ∧
        encodeField namedValues (properties item) value = .ok (field item)) (encodedMessage : Nat) :
    encodeSignals payload namedValues (items.map properties) encodedMessage =
      .ok (encodedMessage ||| Bits.union field items) := by
  rw [encodeSignals_eq_foldlM]
  apply Bits.foldlM_union
  intro item member n
  obtain ⟨value, found, encoded⟩ := present item member
  simp only [found, encoded]
  rfl

theorem encode_ok (present : ∀ item ∈ items, ∃ value,
      payload.lookup (properties item).name = some value ∧
        encodeField namedValues (properties item) value = .ok (field item))
    (room : ∀ item ∈ items, field item < 2 ^ (8 * dlc)) :
    encode payload (items.map properties) dlc namedValues =
      .ok (Bytes.ofNat dlc (Bits.union field items)) := by
  have bound : Bits.union field items < 256 ^ dlc := by
    have small := Bits.union_lt room
    rwa [Nat.pow_mul] at small
  have message := encodeSignals_ok present 0
  rw [Nat.zero_or] at message
  simp only [encode, message]
  exact if_pos bound

end Fields

end Sockcan.Transcoders
