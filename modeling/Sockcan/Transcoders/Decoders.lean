import Sockcan.Bytes
import Sockcan.Tables
import Sockcan.Transcoders.Common

/-! `decode`: each signal's field is cut out of the payload and converted. -/
namespace Sockcan.Transcoders

/-- The signals of a message: one list, or one for each value of a multiplexer. -/
inductive Signals where
  | single (signals : List SignalProperties)
  | multiplexed (muxSelector : SignalProperties)
      (groups : AList fun _ : Nat => List SignalProperties)

/-- The value of one signal. -/
def decodeField (decodeChoices : Bool) (payload : Nat) (signal : SignalProperties) :
    Except Raised SignalValue :=
  let rawValue := Bits.field signal.mask signal.bitOffset payload
  let number :=
    let value := truncate (signal.scale * rawValue + signal.offset)
    if signal.scale = 0 then .error .zeroDivisionError
    else .ok (.number ((value - signal.offset) / signal.scale))
  match signal.reverseNamedValues with
  | none => number
  | some table =>
    if decodeChoices then
      match table.lookup (rawValue : ℤ) with
      | none => .error (.rawKeyError rawValue)
      | some label => .ok (.text label)
    else number

/-- The loop of `decode`. -/
def decodeSignals (decodeChoices : Bool) (payload : Nat) :
    List SignalProperties → Payload → Except Raised Payload
  | [], decoded => .ok decoded
  | signal :: rest, decoded => do
    let value ← decodeField decodeChoices payload signal
    decodeSignals decodeChoices payload rest (decoded.insert signal.name value)

def decode (payload : List UInt8) (signals : Signals) (decodeChoices : Bool)
    (container : Option Payload) : Except Raised Payload :=
  let payload := Bytes.toNat payload
  let decoded := container.getD ∅
  match signals with
  | .single signals => decodeSignals decodeChoices payload signals decoded
  | .multiplexed muxSelector groups =>
    let muxId := Bits.field muxSelector.mask muxSelector.bitOffset payload
    match groups.lookup muxId with
    | none => .error (.muxKeyError muxId)
    | some signals => decodeSignals decodeChoices payload signals decoded

variable {payload : Nat} {signal : SignalProperties}

theorem decodeField_number (scaled : signal.scale ≠ 0) :
    decodeField false payload signal = .ok (.number
      ((truncate (signal.scale * Bits.field signal.mask signal.bitOffset payload + signal.offset) -
        signal.offset) / signal.scale)) := by
  simp only [decodeField, if_neg scaled, Bool.false_eq_true, if_false]
  cases signal.reverseNamedValues <;> rfl

theorem decodeSignals_eq_fill (decodeChoices : Bool) (signals : List SignalProperties)
    (decoded : Payload) :
    decodeSignals decodeChoices payload signals decoded =
      Tables.fill SignalProperties.name (decodeField decodeChoices payload) signals decoded := by
  induction signals generalizing decoded with
  | nil => rfl
  | cons signal rest ih =>
    cases first : decodeField decodeChoices payload signal with
    | error raised =>
      rw [Tables.fill_cons_error first, decodeSignals, first]
      rfl
    | ok value =>
      rw [Tables.fill_cons first, ← ih, decodeSignals, first]
      rfl

/-- Where every field is decoded, each name gets the value of its signal. -/
theorem decodeSignals_ok {α : Type} {items : List α} {properties : α → SignalProperties}
    {decodeChoices : Bool} {value : α → SignalValue}
    (distinct : (items.map fun item => (properties item).name).Nodup)
    (fields : ∀ item ∈ items,
      decodeField decodeChoices payload (properties item) = .ok (value item))
    (decoded : Payload) :
    ∃ result, decodeSignals decodeChoices payload (items.map properties) decoded = .ok result ∧
      (∀ item ∈ items, result.lookup (properties item).name = some (value item)) ∧
      ∀ name ∉ items.map fun item => (properties item).name,
        result.lookup name = decoded.lookup name := by
  have names : (items.map properties).map SignalProperties.name =
      items.map fun item => (properties item).name := List.map_map
  have reads : ∀ signal ∈ items.map properties,
      ∃ read, decodeField decodeChoices payload signal = .ok read := by
    intro signal member
    obtain ⟨item, among, rfl⟩ := List.mem_map.mp member
    exact ⟨_, fields item among⟩
  obtain ⟨result, filled⟩ := Tables.fill_total reads decoded
  obtain ⟨named, others⟩ := Tables.fill_lookup (names ▸ distinct) filled
  refine ⟨result, (decodeSignals_eq_fill _ _ _).trans filled, ?_, names ▸ others⟩
  intro item member
  obtain ⟨read, reading, found⟩ := named (properties item) (List.mem_map_of_mem member)
  rw [fields item member] at reading
  cases reading
  exact found

end Sockcan.Transcoders
