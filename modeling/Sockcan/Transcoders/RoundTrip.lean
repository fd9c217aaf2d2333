import Sockcan.Transcoders.Decoders
import Sockcan.Transcoders.Encoders
import Mathlib.Tactic.Linarith

/-! Encoding physical values and decoding the bytes. The raw values survive; the decoder
then scales them as if to encode them once more. -/
namespace Sockcan.Transcoders

/-- `scale * raw + offset`. -/
def Signal.physical (signal : Signal) (raw : Nat) : ℚ :=
  signal.scale * raw + signal.offset.getD 0

/-- The signals have distinct names and disjoint places inside `dlc` bytes. -/
structure Layout (signals : List Signal) (dlc : Nat) : Prop where
  names : (signals.map Signal.name).Nodup
  disjoint : signals.Pairwise fun a b =>
    Bits.ones a.length a.start &&& Bits.ones b.length b.start = 0
  inside : ∀ signal ∈ signals, signal.start + signal.length ≤ 8 * dlc
  scaled : ∀ signal ∈ signals, signal.scale ≠ 0

/-- The payload gives each of the signals, and nothing else, the physical value of a raw
value of its width. -/
structure Represents (payload : Payload) (signals : List Signal) (raw : Signal → Nat) : Prop where
  values : ∀ signal ∈ signals,
    payload.lookup signal.name = some (.number (signal.physical (raw signal)))
  others : ∀ name ∉ signals.map Signal.name, payload.lookup name = none
  fits : ∀ signal ∈ signals, raw signal < 2 ^ signal.length

/-- Encoding succeeds, and decoding the bytes returns the same dictionary. -/
def RoundTrips (payload : Payload) (signals : List Signal) (dlc : Nat) : Prop :=
  ∃ bytes decoded, encode payload (signals.map buildSignalProperties) dlc none = .ok bytes ∧
    decode bytes (.single (signals.map buildSignalProperties)) false none = .ok decoded ∧
    ∀ name, decoded.lookup name = payload.lookup name

/-- What `int(value)` drops. -/
def fraction (value : ℚ) : ℚ := value - truncate value

/-- The physical value is the raw value, or it has a fraction that scaling the difference
between the two happens to make up for. -/
def Signal.Steady (signal : Signal) (raw : Nat) : Prop :=
  signal.physical raw = raw ∨ fraction (signal.physical raw) ≠ 0 ∧
    signal.scale * (raw - signal.physical raw) = fraction (signal.physical raw)

variable {payload : Payload} {signals : List Signal} {signal : Signal} {dlc : Nat}
  {raw : Signal → Nat}

/-- The field of a signal with this raw value. -/
def Signal.place (signal : Signal) (raw : Nat) : Nat :=
  (raw <<< signal.start) &&& Bits.ones signal.length signal.start

theorem truncate_physical {n : Nat} (scaled : signal.scale ≠ 0) :
    truncate ((signal.physical n - signal.offset.getD 0) / signal.scale) = n := by
  have exact_raw : (signal.physical n - signal.offset.getD 0) / signal.scale = ((n : ℤ) : ℚ) := by
    rw [Signal.physical, add_sub_cancel_right, mul_div_cancel_left₀ _ scaled, Int.cast_natCast]
  rw [exact_raw, truncate_intCast]

theorem Layout.encodes (layout : Layout signals dlc) (represents : Represents payload signals raw) :
    encode payload (signals.map buildSignalProperties) dlc none =
      .ok (Bytes.ofNat dlc (Bits.union (fun signal => signal.place (raw signal)) signals)) := by
  apply encode_ok
  · intro signal member
    refine ⟨_, represents.values signal member, ?_⟩
    exact encodeField_number nofun (layout.scaled signal member) rfl
      (truncate_physical (layout.scaled signal member)) (represents.fits signal member)
  · intro signal member
    exact Nat.lt_of_le_of_lt Nat.and_le_right (Bits.ones_lt (layout.inside signal member))

/-- Every signal reads its own raw value. -/
theorem Layout.field (layout : Layout signals dlc) (raw : Signal → Nat) (member : signal ∈ signals)
    (fits : raw signal < 2 ^ signal.length) :
    Bits.field (Bits.ones signal.length signal.start) signal.start
      (Bits.union (fun signal => signal.place (raw signal)) signals) = raw signal := by
  have own (other : Signal) (_ : other ∈ signals) :
      other.place (raw other) &&& Bits.ones other.length other.start = other.place (raw other) := by
    rw [Signal.place, Nat.and_assoc, Nat.and_self]
  have read := Bits.field_union (fun signal => Bits.ones signal.length signal.start) own
    layout.disjoint member signal.start
  exact read.trans (Bits.field_place fits)

/-- What the decoder makes of the raw value of a signal. -/
def Signal.decoded (signal : Signal) (raw : Nat) : ℚ :=
  (truncate (signal.physical raw) - signal.offset.getD 0) / signal.scale

theorem Signal.decoded_eq_iff {n : Nat} (scaled : signal.scale ≠ 0) :
    signal.decoded n = signal.physical n ↔ signal.Steady n := by
  have balance : signal.decoded n = signal.physical n ↔
      signal.scale * (n - signal.physical n) = fraction (signal.physical n) := by
    rw [decoded, div_eq_iff scaled, sub_eq_iff_eq_add, fraction]
    constructor
    · intro same
      rw [same, physical]
      ring
    · intro made_up
      have exact_value : signal.physical n = signal.scale * n + signal.offset.getD 0 := rfl
      linarith
  rw [balance, Steady]
  constructor
  · intro made_up
    by_cases whole : fraction (signal.physical n) = 0
    · left
      rw [whole, mul_eq_zero, or_iff_right scaled, sub_eq_zero] at made_up
      exact made_up.symm
    · exact Or.inr ⟨whole, made_up⟩
  · rintro (unscaled | ⟨_, made_up⟩)
    · have whole : truncate ((n : ℚ)) = n := truncate_intCast n
      simp [unscaled, fraction, whole]
    · exact made_up

theorem Layout.decodes (layout : Layout signals dlc) (represents : Represents payload signals raw) :
    ∃ result, decode
        (Bytes.ofNat dlc (Bits.union (fun signal => signal.place (raw signal)) signals))
        (.single (signals.map buildSignalProperties)) false none = .ok result ∧
      (∀ signal ∈ signals,
        result.lookup signal.name = some (.number (signal.decoded (raw signal)))) ∧
      ∀ name ∉ signals.map Signal.name, result.lookup name = none := by
  have bound : Bits.union (fun signal => signal.place (raw signal)) signals < 256 ^ dlc := by
    have small : Bits.union (fun signal => signal.place (raw signal)) signals < 2 ^ (8 * dlc) := by
      apply Bits.union_lt
      intro signal member
      exact Nat.lt_of_le_of_lt Nat.and_le_right (Bits.ones_lt (layout.inside signal member))
    rwa [Nat.pow_mul] at small
  have fields : ∀ signal ∈ signals, decodeField false
      (Bits.union (fun signal => signal.place (raw signal)) signals)
        (buildSignalProperties signal) = .ok (.number (signal.decoded (raw signal))) := by
    intro signal member
    rw [decodeField_number (layout.scaled signal member), buildSignalProperties_mask]
    have read := layout.field raw member (represents.fits signal member)
    simp only [buildSignalProperties, read]
    rfl
  obtain ⟨result, decodes, named, others⟩ := decodeSignals_ok layout.names fields ∅
  refine ⟨result, ?_, named, fun name missing => (others name missing).trans (AList.lookup_empty _)⟩
  rw [← decodes, decode, Bytes.toNat_ofNat_of_lt bound]
  rfl

/-- Encoding always succeeds, and decoding the bytes gives the physical values back exactly
when each of them is its raw value, but for fractions that cancel out. -/
theorem round_trips_iff (layout : Layout signals dlc)
    (represents : Represents payload signals raw) :
    RoundTrips payload signals dlc ↔ ∀ signal ∈ signals, signal.Steady (raw signal) := by
  have encodes := layout.encodes represents
  obtain ⟨result, decodes, named, others⟩ := layout.decodes represents
  constructor
  · rintro ⟨bytes, decoded, encoded, back, same⟩ signal member
    obtain rfl := Except.ok.inj (encodes.symm.trans encoded)
    obtain rfl := Except.ok.inj (decodes.symm.trans back)
    have value := same signal.name
    rw [named signal member, represents.values signal member] at value
    have equal : signal.decoded (raw signal) = signal.physical (raw signal) := by
      simpa using value
    exact (Signal.decoded_eq_iff (layout.scaled signal member)).mp equal
  · intro steady
    refine ⟨_, result, encodes, decodes, fun name => ?_⟩
    by_cases known : name ∈ signals.map Signal.name
    · obtain ⟨signal, member, rfl⟩ := List.mem_map.mp known
      have equal := (Signal.decoded_eq_iff (layout.scaled signal member)).mpr (steady signal member)
      rw [named signal member, represents.values signal member, equal]
    · rw [others name known, represents.others name known]

theorem Represents.single {n : Nat} (fits : n < 2 ^ signal.length) :
    Represents ((∅ : Payload).insert signal.name (.number (signal.physical n))) [signal]
      fun _ => n where
  values other member := by
    rw [List.mem_singleton.mp member]
    exact AList.lookup_insert _
  others name missing := by
    have different : name ≠ signal.name := by simpa using missing
    exact (AList.lookup_insert_ne different).trans (AList.lookup_empty name)
  fits other member := by
    rw [List.mem_singleton.mp member]
    exact fits

/-- Four bits with unit scale. -/
def unitSignal : Signal := ⟨"unit", 0, 4, 1, none, none⟩

theorem Layout.unit : Layout [unitSignal] 1 := by
  constructor <;> simp [unitSignal]

/-- Four bits that count down from 2.5. -/
def mirroredSignal : Signal := ⟨"mirrored", 4, 4, -1, some (5 / 2), none⟩

def mirroredRaw (signal : Signal) : Nat := if signal.start = 0 then 5 else 1

theorem unitSignal_physical : unitSignal.physical (mirroredRaw unitSignal) = 5 := by
  norm_num [Signal.physical, unitSignal, mirroredRaw]

theorem mirroredSignal_physical : mirroredSignal.physical (mirroredRaw mirroredSignal) = 3 / 2 := by
  norm_num [Signal.physical, mirroredSignal, mirroredRaw]

def mirroredPayload : Payload :=
  ((∅ : Payload).insert "unit" (.number 5)).insert "mirrored" (.number (3 / 2))

theorem Represents.mirrored :
    Represents mirroredPayload [unitSignal, mirroredSignal] mirroredRaw where
  values signal member := by
    simp only [List.mem_cons, List.not_mem_nil, or_false] at member
    rcases member with rfl | rfl
    · rw [unitSignal_physical]
      rfl
    · rw [mirroredSignal_physical]
      rfl
  others name missing := by
    simp only [List.map_cons, List.map_nil, List.mem_cons, List.not_mem_nil, or_false,
      not_or] at missing
    exact (AList.lookup_insert_ne missing.2).trans
      ((AList.lookup_insert_ne missing.1).trans (AList.lookup_empty name))
  fits := by decide

/-- The value 5 is its raw value. The value 1.5 of the raw value 1 has a fraction, which the
scaled difference makes up for. -/
theorem round_trips_iff_mirrored :
    Layout [unitSignal, mirroredSignal] 1 ∧
      RoundTrips mirroredPayload [unitSignal, mirroredSignal] 1 := by
  have layout : Layout [unitSignal, mirroredSignal] 1 := by
    constructor <;> simp [unitSignal, mirroredSignal]
    decide
  refine ⟨layout, (round_trips_iff layout Represents.mirrored).mpr fun signal member => ?_⟩
  simp only [List.mem_cons, List.not_mem_nil, or_false] at member
  rcases member with rfl | rfl
  · left
    rw [unitSignal_physical]
    rfl
  · have whole : truncate (3 / 2) = 1 := by decide +kernel
    right
    rw [mirroredSignal_physical, fraction, whole]
    norm_num [mirroredRaw, mirroredSignal]

/-- Eight bits with a step of two. -/
def doubledSignal : Signal := ⟨"doubled", 4, 8, 2, none, none⟩

/-- The raw value 3, which stands for 6, is encoded, and decoded as 3. -/
theorem doubled_halves :
    Layout [doubledSignal] 2 ∧ doubledSignal.physical 3 = 6 ∧
      Represents ((∅ : Payload).insert "doubled" (.number (doubledSignal.physical 3)))
        [doubledSignal] (fun _ => 3) ∧
      ¬ RoundTrips ((∅ : Payload).insert "doubled" (.number (doubledSignal.physical 3)))
        [doubledSignal] 2 := by
  have six : doubledSignal.physical 3 = 6 := by norm_num [doubledSignal, Signal.physical]
  have fits : 3 < 2 ^ doubledSignal.length := by decide
  refine ⟨?_, six, Represents.single fits, ?_⟩
  · constructor <;> simp [doubledSignal]
  · rintro ⟨bytes, decoded, encoded, back, same⟩
    rw [six] at encoded same
    have written : encode ((∅ : Payload).insert "doubled" (.number 6))
        ([doubledSignal].map buildSignalProperties) 2 none = .ok [48, 0] := by
      decide +kernel
    obtain rfl := Except.ok.inj (written.symm.trans encoded)
    have read :
        (decode [48, 0] (.single ([doubledSignal].map buildSignalProperties)) false none).map
        (fun result => result.lookup "doubled") = .ok (some (.number 3)) := by
      decide +kernel
    rw [back] at read
    have three : decoded.lookup "doubled" = some (.number 3) := Except.ok.inj read
    have value := same "doubled"
    rw [three, AList.lookup_insert, Option.some.injEq, SignalValue.number.injEq] at value
    exact absurd value (by decide)

end Sockcan.Transcoders
