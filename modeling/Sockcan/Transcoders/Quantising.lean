import Sockcan.Rounding
import Sockcan.Transcoders.Fields
import Sockcan.Transcoders.RoundTrip
import Mathlib.Data.Rat.Floor

/-! The steps that `encode` chooses. `int()` rounds towards zero, so the raw value is a
nearest one only up to half a step from it, and a value less than one step below the range
still gets in. -/
namespace Sockcan.Transcoders
open Rounding

/-- `(v - offset) / scale`. -/
def Signal.steps (signal : Signal) (value : ℚ) : ℚ :=
  (value - signal.offset.getD 0) / signal.scale

/-- The payload has a number for the signal. -/
def Signal.Given (signal : Signal) (payload : Payload) (value : ℚ) : Prop :=
  payload.lookup signal.name = some (.number value)

/-- The field of the signal in the message. -/
def Signal.read (signal : Signal) (bytes : List UInt8) : Nat :=
  Bits.field (Bits.ones signal.length signal.start) signal.start (Bytes.toNat bytes)

/-- What is given is encoded when nearest steps fit in the fields, and then these are what
the fields have. -/
structure Quantises (payload : Payload) (signals : List Signal) (dlc : Nat) : Prop where
  accepts : (∃ bytes, encode payload (signals.map buildSignalProperties) dlc none = .ok bytes) ↔
    ∀ signal ∈ signals, ∀ value, signal.Given payload value →
      ∃ raw, IsNearest (signal.steps value) raw ∧ 0 ≤ raw ∧ raw ≤ 2 ^ signal.length - 1
  nearest : ∀ bytes, encode payload (signals.map buildSignalProperties) dlc none = .ok bytes →
    ∀ signal ∈ signals, ∀ value, signal.Given payload value →
      IsNearest (signal.steps value) (signal.read bytes) ∧
        |signal.physical (signal.read bytes) - value| ≤ |signal.scale| / 2

/-- At least one step outside the field. -/
def Signal.Beyond (signal : Signal) (value : ℚ) : Prop :=
  signal.steps value ≤ -1 ∨ 2 ^ signal.length ≤ signal.steps value

/-- At most half a step further from zero than a whole number of steps. -/
def Signal.Near (signal : Signal) (value : ℚ) : Prop := Int.fract |signal.steps value| ≤ 1 / 2

variable {payload : Payload} {signals : List Signal} {signal : Signal} {dlc : Nat} {value : ℚ}
  {bytes : List UInt8}

/-- Dropping the fraction is rounding towards zero. -/
theorem truncate_eq_towardsZero (value : ℚ) : truncate value = towardsZero value := by
  unfold towardsZero
  split
  next nonneg =>
    rw [Rat.floor_def', truncate, Int.tdiv_eq_ediv_of_nonneg (Rat.num_nonneg.mpr nonneg)]
  next negative =>
    have opposite : 0 ≤ -value := by linarith
    have positive := Int.tdiv_eq_ediv_of_nonneg (Rat.num_nonneg.mpr opposite) (b := value.den)
    calc truncate value
        = -((-value).num.tdiv value.den) := by
          rw [Rat.num_neg_eq_neg_num, Int.neg_tdiv, neg_neg, truncate]
      _ = -⌊-value⌋ := by rw [positive, Rat.floor_def', Rat.den_neg_eq_den]
      _ = ⌈value⌉ := by rw [Int.floor_neg, neg_neg]

/-- The width of a signal, from its mask. -/
def width (signal : SignalProperties) : Nat := Bits.bitCount signal.mask

@[simp] theorem width_buildSignalProperties (signal : Signal) :
    width (buildSignalProperties signal) = signal.length := by
  rw [width, buildSignalProperties_mask, Bits.bitCount_ones]

theorem Layout.separate (layout : Layout signals dlc) :
    Separate (signals.map buildSignalProperties) width dlc where
  names := by
    rw [List.map_map]
    exact layout.names
  masks := by
    rw [List.forall_mem_map]
    intro signal member
    rw [width_buildSignalProperties]
    rfl
  disjoint := List.pairwise_map.mpr layout.disjoint
  inside := by
    rw [List.forall_mem_map]
    exact fun signal member => Bits.ones_lt (layout.inside signal member)
  scaled := by
    rw [List.forall_mem_map]
    exact layout.scaled

theorem Signal.Given.quotient_eq (given : signal.Given payload value) :
    quotient payload (buildSignalProperties signal) = some (towardsZero (signal.steps value)) := by
  have present : payload.lookup (buildSignalProperties signal).name = some (.number value) := given
  rw [quotient_number present, truncate_eq_towardsZero]
  rfl

/-- A value is accepted when it is less than a step outside the range. -/
theorem Signal.Given.inRange_iff (given : signal.Given payload value) :
    InRange payload width (buildSignalProperties signal) ↔ ¬ signal.Beyond value := by
  have positive : (0 : ℤ) < 2 ^ signal.length := Int.pow_pos (by decide)
  have low := towardsZero_nonneg_iff (q := signal.steps value)
  have high := towardsZero_lt_iff (q := signal.steps value) positive
  push_cast at high
  rw [Signal.Beyond, not_or, not_le, not_le, ← low, ← high]
  simp only [InRange, given.quotient_eq, Option.some.injEq, forall_eq', width_buildSignalProperties,
    Int.le_sub_one_iff]

/-- A signal that the payload has no number for is never out of range. -/
theorem inRange_iff : InRange payload width (buildSignalProperties signal) ↔
    ∀ value, signal.Given payload value → ¬ signal.Beyond value := by
  constructor
  · intro inside value given
    exact given.inRange_iff.mp inside
  · intro inside
    cases present : payload.lookup signal.name with
    | none =>
      intro raw found
      rw [quotient_absent present] at found
      contradiction
    | some value =>
      cases value with
      | text label =>
        intro raw found
        simp only [quotient, buildSignalProperties, present] at found
        contradiction
      | number value => exact Signal.Given.inRange_iff present |>.mpr (inside value present)

/-- The message of a payload of numbers, and the field of each signal that is given. -/
theorem Layout.encode_eq_ok_iff (layout : Layout signals dlc)
    (numeric : Numeric payload (signals.map buildSignalProperties)) :
    (∃ bytes, encode payload (signals.map buildSignalProperties) dlc none = .ok bytes) ↔
      ∀ signal ∈ signals, ∀ value, signal.Given payload value → ¬ signal.Beyond value := by
  have inside : (∀ signal ∈ signals.map buildSignalProperties, InRange payload width signal) ↔
      ∀ signal ∈ signals, ∀ value, signal.Given payload value → ¬ signal.Beyond value := by
    simp only [List.forall_mem_map, inRange_iff]
  rw [← inside]
  constructor
  · rintro ⟨bytes, encoded⟩
    by_contra outside
    push Not at outside
    obtain ⟨message, raised⟩ := layout.separate.overflows numeric outside
    rw [encoded] at raised
    contradiction
  · intro fits
    obtain ⟨bytes, encoded, _⟩ := layout.separate.encodes numeric fits
    exact ⟨bytes, encoded⟩

theorem Layout.read_eq (layout : Layout signals dlc)
    (numeric : Numeric payload (signals.map buildSignalProperties))
    (encoded : encode payload (signals.map buildSignalProperties) dlc none = .ok bytes)
    (member : signal ∈ signals) (given : signal.Given payload value) :
    (signal.read bytes : ℤ) = towardsZero (signal.steps value) := by
  have within := (layout.encode_eq_ok_iff numeric).mp ⟨bytes, encoded⟩
  have fits : ∀ signal ∈ signals.map buildSignalProperties, InRange payload width signal := by
    simpa only [List.forall_mem_map, inRange_iff] using within
  obtain ⟨written, same, holds⟩ := layout.separate.encodes numeric fits
  obtain rfl := Except.ok.inj (same.symm.trans encoded)
  exact holds.present _ (List.mem_map_of_mem member) _ given.quotient_eq

/-- Half a step for the quotient is half the scale for the value. -/
theorem Signal.physical_near {raw : Nat} (scaled : signal.scale ≠ 0)
    (nearest : IsNearest (signal.steps value) raw) :
    |signal.physical raw - value| ≤ |signal.scale| / 2 := by
  have exact_value : signal.scale * signal.steps value + signal.offset.getD 0 = value := by
    rw [steps, mul_div_cancel₀ _ scaled, sub_add_cancel]
  have error := abs_scaled_sub_le (isNearest_iff.mp nearest) signal.scale (signal.offset.getD 0)
  rwa [exact_value] at error

theorem Signal.Beyond.not_nearest {raw : ℤ} (beyond : signal.Beyond value)
    (nearest : IsNearest (signal.steps value) raw) (nonneg : 0 ≤ raw)
    (limit : raw ≤ 2 ^ signal.length - 1) : False := by
  obtain ⟨low, high⟩ := nearest.inside nonneg (Int.lt_of_le_sub_one limit)
  push_cast at high
  rcases beyond with below | above
  · exact absurd low (not_lt.mpr below)
  · exact absurd high (not_lt.mpr above)

theorem Layout.quantises_of_beyond (layout : Layout signals dlc)
    (numeric : Numeric payload (signals.map buildSignalProperties)) (member : signal ∈ signals)
    (given : signal.Given payload value) (beyond : signal.Beyond value) :
    Quantises payload signals dlc := by
  have refused : ¬ ∃ bytes, encode payload (signals.map buildSignalProperties) dlc none =
      .ok bytes := by
    intro encoded
    exact (layout.encode_eq_ok_iff numeric).mp encoded signal member value given beyond
  constructor
  · apply iff_of_false refused
    intro fitting
    obtain ⟨raw, nearest, nonneg, limit⟩ := fitting signal member value given
    exact beyond.not_nearest nearest nonneg limit
  · intro bytes encoded
    exact absurd ⟨bytes, encoded⟩ refused

/-- Where every value is within a step of its field, all are encoded, and what they are
rounded to fits. -/
theorem Layout.quantises_of_near (layout : Layout signals dlc)
    (numeric : Numeric payload (signals.map buildSignalProperties))
    (within : ∀ signal ∈ signals, ∀ value, signal.Given payload value → ¬ signal.Beyond value)
    (near : ∀ signal ∈ signals, ∀ value, signal.Given payload value → signal.Near value) :
    Quantises payload signals dlc := by
  have encodes := (layout.encode_eq_ok_iff numeric).mpr within
  have rounded (signal : Signal) (member : signal ∈ signals) (value : ℚ)
      (given : signal.Given payload value) :
      IsNearest (signal.steps value) (towardsZero (signal.steps value)) :=
    isNearest_towardsZero_iff.mpr (near signal member value given)
  constructor
  · apply iff_of_true encodes
    intro signal member value given
    have inside := given.inRange_iff.mpr (within signal member value given)
    obtain ⟨nonneg, limit⟩ := inside _ given.quotient_eq
    rw [width_buildSignalProperties] at limit
    exact ⟨_, rounded signal member value given, nonneg, limit⟩
  · intro bytes encoded signal member value given
    have nearest : IsNearest (signal.steps value) (signal.read bytes) := by
      rw [layout.read_eq numeric encoded member given]
      exact rounded signal member value given
    exact ⟨nearest, Signal.physical_near (layout.scaled signal member) nearest⟩

/-- Where some value is a step or more outside its field, encoding fails as it should.
Otherwise the steps are nearest ones exactly when every value is at most half a step further
from zero than a whole number of steps. -/
theorem quantises_iff (layout : Layout signals dlc)
    (numeric : Numeric payload (signals.map buildSignalProperties)) :
    Quantises payload signals dlc ↔
      (∃ signal ∈ signals, ∃ value, signal.Given payload value ∧ signal.Beyond value) ∨
        ∀ signal ∈ signals, ∀ value, signal.Given payload value → signal.Near value := by
  have accepted := layout.encode_eq_ok_iff numeric
  by_cases beyond : ∃ signal ∈ signals, ∃ value, signal.Given payload value ∧ signal.Beyond value
  · obtain ⟨signal, member, value, given, out⟩ := beyond
    apply iff_of_true (layout.quantises_of_beyond numeric member given out)
    exact Or.inl ⟨signal, member, value, given, out⟩
  · have within : ∀ signal ∈ signals, ∀ value, signal.Given payload value →
        ¬ signal.Beyond value := by
      intro signal member value given out
      exact beyond ⟨signal, member, value, given, out⟩
    rw [or_iff_right beyond]
    constructor
    · intro quantises signal member value given
      obtain ⟨bytes, encoded⟩ := accepted.mpr within
      have nearest := (quantises.nearest bytes encoded signal member value given).1
      rw [layout.read_eq numeric encoded member given] at nearest
      exact isNearest_towardsZero_iff.mp nearest
    · exact layout.quantises_of_near numeric within

theorem quantises_iff_unit :
    Quantises ((∅ : Payload).insert "unit" (.number (9 / 4))) [unitSignal] 1 := by
  refine (quantises_iff Layout.unit (numeric_insert _ _ _)).mpr (Or.inr ?_)
  intro signal member value given
  obtain rfl := List.mem_singleton.mp member
  have lookup : some (SignalValue.number (9 / 4)) = some (.number value) :=
    (AList.lookup_insert _).symm.trans given
  obtain rfl : 9 / 4 = value := by simpa using lookup
  norm_num [Signal.Near, Signal.steps, unitSignal]

/-- 2.75 steps are encoded as two. -/
theorem unit_drops_fraction :
    Layout [unitSignal] 1 ∧
      Numeric ((∅ : Payload).insert "unit" (.number (11 / 4)))
        ([unitSignal].map buildSignalProperties) ∧
      ¬ Quantises ((∅ : Payload).insert "unit" (.number (11 / 4))) [unitSignal] 1 := by
  refine ⟨Layout.unit, numeric_insert _ _ _, ?_⟩
  intro quantises
  have encoded : encode ((∅ : Payload).insert "unit" (.number (11 / 4)))
      ([unitSignal].map buildSignalProperties) 1 none = .ok [2] := by
    decide +kernel
  have given : unitSignal.Given ((∅ : Payload).insert "unit" (.number (11 / 4))) (11 / 4) :=
    AList.lookup_insert _
  have two : unitSignal.read [2] = 2 := by decide
  have nearest := (quantises.nearest _ encoded unitSignal List.mem_cons_self _ given).1
  rw [two, isNearest_iff] at nearest
  norm_num [Signal.steps, unitSignal] at nearest

end Sockcan.Transcoders
