import Sockcan.Transcoders.Encoders

/-! What `encode` puts into each field, for payloads of numbers: the raw value of a signal
that is present, and zeros everywhere else. -/
namespace Sockcan.Transcoders

/-- Little-endian signals of `length` bits with places of their own inside `dlc` bytes. -/
structure Separate (signals : List SignalProperties) (length : SignalProperties → Nat)
    (dlc : Nat) : Prop where
  names : (signals.map SignalProperties.name).Nodup
  masks : ∀ signal ∈ signals, signal.mask = Bits.ones (length signal) signal.bitOffset
  disjoint : signals.Pairwise fun a b => a.mask &&& b.mask = 0
  inside : ∀ signal ∈ signals, signal.mask < 2 ^ (8 * dlc)
  scaled : ∀ signal ∈ signals, signal.scale ≠ 0

/-- `int((v - offset) / scale)` of a signal that the payload has a number for. -/
def quotient (payload : Payload) (signal : SignalProperties) : Option ℤ :=
  match payload.lookup signal.name with
  | some (.number value) => some (truncate ((value - signal.offset) / signal.scale))
  | some (.text _) | none => none

/-- The payload has nothing but numbers for the signals. -/
def Numeric (payload : Payload) (signals : List SignalProperties) : Prop :=
  ∀ signal ∈ signals, ∀ value, payload.lookup signal.name = some value →
    ∃ number, value = .number number

/-- The quotient of the signal, if it is present, fits in its bits. -/
def InRange (payload : Payload) (length : SignalProperties → Nat) (signal : SignalProperties) :
    Prop :=
  ∀ raw, quotient payload signal = some raw → 0 ≤ raw ∧ raw ≤ 2 ^ length signal - 1

/-- What the signal contributes to the message. -/
def part (payload : Payload) (signal : SignalProperties) : Nat :=
  match quotient payload signal with
  | some raw => (raw.toNat <<< signal.bitOffset) &&& signal.mask
  | none => 0

variable {payload : Payload} {signals : List SignalProperties} {signal : SignalProperties}
  {length : SignalProperties → Nat} {dlc : Nat}

theorem quotient_number {value : ℚ} (present : payload.lookup signal.name = some (.number value)) :
    quotient payload signal = some (truncate ((value - signal.offset) / signal.scale)) := by
  simp only [quotient, present]

theorem quotient_absent (absent : payload.lookup signal.name = none) :
    quotient payload signal = none := by
  simp only [quotient, absent]

theorem one_shiftLeft_pred (width : Nat) : (((1 <<< width) - 1 : Nat) : ℤ) = 2 ^ width - 1 := by
  have positive : 1 ≤ 2 ^ width := Nat.one_le_two_pow
  rw [Nat.one_shiftLeft, Nat.cast_sub positive, Nat.cast_pow]
  rfl

/-- A present signal: its field when the quotient fits, the error otherwise. -/
theorem encodeField_quotient {value : ℚ} (scaled : signal.scale ≠ 0)
    (mask : signal.mask = Bits.ones (length signal) signal.bitOffset)
    (present : payload.lookup signal.name = some (.number value)) :
    (InRange payload length signal →
        encodeField none signal (.number value) = .ok (part payload signal)) ∧
      (¬ InRange payload length signal →
        ∃ message, encodeField none signal (.number value) = .error (.overflowError message)) := by
  have raw := quotient_number present
  have converts : convert none signal (.number value) =
      .ok (truncate ((value - signal.offset) / signal.scale)) := convert_number nofun scaled
  have range : InRange payload length signal ↔
      ¬ (truncate ((value - signal.offset) / signal.scale) < 0 ∨
        truncate ((value - signal.offset) / signal.scale) > ((1 <<< length signal) - 1 : Nat)) := by
    rw [one_shiftLeft_pred]
    simp only [InRange, raw, Option.some.injEq, forall_eq']
    omega
  have limit : Bits.bitCount signal.mask = length signal := by
    rw [mask, Bits.bitCount_ones]
  constructor
  · intro fits
    simp only [encodeField, converts, limit, part, raw]
    exact if_neg (range.mp fits)
  · intro beyond
    rw [range, not_not] at beyond
    simp only [encodeField, converts, limit]
    exact ⟨_, if_pos beyond⟩

/-- The loop, up to the first signal that does not fit. -/
theorem encodeSignals_error (numeric : Numeric payload signals)
    (masks : ∀ signal ∈ signals, signal.mask = Bits.ones (length signal) signal.bitOffset)
    (scaled : ∀ signal ∈ signals, signal.scale ≠ 0)
    (beyond : ∃ signal ∈ signals, ¬ InRange payload length signal) (encodedMessage : Nat) :
    ∃ message, encodeSignals payload none signals encodedMessage =
      .error (.overflowError message) := by
  induction signals generalizing encodedMessage with
  | nil =>
    obtain ⟨signal, member, _⟩ := beyond
    contradiction
  | cons signal rest ih =>
    have later (others : ∃ signal ∈ rest, ¬ InRange payload length signal) (n : Nat) :
        ∃ message, encodeSignals payload none rest n = .error (.overflowError message) := by
      apply ih _ _ _ others
      · exact fun other member => numeric other (List.mem_cons_of_mem _ member)
      · exact fun other member => masks other (List.mem_cons_of_mem _ member)
      · exact fun other member => scaled other (List.mem_cons_of_mem _ member)
    have rest_of (fits : InRange payload length signal) :
        ∃ signal ∈ rest, ¬ InRange payload length signal := by
      obtain ⟨other, member, out⟩ := beyond
      rcases List.mem_cons.mp member with rfl | among
      · exact absurd fits out
      · exact ⟨other, among, out⟩
    cases present : payload.lookup signal.name with
    | none =>
      have fits : InRange payload length signal := by
        intro raw found
        rw [quotient_absent present] at found
        contradiction
      simp only [encodeSignals, present]
      exact later (rest_of fits) encodedMessage
    | some value =>
      obtain ⟨number, rfl⟩ := numeric signal List.mem_cons_self value present
      obtain ⟨inside, outside⟩ := encodeField_quotient (scaled signal List.mem_cons_self)
        (masks signal List.mem_cons_self) present
      simp only [encodeSignals, present]
      by_cases fits : InRange payload length signal
      · rw [inside fits]
        exact later (rest_of fits) _
      · obtain ⟨message, raised⟩ := outside fits
        rw [raised]
        exact ⟨message, rfl⟩

theorem encodeSignals_fields (numeric : Numeric payload signals)
    (masks : ∀ signal ∈ signals, signal.mask = Bits.ones (length signal) signal.bitOffset)
    (scaled : ∀ signal ∈ signals, signal.scale ≠ 0)
    (fits : ∀ signal ∈ signals, InRange payload length signal) (encodedMessage : Nat) :
    encodeSignals payload none signals encodedMessage =
      .ok (encodedMessage ||| Bits.union (part payload) signals) := by
  induction signals generalizing encodedMessage with
  | nil => exact congrArg Except.ok (Nat.or_zero encodedMessage).symm
  | cons signal rest ih =>
    have later (n : Nat) : encodeSignals payload none rest n =
        .ok (n ||| Bits.union (part payload) rest) := by
      apply ih
      · exact fun other member => numeric other (List.mem_cons_of_mem _ member)
      · exact fun other member => masks other (List.mem_cons_of_mem _ member)
      · exact fun other member => scaled other (List.mem_cons_of_mem _ member)
      · exact fun other member => fits other (List.mem_cons_of_mem _ member)
    have split : Bits.union (part payload) (signal :: rest) =
        part payload signal ||| Bits.union (part payload) rest := rfl
    rw [split, ← Nat.or_assoc]
    cases present : payload.lookup signal.name with
    | none =>
      have nothing : part payload signal = 0 := by simp only [part, quotient_absent present]
      simp only [encodeSignals, present, nothing, Nat.or_zero]
      exact later encodedMessage
    | some value =>
      obtain ⟨number, rfl⟩ := numeric signal List.mem_cons_self value present
      obtain ⟨inside, _⟩ := encodeField_quotient (scaled signal List.mem_cons_self)
        (masks signal List.mem_cons_self) present
      simp only [encodeSignals, present, inside (fits signal List.mem_cons_self)]
      exact later _

theorem part_and_mask (payload : Payload) (signal : SignalProperties) :
    part payload signal &&& signal.mask = part payload signal := by
  unfold part
  split
  · rw [Nat.and_assoc, Nat.and_self]
  · exact Nat.zero_and _

/-- The field of a signal, cut out of its own contribution. -/
theorem field_part (mask : signal.mask = Bits.ones (length signal) signal.bitOffset) {raw : ℤ}
    (present : quotient payload signal = some raw) (fits : InRange payload length signal) :
    (Bits.field signal.mask signal.bitOffset (part payload signal) : ℤ) = raw := by
  obtain ⟨nonneg, limit⟩ := fits raw present
  have small : raw.toNat < 2 ^ length signal := by
    apply Int.ofNat_lt.mp
    rw [Int.toNat_of_nonneg nonneg, Nat.cast_pow, Nat.cast_ofNat]
    omega
  simp only [part, present, mask, Bits.field_place small, Int.toNat_of_nonneg nonneg]

/-- The bytes have the quotient of each signal that is present in its field, and zeros in
every other place. -/
structure HoldsFields (payload : Payload) (signals : List SignalProperties) (dlc : Nat)
    (bytes : List UInt8) : Prop where
  length : bytes.length = dlc
  present : ∀ signal ∈ signals, ∀ raw, quotient payload signal = some raw →
    (Bits.field signal.mask signal.bitOffset (Bytes.toNat bytes) : ℤ) = raw
  absent : ∀ signal ∈ signals, payload.lookup signal.name = none →
    Bits.field signal.mask signal.bitOffset (Bytes.toNat bytes) = 0
  elsewhere : ∀ i, (∀ signal ∈ signals, signal.mask.testBit i = false) →
    (Bytes.toNat bytes).testBit i = false

theorem Separate.union_lt (separate : Separate signals length dlc) (payload : Payload) :
    Bits.union (part payload) signals < 256 ^ dlc := by
  have small : Bits.union (part payload) signals < 2 ^ (8 * dlc) := by
    apply Bits.union_lt
    intro signal member
    rw [← part_and_mask]
    exact Nat.lt_of_le_of_lt Nat.and_le_right (separate.inside signal member)
  rwa [Nat.pow_mul] at small

/-- The signal's field in the message is its field in its own contribution. -/
theorem Separate.field_union (separate : Separate signals length dlc) (member : signal ∈ signals) :
    Bits.field signal.mask signal.bitOffset (Bits.union (part payload) signals) =
      Bits.field signal.mask signal.bitOffset (part payload signal) :=
  Bits.field_union SignalProperties.mask (fun other _ => part_and_mask payload other)
    separate.disjoint member signal.bitOffset

theorem Separate.holdsFields (separate : Separate signals length dlc)
    (fits : ∀ signal ∈ signals, InRange payload length signal) :
    HoldsFields payload signals dlc (Bytes.ofNat dlc (Bits.union (part payload) signals)) := by
  have message := Bytes.toNat_ofNat_of_lt (separate.union_lt payload)
  constructor
  · exact Bytes.ofNat_length dlc _
  · intro signal member raw present
    rw [message, separate.field_union member]
    exact field_part (separate.masks signal member) present (fits signal member)
  · intro signal member absent
    have nothing : part payload signal = 0 := by simp only [part, quotient_absent absent]
    rw [message, separate.field_union member, nothing, Bits.field, Nat.zero_and,
      Nat.zero_shiftRight]
  · intro i outside
    rw [message]
    by_contra set
    rw [Bool.not_eq_false, Bits.testBit_union] at set
    obtain ⟨signal, member, set⟩ := set
    rw [← part_and_mask, Nat.testBit_and, outside signal member, Bool.and_false] at set
    contradiction

theorem Separate.encodes (separate : Separate signals length dlc)
    (numeric : Numeric payload signals)
    (fits : ∀ signal ∈ signals, InRange payload length signal) :
    ∃ bytes, encode payload signals dlc none = .ok bytes ∧
      HoldsFields payload signals dlc bytes := by
  refine ⟨_, ?_, separate.holdsFields fits⟩
  have message := encodeSignals_fields numeric separate.masks separate.scaled fits 0
  rw [Nat.zero_or] at message
  simp only [encode, message]
  exact if_pos (separate.union_lt payload)

theorem Separate.overflows (separate : Separate signals length dlc)
    (numeric : Numeric payload signals)
    (beyond : ∃ signal ∈ signals, ¬ InRange payload length signal) :
    ∃ message, encode payload signals dlc none = .error (.overflowError message) := by
  obtain ⟨message, raised⟩ :=
    encodeSignals_error numeric separate.masks separate.scaled beyond 0
  refine ⟨message, ?_⟩
  simp only [encode, raised]
  rfl

/-- Encoding numbers overflows exactly when one of the quotients does not fit, and puts
each of them in its own field otherwise. -/
theorem encode_fields (separate : Separate signals length dlc) (numeric : Numeric payload signals) :
    ((∃ message, encode payload signals dlc none = .error (.overflowError message)) ↔
        ∃ signal ∈ signals, ¬ InRange payload length signal) ∧
      ((¬ ∃ signal ∈ signals, ¬ InRange payload length signal) →
        ∃ bytes, encode payload signals dlc none = .ok bytes ∧
          HoldsFields payload signals dlc bytes) := by
  have holds (within : ¬ ∃ signal ∈ signals, ¬ InRange payload length signal) :
      ∃ bytes, encode payload signals dlc none = .ok bytes ∧
        HoldsFields payload signals dlc bytes := by
    apply separate.encodes numeric
    intro signal member
    by_contra beyond
    exact within ⟨signal, member, beyond⟩
  constructor
  · constructor
    · rintro ⟨message, raised⟩
      by_contra within
      obtain ⟨bytes, encoded, _⟩ := holds within
      rw [encoded] at raised
      contradiction
    · exact separate.overflows numeric
  · exact holds

theorem numeric_insert (name : String) (value : ℚ) (signals : List SignalProperties) :
    Numeric ((∅ : Payload).insert name (.number value)) signals := by
  intro signal _ found present
  by_cases same : signal.name = name
  · rw [same, AList.lookup_insert, Option.some.injEq] at present
    exact ⟨value, present.symm⟩
  · rw [AList.lookup_insert_ne same, AList.lookup_empty] at present
    contradiction

/-- Three bits and, straddling two bytes, eleven more; the payload has the second signal. -/
def straddling : List SignalProperties :=
  [{ name := "low", mask := Bits.ones 3 0, bitOffset := 0 },
    { name := "high", mask := Bits.ones 11 3, bitOffset := 3, scale := 2, offset := 1 }]

/-- The lengths of these signals. -/
def straddlingLength (signal : SignalProperties) : Nat := if signal.bitOffset = 0 then 3 else 11

theorem straddling_separate : Separate straddling straddlingLength 2 := by
  constructor
  · decide
  · simp [straddling, straddlingLength]
  · simp only [straddling, List.pairwise_cons, List.mem_singleton, forall_eq]
    decide
  · simp only [straddling, List.mem_cons, List.not_mem_nil, or_false, forall_eq_or_imp, forall_eq]
    decide
  · simp [straddling]

/-- The raw value 1023 is put into its field, and the other one is clear. The raw value 2048
is too wide. -/
theorem encode_fields_straddling :
    (∃ bytes, encode ((∅ : Payload).insert "high" (.number 2047)) straddling 2 none = .ok bytes ∧
        HoldsFields ((∅ : Payload).insert "high" (.number 2047)) straddling 2 bytes) ∧
      ∃ message, encode ((∅ : Payload).insert "high" (.number 4097)) straddling 2 none =
        .error (.overflowError message) := by
  constructor
  · refine (encode_fields straddling_separate (numeric_insert _ _ _)).2 ?_
    rintro ⟨signal, member, beyond⟩
    apply beyond
    intro raw given
    simp only [straddling, List.mem_cons, List.not_mem_nil, or_false] at member
    rcases member with rfl | rfl
    · contradiction
    · have value : some (1023 : ℤ) = some raw := by
        rw [← given]
        decide +kernel
      cases value
      decide
  · refine (encode_fields straddling_separate (numeric_insert _ _ _)).1.mpr ?_
    refine ⟨_, List.mem_cons_of_mem _ List.mem_cons_self, fun inside => ?_⟩
    have within := inside 2048 (by decide +kernel)
    exact absurd within (by decide)

end Sockcan.Transcoders
