import Sockcan.Transcoders.Floating
import Mathlib.Data.Int.Bitwise

/-! The layout that a database gives a message, and the messages whose layout the transcoders
honour: they place every signal as an unsigned little-endian one, and their arithmetic goes
through doubles. -/
namespace Sockcan.Transcoders.Floating

/-- The number of a bit when the bits of each byte are counted from the top, and back. -/
def flip (bit : Nat) : Nat := 8 * (bit / 8) + (7 - bit % 8)

@[simp] theorem flip_flip (bit : Nat) : flip (flip bit) = bit := by
  simp only [flip]
  omega

namespace Signal

/-- The place of bit `i` of the value. A little-endian signal starts with its least
significant bit, a big-endian one with its most significant bit. -/
def position (signal : Signal) (i : Nat) : Nat := match signal.byteOrder with
  | .littleEndian => signal.start + i
  | .bigEndian => flip (flip signal.start + (signal.length - 1 - i))

def InRange (signal : Signal) (value : ℤ) : Prop :=
  if signal.isSigned then -2 ^ (signal.length - 1) ≤ value ∧ value < 2 ^ (signal.length - 1)
  else 0 ≤ value ∧ value < 2 ^ signal.length

/-- The bits of the signal are where they would be if it were little-endian. -/
def Aligned (signal : Signal) : Prop := signal.byteOrder = .littleEndian ∨ signal.length = 1

/-- What the signal adds to the encoded message. -/
def place (signal : Signal) (value : ℤ) : Nat :=
  (value.toNat <<< signal.start) &&& Bits.ones signal.length signal.start

/-- This value for the signal, and 0 for all others. -/
def probe (signal : Signal) (value : ℤ) (other : Signal) : ℤ :=
  if other.name = signal.name then value else 0

end Signal

namespace Message

/-- The signals have names and bits of their own inside the message, scale 1, offset 0 and no
labels. -/
structure Layout (message : Message) : Prop where
  names : (message.signals.map Signal.name).Nodup
  lengths : ∀ signal ∈ message.signals, 0 < signal.length
  disjoint : message.signals.Pairwise fun a b =>
    ∀ i < a.length, ∀ j < b.length, a.position i ≠ b.position j
  inside : ∀ signal ∈ message.signals, ∀ i < signal.length,
    signal.position i < 8 * message.length
  plain : ∀ signal ∈ message.signals, signal.Plain

/-- The dictionary that gives every signal its value. -/
def assignment (message : Message) (values : Signal → ℤ) : Payload :=
  (message.signals.map fun signal =>
    (⟨signal.name, .number (.int (values signal))⟩ : Σ _ : String, SignalValue)).toAList

/-- The bits of the values, in two's complement, are at their positions, and all other bits
are 0. -/
def Places (message : Message) (values : Signal → ℤ) (bytes : List UInt8) : Prop :=
  bytes.length = message.length ∧ ∀ bit, Bytes.bit bytes bit = true ↔
    ∃ signal ∈ message.signals, ∃ i < signal.length,
      signal.position i = bit ∧ (values signal).testBit i = true

/-- The dictionary has the values of the signals and nothing else. -/
def Returns (message : Message) (values : Signal → ℤ) (decoded : Payload) : Prop :=
  (∀ signal ∈ message.signals, ∃ number,
    decoded.lookup signal.name = some (.number number) ∧ number.value = values signal) ∧
  ∀ name ∉ message.signals.map Signal.name, decoded.lookup name = none

/-- Encoding the values places their bits, and decoding the bytes returns the values. -/
def Honoured (message : Message) (values : Signal → ℤ) : Prop :=
  ∃ bytes decoded, buildEncoder message (message.assignment values) = .ok bytes ∧
    message.Places values bytes ∧ buildDecoder message true none bytes = .ok decoded ∧
    message.Returns values decoded

end Message

variable {message : Message} {signal : Signal} {values : Signal → ℤ} {value : ℤ} {i : Nat}

theorem Signal.Aligned.position (aligned : signal.Aligned) (inside : i < signal.length) :
    signal.position i = signal.start + i := by
  rw [Signal.position]
  rcases aligned with little | single
  · rw [little]
  · obtain rfl : i = 0 := by omega
    cases signal.byteOrder with
    | littleEndian => rfl
    | bigEndian => simp only [single, Nat.sub_self, Nat.add_zero, flip_flip]

theorem Signal.testBit_place {bit : Nat} : (signal.place value).testBit bit = true ↔
    ∃ i < signal.length, signal.start + i = bit ∧ value.toNat.testBit i = true := by
  simp only [place, Nat.testBit_and, Nat.testBit_shiftLeft, Bits.testBit_ones, Bool.and_eq_true,
    decide_eq_true_eq]
  constructor
  · rintro ⟨⟨_, set⟩, above, below⟩
    exact ⟨bit - signal.start, by omega, by omega, set⟩
  · rintro ⟨i, inside, rfl, set⟩
    have shifted : signal.start + i - signal.start = i := by omega
    exact ⟨⟨by omega, shifted.symm ▸ set⟩, by omega, by omega⟩

theorem testBit_toNat_of_nonneg (nonneg : 0 ≤ value) : value.testBit i = value.toNat.testBit i := by
  lift value to ℕ using nonneg
  rfl

namespace Message

theorem Layout.lookup (layout : message.Layout) (values : Signal → ℤ)
    (member : signal ∈ message.signals) :
    (message.assignment values).lookup signal.name = some (.number (.int (values signal))) := by
  rw [assignment, AList.lookup_to_alist]
  apply List.mem_dlookup
  · have keys : (message.signals.map fun signal =>
        (⟨signal.name, .number (.int (values signal))⟩ : Σ _ : String, SignalValue)).keys =
        message.signals.map Signal.name := List.map_map
    rw [List.NodupKeys, keys]
    exact layout.names
  · exact List.mem_map_of_mem member

/-- Values of at most 53 bits that are not negative are united at the starts of their signals,
whatever the byte orders. -/
theorem Layout.encodes (layout : message.Layout)
    (fits : ∀ signal ∈ message.signals, 0 ≤ values signal ∧ values signal < 2 ^ signal.length ∧
      |values signal| < 2 ^ 53) :
    buildEncoder message (message.assignment values) =
      toBytes message.length
        (Bits.union (fun signal => signal.place (values signal)) message.signals) := by
  have united : encodeSignals (message.assignment values) none (extractSignalProperties message) 0 =
      .ok (0 ||| Bits.union (fun signal => signal.place (values signal)) message.signals) := by
    apply Bits.foldlM_union
    intro signal member n
    obtain ⟨nonneg, below, short⟩ := fits signal member
    have encoded := (layout.plain signal member).encodeField nonneg below short
    have found : (message.assignment values).lookup (buildSignalProperties signal).name = _ :=
      layout.lookup values member
    simp only [found, encoded]
    rfl
  rw [Nat.zero_or] at united
  simp only [buildEncoder, encode, united, bind, Except.bind]

theorem Layout.propertyNames (layout : message.Layout) :
    ((extractSignalProperties message).map SignalProperties.name).Nodup := by
  have same : (extractSignalProperties message).map SignalProperties.name =
      message.signals.map Signal.name := List.map_map
  exact same ▸ layout.names

/-- Where every signal is read as its value, the decoder returns the values. -/
theorem Layout.decodes (layout : message.Layout) {payload : Nat}
    (reads : ∀ signal ∈ message.signals, ∃ number,
      decodeField true payload (buildSignalProperties signal) = .ok (.number number) ∧
        number.value = values signal) :
    ∃ decoded, Tables.fill SignalProperties.name (decodeField true payload)
      (extractSignalProperties message) ∅ = .ok decoded ∧ message.Returns values decoded := by
  have total : ∀ properties ∈ extractSignalProperties message,
      ∃ read, decodeField true payload properties = .ok read := by
    intro properties member
    obtain ⟨signal, among, rfl⟩ := List.mem_map.mp member
    obtain ⟨number, read, _⟩ := reads signal among
    exact ⟨_, read⟩
  obtain ⟨decoded, filled⟩ : ∃ decoded, Tables.fill SignalProperties.name
      (decodeField true payload) (extractSignalProperties message) ∅ = .ok decoded :=
    Tables.fill_total total ∅
  obtain ⟨named, others⟩ := Tables.fill_lookup layout.propertyNames filled
  refine ⟨decoded, filled, ?_, ?_⟩
  · intro signal member
    obtain ⟨number, read, value⟩ := reads signal member
    obtain ⟨found, reading, lookup⟩ := named (buildSignalProperties signal)
      (List.mem_map_of_mem member)
    rw [read] at reading
    cases reading
    exact ⟨number, lookup, value⟩
  · intro name missing
    have absent : name ∉ (extractSignalProperties message).map SignalProperties.name := by
      rw [extractSignalProperties, List.map_map]
      exact missing
    exact (others name absent).trans (AList.lookup_empty name)

/-- Only doubles that are not negative come back. -/
theorem Layout.double_of_honoured (layout : message.Layout) (honoured : message.Honoured values)
    (member : signal ∈ message.signals) :
    0 ≤ values signal ∧ Doubles.Representable (values signal) := by
  obtain ⟨bytes, decoded, _, _, decodes, returns, _⟩ := honoured
  obtain ⟨read, reading, found⟩ := (Tables.fill_lookup layout.propertyNames decodes).1
    (buildSignalProperties signal) (List.mem_map_of_mem member)
  obtain ⟨number, lookup, number_value⟩ := returns signal member
  have same : read = .number number := Option.some.inj (found.symm.trans lookup)
  obtain ⟨x, rfl, nonneg⟩ := (layout.plain signal member).decodeField_double (same ▸ reading)
  have value : x.value = values signal := number_value
  constructor
  · rw [← Int.cast_nonneg_iff (R := ℚ), ← value]
    exact nonneg
  · exact value ▸ x.representable

/-- Aligned signals have disjoint masks inside the message. -/
theorem Layout.masks (layout : message.Layout)
    (aligned : ∀ signal ∈ message.signals, signal.Aligned) :
    (message.signals.Pairwise fun a b =>
      Bits.ones a.length a.start &&& Bits.ones b.length b.start = 0) ∧
      ∀ signal ∈ message.signals, signal.start + signal.length ≤ 8 * message.length := by
  constructor
  · apply layout.disjoint.imp_of_mem
    intro a b a_member b_member apart
    apply Nat.eq_of_testBit_eq
    intro bit
    rw [Nat.testBit_and, Bits.testBit_ones, Bits.testBit_ones, Nat.zero_testBit]
    by_contra both
    simp only [Bool.not_eq_false, Bool.and_eq_true, decide_eq_true_eq] at both
    have a_inside : bit - a.start < a.length := by omega
    have b_inside : bit - b.start < b.length := by omega
    have different := apart _ a_inside _ b_inside
    rw [(aligned a a_member).position a_inside, (aligned b b_member).position b_inside] at different
    omega
  · intro signal member
    have positive := layout.lengths signal member
    have last : signal.length - 1 < signal.length := by omega
    have below := layout.inside signal member _ last
    rw [(aligned signal member).position last] at below
    omega

/-- Where every signal is placed as a little-endian one, short values that are not negative
come back. -/
theorem Layout.honoured_of_aligned (layout : message.Layout)
    (aligned : ∀ signal ∈ message.signals, signal.Aligned)
    (fits : ∀ signal ∈ message.signals, 0 ≤ values signal ∧ values signal < 2 ^ signal.length ∧
      |values signal| < 2 ^ 53) : message.Honoured values := by
  obtain ⟨disjoint, inside⟩ := layout.masks aligned
  let encoded := Bits.union (fun signal => signal.place (values signal)) message.signals
  have bound : encoded < 256 ^ message.length := by
    have small : encoded < 2 ^ (8 * message.length) := by
      apply Bits.union_lt
      intro signal member
      exact Nat.lt_of_le_of_lt Nat.and_le_right (Bits.ones_lt (inside signal member))
    rwa [Nat.pow_mul] at small
  have encodes : buildEncoder message (message.assignment values) =
      .ok (Bytes.ofNat message.length encoded) :=
    (layout.encodes fits).trans (if_pos bound)
  have number : Bytes.toNat (Bytes.ofNat message.length encoded) = encoded :=
    Bytes.toNat_ofNat_of_lt bound
  have places : message.Places values (Bytes.ofNat message.length encoded) := by
    refine ⟨Bytes.ofNat_length _ _, fun bit => ?_⟩
    rw [← Bytes.testBit_toNat, number, Bits.testBit_union]
    apply exists_congr
    intro signal
    apply and_congr_right
    intro member
    rw [Signal.testBit_place]
    apply exists_congr
    intro i
    apply and_congr_right
    intro i_inside
    rw [(aligned signal member).position i_inside, testBit_toNat_of_nonneg (fits signal member).1]
  have reads (signal : Signal) (member : signal ∈ message.signals) :
      ∃ number, decodeField true encoded (buildSignalProperties signal) = .ok (.number number) ∧
        number.value = values signal := by
    obtain ⟨nonneg, below, short⟩ := fits signal member
    have plain := layout.plain signal member
    obtain ⟨raw, raw_eq⟩ := Int.eq_ofNat_of_zero_le nonneg
    rw [raw_eq] at below short
    have own (other : Signal) (_ : other ∈ message.signals) :
        other.place (values other) &&& Bits.ones other.length other.start =
          other.place (values other) := by
      rw [Signal.place, Nat.and_assoc, Nat.and_self]
    have field : Bits.field (Bits.ones signal.length signal.start) signal.start encoded = raw := by
      have kept := Bits.field_union (fun signal => Bits.ones signal.length signal.start) own
        disjoint member signal.start
      have placed : signal.place (values signal) =
          raw <<< signal.start &&& Bits.ones signal.length signal.start := by
        rw [Signal.place, raw_eq, Int.toNat_natCast]
      rw [placed] at kept
      exact kept.trans (Bits.field_place (by exact_mod_cast below))
    have raw_short : raw < 2 ^ 53 := by
      rw [Nat.abs_cast] at short
      exact_mod_cast short
    obtain ⟨number, rescaled, number_eq⟩ := plain.rescale_short raw_short
    refine ⟨number, ?_, ?_⟩
    · rw [plain.decodeField, field, rescaled]
      rfl
    · rw [number_eq, raw_eq, Int.cast_natCast]
  obtain ⟨decoded, decodes, returns⟩ := layout.decodes reads
  refine ⟨_, decoded, encodes, places, ?_, returns⟩
  rw [buildDecoder, decode, number]
  exact decodes

theorem Signal.inRange_zero : signal.InRange 0 := by
  unfold Signal.InRange
  split
  · exact ⟨Int.neg_nonpos_of_nonneg (by positivity), by positivity⟩
  · exact ⟨Int.le_refl 0, by positivity⟩

theorem Layout.probe_inRange (layout : message.Layout) (member : signal ∈ message.signals)
    (inRange : signal.InRange value) :
    ∀ other ∈ message.signals, other.InRange (signal.probe value other) := by
  intro other among
  rw [Signal.probe]
  split
  · rename_i same
    have equal : other = signal := List.inj_on_of_nodup_map layout.names among member same
    exact equal ▸ inRange
  · exact Signal.inRange_zero

/-- The least significant bit of a long big-endian signal is not where it starts. -/
theorem Layout.not_honoured_of_bigEndian (layout : message.Layout)
    (member : signal ∈ message.signals) (big : signal.byteOrder = .bigEndian)
    (long : 1 < signal.length) : ¬ message.Honoured (signal.probe 1) := by
  rintro ⟨bytes, _, encodes, ⟨_, places⟩, _⟩
  have fits : ∀ other ∈ message.signals, 0 ≤ signal.probe 1 other ∧
      signal.probe 1 other < 2 ^ other.length ∧ |signal.probe 1 other| < 2 ^ 53 := by
    intro other among
    rw [Signal.probe]
    split
    · rename_i same
      have equal : other = signal := List.inj_on_of_nodup_map layout.names among member same
      have room : (1 : ℤ) < 2 ^ signal.length := one_lt_pow₀ (by decide) (by omega)
      exact ⟨by decide, equal ▸ room, by decide⟩
    · exact ⟨by decide, by positivity, by decide⟩
  rw [layout.encodes fits, toBytes] at encodes
  split at encodes
  · rename_i bound
    cases encodes
    have placed : (signal.place (signal.probe 1 signal)).testBit signal.start = true := by
      rw [Signal.testBit_place, Signal.probe, if_pos rfl]
      exact ⟨0, by omega, rfl, by decide⟩
    have set := (places signal.start).mp (by
      rw [← Bytes.testBit_toNat, Bytes.toNat_ofNat_of_lt bound, Bits.testBit_union]
      exact ⟨signal, member, placed⟩)
    obtain ⟨other, among, i, inside, position, bit⟩ := set
    rw [Signal.probe] at bit
    split at bit
    · rename_i same
      have equal : other = signal := List.inj_on_of_nodup_map layout.names among member same
      subst equal
      have lowest : i = 0 := by
        rw [testBit_toNat_of_nonneg (by decide)] at bit
        exact Nat.testBit_one_eq_true_iff_self_eq_zero.mp bit
      subst lowest
      rw [Signal.position, big] at position
      have moved := congrArg flip position
      simp only [flip_flip] at moved
      omega
    · rw [testBit_toNat_of_nonneg (Int.le_refl 0), Int.toNat_zero, Nat.zero_testBit] at bit
      contradiction
  · contradiction

end Message

/-- The transcoders honour the layout of a message, for all values in range, exactly when its
signals are unsigned, of at most 53 bits, and little-endian or of a single bit. -/
theorem layout_honoured_iff (layout : message.Layout) :
    (∀ values, (∀ signal ∈ message.signals, signal.InRange (values signal)) →
      message.Honoured values) ↔
    ∀ signal ∈ message.signals, signal.isSigned = false ∧ signal.length ≤ 53 ∧
      (signal.byteOrder = .littleEndian ∨ signal.length = 1) := by
  constructor
  · intro honours signal member
    have probed {value : ℤ} (inRange : signal.InRange value) :
        message.Honoured (signal.probe value) :=
      honours _ (layout.probe_inRange member inRange)
    have returned {value : ℤ} (inRange : signal.InRange value) :
        0 ≤ value ∧ Doubles.Representable value := by
      have double := layout.double_of_honoured (probed inRange) member
      rwa [Signal.probe, if_pos rfl] at double
    have unsigned : signal.isSigned = false := by
      by_contra signed
      have positive : (0 : ℤ) < 2 ^ (signal.length - 1) := by positivity
      have lowest : signal.InRange (-2 ^ (signal.length - 1)) := by
        rw [Signal.InRange, if_pos (by simpa using signed)]
        exact ⟨Int.le_refl _, by omega⟩
      have nonneg := (returned lowest).1
      omega
    have unsigned_inRange {value : ℤ} (nonneg : 0 ≤ value) (below : value < 2 ^ signal.length) :
        signal.InRange value := by
      rw [Signal.InRange, if_neg (by simp [unsigned])]
      exact ⟨nonneg, below⟩
    refine ⟨unsigned, ?_, ?_⟩
    · by_contra long
      have room : (2 ^ 54 : ℤ) ≤ 2 ^ signal.length := pow_le_pow_right₀ (by decide) (by omega)
      have inRange : signal.InRange (2 ^ 53 + 1) := unsigned_inRange (by decide) (by omega)
      exact Doubles.not_representable (returned inRange).2
    · by_contra misplaced
      obtain ⟨big, long⟩ := not_or.mp misplaced
      have positive := layout.lengths signal member
      have bigEndian : signal.byteOrder = .bigEndian := by
        cases order : signal.byteOrder with
        | littleEndian => contradiction
        | bigEndian => rfl
      have room : (1 : ℤ) < 2 ^ signal.length := one_lt_pow₀ (by decide) (by omega)
      exact layout.not_honoured_of_bigEndian member bigEndian (by omega)
        (probed (unsigned_inRange (by decide) room))
  · intro shapes values inRange
    refine layout.honoured_of_aligned (fun signal member => (shapes signal member).2.2) ?_
    intro signal member
    obtain ⟨unsigned, length, _⟩ := shapes signal member
    have bounds := inRange signal member
    rw [Signal.InRange, if_neg (by simp [unsigned])] at bounds
    have short : (2 ^ signal.length : ℤ) ≤ 2 ^ 53 := pow_le_pow_right₀ (by decide) length
    refine ⟨bounds.1, bounds.2, ?_⟩
    rw [abs_of_nonneg bounds.1]
    omega

/-- A signal with scale 1, offset 0 and no labels. -/
def plainSignal (name : String) (start length : Nat) (byteOrder : ByteOrder) : Signal :=
  ⟨name, start, length, byteOrder, false, .int 1, .int 0, none⟩

theorem plainSignal_plain (name : String) (start length : Nat) (byteOrder : ByteOrder) :
    (plainSignal name start length byteOrder).Plain :=
  ⟨Int.cast_one, Int.cast_zero, rfl⟩

/-- Four bits and twelve bits beside each other. -/
def littleMessage : Message :=
  ⟨[plainSignal "low" 0 4 .littleEndian, plainSignal "high" 4 12 .littleEndian], 2⟩

theorem layout_honoured_iff_little :
    littleMessage.Honoured fun signal => if signal.name = "low" then 9 else 0x765 := by
  have layout : littleMessage.Layout := by
    refine ⟨by decide, by decide, by decide, by decide, ?_⟩
    intro signal member
    simp only [littleMessage, List.mem_cons, List.not_mem_nil, or_false] at member
    rcases member with rfl | rfl
    · exact plainSignal_plain _ _ _ _
    · exact plainSignal_plain _ _ _ _
  refine (layout_honoured_iff layout).mpr ?_ _ ?_
  · simp [littleMessage, plainSignal]
  · simp [littleMessage, plainSignal, Signal.InRange]

/-- One big-endian signal of two bytes. -/
def bigMessage : Message := ⟨[plainSignal "word" 7 16 .bigEndian], 2⟩

/-- The value 1 is encoded as 80 00 instead of 00 01. -/
theorem big_endian_misplaced :
    bigMessage.Layout ∧
      (∀ signal ∈ bigMessage.signals, signal.InRange 1) ∧
      buildEncoder bigMessage (bigMessage.assignment fun _ => 1) = .ok [0x80, 0x00] ∧
      ¬ bigMessage.Honoured fun _ => 1 := by
  have encoded : buildEncoder bigMessage (bigMessage.assignment fun _ => 1) =
      .ok [0x80, 0x00] := by
    decide +kernel
  refine ⟨⟨by decide, by decide, by decide, by decide, ?_⟩, ?_, encoded, ?_⟩
  · intro signal member
    rw [List.mem_singleton.mp member]
    exact plainSignal_plain _ _ _ _
  · simp [bigMessage, plainSignal, Signal.InRange]
  · rintro ⟨bytes, decoded, encodes, ⟨_, places⟩, _⟩
    obtain rfl := Except.ok.inj (encoded.symm.trans encodes)
    obtain ⟨signal, member, i, inside, position, bit⟩ := (places 7).mp (by decide)
    have set : (1 : ℤ).testBit i = true := bit
    have lowest : i = 0 := by
      rw [testBit_toNat_of_nonneg (by decide)] at set
      exact Nat.testBit_one_eq_true_iff_self_eq_zero.mp set
    rw [List.mem_singleton.mp member, lowest] at position
    exact absurd position (by decide)

end Sockcan.Transcoders.Floating
