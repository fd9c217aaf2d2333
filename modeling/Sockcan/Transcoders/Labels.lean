import Sockcan.Transcoders.Floating

/-! Signals with labels. The decoder looks a raw value up in a table that has been turned
around twice, and has no number for one that is missing from it; the encoder takes no label
of a signal that has a table. -/
namespace Sockcan.Transcoders.Floating

/-- The number that the bits of the signal spell, least significant first. -/
def Signal.rawValue (signal : Signal) (payload : List UInt8) : Nat :=
  Bits.field (Bits.ones signal.length signal.start) signal.start (Bytes.toNat payload)

/-- Unsigned little-endian signals with names of their own, scale 1 and offset 0; some of
them may have labels. -/
structure Message.Unscaled (message : Message) : Prop where
  names : (message.signals.map Signal.name).Nodup
  shapes : ∀ signal ∈ message.signals, signal.byteOrder = .littleEndian ∧ signal.isSigned = false
  scales : ∀ signal ∈ message.signals, signal.scale.value = 1
  offsets : ∀ signal ∈ message.signals, signal.offset.value = 0

/-- The label of the raw value, when it has one, and its number otherwise. -/
def Names (choices : AList fun _ : ℤ => String) (raw : Nat) (value : SignalValue) : Prop :=
  match choices.lookup (raw : ℤ) with
  | some label => value = .text label
  | none => ∃ number, value = .number number ∧ number.value = raw

/-- The decoder returns, and names the values of the signals that have labels. -/
def Message.DecodesLabels (message : Message) (payload : List UInt8) : Prop :=
  ∃ decoded, buildDecoder message true none payload = .ok decoded ∧
    ∀ signal ∈ message.signals, ∀ choices, signal.choices = some choices →
      ∃ value, decoded.lookup signal.name = some value ∧
        Names choices (signal.rawValue payload) value

/-- The raw value has a label, and no later entry of the table has the same one. -/
def Kept (choices : AList fun _ : ℤ => String) (raw : Nat) : Prop :=
  ∃ label, Tables.Last choices.entries (raw : ℤ) label

/-- The signal is decoded: a label is found, or the raw value is not too large for a
double. -/
def Signal.Decodes (signal : Signal) (payload : List UInt8) : Prop :=
  match signal.choices with
  | some choices => Kept choices (signal.rawValue payload)
  | none => |Doubles.nearest (signal.rawValue payload)| < Doubles.limit

variable {message : Message} {signal : Signal} {payload : List UInt8}
  {choices : AList fun _ : ℤ => String}

theorem lookup_reversed_labels {raw : ℤ} {label : String} :
    (reversed (labels choices)).lookup raw = some label ↔ Tables.Last choices.entries raw label :=
  Tables.lookup_invert_invert choices

theorem Message.Unscaled.plain (unscaled : message.Unscaled) (member : signal ∈ message.signals)
    (unlabelled : signal.choices = none) : signal.Plain :=
  ⟨unscaled.scales signal member, unscaled.offsets signal member, unlabelled⟩

theorem Message.Unscaled.propertyNames (unscaled : message.Unscaled) :
    ((extractSignalProperties message).map SignalProperties.name).Nodup := by
  rw [extractSignalProperties, List.map_map]
  exact unscaled.names

/-- A signal with labels is decoded to the label that its table has kept. -/
theorem decodeField_labelled (labelled : signal.choices = some choices) (value : SignalValue) :
    decodeField true (Bytes.toNat payload) (buildSignalProperties signal) = .ok value ↔
      ∃ label, value = .text label ∧
        Tables.Last choices.entries (signal.rawValue payload : ℤ) label := by
  have table : (buildSignalProperties signal).reverseNamedValues =
      some (reversed (labels choices)) := by
    simp only [buildSignalProperties, labelled, Option.map_some]
  unfold decodeField
  simp only [table, if_true]
  split
  · next missing =>
    constructor
    · intro decoded
      contradiction
    · rintro ⟨label, _, last⟩
      have found := lookup_reversed_labels.mpr last
      exact absurd (found.symm.trans missing) (Option.some_ne_none label)
  · next kept found =>
    have last := lookup_reversed_labels.mp found
    constructor
    · rintro ⟨⟩
      exact ⟨kept, rfl, last⟩
    · rintro ⟨label, rfl, other⟩
      have same := found.symm.trans (lookup_reversed_labels.mpr other)
      rw [Option.some.inj same]

theorem decodeField_unlabelled (plain : signal.Plain) :
    (∃ value, decodeField true (Bytes.toNat payload) (buildSignalProperties signal) = .ok value) ↔
      |Doubles.nearest (signal.rawValue payload)| < Doubles.limit := by
  have raw : Bits.field (Bits.ones signal.length signal.start) signal.start (Bytes.toNat payload) =
      signal.rawValue payload := rfl
  rw [plain.decodeField, raw]
  constructor
  · rintro ⟨value, decoded⟩
    cases rescaled : rescale (buildSignalProperties signal) (signal.rawValue payload) with
    | error _ =>
      rw [rescaled] at decoded
      contradiction
    | ok number => exact plain.finite_of_rescale rescaled
  · intro finite
    obtain ⟨number, rescaled, _⟩ := plain.rescale_nearest finite
    rw [rescaled]
    exact ⟨.number number, rfl⟩

theorem Message.Unscaled.decodeField_iff (unscaled : message.Unscaled)
    (member : signal ∈ message.signals) :
    (∃ value, decodeField true (Bytes.toNat payload) (buildSignalProperties signal) = .ok value) ↔
      signal.Decodes payload := by
  unfold Signal.Decodes
  cases labelled : signal.choices with
  | none => exact decodeField_unlabelled (unscaled.plain member labelled)
  | some choices =>
    constructor
    · rintro ⟨value, decoded⟩
      obtain ⟨label, _, last⟩ := (decodeField_labelled labelled value).mp decoded
      exact ⟨label, last⟩
    · rintro ⟨label, last⟩
      exact ⟨.text label, (decodeField_labelled labelled _).mpr ⟨label, rfl, last⟩⟩

/-- What has been kept of the table is the label of the raw value. -/
theorem Names.of_last {raw : Nat} {label : String}
    (last : Tables.Last choices.entries (raw : ℤ) label) : Names choices raw (.text label) := by
  have found : choices.lookup (raw : ℤ) = some label := AList.mem_lookup_iff.mpr last.mem
  simp only [Names, found]

/-- The decoder returns exactly when every signal decodes, with the values of the signals. -/
theorem Message.Unscaled.decodes_iff (unscaled : message.Unscaled) :
    (∃ decoded, buildDecoder message true none payload = .ok decoded) ↔
      ∀ signal ∈ message.signals, signal.Decodes payload := by
  constructor
  · rintro ⟨decoded, filled⟩ signal member
    obtain ⟨value, read, _⟩ := (Tables.fill_lookup unscaled.propertyNames filled).1
      (buildSignalProperties signal) (List.mem_map_of_mem member)
    exact (unscaled.decodeField_iff member).mp ⟨value, read⟩
  · intro all
    apply Tables.fill_total
    intro properties member
    obtain ⟨signal, among, rfl⟩ := List.mem_map.mp member
    exact (unscaled.decodeField_iff among).mpr (all signal among)

/-- The decoder returns and names the labelled values exactly when the raw value of every
signal with labels has a label that no later entry of its table takes, and no other raw
value is too large for a double. -/
theorem decodes_labels_iff (unscaled : message.Unscaled) :
    message.DecodesLabels payload ↔ ∀ signal ∈ message.signals, signal.Decodes payload := by
  rw [← unscaled.decodes_iff]
  constructor
  · rintro ⟨decoded, decodes, _⟩
    exact ⟨decoded, decodes⟩
  · rintro ⟨decoded, decodes⟩
    refine ⟨decoded, decodes, ?_⟩
    intro signal member choices labelled
    obtain ⟨value, read, found⟩ := (Tables.fill_lookup unscaled.propertyNames decodes).1
      (buildSignalProperties signal) (List.mem_map_of_mem member)
    obtain ⟨label, rfl, last⟩ := (decodeField_labelled labelled value).mp read
    exact ⟨_, found, Names.of_last last⟩

/-- A signal of four bits with unit scale. -/
def labelledSignal (choices : Option (AList fun _ : ℤ => String)) : Signal :=
  ⟨"state", 0, 4, .littleEndian, false, .int 1, .int 0, choices⟩

theorem labelledSignal_unscaled (choices : Option (AList fun _ : ℤ => String)) :
    (Message.mk [labelledSignal choices] 1).Unscaled := by
  constructor
  · exact List.nodup_singleton _
  · intro signal member
    rw [List.mem_singleton.mp member]
    exact ⟨rfl, rfl⟩
  · intro signal member
    rw [List.mem_singleton.mp member]
    exact Int.cast_one
  · intro signal member
    rw [List.mem_singleton.mp member]
    exact Int.cast_zero

/-- One label, for the raw value that stands for an invalid measurement. -/
def invalidOnly : AList fun _ : ℤ => String := (∅ : AList fun _ : ℤ => String).insert 15 "Invalid"

theorem decodes_labels_iff_invalid :
    (Message.mk [labelledSignal (some invalidOnly)] 1).DecodesLabels [15] := by
  refine (decodes_labels_iff (labelledSignal_unscaled _)).mpr ?_
  intro signal member
  rw [List.mem_singleton.mp member]
  refine ⟨"Invalid", [], [], rfl, ?_⟩
  intro entry member
  contradiction

/-- A measurement that is not invalid raises. -/
theorem decodes_labels_not_measured :
    (Message.mk [labelledSignal (some invalidOnly)] 1).Unscaled ∧
      ¬ (Message.mk [labelledSignal (some invalidOnly)] 1).DecodesLabels [3] := by
  refine ⟨labelledSignal_unscaled _, ?_⟩
  rintro ⟨decoded, decodes, _⟩
  have raised : buildDecoder ⟨[labelledSignal (some invalidOnly)], 1⟩ true none [3] =
      .error (.rawKeyError 3) := by rfl
  rw [raised] at decodes
  contradiction

/-- A payload of the message's length whose bits all belong to its signals. -/
structure Message.Fills (message : Message) (payload : List UInt8) : Prop where
  length : payload.length = message.length
  covered : ∀ i, (Bytes.toNat payload).testBit i = true →
    ∃ signal ∈ message.signals, (Bits.ones signal.length signal.start).testBit i = true

/-- Encoding what the decoder returns gives the payload back. -/
def Message.Restores (message : Message) (payload : List UInt8) : Prop :=
  ∃ decoded, buildDecoder message true none payload = .ok decoded ∧
    buildEncoder message decoded = .ok payload

/-- The signal has no labels, and its raw value is a double. -/
def Signal.Restorable (signal : Signal) (payload : List UInt8) : Prop :=
  signal.choices = none ∧ Doubles.Representable (signal.rawValue payload) ∧
    |(signal.rawValue payload : ℚ)| < Doubles.limit

/-- The union of the masked bits is all of them, if every bit is under a mask. -/
theorem Message.Fills.union (fills : message.Fills payload) :
    Bits.union (fun signal => Bytes.toNat payload &&& Bits.ones signal.length signal.start)
      message.signals = Bytes.toNat payload := by
  apply Nat.eq_of_testBit_eq
  intro i
  rw [Bool.eq_iff_iff, Bits.testBit_union]
  constructor
  · rintro ⟨signal, _, set⟩
    rw [Nat.testBit_and, Bool.and_eq_true] at set
    exact set.1
  · intro set
    obtain ⟨signal, member, under⟩ := fills.covered i set
    exact ⟨signal, member, by rw [Nat.testBit_and, set, under]; rfl⟩

/-- No label is encoded for a signal that has labels. -/
theorem encodeField_label (labelled : signal.choices = some choices) (label : String) :
    encodeField none (buildSignalProperties signal) (.text label) = .error .assertionError := by
  have table : (buildSignalProperties signal).namedValues = some (labels choices) := by
    simp only [buildSignalProperties, labelled, Option.map_some]
  simp only [encodeField, convert, table, Option.isSome_some, if_true, Bool.false_eq_true, if_false]
  rfl

/-- A plain signal is decoded to the double that is nearest to its raw value. -/
theorem Signal.Plain.decodeField_nearest (plain : signal.Plain) {value : SignalValue}
    (read : Floating.decodeField true (Bytes.toNat payload) (buildSignalProperties signal) =
      .ok value) :
    ∃ number, value = .number number ∧ number.Exact ∧
      number.value = Doubles.nearest (signal.rawValue payload) := by
  have raw : Bits.field (Bits.ones signal.length signal.start) signal.start (Bytes.toNat payload) =
      signal.rawValue payload := rfl
  rw [plain.decodeField, raw] at read
  cases rescaled : rescale (buildSignalProperties signal) (signal.rawValue payload) with
  | error _ =>
    rw [rescaled] at read
    contradiction
  | ok number =>
    rw [rescaled] at read
    cases read
    obtain ⟨x, rfl, _⟩ := plain.rescale_double rescaled
    obtain ⟨again, same, nearest⟩ := plain.rescale_nearest (plain.finite_of_rescale rescaled)
    obtain rfl := Except.ok.inj (rescaled.symm.trans same)
    exact ⟨_, rfl, Number.exact_float x, nearest⟩

theorem Signal.rawValue_lt (signal : Signal) (payload : List UInt8) :
    signal.rawValue payload < 2 ^ signal.length := Bits.field_lt

/-- Each signal of a dictionary that was encoded to the payload it was decoded from has no
labels, and its raw value is a double. -/
theorem Message.Unscaled.restorable (unscaled : message.Unscaled)
    (disjoint : message.signals.Pairwise fun a b =>
      Bits.ones a.length a.start &&& Bits.ones b.length b.start = 0)
    (restores : message.Restores payload) (member : signal ∈ message.signals) :
    signal.Restorable payload := by
  obtain ⟨decoded, decodes, encodes⟩ := restores
  obtain ⟨value, read, found⟩ := (Tables.fill_lookup unscaled.propertyNames decodes).1
    (buildSignalProperties signal) (List.mem_map_of_mem member)
  obtain ⟨parts, _, united⟩ := encode_ok_iff.mp encodes
  obtain ⟨part, contributes⟩ := parts (buildSignalProperties signal) (List.mem_map_of_mem member)
  have field : encodeField none (buildSignalProperties signal) value = .ok part := by
    rw [contribution, found] at contributes
    exact contributes
  cases labelled : signal.choices with
  | some choices =>
    obtain ⟨label, rfl, _⟩ := (decodeField_labelled labelled value).mp read
    rw [encodeField_label labelled] at field
    contradiction
  | none =>
    have plain := unscaled.plain member labelled
    obtain ⟨number, rfl, exact_number, nearest⟩ := plain.decodeField_nearest read
    obtain ⟨whole, integral⟩ := Doubles.exists_nearest_eq_intCast (signal.rawValue payload)
    rw [Int.cast_natCast] at integral
    have finite := (decodeField_unlabelled plain).mp ⟨_, read⟩
    have converted := plain.convert_exact exact_number (nearest.symm ▸ finite)
      (nearest.trans integral)
    obtain ⟨raw, same, nonneg, below, rfl⟩ := encodeField_ok_iff.mp field
    obtain rfl := Except.ok.inj (converted.symm.trans same)
    have separate : (extractSignalProperties message).Pairwise fun a b => a.mask &&& b.mask = 0 :=
      List.pairwise_map.mpr disjoint
    have own := Bits.field_union SignalProperties.mask
      (fun properties _ => added_and_mask decoded none properties) separate
      (List.mem_map_of_mem member) signal.start
    rw [← united, added_of_ok contributes] at own
    have small : whole.toNat < 2 ^ signal.length := by
      have mask : (buildSignalProperties signal).mask = Bits.ones signal.length signal.start := rfl
      rw [mask, Bits.bitCount_ones] at below
      apply Int.ofNat_lt.mp
      rw [Int.toNat_of_nonneg nonneg]
      exact_mod_cast below
    have raw : signal.rawValue payload = whole.toNat := own.trans (Bits.field_place small)
    have same : Doubles.nearest (signal.rawValue payload) = signal.rawValue payload := by
      have back : ((whole.toNat : ℤ) : ℚ) = whole := by rw [Int.toNat_of_nonneg nonneg]
      rw [integral, raw, ← back, Int.cast_natCast]
    rw [same] at finite
    have representable := Doubles.representable_nearest (signal.rawValue payload)
    rw [same] at representable
    exact ⟨labelled, representable, finite⟩

/-- A plain signal whose raw value is a double adds the bits that it was read from. -/
theorem Signal.Plain.contribution_eq (plain : signal.Plain) {decoded : Payload} {number : Number}
    (found : decoded.lookup signal.name = some (.number number)) (exact_number : number.Exact)
    (whole : number.value = signal.rawValue payload)
    (finite : |(signal.rawValue payload : ℚ)| < Doubles.limit) :
    contribution decoded none (buildSignalProperties signal) =
      .ok (Bytes.toNat payload &&& Bits.ones signal.length signal.start) := by
  have name : (buildSignalProperties signal).name = signal.name := rfl
  have cast_whole : number.value = ((signal.rawValue payload : ℤ) : ℚ) := by
    rw [whole, Int.cast_natCast]
  have fits : (signal.rawValue payload : ℤ) < 2 ^ signal.length := by
    exact_mod_cast signal.rawValue_lt payload
  rw [contribution, name, found]
  have encoded := plain.encodeField_exact exact_number (whole ▸ finite) cast_whole
    (Int.natCast_nonneg _) fits
  rw [Int.toNat_natCast] at encoded
  exact encoded.trans (congrArg Except.ok Bits.place_field)

/-- What the decoder returns is encoded to the payload again exactly when no signal has
labels and every raw value is a double. -/
theorem restores_iff (unscaled : message.Unscaled)
    (disjoint : message.signals.Pairwise fun a b =>
      Bits.ones a.length a.start &&& Bits.ones b.length b.start = 0)
    (fills : message.Fills payload) :
    message.Restores payload ↔ ∀ signal ∈ message.signals, signal.Restorable payload := by
  constructor
  · intro restores signal member
    exact unscaled.restorable disjoint restores member
  · intro restorable
    have nearest {signal : Signal} (member : signal ∈ message.signals) :
        Doubles.nearest (signal.rawValue payload) = signal.rawValue payload :=
      Doubles.nearest_of_representable (restorable signal member).2.1
    obtain ⟨decoded, decodes⟩ : ∃ decoded,
        buildDecoder message true none payload = .ok decoded := by
      apply unscaled.decodes_iff.mpr
      intro signal member
      rw [Signal.Decodes, (restorable signal member).1, nearest member]
      exact (restorable signal member).2.2
    have contributes (signal : Signal) (member : signal ∈ message.signals) :
        contribution decoded none (buildSignalProperties signal) =
          .ok (Bytes.toNat payload &&& Bits.ones signal.length signal.start) := by
      obtain ⟨value, read, found⟩ := (Tables.fill_lookup unscaled.propertyNames decodes).1
        (buildSignalProperties signal) (List.mem_map_of_mem member)
      have plain := unscaled.plain member (restorable signal member).1
      obtain ⟨number, rfl, exact_number, value⟩ := plain.decodeField_nearest read
      exact plain.contribution_eq found exact_number (value.trans (nearest member))
        (restorable signal member).2.2
    refine ⟨decoded, decodes, encode_ok_iff.mpr ⟨?_, fills.length, ?_⟩⟩
    · intro properties member
      obtain ⟨signal, among, rfl⟩ := List.mem_map.mp member
      exact ⟨_, contributes signal among⟩
    · rw [← fills.union, extractSignalProperties, Bits.union_map]
      apply Bits.union_congr
      intro signal member
      exact (added_of_ok (contributes signal member)).symm

/-- Labels for both raw values of a bit. -/
def offAndOn : AList fun _ : ℤ => String :=
  ((∅ : AList fun _ : ℤ => String).insert 0 "off").insert 1 "on"

theorem labelledSignal_fills (choices : Option (AList fun _ : ℤ => String)) {byte : UInt8}
    (low : byte.toNat < 2 ^ 4) : (Message.mk [labelledSignal choices] 1).Fills [byte] := by
  constructor
  · rfl
  · intro i set
    refine ⟨_, List.mem_singleton_self _, ?_⟩
    rw [Bytes.toNat_cons, Bytes.toNat_nil, Nat.mul_zero, Nat.add_zero] at set
    have inside : i < 4 := by
      by_contra beyond
      have bound : byte.toNat < 2 ^ i :=
        Nat.lt_of_lt_of_le low (Nat.pow_le_pow_right (by decide) (Nat.le_of_not_lt beyond))
      rw [Nat.testBit_lt_two_pow bound] at set
      contradiction
    simpa [labelledSignal] using inside

theorem restores_iff_number :
    (Message.mk [labelledSignal none] 1).Restores [3] := by
  refine (restores_iff (labelledSignal_unscaled none) (List.pairwise_singleton _ _)
    (labelledSignal_fills none (by decide))).mpr ?_
  intro signal member
  rw [List.mem_singleton.mp member]
  have three : (labelledSignal none).rawValue [3] = 3 := by decide
  refine ⟨rfl, ?_, ?_⟩
  · rw [three]
    exact Doubles.representable_of_lt (n := 3) (by decide)
  · rw [three]
    exact Doubles.lt_limit (n := 3) (by decide)

/-- The decoder returns "on", which the encoder does not take. -/
theorem restores_not_labelled :
    (Message.mk [labelledSignal (some offAndOn)] 1).Unscaled ∧
      (Message.mk [labelledSignal (some offAndOn)] 1).Fills [1] ∧
      (offAndOn.entries.map Sigma.snd).Nodup ∧ offAndOn.lookup 1 = some "on" ∧
      (buildDecoder ⟨[labelledSignal (some offAndOn)], 1⟩ true none [1]).map
        (fun decoded => decoded.lookup "state") = .ok (some (.text "on")) ∧
      ¬ (Message.mk [labelledSignal (some offAndOn)] 1).Restores [1] := by
  refine ⟨labelledSignal_unscaled _, labelledSignal_fills _ (by decide), by decide, by decide,
    by rfl, ?_⟩
  intro restores
  have restorable := (labelledSignal_unscaled (some offAndOn)).restorable
    (List.pairwise_singleton _ _) restores List.mem_cons_self
  exact absurd restorable.1 (Option.some_ne_none _)

end Sockcan.Transcoders.Floating
