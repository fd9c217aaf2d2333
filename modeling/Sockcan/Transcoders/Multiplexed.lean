import Sockcan.Transcoders.Floating

/-! Messages with one multiplexer. The encoder goes through the signals of all groups in one
list; the decoder reads the multiplexer first and then the signals of the group it names. -/
namespace Sockcan.Transcoders.Floating

/-- A `cantools` signal of a multiplexed message. -/
structure MuxSignal extends Signal where
  isMultiplexer : Bool
  multiplexerIds : Option (List Nat)

/-- `isMultiplexed` is what `message.is_multiplexed()` returns. -/
structure MuxMessage where
  signals : List MuxSignal
  length : Nat
  isMultiplexed : Bool

/-- `selector is None or sig.multiplexer_ids is None or selector in sig.multiplexer_ids`. -/
def MuxSignal.selectedBy (selector : Option Nat) (signal : MuxSignal) : Bool :=
  match selector, signal.multiplexerIds with
  | none, _ | _, none => true
  | some muxId, some ids => ids.contains muxId

def MuxSignal.properties (signal : MuxSignal) : SignalProperties :=
  buildSignalProperties signal.toSignal

namespace MuxMessage

def extractSignalProperties (message : MuxMessage) (selector : Option Nat) :
    List SignalProperties :=
  (message.signals.filter (MuxSignal.selectedBy selector)).map MuxSignal.properties

def buildEncoder (message : MuxMessage) (payload : Payload) : Except Raised (List UInt8) :=
  encode payload (message.extractSignalProperties none) message.length none

def allMuxIds (message : MuxMessage) : List Nat :=
  message.signals.flatMap fun signal => signal.multiplexerIds.getD []

def muxMapping (message : MuxMessage) (muxId : Nat) : Option (List SignalProperties) :=
  if muxId ∈ message.allMuxIds then some (message.extractSignalProperties (some muxId)) else none

/-- The decoder that `build_decoder` returns, or what building it raises. -/
def buildDecoder (message : MuxMessage) (decodeChoices : Bool) (container : Option Payload)
    (payload : List UInt8) : Except Raised Payload :=
  if message.isMultiplexed then
    match message.signals.filter MuxSignal.isMultiplexer with
    | [selector] =>
      let muxId := Bits.field selector.properties.mask selector.properties.bitOffset
        (Bytes.toNat payload)
      match message.muxMapping muxId with
      | none => .error (.muxKeyError muxId)
      | some signals => decode payload signals decodeChoices container
    | _ => .error .assertionError
  else decode payload (message.extractSignalProperties none) decodeChoices container

/-- One multiplexer, which is in no group itself; unsigned little-endian signals with names of
their own and without labels, disjoint within each group together with those in none. -/
structure Layout (message : MuxMessage) (selector : MuxSignal) : Prop where
  multiplexed : message.isMultiplexed = true
  multiplexers : message.signals.filter MuxSignal.isMultiplexer = [selector]
  ungrouped : selector.multiplexerIds = none
  names : (message.signals.map fun signal => signal.name).Nodup
  shapes : ∀ signal ∈ message.signals,
    signal.byteOrder = .littleEndian ∧ signal.isSigned = false ∧ signal.choices = none
  disjoint : ∀ muxId ∈ message.allMuxIds,
    (message.signals.filter (MuxSignal.selectedBy (some muxId))).Pairwise fun a b =>
      Bits.ones a.length a.start &&& Bits.ones b.length b.start = 0

end MuxMessage

/-- The raw value that the encoder makes of the signal's value in the dictionary. -/
def MuxSignal.raw (payload : Payload) (signal : MuxSignal) : Option ℤ :=
  match payload.lookup signal.name with
  | none => none
  | some value => (convert none signal.properties value).toOption

/-- The bits of this raw value in the place of the signal. -/
def MuxSignal.placed (payload : Payload) (signal : MuxSignal) : Nat :=
  match signal.raw payload with
  | none => 0
  | some raw => (raw.toNat <<< signal.start) &&& Bits.ones signal.length signal.start

/-- The number that the bits of the signal spell, least significant first. -/
def MuxSignal.content (signal : MuxSignal) (message : Nat) : Nat :=
  Bits.field (Bits.ones signal.length signal.start) signal.start message

/-- The dictionary has the id of the group for the multiplexer. -/
def MuxSignal.Chooses (selector : MuxSignal) (payload : Payload) (muxId : Nat) : Prop :=
  ∃ number, payload.lookup selector.name = some (.number number) ∧ number.value = muxId

/-- The bytes select the group, its signals and no others are returned, and those that the
dictionary has hold their own raw values. -/
structure MuxMessage.Intact (message : MuxMessage) (selector : MuxSignal) (payload : Payload)
    (muxId : Nat) (bytes : List UInt8) : Prop where
  selects : selector.content (Bytes.toNat bytes) = muxId
  returns : ∃ decoded, message.buildDecoder true none bytes = .ok decoded ∧
    ∀ name, decoded.lookup name ≠ none ↔
      ∃ signal ∈ message.signals, signal.selectedBy (some muxId) ∧ signal.name = name
  holds : ∀ signal ∈ message.signals, signal.selectedBy (some muxId) →
    payload.lookup signal.name ≠ none →
      signal.raw payload = some (signal.content (Bytes.toNat bytes) : ℤ)

/-- The raw value of the multiplexer is its value, the signals of other groups set no bit in
the place of a signal of this group that its own value leaves clear, and the arithmetic of
the decoder takes what is in the places of the group. -/
structure MuxMessage.Apart (message : MuxMessage) (selector : MuxSignal) (payload : Payload)
    (muxId : Nat) : Prop where
  selector : selector.raw payload = some (muxId : ℤ)
  clear : ∀ signal ∈ message.signals, signal.selectedBy (some muxId) →
    payload.lookup signal.name ≠ none →
      ∀ other ∈ message.signals, ¬ other.selectedBy (some muxId) →
        ∀ i, (other.placed payload).testBit i = true →
          (Bits.ones signal.length signal.start).testBit i = true →
            (signal.placed payload).testBit i = true
  rescales : ∀ signal ∈ message.signals, signal.selectedBy (some muxId) →
    ∃ number, rescale signal.properties
      (signal.content (Bits.union (MuxSignal.placed payload) message.signals)) = .ok number

variable {message : MuxMessage} {selector signal other : MuxSignal} {payload : Payload}
  {muxId : Nat} {bytes : List UInt8}

theorem MuxSignal.properties_mask (signal : MuxSignal) :
    signal.properties.mask = Bits.ones signal.length signal.start := rfl

/-- Without a selector no signal is left out. -/
theorem MuxMessage.extractSignalProperties_none (message : MuxMessage) :
    message.extractSignalProperties none = message.signals.map MuxSignal.properties := by
  have all : message.signals.filter (MuxSignal.selectedBy none) = message.signals := by
    rw [List.filter_eq_self]
    intro signal _
    rfl
  rw [extractSignalProperties, all]

theorem MuxMessage.Layout.selector_mem (layout : message.Layout selector) :
    selector ∈ message.signals := by
  have member : selector ∈ message.signals.filter MuxSignal.isMultiplexer := by
    rw [layout.multiplexers]
    exact List.mem_singleton_self selector
  exact List.mem_of_mem_filter member

theorem MuxMessage.Layout.selector_selected (layout : message.Layout selector) (muxId : Nat) :
    selector.selectedBy (some muxId) = true := by
  simp only [MuxSignal.selectedBy, layout.ungrouped]

/-- What the encoder adds for a signal are the bits of its raw value, which fits. -/
theorem MuxSignal.added_eq_placed {part : Nat}
    (contributes : contribution payload none signal.properties = .ok part) :
    part = signal.placed payload ∧
      ∀ raw, signal.raw payload = some raw → 0 ≤ raw ∧ raw < 2 ^ signal.length := by
  have name : signal.properties.name = signal.name := rfl
  rw [contribution, name] at contributes
  cases present : payload.lookup signal.name with
  | none =>
    have absent : signal.raw payload = none := by simp only [raw, present]
    rw [present] at contributes
    cases contributes
    constructor
    · simp only [placed, absent]
    · intro raw found
      rw [absent] at found
      contradiction
  | some value =>
    rw [present] at contributes
    obtain ⟨raw, converted, nonneg, below, rfl⟩ := encodeField_ok_iff.mp contributes
    have own : signal.raw payload = some raw := by
      simp only [MuxSignal.raw, present, converted]
      rfl
    rw [properties_mask, Bits.bitCount_ones] at below
    constructor
    · simp only [placed, own]
      rfl
    · intro other found
      rw [own] at found
      cases found
      exact ⟨nonneg, below⟩

theorem MuxSignal.placed_and_mask (payload : Payload) (signal : MuxSignal) :
    signal.placed payload &&& Bits.ones signal.length signal.start = signal.placed payload := by
  unfold placed
  split
  · exact Nat.zero_and _
  · rw [Nat.and_assoc, Nat.and_self]

/-- Bytes that were encoded are the union of the raw values in their places. -/
theorem MuxMessage.buildEncoder_ok (encoded : message.buildEncoder payload = .ok bytes) :
    Bytes.toNat bytes = Bits.union (MuxSignal.placed payload) message.signals ∧
      ∀ signal ∈ message.signals, payload.lookup signal.name ≠ none →
        ∃ raw : ℤ, signal.raw payload = some raw ∧ 0 ≤ raw ∧ raw < 2 ^ signal.length := by
  rw [buildEncoder, extractSignalProperties_none] at encoded
  obtain ⟨parts, _, united⟩ := encode_ok_iff.mp encoded
  constructor
  · rw [united, Bits.union_map]
    apply Bits.union_congr
    intro signal member
    obtain ⟨part, contributes⟩ := parts signal.properties (List.mem_map_of_mem member)
    rw [added_of_ok contributes, (MuxSignal.added_eq_placed contributes).1]
  · intro signal member present
    obtain ⟨part, contributes⟩ := parts signal.properties (List.mem_map_of_mem member)
    have fits := (MuxSignal.added_eq_placed contributes).2
    obtain ⟨value, found⟩ := Option.ne_none_iff_exists'.mp present
    have name : signal.properties.name = signal.name := rfl
    rw [contribution, name, found] at contributes
    obtain ⟨raw, converted, _⟩ := encodeField_ok_iff.mp contributes
    have own : signal.raw payload = some raw := by
      simp only [MuxSignal.raw, found, converted]
      rfl
    exact ⟨raw, own, fits raw own⟩

/-- A bit in the place of a signal of the group is its own, or one of another group's. -/
theorem MuxMessage.Layout.testBit_union (layout : message.Layout selector)
    (declared : muxId ∈ message.allMuxIds) (member : signal ∈ message.signals)
    (selected : signal.selectedBy (some muxId) = true) {i : Nat}
    (under : (Bits.ones signal.length signal.start).testBit i = true)
    (set : (Bits.union (MuxSignal.placed payload) message.signals).testBit i = true) :
    (signal.placed payload).testBit i = true ∨
      ∃ other ∈ message.signals, ¬ other.selectedBy (some muxId) ∧
        (other.placed payload).testBit i = true := by
  obtain ⟨other, among, set⟩ := Bits.testBit_union.mp set
  by_cases active : other.selectedBy (some muxId) = true
  · by_cases same : other = signal
    · left
      exact same ▸ set
    · have symmetric : Std.Symm fun a b : MuxSignal =>
          Bits.ones a.length a.start &&& Bits.ones b.length b.start = 0 :=
        ⟨fun _ _ zero => (Nat.and_comm _ _).trans zero⟩
      have apart := (layout.disjoint muxId declared).forall
        (List.mem_filter.mpr ⟨among, active⟩) (List.mem_filter.mpr ⟨member, selected⟩) same
      rw [← MuxSignal.placed_and_mask, Nat.testBit_and, Bool.and_eq_true] at set
      have both : (Bits.ones other.length other.start &&&
          Bits.ones signal.length signal.start).testBit i = true := by
        rw [Nat.testBit_and, set.2, under]
        rfl
      rw [apart, Nat.zero_testBit] at both
      contradiction
  · right
    exact ⟨other, among, active, set⟩

/-- A signal of the group holds its own raw value exactly when the other groups set no bit in
its place that it leaves clear. -/
theorem MuxMessage.Layout.holds_iff (layout : message.Layout selector)
    (declared : muxId ∈ message.allMuxIds) (member : signal ∈ message.signals)
    (selected : signal.selectedBy (some muxId) = true) {raw : ℤ}
    (own : signal.raw payload = some raw) (nonneg : 0 ≤ raw) (below : raw < 2 ^ signal.length) :
    signal.content (Bits.union (MuxSignal.placed payload) message.signals) = raw ↔
      ∀ other ∈ message.signals, ¬ other.selectedBy (some muxId) →
        ∀ i, (other.placed payload).testBit i = true →
          (Bits.ones signal.length signal.start).testBit i = true →
            (signal.placed payload).testBit i = true := by
  have placed : signal.placed payload =
      (raw.toNat <<< signal.start) &&& Bits.ones signal.length signal.start := by
    simp only [MuxSignal.placed, own]
  constructor
  · intro holds other among inactive i set under
    have same : raw.toNat =
        signal.content (Bits.union (MuxSignal.placed payload) message.signals) := by
      rw [← holds, Int.toNat_natCast]
    rw [placed, same, MuxSignal.content, Bits.place_field, Nat.testBit_and, under, Bool.and_true]
    exact Bits.testBit_union.mpr ⟨other, among, set⟩
  · intro clear
    have small : raw.toNat < 2 ^ signal.length := by
      apply Int.ofNat_lt.mp
      rw [Int.toNat_of_nonneg nonneg]
      exact_mod_cast below
    have masked : Bits.union (MuxSignal.placed payload) message.signals &&&
        Bits.ones signal.length signal.start = signal.placed payload := by
      apply Nat.eq_of_testBit_eq
      intro i
      rw [Bool.eq_iff_iff, Nat.testBit_and, Bool.and_eq_true]
      constructor
      · rintro ⟨set, under⟩
        rcases layout.testBit_union declared member selected under set with
          mine | ⟨other, among, inactive, set⟩
        · exact mine
        · exact clear other among inactive i set under
      · intro set
        have under := set
        rw [← MuxSignal.placed_and_mask, Nat.testBit_and, Bool.and_eq_true] at under
        exact ⟨Bits.testBit_union.mpr ⟨signal, member, set⟩, under.2⟩
    have content : signal.content (Bits.union (MuxSignal.placed payload) message.signals) =
        raw.toNat := by
      have read : Bits.field (Bits.ones signal.length signal.start) signal.start
          (signal.placed payload) = raw.toNat := placed ▸ Bits.field_place small
      rw [Bits.field, MuxSignal.placed_and_mask] at read
      rw [MuxSignal.content, Bits.field, masked, read]
    rw [content, Int.toNat_of_nonneg nonneg]

theorem MuxMessage.mem_group {properties : SignalProperties} :
    properties ∈ message.extractSignalProperties (some muxId) ↔
      ∃ signal ∈ message.signals, signal.selectedBy (some muxId) = true ∧
        signal.properties = properties := by
  simp only [extractSignalProperties, List.mem_map, List.mem_filter, and_assoc]

theorem MuxMessage.Layout.groupNames (layout : message.Layout selector) (muxId : Nat) :
    ((message.extractSignalProperties (some muxId)).map SignalProperties.name).Nodup := by
  rw [extractSignalProperties, List.map_map]
  exact layout.names.sublist (List.filter_sublist.map _)

/-- With a declared group in the multiplexer's place the decoder reads this group. -/
theorem MuxMessage.Layout.buildDecoder_eq (layout : message.Layout selector)
    (declared : muxId ∈ message.allMuxIds)
    (selects : selector.content (Bytes.toNat bytes) = muxId) :
    message.buildDecoder true none bytes =
      Tables.fill SignalProperties.name (decodeField true (Bytes.toNat bytes))
        (message.extractSignalProperties (some muxId)) ∅ := by
  have read : Bits.field selector.properties.mask selector.properties.bitOffset
      (Bytes.toNat bytes) = muxId := selects
  simp only [buildDecoder, layout.multiplexed, if_true, layout.multiplexers, read, muxMapping,
    declared]
  rfl

theorem MuxMessage.Layout.decodeField_iff (layout : message.Layout selector)
    (member : signal ∈ message.signals) :
    (∃ value, decodeField true (Bytes.toNat bytes) signal.properties = .ok value) ↔
      ∃ number, rescale signal.properties (signal.content (Bytes.toNat bytes)) = .ok number := by
  obtain ⟨_, _, unlabelled⟩ := layout.shapes signal member
  have table : signal.properties.reverseNamedValues = none := by
    simp only [MuxSignal.properties, buildSignalProperties, unlabelled, Option.map_none]
  have content : Bits.field signal.properties.mask signal.properties.bitOffset
      (Bytes.toNat bytes) = signal.content (Bytes.toNat bytes) := rfl
  simp only [decodeField, table, content]
  cases rescale signal.properties (signal.content (Bytes.toNat bytes)) with
  | error raised =>
    constructor
    · rintro ⟨value, decoded⟩
      contradiction
    · rintro ⟨number, rescaled⟩
      contradiction
  | ok number => exact iff_of_true ⟨_, rfl⟩ ⟨_, rfl⟩

/-- The keys of what is read of a group are its names. -/
theorem MuxMessage.Layout.keys (layout : message.Layout selector) {decoded : Payload}
    (filled : Tables.fill SignalProperties.name (decodeField true (Bytes.toNat bytes))
      (message.extractSignalProperties (some muxId)) ∅ = .ok decoded) (name : String) :
    decoded.lookup name ≠ none ↔
      ∃ signal ∈ message.signals, signal.selectedBy (some muxId) ∧ signal.name = name := by
  obtain ⟨named, others⟩ := Tables.fill_lookup (layout.groupNames muxId) filled
  constructor
  · intro present
    by_contra unknown
    apply present
    rw [others name, AList.lookup_empty]
    intro member
    obtain ⟨properties, among, same⟩ := List.mem_map.mp member
    obtain ⟨signal, signal_mem, selected, rfl⟩ := mem_group.mp among
    exact unknown ⟨signal, signal_mem, selected, same⟩
  · rintro ⟨signal, member, selected, rfl⟩
    obtain ⟨value, _, found⟩ := named signal.properties
      (mem_group.mpr ⟨signal, member, selected, rfl⟩)
    have present : decoded.lookup signal.name = some value := found
    rw [present]
    exact Option.some_ne_none value

/-- Bytes that were encoded keep the group of the multiplexer's value exactly when this value
is its raw value, no signal of another group sets bits in the places of this group that are
to be clear, and the decoder's arithmetic takes what it finds there. -/
theorem group_intact_iff (layout : message.Layout selector)
    (declared : muxId ∈ message.allMuxIds) (chooses : selector.Chooses payload muxId)
    (encoded : message.buildEncoder payload = .ok bytes) :
    message.Intact selector payload muxId bytes ↔ message.Apart selector payload muxId := by
  obtain ⟨united, fits⟩ := MuxMessage.buildEncoder_ok encoded
  have present : payload.lookup selector.name ≠ none := by
    obtain ⟨number, found, _⟩ := chooses
    rw [found]
    exact Option.some_ne_none _
  have active := layout.selector_selected muxId
  constructor
  · rintro ⟨selects, ⟨decoded, decodes, _⟩, holds⟩
    rw [layout.buildDecoder_eq declared selects] at decodes
    constructor
    · rw [holds selector layout.selector_mem active present, selects]
    · intro signal member among has_value
      obtain ⟨raw, own, nonneg, below⟩ := fits signal member has_value
      apply (layout.holds_iff declared member among own nonneg below).mp
      have held := holds signal member among has_value
      rw [own, united] at held
      exact (Option.some.inj held).symm
    · intro signal member among
      obtain ⟨value, read, _⟩ := (Tables.fill_lookup (layout.groupNames muxId) decodes).1
        signal.properties (MuxMessage.mem_group.mpr ⟨signal, member, among, rfl⟩)
      rw [← united]
      exact (layout.decodeField_iff member).mp ⟨value, read⟩
  · rintro ⟨own_id, clear, rescales⟩
    have holds : ∀ signal ∈ message.signals, signal.selectedBy (some muxId) →
        payload.lookup signal.name ≠ none →
          signal.raw payload = some (signal.content (Bytes.toNat bytes) : ℤ) := by
      intro signal member among has_value
      obtain ⟨raw, own, nonneg, below⟩ := fits signal member has_value
      rw [own, united,
        (layout.holds_iff declared member among own nonneg below).mpr (clear signal member among
          has_value)]
    have selects : selector.content (Bytes.toNat bytes) = muxId := by
      have held := holds selector layout.selector_mem active present
      rw [own_id, Option.some.injEq, Nat.cast_inj] at held
      exact held.symm
    refine ⟨selects, ?_, holds⟩
    have reads : ∀ properties ∈ message.extractSignalProperties (some muxId),
        ∃ value, decodeField true (Bytes.toNat bytes) properties = .ok value := by
      intro properties among
      obtain ⟨signal, member, chosen, rfl⟩ := MuxMessage.mem_group.mp among
      apply (layout.decodeField_iff member).mpr
      rw [united]
      exact rescales signal member chosen
    obtain ⟨decoded, filled⟩ : ∃ decoded, Tables.fill SignalProperties.name
        (decodeField true (Bytes.toNat bytes)) (message.extractSignalProperties (some muxId)) ∅ =
          .ok decoded := Tables.fill_total reads ∅
    refine ⟨decoded, ?_, layout.keys filled⟩
    rw [layout.buildDecoder_eq declared selects]
    exact filled

/-- A little-endian signal with unit scale. -/
def muxSignal (name : String) (start length : Nat) (isMultiplexer : Bool)
    (multiplexerIds : Option (List Nat)) : MuxSignal :=
  ⟨⟨name, start, length, .littleEndian, false, .int 1, .int 0, none⟩, isMultiplexer,
    multiplexerIds⟩

/-- A multiplexer of four bits and one signal for each of its first two values, in the same
four bits. -/
def twoGroups : MuxMessage :=
  ⟨[muxSignal "mux" 0 4 true none, muxSignal "zero" 4 4 false (some [0]),
    muxSignal "one" 4 4 false (some [1])], 1, true⟩

/-- The multiplexer with the value 0, and values for both groups. -/
def bothGroups (zero one : ℤ) : Payload :=
  (((∅ : Payload).insert "mux" (.number (.int 0))).insert "zero" (.number (.int zero))).insert "one"
    (.number (.int one))

theorem twoGroups_layout : twoGroups.Layout (muxSignal "mux" 0 4 true none) := by
  constructor
  · rfl
  · rfl
  · rfl
  · decide
  · simp [twoGroups, muxSignal]
  · decide

theorem bothGroups_chooses (zero one : ℤ) :
    (muxSignal "mux" 0 4 true none).Chooses (bothGroups zero one) 0 := by
  refine ⟨.int 0, ?_, Int.cast_zero⟩
  simp only [bothGroups, muxSignal, ne_eq, not_false_eq_true, String.reduceEq,
    AList.lookup_insert_ne, AList.lookup_insert]

theorem bothGroups_apart :
    twoGroups.Apart (muxSignal "mux" 0 4 true none) (bothGroups 1 1) 0 := by
  have one : (muxSignal "one" 4 4 false (some [1])).placed (bothGroups 1 1) = 2 ^ 4 := by
    decide +kernel
  have zero : (muxSignal "zero" 4 4 false (some [0])).placed (bothGroups 1 1) = 2 ^ 4 := by
    decide +kernel
  constructor
  · decide +kernel
  · intro signal member among _ other foreign apart i set within
    simp only [twoGroups, List.mem_cons, List.not_mem_nil, or_false] at member foreign
    rcases foreign with rfl | rfl | rfl
    · exact absurd rfl apart
    · exact absurd rfl apart
    · rw [one, Nat.testBit_two_pow, decide_eq_true_iff] at set
      subst set
      rcases member with rfl | rfl | rfl
      · exact absurd within (by decide)
      · rw [zero, Nat.testBit_two_pow_self]
      · exact absurd among (by decide)
  · intro signal member among
    have small : signal.toSignal.Plain ∧ signal.length = 4 := by
      simp only [twoGroups, List.mem_cons, List.not_mem_nil, or_false] at member
      rcases member with rfl | rfl | rfl <;>
        exact ⟨⟨Int.cast_one, Int.cast_zero, rfl⟩, rfl⟩
    have short (message : Nat) : signal.content message < 2 ^ 53 := by
      have four : signal.content message < 2 ^ signal.length := Bits.field_lt
      rw [small.2] at four
      omega
    obtain ⟨number, rescaled, _⟩ := small.1.rescale_short (short _)
    exact ⟨number, rescaled⟩

/-- Both groups set the same bits. -/
theorem group_intact_iff_same :
    twoGroups.buildEncoder (bothGroups 1 1) = .ok [0x10] ∧
      twoGroups.Intact (muxSignal "mux" 0 4 true none) (bothGroups 1 1) 0 [0x10] := by
  have encoded : twoGroups.buildEncoder (bothGroups 1 1) = .ok [0x10] := by decide +kernel
  exact ⟨encoded, (group_intact_iff twoGroups_layout (by decide) (bothGroups_chooses 1 1)
    encoded).mpr bothGroups_apart⟩

/-- The value 1 of the group and the value 2 of the other one become 3. -/
theorem group_not_intact :
    twoGroups.Layout (muxSignal "mux" 0 4 true none) ∧ 0 ∈ twoGroups.allMuxIds ∧
      (muxSignal "mux" 0 4 true none).Chooses (bothGroups 1 2) 0 ∧
      twoGroups.buildEncoder (bothGroups 1 2) = .ok [0x30] ∧
      ¬ twoGroups.Intact (muxSignal "mux" 0 4 true none) (bothGroups 1 2) 0 [0x30] := by
  have encoded : twoGroups.buildEncoder (bothGroups 1 2) = .ok [0x30] := by decide +kernel
  refine ⟨twoGroups_layout, by decide, bothGroups_chooses 1 2, encoded, ?_⟩
  rintro ⟨_, _, holds⟩
  have held := holds (muxSignal "zero" 4 4 false (some [0])) (by simp [twoGroups]) (by decide)
    (by decide)
  have own : (muxSignal "zero" 4 4 false (some [0])).raw (bothGroups 1 2) = some 1 := by
    decide +kernel
  have content : (muxSignal "zero" 4 4 false (some [0])).content (Bytes.toNat [0x30]) = 3 := by
    decide
  rw [own, content] at held
  exact absurd held (by decide)

end Sockcan.Transcoders.Floating
