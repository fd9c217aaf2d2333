import Sockcan.Bytes

/-! The 16-byte frame that the stream sockets carry. The header is the packed
`=IBB2x` of the id word, the length and a zero; native byte order is taken to be
little endian. A header that does not pack is the `struct.error` of the source. -/
namespace Sockcan.Protocol

structure Frame where
  canId : Nat
  data : List UInt8
  isExtended : Bool
  deriving DecidableEq, Repr

def canEffFlag : Nat := 0x80000000
def canExtensionMask : Nat := 0x07FFF800
def canIdMask : Nat := 0x1FFFFFFF

/-- `_msg_size` of the stream helpers. -/
def msgSize : Nat := 16

/-- `CAN_FRAME_HEADER_STRUCT.pack`. -/
def headerPack (canId dlc flags : Nat) : Option (List UInt8) :=
  if canId < 2 ^ 32 ∧ dlc < 256 ∧ flags < 256 then
    some (Bytes.ofNat 4 canId ++ [UInt8.ofNat dlc, UInt8.ofNat flags, 0, 0])
  else none

/-- `CAN_FRAME_HEADER_STRUCT.unpack_from`, without the flags byte. -/
def headerUnpack (cf : List UInt8) : Nat × Nat :=
  (Bytes.toNat (cf.take 4), (cf.getD 4 0).toNat)

def buildTxHeader (canId dlc : Nat) (isExtendedId : Bool) : Option (List UInt8) :=
  let word := if isExtendedId || decide (canId &&& canExtensionMask > 0) then
    canId ||| canEffFlag else canId
  headerPack word dlc 0

/-- `data.ljust(8, b"\0")`. -/
def ljust (data : List UInt8) : List UInt8 := data ++ List.replicate (8 - data.length) 0

/-- What a stream sender hands to the socket for one frame. -/
def Frame.payload (frame : Frame) : Option (List UInt8) :=
  (buildTxHeader frame.canId frame.data.length frame.isExtended).map (· ++ ljust frame.data)

/-- The decoding half of `_socketcan_recv_stream`, on the bytes of one frame. -/
def decodeFrame (cf : List UInt8) : Frame :=
  let (word, dlc) := headerUnpack cf
  { canId := word &&& canIdMask
    data := (cf.drop 8).take dlc
    isExtended := decide (word &&& canEffFlag ≠ 0) }

/-- A frame that the stream receiver can return. -/
def Frame.Classic (frame : Frame) : Prop := frame.canId < 2 ^ 29 ∧ frame.data.length ≤ 8

instance (frame : Frame) : Decidable frame.Classic := inferInstanceAs (Decidable (_ ∧ _))

theorem headerPack_length {canId dlc flags : Nat} {header : List UInt8}
    (packed : headerPack canId dlc flags = some header) : header.length = 8 := by
  unfold headerPack at packed
  split at packed
  · cases packed
    simp
  · contradiction

theorem ljust_length (data : List UInt8) : (ljust data).length = max 8 data.length := by
  simp only [ljust, List.length_append, List.length_replicate]
  omega

/-- No payload is shorter than a frame; only data beyond eight bytes make it longer. -/
theorem Frame.payload_length {frame : Frame} {bytes : List UInt8}
    (packed : frame.payload = some bytes) : bytes.length = 8 + max 8 frame.data.length := by
  obtain ⟨header, built, rfl⟩ := Option.map_eq_some_iff.mp packed
  rw [List.length_append, headerPack_length built, ljust_length]

theorem decodeFrame_classic {cf : List UInt8} (whole : cf.length = msgSize) :
    (decodeFrame cf).Classic := by
  simp only [msgSize] at whole
  refine ⟨?_, ?_⟩
  · have bound := Nat.and_le_right (n := Bytes.toNat (cf.take 4)) (m := canIdMask)
    simp only [decodeFrame, headerUnpack, canIdMask] at bound ⊢
    omega
  · simp only [decodeFrame, List.length_take, List.length_drop]
    omega

theorem decodeFrame_canId (cf : List UInt8) :
    (decodeFrame cf).canId = Bytes.toNat (cf.take 4) % 2 ^ 29 :=
  Nat.and_two_pow_sub_one_eq_mod _ 29

theorem decodeFrame_standard {cf : List UInt8} (clear : Bytes.toNat (cf.take 4) < 2 ^ 31) :
    (decodeFrame cf).isExtended = false := by
  have masked : Bytes.toNat (cf.take 4) &&& 2 ^ 31 = 0 := by
    rw [Nat.and_two_pow, Nat.testBit_lt_two_pow clear]
    rfl
  exact decide_eq_false (not_not.mpr masked)

theorem word_eq_add {canId : Nat} (bound : canId < 2 ^ 29) :
    canId ||| canEffFlag = canId + canEffFlag := by
  have low : canId < 2 ^ 31 := by omega
  have sum := Nat.two_pow_add_eq_or_of_lt low 1
  rw [Nat.or_comm, Nat.add_comm]
  exact sum.symm

theorem word_fits {canId : Nat} (bound : canId < 2 ^ 29) (flag : Bool) :
    (if flag then canId ||| canEffFlag else canId) < 2 ^ 32 := by
  have added := word_eq_add bound
  simp only [canEffFlag] at added ⊢
  split <;> omega

/-- The senders accept every frame that the receiver can return. -/
theorem Frame.Classic.payload_isSome {frame : Frame} (classic : frame.Classic) :
    ∃ bytes, frame.payload = some bytes ∧ bytes.length = msgSize := by
  obtain ⟨idBound, lengthBound⟩ := classic
  have word := word_fits idBound (frame.isExtended || decide (frame.canId &&& canExtensionMask > 0))
  have packed : buildTxHeader frame.canId frame.data.length frame.isExtended ≠ none := by
    simp only [buildTxHeader, headerPack]
    rw [if_pos ⟨word, by omega, by omega⟩]
    exact Option.some_ne_none _
  obtain ⟨header, built⟩ := Option.ne_none_iff_exists'.mp packed
  have whole : frame.payload = some (header ++ ljust frame.data) := by
    simp only [Frame.payload, built, Option.map_some]
  refine ⟨_, whole, ?_⟩
  rw [Frame.payload_length whole, msgSize]
  omega

/-- What the receiver makes of a header and its data. -/
theorem decodeFrame_header {word : Nat} {data : List UInt8} (fits : word < 2 ^ 32)
    (short : data.length < 256) :
    decodeFrame (Bytes.ofNat 4 word ++ [UInt8.ofNat data.length, 0, 0, 0] ++ ljust data) =
      ⟨word &&& canIdMask, data, decide (word &&& canEffFlag ≠ 0)⟩ := by
  let head := Bytes.ofNat 4 word ++ [UInt8.ofNat data.length, 0, 0, 0]
  have headLength : head.length = 8 := by simp [head]
  have readWord : Bytes.toNat ((head ++ ljust data).take 4) = word := by
    have first : (head ++ ljust data).take 4 = Bytes.ofNat 4 word := by
      simp [head]
    rw [first, Bytes.toNat_ofNat_of_lt fits]
  have readLength : ((head ++ ljust data).getD 4 0).toNat = data.length := by
    have byte : (head ++ ljust data).getD 4 0 = UInt8.ofNat data.length := by
      simp [head, List.getD]
    rw [byte, UInt8.toNat_ofNat']
    omega
  have readData : ((head ++ ljust data).drop 8).take data.length = data := by
    rw [← headLength, List.drop_left, ljust, List.take_left]
  change decodeFrame (head ++ ljust data) = _
  simp only [decodeFrame, headerUnpack, readWord, readLength, readData]

theorem word_and_idMask {canId : Nat} (bound : canId < 2 ^ 29) (flag : Bool) :
    (if flag then canId ||| canEffFlag else canId) &&& canIdMask = canId := by
  rw [canIdMask, show 0x1FFFFFFF = 2 ^ 29 - 1 by decide, Nat.and_two_pow_sub_one_eq_mod]
  cases flag with
  | false => exact Nat.mod_eq_of_lt bound
  | true =>
    rw [if_pos rfl, word_eq_add bound, canEffFlag]
    omega

theorem word_and_effFlag {canId : Nat} (bound : canId < 2 ^ 29) (flag : Bool) :
    decide ((if flag then canId ||| canEffFlag else canId) &&& canEffFlag ≠ 0) = flag := by
  have top : (if flag then canId ||| canEffFlag else canId) / 2 ^ 31 = flag.toNat := by
    have added := word_eq_add bound
    simp only [canEffFlag] at added ⊢
    cases flag <;> simp only [Bool.false_eq_true, ↓reduceIte, Bool.toNat_false, Bool.toNat_true]
      <;> omega
  rw [show canEffFlag = 2 ^ 31 from rfl] at top ⊢
  rw [Nat.and_two_pow, Nat.testBit_eq_decide_div_mod_eq, top]
  cases flag <;> rfl

/-- The sixteen bytes that a frame becomes, read back: the flag is set by the bits of the
mask as well as by the sender. -/
def Frame.onWire (frame : Frame) : Frame :=
  { frame with
    isExtended := frame.isExtended || decide (frame.canId &&& canExtensionMask > 0) }

theorem Frame.decode_payload {frame : Frame} (idBound : frame.canId < 2 ^ 29) {cf : List UInt8}
    (packed : frame.payload = some cf) : decodeFrame cf = frame.onWire := by
  have fits := word_fits idBound (frame.isExtended || decide (frame.canId &&& canExtensionMask > 0))
  have lengthFits : frame.data.length < 256 := by
    by_contra long
    simp [Frame.payload, buildTxHeader, headerPack, long] at packed
  simp only [Frame.payload, buildTxHeader, headerPack, fits, lengthFits, and_self, Nat.zero_lt_succ,
    if_true, Option.map_some, Option.some.injEq] at packed
  rw [← packed, show UInt8.ofNat 0 = 0 from rfl, decodeFrame_header fits lengthFits,
    word_and_idMask idBound, word_and_effFlag idBound]
  rfl

theorem Frame.Classic.decode_payload {frame : Frame} (classic : frame.Classic) {cf : List UInt8}
    (packed : frame.payload = some cf) : decodeFrame cf = frame.onWire :=
  Frame.decode_payload classic.1 packed

/-- The receiver returns every classic frame on some sixteen bytes. -/
theorem Frame.Classic.exists_decode {frame : Frame} (classic : frame.Classic) :
    ∃ cf : List UInt8, cf.length = msgSize ∧ decodeFrame cf = frame := by
  obtain ⟨idBound, lengthBound⟩ := classic
  let word := if frame.isExtended then frame.canId ||| canEffFlag else frame.canId
  let head := Bytes.ofNat 4 word ++ [UInt8.ofNat frame.data.length, 0, 0, 0]
  refine ⟨head ++ ljust frame.data, ?_, ?_⟩
  · have headLength : head.length = 8 := by simp [head]
    rw [List.length_append, headLength, ljust_length, msgSize]
    omega
  · rw [decodeFrame_header (word_fits idBound _) (by omega), word_and_idMask idBound,
      word_and_effFlag idBound]

theorem Frame.classic_iff {frame : Frame} :
    frame.Classic ↔ ∃ cf : List UInt8, cf.length = msgSize ∧ decodeFrame cf = frame := by
  constructor
  · exact Frame.Classic.exists_decode
  · rintro ⟨cf, whole, rfl⟩
    exact decodeFrame_classic whole

end Sockcan.Protocol
