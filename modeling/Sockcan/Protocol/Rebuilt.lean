import Sockcan.Protocol.Codec

/-! A frame that is decoded and built again. Of the flags in the id word the receiver keeps
the extended one only, and the sender sets no other. -/
namespace Sockcan.Protocol

/-- The flags of the id word that the source has no constants for. -/
def canRtrFlag : Nat := 0x40000000
def canErrFlag : Nat := 0x20000000

/-- The id word of a frame, with its flags. -/
def idWord (cf : List UInt8) : Nat := (headerUnpack cf).1

/-- The length byte of a frame. -/
def canDlc (cf : List UInt8) : Nat := (headerUnpack cf).2

/-- The bytes of a classic frame: its identifier needs the extended flag beyond eleven bits,
it reports no error, and what it does not use is zero. -/
structure WellFormed (cf : List UInt8) : Prop where
  size : cf.length = msgSize
  noError : idWord cf &&& canErrFlag = 0
  standard : idWord cf &&& canEffFlag = 0 → idWord cf &&& canIdMask ≤ 0x7FF
  short : canDlc cf ≤ 8
  reserved : (cf.drop 5).take 3 = [0, 0, 0]
  unused : cf.drop (8 + canDlc cf) = List.replicate (8 - canDlc cf) 0

/-- A request for data, not data. -/
def Remote (cf : List UInt8) : Prop := idWord cf &&& canRtrFlag ≠ 0

instance (cf : List UInt8) : Decidable (Remote cf) := inferInstanceAs (Decidable (_ ≠ _))

/-- The same bytes with the remote flag clear. -/
def withoutRemote (cf : List UInt8) : List UInt8 :=
  Bytes.ofNat 4 (idWord cf - (idWord cf &&& canRtrFlag)) ++ cf.drop 4

variable {cf : List UInt8}

theorem and_flag (word i : Nat) : word &&& 2 ^ i = word / 2 ^ i % 2 * 2 ^ i := by
  rw [Nat.and_two_pow, Nat.testBit_eq_decide_div_mod_eq]
  rcases Nat.mod_two_eq_zero_or_one (word / 2 ^ i) with even | odd
  · rw [even]
    rfl
  · rw [odd]
    rfl

theorem idWord_lt (cf : List UInt8) : idWord cf < 2 ^ 32 := by
  have bound := Bytes.toNat_lt (cf.take 4)
  have short : (cf.take 4).length ≤ 4 := List.length_take_le 4 cf
  calc idWord cf
      < 256 ^ (cf.take 4).length := bound
    _ ≤ 256 ^ 4 := Nat.pow_le_pow_right (by decide) short
    _ = 2 ^ 32 := by decide

/-- The extension mask finds nothing that the flag does not say. -/
theorem WellFormed.extended_iff (well : WellFormed cf) :
    ((decide (idWord cf &&& canEffFlag ≠ 0)) ||
      decide ((idWord cf &&& canIdMask) &&& canExtensionMask > 0)) =
        decide (idWord cf &&& canEffFlag ≠ 0) := by
  by_cases extended : idWord cf &&& canEffFlag = 0
  · have small := well.standard extended
    have masked : ¬ (idWord cf &&& canIdMask) &&& canExtensionMask > 0 := by
      rw [and_canExtensionMask_pos]
      omega
    simp [extended, masked]
  · simp [extended]

/-- The word is put together again without its remote flag. -/
theorem WellFormed.word_eq (well : WellFormed cf) :
    (if decide (idWord cf &&& canEffFlag ≠ 0) then (idWord cf &&& canIdMask) ||| canEffFlag
      else idWord cf &&& canIdMask) = idWord cf - (idWord cf &&& canRtrFlag) := by
  have bound := idWord_lt cf
  have noError := well.noError
  have low : idWord cf &&& canIdMask = idWord cf % 2 ^ 29 := Nat.and_two_pow_sub_one_eq_mod _ 29
  have small : idWord cf &&& canIdMask < 2 ^ 29 := by omega
  rw [show canErrFlag = 2 ^ 29 from rfl, and_flag] at noError
  rw [show canRtrFlag = 2 ^ 30 from rfl, and_flag, word_eq_add small, low]
  simp only [show canEffFlag = 2 ^ 31 from rfl, and_flag, decide_eq_true_eq]
  split <;> omega

theorem WellFormed.data_length (well : WellFormed cf) :
    ((cf.drop 8).take (canDlc cf)).length = canDlc cf := by
  have size := well.size
  have short := well.short
  simp only [msgSize] at size
  rw [List.length_take, List.length_drop]
  omega

/-- The padding is what was not used. -/
theorem WellFormed.ljust_eq (well : WellFormed cf) :
    ljust ((cf.drop 8).take (canDlc cf)) = cf.drop 8 := by
  rw [ljust, well.data_length, ← well.unused, ← List.drop_drop, List.take_append_drop]

theorem WellFormed.tail_eq (well : WellFormed cf) :
    [UInt8.ofNat (canDlc cf), UInt8.ofNat 0, 0, 0] ++ cf.drop 8 = cf.drop 4 := by
  have reaches : 4 < cf.length := by
    rw [well.size, msgSize]
    omega
  have fifth : UInt8.ofNat (canDlc cf) = cf[4] := by
    simp [canDlc, headerUnpack, List.getD, reaches]
  calc [UInt8.ofNat (canDlc cf), UInt8.ofNat 0, 0, 0] ++ cf.drop 8
      = cf[4] :: ((cf.drop 5).take 3 ++ (cf.drop 5).drop 3) := by
        rw [fifth, well.reserved, List.drop_drop]
        rfl
    _ = cf.drop 4 := by rw [List.take_append_drop, ← List.drop_eq_getElem_cons reaches]

/-- Decoded and built again, a frame loses its remote flag and nothing else. -/
theorem WellFormed.payload (well : WellFormed cf) :
    (decodeFrame cf).payload = some (withoutRemote cf) := by
  have short := well.short
  have decoded : decodeFrame cf = ⟨idWord cf &&& canIdMask, (cf.drop 8).take (canDlc cf),
      decide (idWord cf &&& canEffFlag ≠ 0)⟩ := rfl
  have word : idWord cf - (idWord cf &&& canRtrFlag) < 2 ^ 32 :=
    Nat.lt_of_le_of_lt (Nat.sub_le _ _) (idWord_lt cf)
  have fits : canDlc cf < 256 := by omega
  have header : buildTxHeader (idWord cf &&& canIdMask) (canDlc cf)
      (decide (idWord cf &&& canEffFlag ≠ 0)) =
        some (Bytes.ofNat 4 (idWord cf - (idWord cf &&& canRtrFlag)) ++
          [UInt8.ofNat (canDlc cf), UInt8.ofNat 0, 0, 0]) := by
    simp only [buildTxHeader, well.extended_iff, well.word_eq, headerPack]
    exact if_pos ⟨word, fits, by decide⟩
  rw [decoded, Frame.payload, well.data_length, header, well.ljust_eq, Option.map_some,
    List.append_assoc, well.tail_eq, withoutRemote]

theorem withoutRemote_eq_iff (size : cf.length = msgSize) :
    withoutRemote cf = cf ↔ ¬ Remote cf := by
  have first : (cf.take 4).length = 4 := by
    rw [List.length_take, size, msgSize]
    rfl
  have same : Bytes.ofNat 4 (idWord cf) = cf.take 4 := by
    have written := Bytes.ofNat_toNat (cf.take 4)
    rwa [first] at written
  have bound := idWord_lt cf
  rw [Remote, not_not]
  constructor
  · intro kept
    have words := congrArg idWord kept
    have read : idWord (withoutRemote cf) = idWord cf - (idWord cf &&& canRtrFlag) := by
      have front : (withoutRemote cf).take 4 =
          Bytes.ofNat 4 (idWord cf - (idWord cf &&& canRtrFlag)) := by
        rw [withoutRemote, List.take_left' (Bytes.ofNat_length 4 _)]
      rw [idWord, headerUnpack, front, Bytes.toNat_ofNat_of_lt]
      omega
    have most : idWord cf &&& canRtrFlag ≤ idWord cf := Nat.and_le_left
    omega
  · intro clear
    rw [withoutRemote, clear, Nat.sub_zero, same, List.take_append_drop]

end Sockcan.Protocol
