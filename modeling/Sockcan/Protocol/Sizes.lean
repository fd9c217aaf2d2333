import Sockcan.Protocol.Sender

/-! The size of what a stream send puts on the wire, for messages of every length. The
padding fills short data up; nothing cuts long data off. -/
namespace Sockcan.Protocol

/-- The socket takes all that it is offered of a message. -/
def AcceptsAll (message : CanMessage) (network : Nat → CallOutcome) : Prop :=
  ∀ call, ∃ count, network call = .accepted count ∧ 8 + max 8 message.data.length ≤ count

/-- The send raised with nothing written, or put the size of a frame on the wire. -/
def FramesOrRaises : Option (Except SendError Unit × Outbound) → Prop
  | none => False
  | some (.error _, last) => last.written = []
  | some (.ok (), last) => last.written.length = msgSize

/-- Neither sender emits a frame of the wrong size for the message. -/
def KeepsFraming (message : CanMessage) : Prop :=
  ∀ (network : Nat → CallOutcome) (attempts rounds : Nat), AcceptsAll message network →
    FramesOrRaises (socketcanSendStream network attempts rounds message.arbitrationId
      message.data message.isExtendedId ⟨[], 0⟩) ∧
    FramesOrRaises (socketcanSendMsgStream network attempts rounds message ⟨[], 0⟩)

theorem word_lt_iff (canId : Nat) (flag : Bool) :
    (if flag then canId ||| canEffFlag else canId) < 2 ^ 32 ↔ canId < 2 ^ 32 := by
  cases flag with
  | false => exact Iff.rfl
  | true =>
    rw [if_pos rfl]
    constructor
    · intro fits
      exact Nat.lt_of_le_of_lt Nat.left_le_or fits
    · intro fits
      exact Nat.or_lt_two_pow fits (by decide)

theorem Frame.payload_eq_none_iff (frame : Frame) :
    frame.payload = none ↔ 2 ^ 32 ≤ frame.canId ∨ 255 < frame.data.length := by
  have word := word_lt_iff frame.canId
    (frame.isExtended || decide (frame.canId &&& canExtensionMask > 0))
  simp only [Frame.payload, buildTxHeader, headerPack, Option.map_eq_none_iff,
    ite_eq_right_iff, reduceCtorEq, imp_false, word]
  omega

/-- The messages whose header does not pack. -/
theorem txPayload_eq_none_iff (message : CanMessage) :
    txPayload message.arbitrationId message.data message.isExtendedId = none ↔
      message.arbitrationId < 0 ∨ 2 ^ 32 ≤ message.arbitrationId ∨ 255 < message.data.length := by
  cases given : message.arbitrationId with
  | ofNat canId =>
    simp only [txPayload, Frame.payload_eq_none_iff, Int.ofNat_eq_natCast]
    omega
  | negSucc canId =>
    simp only [txPayload, true_iff]
    left
    exact Int.negSucc_lt_zero canId

theorem sendPayload_accepted (network : Nat → CallOutcome) (attempts rounds : Nat)
    {count : Nat} {payload : List UInt8} (takes : network 0 = .accepted count)
    (everything : payload.length ≤ count) (whole : msgSize ≤ payload.length) :
    sendPayload network attempts rounds (some payload) ⟨[], 0⟩ = some (.ok (), ⟨payload, 1⟩) := by
  have all : min count payload.length = payload.length := Nat.min_eq_right everything
  have done : ¬ payload.length < msgSize := Nat.not_lt.mpr whole
  simp only [sendPayload, Outbound.outcome, takes, all, done, if_false, Outbound.after,
    CallOutcome.written, List.nil_append, List.take_length, Nat.zero_add]

/-- A socket that accepts everything is given the sixteen bytes of a frame, or nothing at
all, exactly for the messages of classic length and those that no header describes. -/
theorem keepsFraming_iff (message : CanMessage) :
    KeepsFraming message ↔
      message.data.length ≤ 8 ∨ 255 < message.data.length ∨
        message.arbitrationId < 0 ∨ 2 ^ 32 ≤ message.arbitrationId := by
  have refused := txPayload_eq_none_iff message
  cases packed : txPayload message.arbitrationId message.data message.isExtendedId with
  | none =>
    have described : message.data.length ≤ 8 ∨ 255 < message.data.length ∨
        message.arbitrationId < 0 ∨ 2 ^ 32 ≤ message.arbitrationId := by
      have cases' := refused.mp packed
      omega
    apply iff_of_true _ described
    intro network attempts rounds _
    simp only [socketcanSendStream, socketcanSendMsgStream, packed, sendPayload, FramesOrRaises,
      and_self]
  | some payload =>
    have length := txPayload_length packed
    have whole : msgSize ≤ payload.length := by
      rw [length, msgSize]
      omega
    have packs : ¬ (message.arbitrationId < 0 ∨ 2 ^ 32 ≤ message.arbitrationId ∨
        255 < message.data.length) := by
      rw [← refused, packed]
      exact Option.some_ne_none payload
    have classic : payload.length = msgSize ↔ message.data.length ≤ 8 := by
      rw [length, msgSize]
      omega
    have sends : KeepsFraming message ↔ payload.length = msgSize := by
      constructor
      · intro keeps
        have accepts : AcceptsAll message fun _ => .accepted (8 + max 8 message.data.length) :=
          fun _ => ⟨_, rfl, Nat.le_refl _⟩
        obtain ⟨framed, _⟩ := keeps _ 1 0 accepts
        have sent := sendPayload_accepted (fun _ => .accepted (8 + max 8 message.data.length))
          1 0 rfl (Nat.le_of_eq length) whole
        rw [socketcanSendStream, packed, sent] at framed
        exact framed
      · intro framed network attempts rounds accepts
        obtain ⟨count, takes, everything⟩ := accepts 0
        rw [← length] at everything
        have sent := sendPayload_accepted network attempts rounds takes everything whole
        simp only [socketcanSendStream, socketcanSendMsgStream, packed, sent]
        exact ⟨framed, framed⟩
    rw [sends, classic]
    omega

/-- Twelve data bytes, as a CAN FD message may have, become twenty. -/
theorem keepsFraming_not_fd : ¬ KeepsFraming ⟨0x123, List.replicate 12 0, false⟩ := by
  intro keeps
  have accepts : AcceptsAll ⟨0x123, List.replicate 12 0, false⟩ fun _ => .accepted 20 :=
    fun _ => ⟨20, rfl, by decide⟩
  have framed := (keeps (fun _ => .accepted 20) 5 75 accepts).1
  have written : socketcanSendStream (fun _ => .accepted 20) 5 75 0x123 (List.replicate 12 0) false
      ⟨[], 0⟩ = some (.ok (), ⟨[0x23, 1, 0, 0, 12, 0, 0, 0] ++ List.replicate 12 0, 1⟩) := by decide
  rw [written] at framed
  have size : ([0x23, 1, 0, 0, 12, 0, 0, 0] ++ List.replicate 12 0 : List UInt8).length ≠ msgSize :=
    by decide
  exact size framed

end Sockcan.Protocol
