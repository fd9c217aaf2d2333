import Sockcan.Protocol.Receive
import Sockcan.Bits

/-! What the receiver makes of the frames that the senders write. Identifiers beyond
eleven bits are to be marked as extended whether or not the caller says so; the mask that
finds them ends two bits short of the identifier. -/
namespace Sockcan.Protocol

/-- Sixteen bits from the eleventh on, of an identifier that has twenty-nine. -/
theorem canExtensionMask_eq_ones : canExtensionMask = Bits.ones 16 11 := by decide

theorem and_canExtensionMask (canId : Nat) :
    canId &&& canExtensionMask = (canId % 2 ^ 27) / 2 ^ 11 * 2 ^ 11 := by
  apply Nat.eq_of_testBit_eq
  intro i
  rw [canExtensionMask_eq_ones, Nat.testBit_and, Bits.testBit_ones, Nat.testBit_mul_two_pow,
    Nat.testBit_div_two_pow, Nat.testBit_mod_two_pow]
  by_cases above : 11 ≤ i
  · rw [Nat.sub_add_cancel above]
    simp [above, Bool.and_comm]
  · simp [above]

theorem and_canExtensionMask_pos {canId : Nat} :
    canId &&& canExtensionMask > 0 ↔ 0x7FF < canId % 2 ^ 27 := by
  rw [and_canExtensionMask]
  omega

/-- The frame as it has to arrive: marked as extended when the caller says so or its
identifier does not fit in eleven bits. -/
def Frame.marked (frame : Frame) : Frame :=
  { frame with isExtended := frame.isExtended || decide (0x7FF < frame.canId) }

theorem Frame.onWire_eq_marked_iff (frame : Frame) :
    frame.onWire = frame.marked ↔
      ¬ (frame.isExtended = false ∧ 0x7FF < frame.canId ∧ frame.canId % 2 ^ 27 ≤ 0x7FF) := by
  have low : 0x7FF < frame.canId % 2 ^ 27 → 0x7FF < frame.canId := by omega
  simp only [Frame.onWire, Frame.marked, Frame.mk.injEq, true_and, and_canExtensionMask_pos]
  cases frame.isExtended with
  | true => simp
  | false =>
    simp only [Bool.false_or, decide_eq_decide, true_and]
    omega

theorem Frame.Classic.recv {frame : Frame} (classic : frame.Classic) (sizes : Nat → Nat)
    (calls : Nat) {cf : List UInt8} (packed : frame.payload = some cf) :
    ∃ last, socketcanRecvStream (chunks sizes) ⟨cf, calls⟩ = .ok (frame.onWire, ⟨[], last⟩) := by
  obtain ⟨bytes, written, whole⟩ := classic.payload_isSome
  obtain rfl := Option.some.inj (written.symm.trans packed)
  obtain ⟨last, received⟩ := socketcanRecvStream_whole sizes calls [] whole
  rw [List.append_nil] at received
  exact ⟨last, received.trans (by rw [classic.decode_payload packed])⟩

/-- A frame that is sent and received comes back marked, unless its identifier has no bit
under the mask but bits above it, and the caller did not set the flag. -/
theorem codec_marks_iff (frame : Frame) (classic : frame.Classic) (sizes : Nat → Nat)
    (calls : Nat) :
    (∃ cf last, frame.payload = some cf ∧
        socketcanRecvStream (chunks sizes) ⟨cf, calls⟩ = .ok (frame.marked, ⟨[], last⟩)) ↔
      ¬ (frame.isExtended = false ∧ 0x7FF < frame.canId ∧ frame.canId % 2 ^ 27 ≤ 0x7FF) := by
  rw [← Frame.onWire_eq_marked_iff]
  obtain ⟨bytes, packed, _⟩ := classic.payload_isSome
  obtain ⟨last, received⟩ := classic.recv sizes calls packed
  constructor
  · rintro ⟨cf, end', again, marked⟩
    obtain rfl := Option.some.inj (packed.symm.trans again)
    have same := Except.ok.inj (received.symm.trans marked)
    exact congrArg Prod.fst same
  · intro same
    exact ⟨bytes, last, packed, same ▸ received⟩

/-- An identifier of thirteen bits, sent without the flag in pieces of seven bytes, arrives as an
extended one. -/
theorem codec_marks_iff_unflagged :
    ∃ cf last, (⟨0x1234, [1, 2], false⟩ : Frame).payload = some cf ∧
      socketcanRecvStream (chunks fun _ => 7) ⟨cf, 0⟩ =
        .ok (⟨0x1234, [1, 2], true⟩, ⟨[], last⟩) := by
  have marked : (⟨0x1234, [1, 2], false⟩ : Frame).marked = ⟨0x1234, [1, 2], true⟩ := by decide
  rw [← marked]
  exact (codec_marks_iff ⟨0x1234, [1, 2], false⟩ (by decide) (fun _ => 7) 0).mpr (by decide)

/-- An identifier of twenty-eight bits, sent without the flag, arrives as a standard one. -/
theorem codec_unmarked :
    (⟨0x08000000, [], false⟩ : Frame).Classic ∧
      ¬ ∃ cf last, (⟨0x08000000, [], false⟩ : Frame).payload = some cf ∧
        socketcanRecvStream (chunks fun _ => 16) ⟨cf, 0⟩ =
          .ok ((⟨0x08000000, [], false⟩ : Frame).marked, ⟨[], last⟩) := by
  refine ⟨by decide, ?_⟩
  rintro ⟨cf, last, packed, received⟩
  have bytes : (⟨0x08000000, [], false⟩ : Frame).payload =
      some [0, 0, 0, 8, 0, 0, 0, 0, 0, 0, 0, 0, 0, 0, 0, 0] := by decide
  obtain rfl := Option.some.inj (packed.symm.trans bytes)
  have read : socketcanRecvStream (chunks fun _ => 16)
      ⟨[0, 0, 0, 8, 0, 0, 0, 0, 0, 0, 0, 0, 0, 0, 0, 0], 0⟩ =
        .ok (⟨0x08000000, [], false⟩, ⟨[], 1⟩) := rfl
  have unmarked : (⟨0x08000000, [], false⟩ : Frame) = Frame.marked ⟨0x08000000, [], false⟩ :=
    congrArg Prod.fst (Except.ok.inj (read.symm.trans received))
  exact absurd unmarked (by decide)

end Sockcan.Protocol
