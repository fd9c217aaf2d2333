import Sockcan.Protocol.Send

/-! What is on the wire of a stream connection: whole frames, and at the end perhaps the
beginning of one more. -/
namespace Sockcan.Protocol

def IsFrame (bytes : List UInt8) : Prop :=
  bytes.length = msgSize ∧ ∃ frame : Frame, frame.payload = some bytes

/-- Frames followed by a proper prefix of a frame. -/
def WellFramed (bytes : List UInt8) : Prop :=
  ∃ (frames : List (List UInt8)) (part : List UInt8), (∀ whole ∈ frames, IsFrame whole) ∧
    (∃ whole, IsFrame whole ∧ part <+: whole ∧ part ≠ whole) ∧ bytes = frames.flatten ++ part

theorem headerPack_flags {canId dlc flags : Nat} {header : List UInt8}
    (packed : headerPack canId dlc flags = some header) :
    header[5]? = some (UInt8.ofNat flags) := by
  unfold headerPack at packed
  split at packed
  · cases packed
    simp
  · contradiction

theorem Frame.payload_flags {frame : Frame} {bytes : List UInt8}
    (packed : frame.payload = some bytes) : bytes[5]? = some 0 := by
  obtain ⟨header, built, rfl⟩ := Option.map_eq_some_iff.mp packed
  have reaches : 5 < header.length := by
    rw [headerPack_length built]
    omega
  rw [List.getElem?_append_left reaches]
  exact headerPack_flags built

theorem IsFrame.flags {bytes : List UInt8} (frame : IsFrame bytes) : bytes[5]? = some 0 := by
  obtain ⟨_, frame, packed⟩ := frame
  exact Frame.payload_flags packed

/-- The first frame shows in its flags, even where it is unfinished. -/
theorem WellFramed.flags {bytes : List UInt8} (framed : WellFramed bytes)
    (reaches : 5 < bytes.length) : bytes[5]? = some 0 := by
  obtain ⟨frames, part, whole, ⟨last, frame, ⟨rest, rfl⟩, _⟩, rfl⟩ := framed
  cases frames with
  | nil =>
    simp only [List.flatten_nil, List.nil_append] at reaches ⊢
    have flags := frame.flags
    rwa [List.getElem?_append_left reaches] at flags
  | cons first others =>
    have frame := whole first List.mem_cons_self
    rw [List.flatten_cons, List.append_assoc, List.getElem?_append_left]
    · exact frame.flags
    · rw [frame.1, msgSize]
      omega

/-- The bytes that a sender has on the wire before its last call are the beginning of
the frame. -/
theorem IsFrame.take {bytes : List UInt8} (frame : IsFrame bytes) {sent : Nat}
    (short : sent < msgSize) : bytes.take sent <+: bytes ∧ bytes.take sent ≠ bytes := by
  refine ⟨List.take_prefix sent bytes, fun same => ?_⟩
  have length := congrArg List.length same
  rw [List.length_take, frame.1] at length
  omega

theorem wellFramed_of_part {frames : List (List UInt8)} {bytes : List UInt8} {sent : Nat}
    (whole : ∀ bytes ∈ frames, IsFrame bytes) (frame : IsFrame bytes) (short : sent < msgSize) :
    WellFramed (frames.flatten ++ bytes.take sent) :=
  ⟨frames, bytes.take sent, whole, ⟨bytes, frame, frame.take short⟩, rfl⟩

theorem wellFramed_of_frames {frames : List (List UInt8)}
    (whole : ∀ bytes ∈ frames, IsFrame bytes) : WellFramed frames.flatten := by
  have empty : IsFrame (List.replicate msgSize 0) := ⟨rfl, ⟨0, [], false⟩, rfl⟩
  simpa using wellFramed_of_part whole empty (Nat.zero_lt_succ 15)

end Sockcan.Protocol
