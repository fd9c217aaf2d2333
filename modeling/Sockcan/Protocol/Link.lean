import Sockcan.Protocol.Codec
import Sockcan.Protocol.Send
import Sockcan.Transition

/-! The two ends of a stream connection together: a sender that works through its backlog,
frame by frame and call by call, and a receiver at the other end of the wire. -/
namespace Sockcan.Protocol
open Transition

/-- The bytes of whole frames, one after the other. -/
def wireOf (frames : List Frame) : List UInt8 := frames.flatMap fun frame => frame.payload.getD []

/-- A sender between two socket calls: the frames not sent yet, how far it is in the
first of them, and the bytes it has written. -/
structure Transmitter where
  backlog : List Frame
  progress : Progress
  wire : List UInt8
  deriving DecidableEq, Repr

def Transmitter.start (attempts : Nat) (backlog : List Frame) : Transmitter :=
  ⟨backlog, .start attempts, []⟩

/-- One socket call of `_socketcan_send_stream` for the first frame of the backlog. A
frame refused before its first byte is tried again whole; there is no step where the
sender gives a frame up. -/
def transmit (attempts : Nat) (sender : Transmitter) (outcome : CallOutcome) :
    Option Transmitter := do
  let frame ← sender.backlog.head?
  let payload ← frame.payload
  let offered := payload.drop sender.progress.sent
  guard (outcome.Possible offered.length)
  let wire := sender.wire ++ offered.take outcome.written
  match sendCall attempts sender.progress outcome with
  | .more next => some ⟨sender.backlog, next, wire⟩
  | .sent => some ⟨sender.backlog.tail, .start attempts, wire⟩
  | .wouldBlock => some ⟨sender.backlog, .start attempts, wire⟩
  | .disconnected | .failed => none

variable {attempts : Nat} {frames : List Frame} {sender next : Transmitter}
  {outcome : CallOutcome}

theorem wireOf_cons {frame : Frame} {payload : List UInt8} (packed : frame.payload = some payload) :
    wireOf (frame :: frames) = payload ++ wireOf frames := by
  simp [wireOf, packed]

/-- What is written and what is left of the backlog make up the bytes of all the frames. -/
structure Transmitter.Aligned (frames : List Frame) (sender : Transmitter) : Prop where
  classic : ∀ frame ∈ sender.backlog, frame.Classic
  bytes : sender.wire ++ (wireOf sender.backlog).drop sender.progress.sent = wireOf frames
  short : sender.progress.sent < msgSize

theorem Transmitter.Aligned.start (classic : ∀ frame ∈ frames, frame.Classic) :
    (Transmitter.start attempts frames).Aligned frames :=
  ⟨classic, rfl, Nat.zero_lt_succ 15⟩

/-- A step is about the first frame of the backlog, and is one of three. -/
theorem transmit_cases (step : transmit attempts sender outcome = some next) :
    ∃ frame rest payload, sender.backlog = frame :: rest ∧ frame.payload = some payload ∧
      outcome.Possible (payload.length - sender.progress.sent) ∧
      next.wire = sender.wire ++ (payload.drop sender.progress.sent).take outcome.written ∧
      ((∃ progress, sendCall attempts sender.progress outcome = .more progress ∧
          next.backlog = sender.backlog ∧ next.progress = progress) ∨
        (sendCall attempts sender.progress outcome = .sent ∧
          next.backlog = rest ∧ next.progress = .start attempts) ∨
        (sendCall attempts sender.progress outcome = .wouldBlock ∧
          next.backlog = sender.backlog ∧ next.progress = .start attempts)) := by
  simp only [transmit, Option.bind_eq_bind, Option.bind_eq_some_iff, Option.guard_eq_some',
    List.length_drop] at step
  obtain ⟨frame, first, payload, packed, ⟨⟩, possible, step⟩ := step
  obtain ⟨rest, backlog⟩ := List.head?_eq_some_iff.mp first
  refine ⟨frame, rest, payload, backlog, packed, possible, ?_⟩
  split at step
  · next progress goes =>
    cases step
    exact ⟨rfl, Or.inl ⟨progress, goes, rfl, rfl⟩⟩
  · next ends =>
    cases step
    exact ⟨rfl, Or.inr (Or.inl ⟨ends, by rw [backlog, List.tail_cons], rfl⟩)⟩
  · next refused =>
    cases step
    exact ⟨rfl, Or.inr (Or.inr ⟨refused, rfl, rfl⟩)⟩
  · contradiction
  · contradiction

/-- The bytes still offered for the frame in progress come first of what is left. -/
theorem Transmitter.Aligned.transmit (aligned : sender.Aligned frames)
    (step : transmit attempts sender outcome = some next) : next.Aligned frames := by
  obtain ⟨frame, rest, payload, backlog, packed, possible, wire, moves⟩ := transmit_cases step
  have classic := aligned.classic frame (backlog ▸ List.mem_cons_self)
  have whole : payload.length = msgSize := by
    obtain ⟨bytes, again, whole⟩ := classic.payload_isSome
    exact Option.some.inj (again.symm.trans packed) ▸ whole
  have inside : sender.progress.sent ≤ payload.length := whole ▸ Nat.le_of_lt aligned.short
  have bytes := aligned.bytes
  rw [backlog, wireOf_cons packed, List.drop_append_of_le_length inside] at bytes
  have most : outcome.written ≤ payload.length - sender.progress.sent := by
    cases outcome with
    | accepted count => exact possible.2
    | _ => exact Nat.zero_le _
  rcases moves with
    ⟨progress, goes, kept, goesOn⟩ | ⟨ends, popped, restart⟩ | ⟨refused, kept, restart⟩
  · obtain ⟨sent, short⟩ := sendCall_more goes aligned.short
    refine ⟨kept ▸ aligned.classic, ?_, goesOn ▸ short⟩
    have within : sender.progress.sent + outcome.written ≤ payload.length := by omega
    rw [wire, kept, backlog, wireOf_cons packed, goesOn, sent,
      List.drop_append_of_le_length within, ← List.drop_drop, List.append_assoc,
      ← List.append_assoc (List.take _ _), List.take_append_drop]
    exact bytes
  · have all : msgSize ≤ sender.progress.sent + outcome.written := sendCall_sent ends
    refine ⟨?_, ?_, restart ▸ Nat.zero_lt_succ 15⟩
    · intro frame member
      exact aligned.classic frame (backlog ▸ List.mem_cons_of_mem _ (popped ▸ member))
    · have last : (payload.drop sender.progress.sent).length ≤ outcome.written := by
        rw [List.length_drop]
        omega
      rw [wire, popped, restart, List.take_of_length_le last]
      simpa only [Progress.start, List.drop_zero, List.append_assoc] using bytes
  · obtain ⟨rfl, unwritten⟩ := sendCall_wouldBlock refused
    refine ⟨kept ▸ aligned.classic, ?_, restart ▸ Nat.zero_lt_succ 15⟩
    have begun := aligned.bytes
    rw [unwritten] at begun
    simpa only [wire, kept, restart, Progress.start, CallOutcome.written, List.take_zero,
      List.append_nil] using begun

theorem wireOf_framed (classic : ∀ frame ∈ frames, frame.Classic) :
    ∃ cfs : List (List UInt8), (∀ cf ∈ cfs, cf.length = msgSize) ∧ wireOf frames = cfs.flatten ∧
      cfs.map decodeFrame = frames.map Frame.onWire := by
  induction frames with
  | nil => exact ⟨[], nofun, rfl, rfl⟩
  | cons frame frames ih =>
    have first := classic frame List.mem_cons_self
    obtain ⟨cf, packed, whole⟩ := first.payload_isSome
    obtain ⟨cfs, each, bytes, decoded⟩ := ih fun frame member =>
      classic frame (List.mem_cons_of_mem _ member)
    refine ⟨cf :: cfs, ?_, ?_, ?_⟩
    · exact List.forall_mem_cons.mpr ⟨whole, each⟩
    · rw [wireOf_cons packed, bytes, List.flatten_cons]
    · rw [List.map_cons, List.map_cons, decoded, first.decode_payload packed]

/-- Frames and the beginning of another are received as the frames. -/
theorem recvAll_wireOf (classic : ∀ frame ∈ frames, frame.Classic) {part : List UInt8}
    (short : part.length < msgSize) (sizes : Nat → Nat) (calls : Nat) :
    ∃ last, recvAll (chunks sizes) ⟨wireOf frames ++ part, calls⟩ =
      (frames.map Frame.onWire, ⟨part, last⟩) := by
  obtain ⟨cfs, whole, bytes, decoded⟩ := wireOf_framed classic
  rw [bytes, ← decoded]
  exact recvAll_framed sizes calls whole short

/-- The extended flag of the frame is set where its identifier needs it. -/
def Frame.Flagged (frame : Frame) : Prop := 0x7FF < frame.canId → frame.isExtended = true

instance (frame : Frame) : Decidable frame.Flagged := inferInstanceAs (Decidable (_ → _))

theorem Frame.Flagged.onWire {frame : Frame} (flagged : frame.Flagged) : frame.onWire = frame := by
  have marked : frame.onWire = frame.marked := by
    rw [Frame.onWire_eq_marked_iff]
    rintro ⟨unset, large, _⟩
    exact Bool.noConfusion (unset.symm.trans (flagged large))
  rw [marked]
  by_cases large : 0x7FF < frame.canId
  · simp [Frame.marked, large, ← flagged large]
  · simp [Frame.marked, large]

/-- However the sender's calls go, as long as it gives no frame up, and however the reads
cut what it wrote, the frames it had to send are the frames received. -/
theorem link_transparent (frames : List Frame)
    (classic : ∀ frame ∈ frames, frame.Classic) (flagged : ∀ frame ∈ frames, frame.Flagged)
    (outcomes : List CallOutcome) (sender : Transmitter)
    (path : run (transmit streamSendAttempts) (.start streamSendAttempts frames) outcomes =
      some sender)
    (done : sender.backlog = []) (sizes : Nat → Nat) (calls : Nat) :
    ∃ last, recvAll (chunks sizes) ⟨sender.wire, calls⟩ = (frames, ⟨[], last⟩) := by
  have aligned : sender.Aligned frames :=
    invariant_run (fun _ _ _ aligned _ step => aligned.transmit step) (.start classic)
      along_true path
  have written : sender.wire = wireOf frames := by
    simpa only [done, wireOf, List.flatMap_nil, List.drop_nil, List.append_nil] using aligned.bytes
  have kept : frames.map Frame.onWire = frames := by
    rw [List.map_congr_left fun frame member => (flagged frame member).onWire]
    exact List.map_id' frames
  obtain ⟨last, received⟩ := recvAll_wireOf classic (show [].length < msgSize by decide) sizes
    calls
  rw [List.append_nil, kept] at received
  exact ⟨last, written ▸ received⟩

theorem link_transparent_halting :
    ∃ sender last,
      run (transmit streamSendAttempts)
        (.start streamSendAttempts [⟨0x123, [1, 2], false⟩, ⟨0x18DAF110, [3], true⟩])
        [.wouldBlock, .accepted 5, .wouldBlock, .accepted 11, .wouldBlock, .accepted 16] =
          some sender ∧
      recvAll (chunks fun call => call % 7) ⟨sender.wire, 0⟩ =
        ([⟨0x123, [1, 2], false⟩, ⟨0x18DAF110, [3], true⟩], ⟨[], last⟩) := by
  obtain ⟨last, received⟩ := link_transparent [⟨0x123, [1, 2], false⟩, ⟨0x18DAF110, [3], true⟩]
    (by decide) (by decide)
    [.wouldBlock, .accepted 5, .wouldBlock, .accepted 11, .wouldBlock, .accepted 16] _ rfl rfl
    (fun call => call % 7) 0
  exact ⟨_, last, rfl, received⟩

end Sockcan.Protocol
