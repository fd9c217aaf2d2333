import Sockcan.Server.Calls

/-! The byte stream of one consumer: what the loops have written to its socket is what
was delivered to it and what they have begun. -/
namespace Sockcan.Server
open Protocol
variable {Fd : Type}

/-- Every frame read so far fits sixteen bytes. -/
def Short (s : Server Fd) : Prop := ∀ source, ∀ message ∈ s.received source, message.Short

/-- The frame that the RX loop reads from the bus. -/
def fromBus : Action Fd → Option Frame
  | .rxRecv answer => answer
  | _ => none

/-- The bus delivers frames that fit sixteen bytes. -/
def ReadsShort (_ : Server Fd) (action : Action Fd) : Prop :=
  ∀ frame ∈ fromBus action, frame.data.length ≤ 8

instance (s : Server Fd) (action : Action Fd) : Decidable (s.ReadsShort action) :=
  inferInstanceAs (Decidable (∀ frame ∈ fromBus action, _))

variable [DecidableEq Fd] {cfg : Config} {peers : List (Consumer Fd)} {s t : Server Fd}
  {action : Action Fd} {fd : Fd} {message : Relayed Fd}

/-- What has been read is old or the new frame. -/
theorem mem_receive {source other : Option Fd} {frame : Frame}
    (member : message ∈ (s.receive (s.stamp source frame)).received other) :
    message ∈ s.received other ∨ message.frame = frame := by
  obtain ⟨i, found⟩ := List.mem_iff_getElem?.mp member
  rcases receive_cases found with old | ⟨_, _, rfl⟩
  · exact Or.inl (List.mem_iff_getElem?.mpr ⟨i, old⟩)
  · exact Or.inr rfl

theorem Short.receive (short : s.Short) (source : Option Fd) {frame : Frame}
    (fits : frame.data.length ≤ 8) : (s.receive (s.stamp source frame)).Short := by
  intro other message member
  rcases mem_receive member with old | new
  · exact short other message old
  · rw [Relayed.Short, new]
    exact fits

omit [DecidableEq Fd] in
theorem Short.congr (short : s.Short) (same : t.received = s.received) : t.Short := by
  rw [Short, same]
  exact short

theorem RxRelays.short (move : RxRelays cfg s action t) (short : s.Short)
    (reads : s.ReadsShort action) : t.Short := by
  cases move with
  | recv => exact short.receive none (reads _ rfl)
  | offer _ offer => exact short.congr offer.received
  | call _ call => exact short.congr call.received
  | _ => exact short

theorem TxRelays.short (move : TxRelays cfg s action t) (short : s.Short) : t.Short := by
  cases move with
  | recv _ classic => exact short.receive _ classic.2
  | offer _ offer => exact short.congr offer.received
  | call _ call => exact short.congr call.received
  | _ => exact short

theorem Moves.short (move : Moves cfg s action t) (short : s.Short) (reads : s.ReadsShort action) :
    t.Short := by
  rcases move.read_cases with same | move | move
  · exact short.congr same
  · exact move.short short reads
  · exact move.short short

omit [DecidableEq Fd] in
/-- A frame that is being sent was read. -/
theorem Ledger.sending {loop : Loop} {progress : Progress} (ledger : s.Ledger)
    (sends : s.sending loop = some (fd, message, progress)) :
    message ∈ s.received message.source := by
  cases loop with
  | rx =>
    simp only [Server.sending] at sends
    split at sends
    · cases sends
      rename_i at_
      exact (ledger.routed .rx message _ (by rw [dispatch, at_]; rfl)).2
    · contradiction
  | tx =>
    simp only [Server.sending] at sends
    split at sends
    · cases sends
      rename_i at_
      exact (ledger.routed .tx _ _ (by rw [dispatch, at_]; rfl)).2
    · cases sends
      rename_i at_
      exact ledger.draining message (by rw [at_]; rfl)
    · contradiction

/-- The stream of a consumer none of whose sends has failed in the middle. -/
structure Stream (fd : Fd) (s : Server Fd) : Prop where
  fits : ∀ loop other message progress, s.sending loop = some (other, message, progress) →
    progress.sent < msgSize
  single : s.begun .rx fd = [] ∨ s.begun .tx fd = []
  frames : ∀ message ∈ (s.traffic fd).delivered, IsFrame message.bytes
  whole : (s.traffic fd).written = s.wire fd ++ (s.begun .rx fd ++ s.begun .tx fd)

def Loop.other : Loop → Loop
  | .rx => .tx
  | .tx => .rx

/-- The loop whose call the socket of a consumer accepts, and the consumer. -/
def writing (s : Server Fd) : Action Fd → Option (Loop × Fd)
  | .rxCall (.accepted _) => (s.sending .rx).map fun call => (.rx, call.1)
  | .txCall (.accepted _) => (s.sending .tx).map fun call => (.tx, call.1)
  | _ => none

/-- No loop writes to the consumer while the other one is in the middle of a frame to it. -/
def Unmixed (fd : Fd) (s : Server Fd) (action : Action Fd) : Prop :=
  ∀ call ∈ s.writing action, call.2 = fd → s.begun call.1.other fd = []

instance (fd : Fd) (s : Server Fd) (action : Action Fd) : Decidable (s.Unmixed fd action) :=
  inferInstanceAs (Decidable (∀ call ∈ s.writing action, _ → _))

omit [DecidableEq Fd] in
theorem Call.writing {loop : Loop} {progress : Progress} {count : Nat}
    (before : s.sending loop = some (fd, message, progress)) :
    s.writing (Loop.call loop (.accepted count)) = some (loop, fd) := by
  cases loop <;> simp [Server.writing, Loop.call, before]

theorem Stream.congr {stream : Stream fd s}
    (same : (t.traffic fd).stream = (s.traffic fd).stream)
    (begun : ∀ loop, t.begun loop fd = s.begun loop fd)
    (fits : ∀ loop other message progress, t.sending loop = some (other, message, progress) →
      progress.sent < msgSize) : Stream fd t := by
  simp only [Traffic.stream, Prod.mk.injEq] at same
  obtain ⟨written, delivered, _⟩ := same
  refine ⟨fits, ?_, ?_, ?_⟩
  · rw [begun, begun]
    exact stream.single
  · rw [delivered]
    exact stream.frames
  · rw [written, wire, delivered, begun, begun]
    exact stream.whole

theorem Moves.sending_fits (move : Moves cfg s action t)
    (fits : ∀ loop other message progress, s.sending loop = some (other, message, progress) →
      progress.sent < msgSize) :
    ∀ loop other message progress, t.sending loop = some (other, message, progress) →
      progress.sent < msgSize := by
  intro loop other message progress sends
  rcases move.stream_cases with ⟨_, rests⟩ | ⟨caller, _, _, _, _, _, call, others⟩
  · rcases rests loop with same | ⟨_, starts⟩
    · exact fits loop other message progress (same ▸ sends)
    · rw [starts other message progress sends]
      exact Nat.zero_lt_succ 15
  · by_cases here : loop = caller
    · subst here
      obtain ⟨before, after, answer, called, _, goes⟩ := call
      rw [goes] at sends
      cases called with
      | unpacked => contradiction
      | @call bytes =>
        cases step : sendCall streamSendAttempts _ _ <;> rw [step] at sends <;> cases sends
        exact sendCall_fits (fits loop _ _ _ before) step
    · exact fits loop other message progress (others loop here ▸ sends)

/-- As long as the loops take turns frame by frame, the stream of a consumer stays
whole. -/
theorem Moves.stream (move : Moves cfg s action t) (ledger : s.Ledger) (short : s.Short)
    (stream : Stream fd s) (unmixed : s.Unmixed fd action)
    (unbroken : (t.traffic fd).broken = false) : Stream fd t := by
  have fits := move.sending_fits stream.fits
  rcases move.stream_cases with ⟨same, rests⟩ |
    ⟨loop, target, message, progress, outcome, rfl, call, others⟩
  · exact stream.congr (same fd) (fun loop => (rests loop).begun fd) fits
  have still {other : Loop} (different : other ≠ loop) : t.begun other fd = s.begun other fd := by
    simp only [begun, others other different]
  by_cases here : fd = target
  · subst here
    have fitting : message.Short := short _ message (ledger.sending call.before)
    have frames : ∀ message ∈ (t.traffic fd).delivered, IsFrame message.bytes := by
      intro other member
      rcases call.delivered fitting member with old | new
      · exact stream.frames other old
      · exact new
    by_cases accepts : ∃ count, outcome = .accepted count
    · obtain ⟨count, rfl⟩ := accepts
      have alone : s.begun loop.other fd = [] := unmixed _ (Call.writing call.before) rfl
      obtain ⟨_, more, written, wires⟩ := call.accepted fitting
      cases loop with
      | rx =>
        have alone : s.begun .tx fd = [] := alone
        have kept : t.begun .tx fd = s.begun .tx fd := still (by decide)
        have silent := kept.trans alone
        refine ⟨fits, Or.inr silent, frames, ?_⟩
        rw [written, stream.whole, alone, silent, List.append_nil, List.append_nil, wires,
          List.append_assoc]
      | tx =>
        have alone : s.begun .rx fd = [] := alone
        have kept : t.begun .rx fd = s.begun .rx fd := still (by decide)
        have silent := kept.trans alone
        refine ⟨fits, Or.inl silent, frames, ?_⟩
        rw [written, stream.whole, alone, silent, List.nil_append, List.nil_append, wires,
          List.append_assoc]
    · have refused : ∀ count, outcome ≠ .accepted count := fun count same => accepts ⟨count, same⟩
      obtain ⟨written, wires, begun⟩ := call.refused refused
      have kept (other : Loop) : t.begun other fd = s.begun other fd := by
        by_cases own : other = loop
        · exact own ▸ begun unbroken
        · exact still own
      refine ⟨fits, ?_, frames, ?_⟩
      · rw [kept, kept]
        exact stream.single
      · rw [written, wires, kept, kept]
        exact stream.whole
  · obtain ⟨same, begun⟩ := call.elsewhere here
    refine stream.congr same (fun other => ?_) fits
    by_cases own : other = loop
    · exact own ▸ begun
    · exact still own

theorem Stream.start (cfg : Config) (peers : List (Consumer Fd)) (fd : Fd) :
    Stream fd (start cfg peers) where
  fits loop other message progress sends := by
    cases loop with
    | rx =>
      simp only [Server.sending, Server.start] at sends
      split at sends
      · rename_i at_
        split at at_ <;> contradiction
      · contradiction
    | tx => contradiction
  single := Or.inr rfl
  frames message member := by simp [Server.start, Traffic.quiet] at member
  whole := by
    have silent : (Server.start cfg peers).begun .rx fd = [] := by
      simp only [begun, Server.sending, Server.start]
      cases cfg.virtual <;> rfl
    rw [silent]
    rfl

omit [DecidableEq Fd] in
theorem Relayed.Short.bytes_cases (short : message.Short) :
    message.bytes = [] ∨ IsFrame message.bytes := by
  cases packed : message.frame.payload with
  | none =>
    left
    rw [bytes, packed]
    rfl
  | some bytes =>
    right
    rw [Relayed.bytes, packed]
    exact ⟨short.length packed, _, packed⟩

/-- What a loop has begun is the beginning of a frame. -/
theorem wellFramed_begun {frames : List (List UInt8)} (whole : ∀ bytes ∈ frames, IsFrame bytes)
    (ledger : s.Ledger) (short : s.Short) (stream : Stream fd s) (loop : Loop) :
    WellFramed (frames.flatten ++ s.begun loop fd) := by
  have ends : WellFramed (frames.flatten ++ []) := by
    rw [List.append_nil]
    exact wellFramed_of_frames whole
  cases sends : s.sending loop with
  | none =>
    simp only [begun, sends]
    exact ends
  | some call =>
    obtain ⟨other, message, progress⟩ := call
    simp only [begun, sends]
    split
    · have fitting : message.Short := short _ message (ledger.sending sends)
      rcases fitting.bytes_cases with empty | frame
      · rw [empty, List.take_nil]
        exact ends
      · exact wellFramed_of_part whole frame (stream.fits loop other message progress sends)
    · exact ends

theorem Stream.wellFramed (stream : Stream fd s) (ledger : s.Ledger) (short : s.Short) :
    WellFramed (s.traffic fd).written := by
  have whole : ∀ bytes ∈ (s.traffic fd).delivered.map Relayed.bytes, IsFrame bytes := by
    intro bytes member
    obtain ⟨message, delivered, rfl⟩ := List.mem_map.mp member
    exact stream.frames message delivered
  rw [stream.whole, wire, List.flatMap_def]
  rcases stream.single with silent | silent
  · rw [silent, List.nil_append]
    exact wellFramed_begun whole ledger short stream .tx
  · rw [silent, List.append_nil]
    exact wellFramed_begun whole ledger short stream .rx

end Sockcan.Server
