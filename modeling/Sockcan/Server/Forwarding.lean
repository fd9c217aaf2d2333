import Sockcan.Protocol.Rebuilt
import Sockcan.Server.Stream

/-! What the relay makes of the frames that the consumers write. Between the read of a
frame and its last send it is three values in a backlog, which no thread changes. -/
namespace Sockcan.Server
open Protocol Transition
variable {Fd : Type}

/-- A read that returns comes after the earlier ones on the stream of its descriptor: whole
frames, and what is left of one that its writer broke off. -/
def Reads (frames : Fd → List (List UInt8)) (part : Fd → List UInt8) (s : Server Fd) :
    Action Fd → Prop
  | .txRecv (some frame) => ∀ fd writable events, s.tx = .recv fd writable events →
    ∃ network calls next, socketcanRecvStream network
      ⟨((frames fd).drop (s.received (some fd)).length).flatten ++ part fd, calls⟩ =
        .ok (frame, next)
  | _ => True

/-- What was read from each descriptor is what its frames decode to. -/
def Decoded (frames : Fd → List (List UInt8)) (s : Server Fd) : Prop :=
  ∀ fd (i : Nat) (message : Relayed Fd), (s.received (some fd))[i]? = some message →
    ∃ cf, (frames fd)[i]? = some cf ∧ message.frame = decodeFrame cf

/-- The frame was sent to the consumer, or is being sent, or waits in its backlog. -/
def Has (s : Server Fd) (fd : Fd) (message : Relayed Fd) : Prop :=
  message ∈ (s.traffic fd).delivered ∨ message ∈ (s.io fd).outbound ∨
    ∃ loop progress, s.sending loop = some (fd, message, progress)

variable [DecidableEq Fd] {cfg : Config} {peers : List (Consumer Fd)} {s t : Server Fd}
  {action : Action Fd} {actions : List (Action Fd)} {fd source : Fd} {message : Relayed Fd}
  {frames : Fd → List (List UInt8)} {part : Fd → List UInt8}

omit [DecidableEq Fd] in
theorem Reads.next {frame : Frame} {writable : Bool} {events : List (Event Fd)}
    (reads : Reads frames part s (.txRecv (some frame))) (at_ : s.tx = .recv fd writable events)
    (whole : ∀ cf ∈ frames fd, cf.length = msgSize) (short : (part fd).length < msgSize) :
    ∃ cf, (frames fd)[(s.received (some fd)).length]? = some cf ∧ frame = decodeFrame cf := by
  obtain ⟨network, calls, next, returned⟩ := reads fd writable events at_
  by_cases inside : (s.received (some fd)).length < (frames fd).length
  · rw [List.drop_eq_getElem_cons inside, List.flatten_cons, List.append_assoc] at returned
    have size := whole _ (List.getElem_mem inside)
    exact ⟨_, List.getElem?_eq_getElem inside, (socketcanRecvStream_returned size returned).1⟩
  · rw [List.drop_eq_nil_of_le (Nat.not_lt.mp inside), List.flatten_nil, List.nil_append]
      at returned
    obtain ⟨error, raised⟩ := socketcanRecvStream_short (sizesOf network) calls short
    rw [socketcanRecvStream_sizesOf returned] at raised
    contradiction

omit [DecidableEq Fd] in
theorem Decoded.congr (decoded : s.Decoded frames) (same : t.received = s.received) :
    t.Decoded frames := by
  rw [Decoded, same]
  exact decoded

theorem Decoded.receive (decoded : s.Decoded frames) (origin : Option Fd) (frame : Frame)
    (next : ∀ fd, origin = some fd →
      ∃ cf, (frames fd)[(s.received (some fd)).length]? = some cf ∧ frame = decodeFrame cf) :
    (s.receive (s.stamp origin frame)).Decoded frames := by
  intro fd i message found
  rcases receive_cases found with old | ⟨rfl, rfl, rfl⟩
  · exact decoded fd i message old
  · exact next fd rfl

/-- Nothing but a read of a consumer adds to what was read of the consumers. -/
theorem Moves.decoded (move : Moves cfg s action t) (reads : Reads frames part s action)
    (whole : ∀ fd, ∀ cf ∈ frames fd, cf.length = msgSize)
    (short : ∀ fd, (part fd).length < msgSize) (decoded : s.Decoded frames) :
    t.Decoded frames := by
  rcases move.read_cases with same | move | move
  · exact decoded.congr same
  · cases move with
    | @recv frame => exact decoded.receive none frame nofun
    | offer _ offer => exact decoded.congr offer.received
    | call _ call => exact decoded.congr call.received
    | _ => exact decoded
  · cases move with
    | @recv reader _ _ frame at_ =>
      refine decoded.receive (some reader) frame ?_
      rintro _ ⟨⟩
      exact reads.next at_ (whole reader) (short reader)
    | offer _ offer => exact decoded.congr offer.received
    | call _ call => exact decoded.congr call.received
    | _ => exact decoded

omit [DecidableEq Fd] in
theorem Ledger.has (ledger : s.Ledger) (has : s.Has fd message) :
    message ∈ s.received message.source := by
  rcases has with delivered | queued | ⟨loop, progress, sends⟩
  · apply ledger.served fd
    exact List.mem_append_left _ (List.mem_append_left _ delivered)
  · exact ledger.queued fd message queued
  · exact ledger.sending sends

/-- Whatever the interleaving and however long a frame waits, what is sent for a frame of
another consumer is that frame without its remote flag: the frame itself, unless it is a
remote request. -/
theorem forwards_without_remote (wellFormed : ∀ fd, ∀ cf ∈ frames fd, WellFormed cf)
    (short : ∀ fd, (part fd).length < msgSize)
    (reads : Along (step cfg) (Reads frames part) (start cfg peers) actions)
    (path : run (step cfg) (start cfg peers) actions = some s) :
    ∀ fd message, s.Has fd message → ∀ source, message.source = some source →
      ∃ cf, (frames source)[message.serial]? = some cf ∧
        message.frame.payload = some (withoutRemote cf) ∧
        (message.frame.payload = some cf ↔ ¬ Remote cf) := by
  have whole (fd : Fd) (cf : List UInt8) (member : cf ∈ frames fd) : cf.length = msgSize :=
    (wellFormed fd cf member).size
  have invariant : s.Ledger ∧ s.Decoded frames := by
    refine invariant_run (I := fun s => s.Ledger ∧ s.Decoded frames) ?_ ⟨.start cfg peers, ?_⟩
      reads path
    · intro s action t kept reads step
      have move := step_moves step
      exact ⟨move.ledger kept.1, move.decoded reads whole short kept.2⟩
    · intro fd i message found
      simp [Server.start] at found
  obtain ⟨ledger, decoded⟩ := invariant
  intro fd message has source from_source
  have member := ledger.has has
  obtain ⟨i, found⟩ := List.mem_iff_getElem?.mp member
  obtain rfl := (ledger.numbered _ i message found).1
  rw [from_source] at found
  obtain ⟨cf, written, same⟩ := decoded source _ message found
  have well := wellFormed source cf (List.mem_of_getElem? written)
  have payload : message.frame.payload = some (withoutRemote cf) := by
    rw [same, well.payload]
  refine ⟨cf, written, payload, ?_⟩
  rw [payload, Option.some.injEq, withoutRemote_eq_iff well.size]

/-- Four bytes are asked for under identifier 0x123. -/
def request : List UInt8 := [0x23, 1, 0, 0x40, 4, 0, 0, 0, 0, 0, 0, 0, 0, 0, 0, 0]

/-- The request, sent by consumer 0, is handed to consumer 1 and sent there. -/
def requestRun : List (Action Nat) :=
  [.tx, .txSelect [.ready 0 true false], .tx, .txRecv (some (decodeFrame request)), .tx, .tx, .tx,
    .tx, .txCall (.accepted 16)]

theorem request_wellFormed : WellFormed request := by
  constructor <;> decide

theorem requestRun_reads : Along (step .virtualBus)
    (Reads (fun fd => if fd = 0 then [request] else []) fun _ => [])
    (start .virtualBus [⟨0, none⟩, ⟨1, none⟩]) requestRun := by
  refine ⟨trivial, trivial, trivial, ?_, trivial, trivial, trivial, trivial, trivial, trivial⟩
  rintro fd writable events ⟨⟩
  exact ⟨chunks fun _ => 16, 0, ⟨[], 1⟩, rfl⟩

theorem forwards_without_remote_request :
    ∃ s message, run (step .virtualBus) (start .virtualBus [⟨0, none⟩, ⟨1, none⟩]) requestRun =
        some s ∧ s.Has 1 message ∧ message.frame.payload = some (withoutRemote request) := by
  obtain ⟨s, path, delivered⟩ : ∃ s, run (step .virtualBus)
      (start .virtualBus [⟨0, none⟩, ⟨1, none⟩]) requestRun = some s ∧
        (s.traffic 1).delivered = [⟨some 0, 0, decodeFrame request⟩] := ⟨_, rfl, rfl⟩
  have has : s.Has 1 ⟨some 0, 0, decodeFrame request⟩ := by
    left
    rw [delivered]
    exact List.mem_cons_self
  have wellFormed (fd : Nat) (cf : List UInt8)
      (member : cf ∈ if fd = 0 then [request] else []) : WellFormed cf := by
    split at member
    · rw [List.mem_singleton.mp member]
      exact request_wellFormed
    · contradiction
  obtain ⟨cf, written, payload, _⟩ := forwards_without_remote wellFormed (fun _ => by decide)
    requestRun_reads path 1 _ has 0 rfl
  obtain rfl : request = cf := Option.some.inj written
  exact ⟨s, _, path, has, payload⟩

/-- The receiver and the sender turn the request into four bytes of data. -/
theorem request_becomes_data :
    WellFormed request ∧ Remote request ∧
      socketcanRecvStream (chunks fun _ => 16) ⟨request, 0⟩ =
        .ok (decodeFrame request, ⟨[], 1⟩) ∧
      (decodeFrame request).payload =
        some [0x23, 1, 0, 0, 4, 0, 0, 0, 0, 0, 0, 0, 0, 0, 0, 0] ∧
      (decodeFrame request).payload ≠ some request := by
  refine ⟨request_wellFormed, by decide, rfl, by decide, by decide⟩

end Sockcan.Server
