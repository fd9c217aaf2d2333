import Sockcan.Interop.Filtering
import Sockcan.Server.Atomic
import Sockcan.Server.Splice
import Sockcan.Server.Forwarding

/-! Two python-can clients of one server, end to end: from the bytes that the one has written
to what `recv` of the other returns. -/
namespace Sockcan.Server
open Protocol Transition
variable {Fd : Type}

/-- A frame that a stream carries as it is. -/
def Proper (frame : Frame) : Prop := frame.Classic ∧ frame.Flagged

instance (frame : Frame) : Decidable (Proper frame) := inferInstanceAs (Decidable (_ ∧ _))

/-- The bus delivers such frames. -/
def ReadsProper (_ : Server Fd) (action : Action Fd) : Prop :=
  ∀ frame ∈ fromBus action, Proper frame

instance (s : Server Fd) (action : Action Fd) : Decidable (s.ReadsProper action) :=
  inferInstanceAs (Decidable (∀ frame ∈ fromBus action, _))

/-- The bytes of each frame that the clients have sent. -/
def written (sent : Fd → List Frame) (fd : Fd) : List (List UInt8) :=
  (sent fd).map fun frame => frame.payload.getD []

/-- What each source has sent: a client its frames, and the bus those that were read. -/
def spoken (sent : Fd → List Frame) (s : Server Fd) : Option Fd → List Frame
  | none => (s.received none).map Relayed.frame
  | some fd => sent fd

/-- No frame is on its way to the consumer. -/
def Idle (s : Server Fd) (fd : Fd) : Prop :=
  (s.io fd).outbound = [] ∧ ∀ loop, s.dispatch loop = none

/-- What a server knows of its clients while no send to `fd` is broken off. -/
structure Serves [DecidableEq Fd] (sent : Fd → List Frame) (fd : Fd) (s : Server Fd) : Prop where
  ledger : s.Ledger
  short : s.Short
  decoded : s.Decoded (written sent)
  bus : ∀ message ∈ s.received none, Proper message.frame
  stream : Stream fd s
  unbroken : (s.traffic fd).broken = false

variable [DecidableEq Fd] {cfg : Config} {peers : List (Consumer Fd)} {s t : Server Fd}
  {action : Action Fd} {actions : List (Action Fd)} {fd : Fd} {message : Relayed Fd}
  {sent : Fd → List Frame} {part : Fd → List UInt8}

omit [DecidableEq Fd] in
theorem written_whole (proper : ∀ fd, ∀ frame ∈ sent fd, Proper frame) (fd : Fd)
    (cf : List UInt8) (member : cf ∈ written sent fd) : cf.length = msgSize := by
  obtain ⟨frame, of_frame, rfl⟩ := List.mem_map.mp member
  obtain ⟨bytes, packed, whole⟩ := (proper fd frame of_frame).1.payload_isSome
  rw [packed]
  exact whole

omit [DecidableEq Fd] in
/-- What has been read of a client is what it has sent, as far as it goes. -/
theorem Decoded.begins (decoded : s.Decoded (written sent))
    (proper : ∀ fd, ∀ frame ∈ sent fd, Proper frame) (fd : Fd) :
    (s.received (some fd)).map Relayed.frame <+: sent fd := by
  rw [List.prefix_iff_getElem?]
  intro i inside
  rw [List.length_map] at inside
  obtain ⟨cf, found, same⟩ := decoded fd i _ (List.getElem?_eq_getElem inside)
  rw [written, List.getElem?_map] at found
  obtain ⟨frame, here, rfl⟩ := Option.map_eq_some_iff.mp found
  obtain ⟨classic, flagged⟩ := proper fd frame (List.mem_of_getElem? here)
  obtain ⟨bytes, packed, _⟩ := classic.payload_isSome
  rw [here, List.getElem_map, same, packed, Option.getD_some, classic.decode_payload packed,
    flagged.onWire]

theorem Serves.proper (serves : s.Serves sent fd)
    (proper : ∀ fd, ∀ frame ∈ sent fd, Proper frame) {source : Option Fd}
    (member : message ∈ s.received source) : Proper message.frame := by
  cases source with
  | none => exact serves.bus message member
  | some origin =>
    exact proper origin _
      ((serves.decoded.begins proper origin).subset (List.mem_map_of_mem member))

theorem Moves.bus_proper (move : Moves cfg s action t) (reads : s.ReadsProper action)
    (bus : ∀ message ∈ s.received none, Proper message.frame) :
    ∀ message ∈ t.received none, Proper message.frame := by
  intro message member
  rcases move.read_cases with same | relays | relays
  · exact bus message (same ▸ member)
  · cases relays with
    | @recv frame =>
      have arrived : message ∈ (s.receive (s.stamp none frame)).received none := member
      rcases mem_receive arrived with old | new
      · exact bus message old
      · exact new ▸ reads _ rfl
    | offer _ offer => exact bus message (offer.received ▸ member)
    | call _ call => exact bus message (call.received ▸ member)
    | _ => exact bus message member
  · cases relays with
    | recv => exact bus message (by simpa [receive, stamp] using member)
    | offer _ offer => exact bus message (offer.received ▸ member)
    | call _ call => exact bus message (call.received ▸ member)
    | _ => exact bus message member

omit [DecidableEq Fd] in
theorem Unfailing.succeeds (unfailing : s.Unfailing action) : s.Succeeds action := by
  intro call member sends found
  have passes : s.CallSucceeds call.1 call.2 := by
    cases action <;> simp only [socketCall, reduceCtorEq, Option.mem_def, Option.some.injEq]
      at member
    all_goals
      subst member
      exact unfailing
  exact ⟨(passes sends found).2.2, (passes sends found).2.1⟩

theorem Moves.serves (move : Moves cfg s action t) (serves : s.Serves sent fd)
    (proper : ∀ fd, ∀ frame ∈ sent fd, Proper frame) (short : ∀ fd, (part fd).length < msgSize)
    (unfailing : s.Unfailing action) (reads : Reads (written sent) part s action)
    (bus : s.ReadsProper action) (unmixed : s.Unmixed fd action) : t.Serves sent fd where
  ledger := move.ledger serves.ledger
  short := move.short serves.short fun frame member => (bus frame member).1.2
  decoded := move.decoded reads (written_whole proper) short serves.decoded
  bus := move.bus_proper bus serves.bus
  stream := move.stream serves.ledger serves.short serves.stream unmixed
    (move.unbroken unfailing.succeeds serves.unbroken)
  unbroken := move.unbroken unfailing.succeeds serves.unbroken

theorem Serves.start : (start cfg peers).Serves sent fd where
  ledger := .start cfg peers
  short source message member := by simp [Server.start] at member
  decoded fd i message found := by simp [Server.start] at found
  bus message member := by simp [Server.start] at member
  stream := .start cfg peers fd
  unbroken := rfl

omit [DecidableEq Fd] in
theorem dispatch_atomic (loop : Loop) : s.atomic.dispatch loop = s.dispatch loop := by
  cases loop with
  | rx => cases at_ : s.rx <;> simp only [dispatch, atomic_rx, at_] <;> rfl
  | tx => cases at_ : s.tx <;> simp only [dispatch, atomic_tx, at_] <;> rfl

/-- At most one frame has been begun, and it is not whole. -/
theorem Stream.begun_short (stream : Stream fd s) :
    (s.begun .rx fd ++ s.begun .tx fd).length < msgSize := by
  have each (loop : Loop) : (s.begun loop fd).length < msgSize := by
    cases sends : s.sending loop with
    | none =>
      simp only [begun, sends]
      decide
    | some call =>
      obtain ⟨other, message, progress⟩ := call
      have fits := stream.fits loop other message progress sends
      simp only [begun, sends]
      split
      · rw [List.length_take]
        omega
      · exact Nat.lt_of_le_of_lt (Nat.zero_le _) fits
  rw [List.length_append]
  rcases stream.single with silent | silent
  · rw [silent, List.length_nil, Nat.zero_add]
    exact each .tx
  · rw [silent, List.length_nil, Nat.add_zero]
    exact each .rx

omit [DecidableEq Fd] in
theorem wire_eq_wireOf : s.wire fd = wireOf ((s.traffic fd).delivered.map Relayed.frame) := by
  rw [wire, wireOf, List.flatMap_map]
  rfl

end Sockcan.Server

namespace Sockcan.Interop
open Protocol Transition Server
variable {Fd : Type} [DecidableEq Fd] {cfg : Config} {peers : List (Consumer Fd)} {s : Server Fd}
  {actions : List (Action Fd)} {fd : Fd} {sent : Fd → List Frame} {part : Fd → List UInt8}
  {initial : Option (List CanFilter)} {calls : List (Option (List CanFilter))}

/-- The frame passes the filters of the subscription and those that were set last. -/
def wanted (initial : Option (List CanFilter)) (calls : List (Option (List CanFilter)))
    (frame : Frame) : Bool :=
  frameMatches (subscription initial) frame.canId frame.isExtended &&
    (UserspaceSocketcanBus.configured initial calls).accepts frame

/-- What `recv` returns of the bytes on the stream: the frames delivered that it accepts. -/
theorem recvAll_delivered (serves : s.Serves sent fd)
    (proper : ∀ fd, ∀ frame ∈ sent fd, Proper frame) (bus : UserspaceSocketcanBus)
    (sizes : Nat → Nat) (reads : Nat) :
    bus.recvAll (chunks sizes) ⟨(s.traffic fd).written, reads⟩ =
      ((s.traffic fd).delivered.filter fun message => bus.accepts message.frame).map
        Relayed.frame := by
  have each : ∀ frame ∈ (s.traffic fd).delivered.map Relayed.frame, Proper frame := by
    intro frame member
    obtain ⟨message, delivered, rfl⟩ := List.mem_map.mp member
    refine serves.proper proper (serves.ledger.served fd message ?_)
    exact List.mem_append_left _ (List.mem_append_left _ delivered)
  rw [serves.stream.whole, wire_eq_wireOf, recvAll_wireOf_part sizes
    (fun frame member => (each frame member).1) serves.stream.begun_short reads,
    List.map_congr_left fun frame member => (each frame member).2.onWire, List.map_id',
    List.filter_map]
  rfl

theorem ofSource_filter (source : Option Fd) (accepts : Relayed Fd → Bool)
    (messages : List (Relayed Fd)) :
    ofSource source (messages.filter accepts) = (ofSource source messages).filter accepts := by
  simp only [ofSource, List.filter_filter, Bool.and_comm]

omit [DecidableEq Fd] in
/-- The frames of a source that match the subscription, as the bus sees them. -/
theorem matched_wanted (source : Option Fd) :
    ((s.matched ((UserspaceSocketcanBus.configured initial calls).consumer fd) source).filter
        fun message => (UserspaceSocketcanBus.configured initial calls).accepts message.frame).map
      Relayed.frame = ((s.received source).map Relayed.frame).filter (wanted initial calls) := by
  rw [matched, List.filter_filter, List.filter_map]
  refine congrArg (List.map Relayed.frame) (List.filter_congr fun message _ => ?_)
  rw [consumer_accepts, Bool.and_comm]
  rfl

theorem Serves.run (proper : ∀ fd, ∀ frame ∈ sent fd, Proper frame)
    (short : ∀ fd, (part fd).length < msgSize)
    (unfailing : Along (step cfg) Unfailing (start cfg peers) actions)
    (reads : Along (step cfg) (Reads (written sent) part) (start cfg peers) actions)
    (bus : Along (step cfg) ReadsProper (start cfg peers) actions)
    (unmixed : Along (step cfg) (Unmixed fd) (start cfg peers) actions)
    (path : run (step cfg) (start cfg peers) actions = some s) : s.Serves sent fd := by
  refine invariant_run (fun s action t serves along step => ?_) .start
    ((unfailing.and reads).and (bus.and unmixed)) path
  obtain ⟨⟨unfailing, reads⟩, bus, unmixed⟩ := along
  exact (step_moves step).serves serves proper short unfailing reads bus unmixed

theorem spoken_begins (serves : s.Serves sent fd)
    (proper : ∀ fd, ∀ frame ∈ sent fd, Proper frame) (source : Option Fd) :
    (s.received source).map Relayed.frame <+: s.spoken sent source := by
  cases source with
  | none => exact List.prefix_rfl
  | some origin => exact serves.decoded.begins proper origin

/-- However the sends and the reads are cut and the threads interleave, `recv` of a client
returns whole frames of others that pass its filters; of each source they are among those it has
sent, in order and once each. Where its backlog never fills up they are all of them, as soon as
the server has read them and is idle. -/
theorem delivered_end_to_end (distinct : (peers.map Consumer.fd).Nodup)
    (member : (UserspaceSocketcanBus.configured initial calls).consumer fd ∈ peers)
    (proper : ∀ fd, ∀ frame ∈ sent fd, Proper frame) (short : ∀ fd, (part fd).length < msgSize)
    (unfailing : Along (step cfg) Unfailing (start cfg peers) actions)
    (reads : Along (step cfg) (Reads (written sent) part) (start cfg peers) actions)
    (bus : Along (step cfg) ReadsProper (start cfg peers) actions)
    (unmixed : Along (step cfg) (Unmixed fd) (start cfg peers) actions)
    (path : run (step cfg) (start cfg peers) actions = some s) (sizes : Nat → Nat)
    (returns : Nat) :
    ∃ messages : List (Relayed Fd),
      (UserspaceSocketcanBus.configured initial calls).recvAll (chunks sizes)
          ⟨(s.traffic fd).written, returns⟩ = messages.map Relayed.frame ∧
      (∀ message ∈ messages, message.source ≠ some fd) ∧
      ∀ source, source ≠ some fd →
        ((ofSource source messages).map Relayed.frame).Sublist
          ((s.spoken sent source).filter (wanted initial calls)) ∧
        (Throughout (step cfg) (fun s => (s.io fd).outbound.length < cfg.backlogSize)
            (start cfg peers) actions →
          s.Idle fd → (s.received source).length = (s.spoken sent source).length →
          (ofSource source messages).map Relayed.frame =
            (s.spoken sent source).filter (wanted initial calls)) := by
  let client := UserspaceSocketcanBus.configured initial calls
  have serves := Serves.run proper short unfailing reads bus unmixed path
  obtain ⟨shown, shows, steady, throughout⟩ := atomic_steady unfailing path
  have relay := Relay.run distinct steady shows
  obtain ⟨place, at_place⟩ := List.mem_iff_getElem?.mp member
  have handing := relay.handing place _ at_place
  have inv := relay.lanes _ member
  have sent_in_order := spoken_begins serves proper
  let accepted (message : Relayed Fd) : Bool := client.accepts message.frame
  have delivered_sublist : (s.traffic fd).delivered.Sublist (s.relayed fd) :=
    List.sublist_append_left _ _
  refine ⟨(s.traffic fd).delivered.filter accepted,
    recvAll_delivered serves proper client sizes returns, fun message taken => ?_,
    fun source foreign => ⟨?_, fun room idle read => ?_⟩⟩
  · have relayed := delivered_sublist.subset (List.mem_filter.mp taken).1
    exact handing.relayed_foreign inv relayed
  · have matched : (ofSource source (s.traffic fd).delivered).Sublist
        (s.matched (client.consumer fd) source) :=
      (delivered_sublist.filter _).trans (handing.relayed_sublist inv foreign)
    have received := (matched.filter accepted).map Relayed.frame
    rw [matched_wanted] at received
    rw [ofSource_filter]
    exact received.trans ((sent_in_order source).sublist.filter _)
  · have untouched := Relay.untouched distinct member steady
      (throughout (fun s => (s.io fd).outbound.length < cfg.backlogSize) room) shows
    have none_in_hand : s.atomic.inHand (client.consumer fd) place source = [] := by
      refine List.eq_nil_iff_forall_not_mem.mpr fun message held => ?_
      obtain ⟨passed, dispatched⟩ :=
        (relay.connected.inHand distinct at_place source).2 message held
      rw [dispatch_atomic, idle.2] at dispatched
      contradiction
    have all : s.matched (client.consumer fd) source =
        ofSource source (s.traffic fd).delivered := by
      have all := handing.matched_eq inv untouched foreign
      have drained : s.atomic.relayed fd = (s.traffic fd).delivered := by
        have empty : (s.atomic.io fd).outbound = [] := idle.1
        simp only [relayed, empty, List.filter_nil, List.append_nil]
        rfl
      rw [none_in_hand, List.append_nil] at all
      exact all.trans (congrArg (ofSource source) drained)
    have every : (s.received source).map Relayed.frame = s.spoken sent source :=
      (sent_in_order source).eq_of_length (by rw [List.length_map, read])
    rw [ofSource_filter, ← all, matched_wanted, every]

/-- The frame of the other client is read, and written to the bus in two pieces. -/
def deliveredRun : List (Action Nat) :=
  [.tx, .txSelect [.ready 1 true false], .tx, .txRecv (some ⟨0x200, [1], false⟩), .tx, .tx, .tx,
    .txCall (.accepted 5), .txCall (.accepted 11), .tx, .tx]

def deliveredSent (fd : Nat) : List Frame := if fd = 1 then [⟨0x200, [1], false⟩] else []

theorem deliveredRun_reads : Along (step .virtualBus) (Reads (written deliveredSent) fun _ => [])
    (start .virtualBus [narrowed.consumer 0, ⟨1, none⟩]) deliveredRun := by
  refine ⟨trivial, trivial, trivial, ?_, trivial, trivial, trivial, trivial, trivial, trivial,
    trivial, trivial⟩
  rintro fd writable events ⟨⟩
  exact ⟨chunks fun _ => 16, 0, ⟨[], 1⟩, rfl⟩

theorem delivered_end_to_end_pieces :
    ∃ s messages, run (step .virtualBus) (start .virtualBus [narrowed.consumer 0, ⟨1, none⟩])
        deliveredRun = some s ∧
      narrowed.recvAll (chunks fun _ => 3) ⟨(s.traffic 0).written, 0⟩ =
        messages.map Relayed.frame ∧
      (ofSource (some 1) messages).map Relayed.frame = [⟨0x200, [1], false⟩] := by
  have ends : (run (step .virtualBus) (start .virtualBus [narrowed.consumer 0, ⟨1, none⟩])
      deliveredRun).map (fun s => ((s.io 0).outbound, s.dispatch .rx, s.dispatch .tx,
        (s.received (some 1)).length)) = some ([], none, none, 1) := by decide +kernel
  obtain ⟨s, path, observed⟩ := Option.map_eq_some_iff.mp ends
  simp only [Prod.mk.injEq] at observed
  obtain ⟨empty, rx, tx, read⟩ := observed
  have proper (fd : Nat) (frame : Frame) (member : frame ∈ deliveredSent fd) : Proper frame := by
    unfold deliveredSent at member
    split at member
    · rw [List.mem_singleton.mp member]
      decide
    · contradiction
  obtain ⟨messages, returned, _, each⟩ := delivered_end_to_end (by decide) List.mem_cons_self
    proper (fun _ => by decide) (by decide +kernel) deliveredRun_reads (by decide +kernel)
    (by decide +kernel) path (fun _ => 3) 0
  have idle : s.Idle 0 := ⟨empty, fun loop => by cases loop <;> assumption⟩
  have all : (ofSource (some 1) messages).map Relayed.frame =
      (deliveredSent 1).filter (wanted none [some [⟨0x200, 0x7FF, none⟩]]) :=
    (each (some 1) (by decide)).2 (by decide +kernel) idle read
  exact ⟨s, messages, path, returned, all.trans (by decide)⟩

end Sockcan.Interop
