import Sockcan.Interop.Bus
import Sockcan.Server.Fifo
import Sockcan.Server.Ledger

/-! The two filters that a frame passes on its way to a `UserspaceSocketcanBus`: the server
keeps the filters of the subscription, and the bus applies those that were set last. -/
namespace Sockcan.Server
open Protocol Transition
variable {Fd : Type} [DecidableEq Fd]

/-- The frame that the statement of a loop skips for the filters of the consumer, or has
found to match them. -/
def RxPoint.decides (consumers : List (Consumer Fd)) (fd : Fd) : RxPoint Fd → Option (Relayed Fd)
  | .advance message index => match consumers[index]? with
    | none => none
    | some consumer =>
      if consumer.fd = fd ∧ ¬ consumer.accepts message then some message else none
  | .lookup message _ consumer => if consumer.fd = fd then some message else none
  | _ => none

def TxPoint.decides (consumers : List (Consumer Fd)) (fd : Fd) : TxPoint Fd → Option (Relayed Fd)
  | .advance job index => match consumers[index]? with
    | none => none
    | some consumer =>
      if consumer.fd = fd ∧ fd ≠ job.fileobj ∧ ¬ consumer.accepts job.message then
        some job.message
      else none
  | .lookup job _ consumer => if consumer.fd = fd then some job.message else none
  | _ => none

/-- The frame that this statement dispatches to the consumer. -/
def dispatches (s : Server Fd) (fd : Fd) : Action Fd → Option (Relayed Fd)
  | .rx => s.rx.decides s.consumers fd
  | .tx => s.tx.decides s.consumers fd
  | _ => none

/-- The frames dispatched to the consumer so far, kept beside the server. -/
def dispatched (fd : Fd) (messages : List (Relayed Fd)) (s : Server Fd) (action : Action Fd) :
    List (Relayed Fd) := messages ++ (s.dispatches fd action).toList

/-- What a loop has sent or queued for the consumer, and the frame it is about to. -/
def forwarded (s : Server Fd) (fd : Fd) (loop : Loop) : List (Relayed Fd) :=
  Outbox.ofOwner Relayed.loop loop (s.relayed fd) ++ (s.lane fd).held loop

variable {cfg : Config} {peers : List (Consumer Fd)} {s t : Server Fd} {action : Action Fd}
  {actions : List (Action Fd)} {consumer target : Consumer Fd} {message : Relayed Fd}

omit [DecidableEq Fd] in
theorem consumer_unique (distinct : (peers.map Consumer.fd).Nodup) (member : consumer ∈ peers)
    (other : target ∈ peers) (same : target.fd = consumer.fd) : target = consumer :=
  List.inj_on_of_nodup_map distinct other member same

/-- A frame that is decided without being handed over does not match. -/
theorem RxPoint.decides_cases {point : RxPoint Fd} (distinct : (peers.map Consumer.fd).Nodup)
    (member : consumer ∈ peers) (decides : point.decides peers consumer.fd = some message) :
    consumer.accepts message = false ∨
      ∃ index target, point = .lookup message index target ∧ target.fd = consumer.fd := by
  cases point with
  | advance other index =>
    simp only [RxPoint.decides] at decides
    split at decides
    · contradiction
    · next target found =>
      split at decides
      · next skips =>
        cases decides
        cases consumer_unique distinct member (List.mem_of_getElem? found) skips.1
        exact Or.inl (by simpa using skips.2)
      · contradiction
  | lookup other index target =>
    simp only [RxPoint.decides] at decides
    split at decides
    · next same =>
      cases decides
      exact Or.inr ⟨index, target, rfl, same⟩
    · contradiction
  | _ => contradiction

theorem TxPoint.decides_cases {point : TxPoint Fd} (distinct : (peers.map Consumer.fd).Nodup)
    (member : consumer ∈ peers) (decides : point.decides peers consumer.fd = some message) :
    consumer.accepts message = false ∨
      ∃ job index target, point = .lookup job index target ∧ target.fd = consumer.fd ∧
        job.message = message := by
  cases point with
  | advance job index =>
    simp only [TxPoint.decides] at decides
    split at decides
    · contradiction
    · next target found =>
      split at decides
      · next skips =>
        cases decides
        cases consumer_unique distinct member (List.mem_of_getElem? found) skips.1
        exact Or.inl (by simpa using skips.2.2)
      · contradiction
  | lookup job index target =>
    simp only [TxPoint.decides] at decides
    split at decides
    · next same =>
      cases decides
      exact Or.inr ⟨job, index, target, rfl, same, rfl⟩
    · contradiction
  | _ => contradiction

omit [DecidableEq Fd] in
/-- The consumer of a lookup takes the frame. -/
theorem Chosen.accepts {index : Nat} (chosen : Chosen peers message index target)
    (distinct : (peers.map Consumer.fd).Nodup) (member : consumer ∈ peers)
    (same : target.fd = consumer.fd) : consumer.accepts message = true := by
  obtain ⟨k, _, found, accepts⟩ := chosen
  cases consumer_unique distinct member (List.mem_of_getElem? found) same
  exact accepts

theorem Connected.rx_lookup (connected : Connected peers s) (member : consumer ∈ peers)
    {index : Nat} (at_ : s.rx = .lookup message index target) (same : target.fd = consumer.fd)
    (step : step cfg s .rx = some t) :
    (t.traffic consumer.fd).handed = (s.traffic consumer.fd).handed ++ [message] := by
  have present : s.consumerIo target.fd = true := same ▸ connected.io consumer member
  simp only [Server.step, rxStep, at_, present, if_true, Option.some.injEq] at step
  subst step
  exact (hand_handed target.fd message consumer.fd).trans (if_pos same.symm)

theorem Connected.tx_lookup (connected : Connected peers s) (member : consumer ∈ peers)
    {job : Job Fd} {index : Nat} (at_ : s.tx = .lookup job index target)
    (same : target.fd = consumer.fd) (step : step cfg s .tx = some t) :
    (t.traffic consumer.fd).handed = (s.traffic consumer.fd).handed ++ [job.message] := by
  have present : s.consumerIo target.fd = true := same ▸ connected.io consumer member
  simp only [Server.step, txStep, at_, present, if_true, Option.some.injEq] at step
  subst step
  exact (hand_handed target.fd job.message consumer.fd).trans (if_pos same.symm)

/-- A statement that hands nothing over dispatches nothing that matches. -/
theorem dispatches_rejected (distinct : (peers.map Consumer.fd).Nodup)
    (connected : Connected peers s) (member : consumer ∈ peers) (step : step cfg s action = some t)
    (same : (t.traffic consumer.fd).handed = (s.traffic consumer.fd).handed)
    (dispatches : s.dispatches consumer.fd action = some message) :
    consumer.accepts message = false := by
  cases action with
  | rx =>
    simp only [Server.dispatches, connected.consumers] at dispatches
    rcases RxPoint.decides_cases distinct member dispatches with
      rejects | ⟨index, target, at_, here⟩
    · exact rejects
    · have grown := connected.rx_lookup member at_ here step
      simp [same] at grown
  | tx =>
    simp only [Server.dispatches, connected.consumers] at dispatches
    rcases TxPoint.decides_cases distinct member dispatches with
      rejects | ⟨job, index, target, at_, here, _⟩
    · exact rejects
    · have grown := connected.tx_lookup member at_ here step
      simp [same] at grown
  | _ => contradiction

/-- Of the frames dispatched to a connected consumer, those that match its filters are
handed over. -/
theorem handed_dispatches (distinct : (peers.map Consumer.fd).Nodup) (connected : Connected peers s)
    (member : consumer ∈ peers) (step : step cfg s action = some t) :
    (t.traffic consumer.fd).handed = (s.traffic consumer.fd).handed ++
      (s.dispatches consumer.fd action).toList.filter fun message => consumer.accepts message := by
  have rx := connected.rx
  have tx := connected.tx
  rcases (step_moves step).handed_cases with same | ⟨message, index, target, rfl, at_, _, rfl⟩ |
    ⟨job, index, target, rfl, at_, _, rfl⟩
  · rw [same]
    cases dispatches : s.dispatches consumer.fd action with
    | none => simp
    | some message =>
      have rejected := dispatches_rejected distinct connected member step (same _) dispatches
      simp [rejected]
  · rw [at_] at rx
    rw [hand_handed]
    by_cases here : target.fd = consumer.fd
    · have accepts := rx.2.accepts distinct member here
      simp [Server.dispatches, at_, RxPoint.decides, here, accepts]
    · simp [Server.dispatches, at_, RxPoint.decides, here, Ne.symm here]
  · rw [at_] at tx
    rw [hand_handed]
    by_cases here : target.fd = consumer.fd
    · have accepts := tx.2.2.accepts distinct member here
      simp [Server.dispatches, at_, TxPoint.decides, here, accepts]
    · simp [Server.dispatches, at_, TxPoint.decides, here, Ne.symm here]

theorem handed_dispatched (distinct : (peers.map Consumer.fd).Nodup)
    (connected : Connected peers s) (member : consumer ∈ peers)
    (steady : Along (step cfg) Steady s actions) {messages : List (Relayed Fd)}
    (path : run (recorded (step cfg) (dispatched consumer.fd)) (s, []) actions =
      some (t, messages)) :
    (t.traffic consumer.fd).handed = (s.traffic consumer.fd).handed ++
      messages.filter fun message => consumer.accepts message := by
  have kept : Connected peers t ∧ (t.traffic consumer.fd).handed =
      (s.traffic consumer.fd).handed ++
        messages.filter fun message => consumer.accepts message := by
    refine invariant_run (I := fun state : Server Fd × List (Relayed Fd) =>
      Connected peers state.1 ∧ (state.1.traffic consumer.fd).handed =
        (s.traffic consumer.fd).handed ++ state.2.filter fun message => consumer.accepts message)
      ?_ ⟨connected, by simp⟩ (along_recorded.mpr steady) path
    rintro ⟨u, before⟩ action ⟨v, after⟩ ⟨connected, handed⟩ steady stepped
    obtain ⟨next, step, same⟩ := Option.map_eq_some_iff.mp stepped
    cases same
    refine ⟨(step_moves step).connected steady connected, ?_⟩
    rw [handed_dispatches distinct connected member step, handed, dispatched, List.filter_append,
      List.append_assoc]
  exact kept.2

theorem Relay.forwarded_eq (relay : Relay cfg peers s) (member : consumer ∈ peers)
    (untouched : (s.lane consumer.fd).Untouched) (loop : Loop) :
    s.forwarded consumer.fd loop =
      Outbox.ofOwner Relayed.loop loop (s.traffic consumer.fd).handed := by
  have inv := relay.lanes consumer member
  have same : s.relayed consumer.fd =
      (s.lane consumer.fd).delivered ++ (s.lane consumer.fd).content := by
    rw [← inv.waiting_eq untouched]
    rfl
  rw [forwarded, same]
  exact inv.exact untouched loop

/-- What each loop forwards to a connected consumer from some moment on, while the backlog does
not fill up: the frames it dispatches from then on that match the subscription, in order. -/
theorem forwarded_since (distinct : (peers.map Consumer.fd).Nodup) (member : consumer ∈ peers)
    {earlier later : List (Action Fd)} {messages : List (Relayed Fd)}
    (steady : Along (step cfg) Steady (start cfg peers) (earlier ++ later))
    (room : Throughout (step cfg) (fun s => (s.io consumer.fd).outbound.length < cfg.backlogSize)
      (start cfg peers) (earlier ++ later))
    (before : run (step cfg) (start cfg peers) earlier = some s)
    (after : run (recorded (step cfg) (dispatched consumer.fd)) (s, []) later = some (t, messages))
    (loop : Loop) :
    (t.forwarded consumer.fd loop).drop (s.forwarded consumer.fd loop).length =
      (Outbox.ofOwner Relayed.loop loop messages).filter
        fun message => consumer.accepts message := by
  have whole := run_append.mpr ⟨s, before, run_recorded after⟩
  have start_relay := Relay.run distinct steady.before before
  have end_relay := Relay.run distinct steady whole
  have start_room := Relay.untouched distinct member steady.before room.before before
  have end_room := Relay.untouched distinct member steady room whole
  rw [start_relay.forwarded_eq member start_room, end_relay.forwarded_eq member end_room,
    handed_dispatched distinct start_relay.connected member (steady.append before) after,
    Outbox.ofOwner_append, List.drop_left]
  simp only [Outbox.ofOwner, List.filter_filter, Bool.and_comm]

end Sockcan.Server

namespace Sockcan.Interop
open Protocol Transition Server
variable {Fd : Type} {cfg : Config} {peers : List (Consumer Fd)} {s t : Server Fd} {fd : Fd}

/-- The consumer that the server keeps for this bus. -/
def UserspaceSocketcanBus.consumer (bus : UserspaceSocketcanBus) (fd : Fd) : Consumer Fd :=
  ⟨fd, bus.subscribed⟩

/-- A frame that the stream carries as it is: eleven bits of identifier, or the flag. -/
def Carried (message : Relayed Fd) : Prop :=
  message.frame.Classic ∧ message.frame.onWire = message.frame

instance (message : Relayed Fd) : Decidable (Carried message) :=
  inferInstanceAs (Decidable (_ ∧ _))

theorem filter_filter_eq_iff {α : Type} {p q : α → Bool} {xs : List α} :
    (xs.filter p).filter q = xs.filter q ↔ ∀ x ∈ xs, q x = true → p x = true := by
  constructor
  · intro same x member wanted
    have kept : x ∈ (xs.filter p).filter q := same ▸ List.mem_filter.mpr ⟨member, wanted⟩
    exact (List.mem_filter.mp (List.mem_filter.mp kept).1).2
  · intro each
    rw [List.filter_filter]
    apply List.filter_congr
    intro x member
    cases wanted : q x with
    | false => rfl
    | true => simp [each x member wanted]

variable {initial : Option (List CanFilter)} {calls : List (Option (List CanFilter))}

theorem consumer_accepts (message : Relayed Fd) :
    ((UserspaceSocketcanBus.configured initial calls).consumer fd).accepts message =
      frameMatches (subscription initial) message.frame.canId message.frame.isExtended := by
  rw [← configured_subscribed initial calls]
  rfl

variable [DecidableEq Fd]

/-- What a run of a virtual server with this bus and one other client leads to, and what it
dispatches to the bus. -/
def relaying (bus : UserspaceSocketcanBus) (actions : List (Action Nat)) :
    Option (Server Nat × List (Relayed Nat)) :=
  run (recorded (step .virtualBus) (dispatched 0))
    (start .virtualBus [bus.consumer 0, ⟨1, none⟩], []) actions

/-- The other client sends a frame. -/
def sendingRun : List (Action Nat) :=
  [.tx, .txSelect [.ready 1 true false], .tx, .txRecv (some ⟨0x200, [1], false⟩)]

def takenRun : List (Action Nat) :=
  sendingRun ++ [.tx, .tx, .tx, .txCall (.accepted 16), .tx, .tx, .tx]

/-- A bus that was opened for every frame. -/
def narrowed : UserspaceSocketcanBus := .configured none [some [⟨0x200, 0x7FF, none⟩]]

def skippedRun : List (Action Nat) := sendingRun ++ [.tx, .tx, .tx]

/-- A bus that was opened for one identifier, and then reconfigured for every frame. -/
def widened : UserspaceSocketcanBus := .configured (some [⟨0x100, 0x7FF, none⟩]) [none]

end Sockcan.Interop
