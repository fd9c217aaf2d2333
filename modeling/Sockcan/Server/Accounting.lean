import Sockcan.Server.Relay

/-! The books of a virtual bus. The TX loop is then the only one that sends to a
consumer, so between two events its queue, its write interest, its drop counter and
what it got all agree. -/
namespace Sockcan.Server
open Protocol Transition
variable {Fd : Type}

/-- No event is being handled. -/
def TxPoint.BetweenEvents : TxPoint Fd → Prop
  | .whileRunning | .select | .nextEvent _ | .ended .returned => True
  | _ => False

/-- The frames evicted from the backlog of a consumer. -/
def evicted (s : Server Fd) (fd : Fd) : List (Relayed Fd) :=
  ((s.traffic fd).backlog.removed.filter Deque.Removal.evicted).map Deque.Removal.item

variable [DecidableEq Fd] {cfg : Config} {peers : List (Consumer Fd)} {s t : Server Fd}
  {action : Action Fd} {actions : List (Action Fd)} {consumer : Consumer Fd} {fd : Fd}

theorem alone_of_over (rxEnded : s.rx = .ended .returned) (fd : Fd) :
    ∀ loop, loop ≠ .tx → (s.lane fd).holding loop = none := by
  intro loop other
  cases loop with
  | rx => simp [Server.lane, outbox, Server.holding, rxEnded, RxPoint.holding]
  | tx => exact absurd rfl other

/-- A relay whose TX loop is alone. -/
structure VirtualRelay (cfg : Config) (peers : List (Consumer Fd)) (s : Server Fd) : Prop where
  relay : Relay cfg peers s
  rxEnded : s.rx = .ended .returned
  sole : ∀ consumer ∈ peers, (s.lane consumer.fd).Sole cfg.backlogSize .tx

theorem VirtualRelay.step (distinct : (peers.map Consumer.fd).Nodup)
    (kept : VirtualRelay cfg peers s) (steady : s.Steady action)
    (step : step cfg s action = some t) : VirtualRelay cfg peers t where
  relay := kept.relay.step distinct steady step
  rxEnded := (step_moves step).rx_over kept.rxEnded
  sole consumer member := by
    rcases kept.relay.lane_step distinct steady step member with same | moved
    · rw [same]
      exact kept.sole consumer member
    · exact moved.sole cfg.positive (kept.relay.lanes consumer member) (kept.sole consumer member)
        (alone_of_over ((step_moves step).rx_over kept.rxEnded) consumer.fd)

theorem VirtualRelay.start (virtual : cfg.virtual = true) (peers : List (Consumer Fd)) :
    VirtualRelay cfg peers (start cfg peers) where
  relay := .start cfg peers
  rxEnded := if_pos virtual
  sole consumer _ := (fresh_start cfg peers consumer.fd).sole

theorem TxPoint.BetweenEvents.rests {point : TxPoint Fd} (between : point.BetweenEvents) (fd : Fd) :
    point.holding fd = none ∧ point.draining fd = .idle := by
  cases point with
  | whileRunning | select | nextEvent | ended => exact ⟨rfl, rfl⟩
  | _ => exact between.elim

/-- Between two events of a virtual bus: what a consumer got and what is queued for it
are the frames dispatched to it without the evicted ones, which were the oldest; the
backlog is bounded; it is watched exactly while something is queued; and `dropped`
counts the evictions since it was last empty. -/
theorem virtual_accounting (virtual : cfg.virtual = true) (distinct : (peers.map Consumer.fd).Nodup)
    (steady : Along (step cfg) Steady (start cfg peers) actions)
    (path : run (step cfg) (start cfg peers) actions = some t) (between : t.tx.BetweenEvents)
    (member : consumer ∈ peers) :
    ((t.traffic consumer.fd).delivered ++ (t.io consumer.fd).outbound =
        (t.traffic consumer.fd).handed.filter (fun message =>
          decide (message ∉ t.evicted consumer.fd)) ∧
      ∀ removal ∈ (t.traffic consumer.fd).backlog.removed, removal.evicted = true →
        (removal.item :: removal.left).Sublist (t.traffic consumer.fd).handed) ∧
    (t.io consumer.fd).outbound.length ≤ cfg.backlogSize ∧
    (t.selector consumer.fd = some .readWrite ↔ (t.io consumer.fd).outbound ≠ []) ∧
    (t.io consumer.fd).dropped = (t.traffic consumer.fd).backlog.overflow ∧
    ((t.io consumer.fd).outbound = [] → (t.io consumer.fd).dropped = 0) := by
  have kept : VirtualRelay cfg peers t :=
    invariant_run (fun _ _ _ kept steady step => kept.step distinct steady step)
      (.start virtual peers) steady path
  have inv := kept.relay.lanes consumer member
  have sole := kept.sole consumer member
  have free : (t.lane consumer.fd).holding .tx = none := (between.rests consumer.fd).1
  have idle : (t.lane consumer.fd).draining = .idle := (between.rests consumer.fd).2
  have watched : (t.lane consumer.fd).watched = true ↔
      t.selector consumer.fd = some .readWrite := by
    simp [Server.lane, outbox]
  have dropped : (t.io consumer.fd).dropped = (t.traffic consumer.fd).backlog.overflow := by
    have counted := sole.dropped (Or.inl idle)
    rwa [Outbox.ahead_of_free free] at counted
  refine ⟨⟨?_, sole.older⟩, inv.bound, ⟨fun readWrite => sole.resting idle (watched.mpr readWrite),
    fun queued => watched.mp (sole.watching queued)⟩, dropped, fun empty => ?_⟩
  · have history := sole.history
    rw [Outbox.content_of_no_head (by rw [idle, Outbox.Draining.head])] at history
    have none_held : (t.lane consumer.fd).held .tx = [] := by simp [Outbox.held, free]
    rw [none_held, List.append_nil] at history
    exact history
  · rw [dropped]
    exact inv.accounts.overflow empty

/-- A frame of the one consumer for the other is refused and queued. -/
def virtualRefusedRun : List (Action Nat) :=
  [.tx, .txSelect [.ready 0 true false], .tx, .txRecv (some ⟨0x123, [1], false⟩), .tx, .tx, .tx,
    .tx, .txCall .wouldBlock, .tx, .tx, .tx]

def Config.smallVirtual : Config := ⟨true, 2, Nat.zero_lt_two⟩

/-- One more frame, for a consumer with a backlog. -/
def virtualBehind (data : List UInt8) : List (Action Nat) :=
  [.tx, .tx, .txSelect [.ready 0 true false], .tx, .txRecv (some ⟨0x123, data, false⟩), .tx, .tx,
    .tx, .tx, .tx, .tx, .tx]

/-- Five frames, of which two are evicted, the first and the third; the second is drained. -/
def virtualEvictedRun : List (Action Nat) :=
  virtualRefusedRun ++ virtualBehind [2] ++ virtualBehind [3] ++
    [.tx, .tx, .txSelect [.ready 1 false true], .tx, .tx, .tx, .txCall (.accepted 16), .tx, .tx,
      .tx, .txCall .wouldBlock, .tx] ++ virtualBehind [4] ++ virtualBehind [5]

theorem virtual_accounting_evicted :
    ∃ t, run (step .smallVirtual) (start .smallVirtual [⟨0, none⟩, ⟨1, none⟩])
        virtualEvictedRun = some t ∧
      t.evicted 1 = [⟨some 0, 0, ⟨0x123, [1], false⟩⟩, ⟨some 0, 2, ⟨0x123, [3], false⟩⟩] ∧
      (t.traffic 1).delivered ++ (t.io 1).outbound = (t.traffic 1).handed.filter
        (fun message => decide (message ∉
          ([⟨some 0, 0, ⟨0x123, [1], false⟩⟩, ⟨some 0, 2, ⟨0x123, [3], false⟩⟩] :
            List (Relayed Nat)))) ∧
      (∀ removal ∈ (t.traffic 1).backlog.removed, removal.evicted = true →
        (removal.item :: removal.left).Sublist (t.traffic 1).handed) ∧
      (t.io 1).outbound.length ≤ 2 ∧ t.selector 1 = some .readWrite ∧
      (t.io 1).dropped = (t.traffic 1).backlog.overflow ∧ (t.traffic 1).backlog.overflow = 2 := by
  have ends : (run (step .smallVirtual) (start .smallVirtual [⟨0, none⟩, ⟨1, none⟩])
      virtualEvictedRun).map (fun t => (t.tx, t.evicted 1, (t.io 1).outbound.isEmpty,
        (t.traffic 1).backlog.overflow)) =
      some (.nextEvent [],
        [⟨some 0, 0, ⟨0x123, [1], false⟩⟩, ⟨some 0, 2, ⟨0x123, [3], false⟩⟩], false, 2) := by
    decide +kernel
  obtain ⟨t, path, observed⟩ := Option.map_eq_some_iff.mp ends
  simp only [Prod.mk.injEq] at observed
  obtain ⟨rests, evictions, filled, overflow⟩ := observed
  have between : t.tx.BetweenEvents := by
    rw [rests]
    trivial
  have member : (⟨1, none⟩ : Consumer Nat) ∈ [⟨0, none⟩, ⟨1, none⟩] := by simp
  obtain ⟨⟨history, older⟩, bound, watched, dropped, _⟩ :=
    virtual_accounting rfl (by decide) (by decide +kernel) path between member
  rw [evictions] at history
  refine ⟨t, path, evictions, history, older, bound, watched.mpr ?_, dropped, overflow⟩
  simpa using filled

end Sockcan.Server
