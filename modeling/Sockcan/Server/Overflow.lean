import Sockcan.Server.Relay

/-! What an overflowing backlog loses: only frames with a whole backlog of newer ones
behind them, also when an eviction races the drain between its peek and its pop. -/
namespace Sockcan.Server
open Protocol Transition
variable {Fd : Type} [DecidableEq Fd]

variable {cfg : Config} {peers : List (Consumer Fd)} {s t : Server Fd}
  {actions : List (Action Fd)} {consumer : Consumer Fd} {fd : Fd} {message : Relayed Fd}

/-- A frame that left the backlog undelivered had as many frames behind it. -/
theorem Relay.lost_behind (relay : Relay cfg peers s) (member : consumer ∈ peers)
    {removal : Deque.Removal (Relayed Fd)}
    (removed : removal ∈ (s.traffic consumer.fd).backlog.removed)
    (lost : removal.item ∉ (s.traffic consumer.fd).delivered) :
    cfg.backlogSize - 1 ≤ removal.left.length := by
  rcases (relay.lanes consumer member).sacrificed removal removed with delivered | behind
  · exact absurd delivered lost
  · omega

theorem Relay.queued_or_removed (relay : Relay cfg peers s) (member : consumer ∈ peers)
    (queued : message ∈ (s.traffic consumer.fd).backlog.queued) :
    message ∈ (s.io consumer.fd).outbound ∨
      ∃ removal ∈ (s.traffic consumer.fd).backlog.removed, removal.item = message := by
  have order : (s.traffic consumer.fd).backlog.queued =
      (s.traffic consumer.fd).backlog.removed.map Deque.Removal.item ++
        (s.io consumer.fd).outbound := (relay.lanes consumer member).accounts.order
  rw [order] at queued
  rcases List.mem_append.mp queued with gone | still
  · exact Or.inr (List.mem_map.mp gone)
  · exact Or.inl still

theorem Relay.newest (relay : Relay cfg peers s) (member : consumer ∈ peers)
    (newest : message ∈ (s.traffic consumer.fd).backlog.queued.drop
      ((s.traffic consumer.fd).backlog.queued.length - (cfg.backlogSize - 1))) :
    message ∈ (s.traffic consumer.fd).delivered ∨ message ∈ (s.io consumer.fd).outbound := by
  have inv := relay.lanes consumer member
  obtain ⟨i, found⟩ := List.mem_iff_getElem?.mp newest
  rw [List.getElem?_drop] at found
  rcases inv.accounts.newest found with queued | ⟨removal, removed, rfl, behind⟩
  · exact Or.inr queued
  · rcases inv.sacrificed removal removed with delivered | full
    · exact Or.inl delivered
    · have total : (s.lane consumer.fd).log.queued.length =
          (s.traffic consumer.fd).backlog.queued.length := rfl
      have short := (List.getElem?_eq_some_iff.mp found).1
      omega

/-- The drain never meets an empty deque. -/
theorem Relay.drain_occupied (relay : Relay cfg peers s) {events : List (Event Fd)}
    (drains : s.tx = .peek fd events ∨ ∃ head, s.tx = .popleft fd head events) :
    (s.io fd).outbound ≠ [] := by
  have tx := relay.connected.tx
  have known : Known peers fd := by
    rcases drains with at_ | ⟨head, at_⟩ <;>
      · rw [at_] at tx
        exact tx.1
  obtain ⟨consumer, member, rfl⟩ := known
  refine (relay.lanes consumer member).occupied ?_
  rcases drains with at_ | ⟨head, at_⟩
  · left
    simp [Server.lane, outbox, TxPoint.draining, at_]
  · right
    simp [Server.lane, outbox, TxPoint.draining, at_, Outbox.Draining.head]

/-- In every interleaving, overflow sacrifices only old frames: all but the newest
`CONSUMER_BACKLOG_SIZE - 1` at the time, and the drain never meets an empty deque. -/
theorem overflow_old_only (distinct : (peers.map Consumer.fd).Nodup)
    (steady : Along (step cfg) Steady (start cfg peers) actions)
    (path : run (step cfg) (start cfg peers) actions = some t) :
    (∀ consumer ∈ peers, ∀ message ∈ (t.traffic consumer.fd).backlog.queued,
      message ∈ (t.traffic consumer.fd).delivered ∨ message ∈ (t.io consumer.fd).outbound ∨
        (∃ removal ∈ (t.traffic consumer.fd).backlog.removed, removal.item = message) ∧
        ∀ removal ∈ (t.traffic consumer.fd).backlog.removed, removal.item = message →
          cfg.backlogSize - 1 ≤ removal.left.length) ∧
    (∀ consumer ∈ peers, ∀ message ∈ (t.traffic consumer.fd).backlog.queued.drop
        ((t.traffic consumer.fd).backlog.queued.length - (cfg.backlogSize - 1)),
      message ∈ (t.traffic consumer.fd).delivered ∨ message ∈ (t.io consumer.fd).outbound) ∧
    (∀ fd events, t.tx = .peek fd events ∨ (∃ head, t.tx = .popleft fd head events) →
      (t.io fd).outbound ≠ []) := by
  have relay := Relay.run distinct steady path
  refine ⟨fun consumer member message queued => ?_, fun consumer member message newest =>
    relay.newest member newest, fun fd events => relay.drain_occupied⟩
  by_cases delivered : message ∈ (t.traffic consumer.fd).delivered
  · exact Or.inl delivered
  · rcases relay.queued_or_removed member queued with still | gone
    · exact Or.inr (Or.inl still)
    · refine Or.inr (Or.inr ⟨gone, fun removal removed same => ?_⟩)
      exact relay.lost_behind member removed (same ▸ delivered)

def Config.smallBacklog : Config := ⟨false, 2, Nat.zero_lt_two⟩

/-- The bus delivers a frame to a consumer with a backlog. -/
def queuedBehind (data : List UInt8) : List (Action Nat) :=
  [.rx, .rx, .rx, .rx, .rxRecv (some ⟨0x123, data, false⟩), .rx, .rx, .rx, .rx, .rx]

/-- While the drain has sent the first frame and not popped it, three more come: two evictions,
that frame and the second one, and a `popleft` that discards the third. -/
def evictedRun : List (Action Nat) :=
  refusedRun ++ [.tx, .txSelect [.ready 0 false true], .tx, .tx, .tx, .txCall (.accepted 16)] ++
    queuedBehind [2] ++ queuedBehind [3] ++ queuedBehind [4] ++ [.tx]

theorem overflow_old_only_evicted :
    ∃ t, run (step .smallBacklog) (start .smallBacklog [⟨0, none⟩]) evictedRun = some t ∧
      (t.traffic 0).delivered = [⟨none, 0, ⟨0x123, [1], false⟩⟩] ∧
      (t.io 0).outbound = [⟨none, 3, ⟨0x123, [4], false⟩⟩] ∧
      (∀ message ∈ [⟨none, 1, ⟨0x123, [2], false⟩⟩, ⟨none, 2, ⟨0x123, [3], false⟩⟩],
        (∃ removal ∈ (t.traffic 0).backlog.removed, removal.item = message) ∧
        ∀ removal ∈ (t.traffic 0).backlog.removed, removal.item = message →
          1 ≤ removal.left.length) ∧
      ∀ message ∈ (t.traffic 0).backlog.queued.drop ((t.traffic 0).backlog.queued.length - 1),
        message ∈ (t.traffic 0).delivered ∨ message ∈ (t.io 0).outbound := by
  have ends : (run (step .smallBacklog) (start .smallBacklog [⟨0, none⟩]) evictedRun).map
      (fun t => ((t.traffic 0).delivered, (t.io 0).outbound, (t.traffic 0).backlog.queued)) =
        some ([⟨none, 0, ⟨0x123, [1], false⟩⟩], [⟨none, 3, ⟨0x123, [4], false⟩⟩],
          [⟨none, 0, ⟨0x123, [1], false⟩⟩, ⟨none, 1, ⟨0x123, [2], false⟩⟩,
            ⟨none, 2, ⟨0x123, [3], false⟩⟩, ⟨none, 3, ⟨0x123, [4], false⟩⟩]) := by
    decide +kernel
  obtain ⟨t, path, observed⟩ := Option.map_eq_some_iff.mp ends
  simp only [Prod.mk.injEq] at observed
  obtain ⟨delivered, still, queued⟩ := observed
  obtain ⟨old, newest, _⟩ := overflow_old_only (by decide) (by decide +kernel) path
  refine ⟨t, path, delivered, still, fun message lost => ?_, newest ⟨0, none⟩ (by simp)⟩
  have entered : message ∈ (t.traffic 0).backlog.queued := by
    rw [queued]
    exact List.mem_cons_of_mem _ (List.mem_append_left [_] lost)
  rcases old ⟨0, none⟩ (by simp) message entered with sent | waits | gone
  · simp only [delivered, List.mem_cons, List.not_mem_nil, or_false] at sent lost
    rcases lost with rfl | rfl <;> cases sent
  · simp only [still, List.mem_cons, List.not_mem_nil, or_false] at waits lost
    rcases lost with rfl | rfl <;> cases waits
  · exact gone

end Sockcan.Server
