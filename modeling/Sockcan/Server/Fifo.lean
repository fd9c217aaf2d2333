import Sockcan.Server.Relay

/-! The relay as its clients see it: the frames of each source reach a consumer in
order, once, and all of them while its backlog does not fill up. -/
namespace Sockcan.Server
open Protocol Transition
variable {Fd : Type} [DecidableEq Fd]

/-- What a consumer got, followed by what is queued for it. A head that the drain has
sent is popped a statement later, so until then it is in the backlog as well; it
counts once. -/
def relayed (s : Server Fd) (fd : Fd) : List (Relayed Fd) :=
  (s.traffic fd).delivered ++
    (s.io fd).outbound.filter fun message => decide (message ∉ (s.traffic fd).delivered)

/-- The frame of a source that its loop is handling and the consumer does not have yet. -/
def inHand (s : Server Fd) (consumer : Consumer Fd) (place : Nat) (source : Option Fd) :
    List (Relayed Fd) :=
  ofSource source ((s.lane consumer.fd).held (loopOf source)) ++
    pending consumer place source (s.dispatch (loopOf source))

variable {cfg : Config} {peers : List (Consumer Fd)} {s t : Server Fd} {action : Action Fd}
  {actions : List (Action Fd)} {consumer : Consumer Fd} {place : Nat} {source : Option Fd}
  {fd : Fd} {message : Relayed Fd}

theorem ofSource_ofOwner (source : Option Fd) (messages : List (Relayed Fd)) :
    ofSource source (Outbox.ofOwner Relayed.loop (loopOf source) messages) =
      ofSource source messages := by
  simp only [ofSource, Outbox.ofOwner, List.filter_filter]
  apply List.filter_congr
  intro message _
  by_cases same : message.source = source
  · simp [Relayed.loop, same]
  · simp [same]

theorem relayed_sublist (inv : (s.lane fd).Inv cfg.backlogSize .tx Relayed.loop) :
    (s.relayed fd).Sublist ((s.lane fd).delivered ++ (s.lane fd).content) :=
  inv.waiting_sublist.append_left _

theorem Handing.relayed_sublist (handing : Handing consumer place s)
    (inv : (s.lane consumer.fd).Inv cfg.backlogSize .tx Relayed.loop)
    (foreign : source ≠ some consumer.fd) :
    (ofSource source (s.relayed consumer.fd)).Sublist (s.matched consumer source) := by
  have line := (List.sublist_append_left _ _).trans (inv.line (loopOf source))
  have own : (ofSource source (s.relayed consumer.fd)).Sublist
      (ofSource source (s.traffic consumer.fd).handed) := by
    rw [← ofSource_ofOwner source (s.relayed _), ← ofSource_ofOwner source (s.traffic _).handed]
    exact (((Server.relayed_sublist inv).filter _).trans line).filter _
  rw [handing.all source foreign]
  exact own.trans (List.sublist_append_left _ _)

theorem Handing.relayed_foreign (handing : Handing consumer place s)
    (inv : (s.lane consumer.fd).Inv cfg.backlogSize .tx Relayed.loop)
    (member : message ∈ s.relayed consumer.fd) : message.source ≠ some consumer.fd := by
  refine handing.own message ?_
  have line := (List.sublist_append_left _ _).trans (inv.line message.loop)
  have mine : message ∈ Outbox.ofOwner Relayed.loop message.loop
      ((s.lane consumer.fd).delivered ++ (s.lane consumer.fd).content) :=
    List.mem_filter.mpr ⟨(Server.relayed_sublist inv).subset member, by simp⟩
  exact (List.mem_filter.mp (line.subset mine)).1

theorem Handing.matched_eq (handing : Handing consumer place s)
    (inv : (s.lane consumer.fd).Inv cfg.backlogSize .tx Relayed.loop)
    (untouched : (s.lane consumer.fd).Untouched) (foreign : source ≠ some consumer.fd) :
    s.matched consumer source =
      ofSource source (s.relayed consumer.fd) ++ s.inHand consumer place source := by
  have same : s.relayed consumer.fd =
      (s.lane consumer.fd).delivered ++ (s.lane consumer.fd).content := by
    rw [← inv.waiting_eq untouched]
    rfl
  have exact_line := congrArg (ofSource source) (inv.exact untouched (loopOf source))
  rw [Outbox.line, ofSource_append, ofSource_ofOwner, ofSource_ofOwner, ← same] at exact_line
  rw [handing.all source foreign, inHand, ← List.append_assoc, exact_line]
  rfl

/-- A loop that hands a message to this consumer is past it. -/
theorem Connected.passed (connected : Connected peers s)
    (distinct : (peers.map Consumer.fd).Nodup) (at_place : peers[place]? = some consumer)
    {loop : Loop} {stage : Outbox.Stage}
    (held : s.holding consumer.fd loop = some (message, stage)) :
    s.dispatch loop = some (message, place + 1) := by
  have rx := connected.rx
  have tx := connected.tx
  cases loop with
  | rx =>
    cases at_ : s.rx with
    | offer other index target point =>
      simp only [Server.holding, RxPoint.holding, at_] at held
      split at held
      · rw [at_] at rx
        obtain ⟨k, rfl, found, _⟩ := rx.2.1
        obtain ⟨rfl, _⟩ := place_unique distinct found at_place ‹_›
        rw [Option.some.injEq, Prod.mk.injEq] at held
        simp only [Server.dispatch, at_, RxPoint.dispatch, held.1]
      · contradiction
    | _ => simp [Server.holding, RxPoint.holding, at_] at held
  | tx =>
    cases at_ : s.tx with
    | offer job index target point =>
      simp only [Server.holding, TxPoint.holding, at_] at held
      split at held
      · rw [at_] at tx
        obtain ⟨k, rfl, found, _⟩ := tx.2.2.1
        obtain ⟨rfl, _⟩ := place_unique distinct found at_place ‹_›
        rw [Option.some.injEq, Prod.mk.injEq] at held
        simp only [Server.dispatch, at_, TxPoint.dispatch, held.1]
      · contradiction
    | _ => simp [Server.holding, TxPoint.holding, at_] at held

theorem Connected.inHand (connected : Connected peers s)
    (distinct : (peers.map Consumer.fd).Nodup) (at_place : peers[place]? = some consumer)
    (source : Option Fd) : (s.inHand consumer place source).length ≤ 1 ∧
      ∀ message ∈ s.inHand consumer place source,
        ∃ passed, s.dispatch (loopOf source) = some (message, passed) := by
  rw [Server.inHand]
  cases held : s.holding consumer.fd (loopOf source) with
  | none =>
    have none_held : (s.lane consumer.fd).held (loopOf source) = [] := by
      simp [Outbox.held, Server.lane, outbox, held]
    rw [none_held]
    cases reached : s.dispatch (loopOf source) with
    | none => simp [pending, ofSource]
    | some progress =>
      obtain ⟨message, passed⟩ := progress
      simp only [pending, ofSource, List.filter_nil, List.nil_append]
      split <;> simp
  | some holding =>
    obtain ⟨message, stage⟩ := holding
    have one : (s.lane consumer.fd).held (loopOf source) = [message] := by
      simp [Outbox.held, Server.lane, outbox, held]
    have passed := connected.passed distinct at_place held
    rw [one, passed, pending_passed (Nat.lt_succ_self place), List.append_nil]
    refine ⟨List.length_filter_le _ _, fun other member => ⟨place + 1, ?_⟩⟩
    rw [List.mem_singleton.mp (List.mem_filter.mp member).1]

theorem Relay.untouched (distinct : (peers.map Consumer.fd).Nodup) (member : consumer ∈ peers)
    (steady : Along (Server.step cfg) Steady (Server.start cfg peers) actions)
    (room : Throughout (Server.step cfg)
      (fun s => (s.io consumer.fd).outbound.length < cfg.backlogSize)
      (Server.start cfg peers) actions)
    (path : Transition.run (Server.step cfg) (Server.start cfg peers) actions = some t) :
    (t.lane consumer.fd).Untouched := by
  refine (invariant_run (I := fun s => Relay cfg peers s ∧ (s.lane consumer.fd).Untouched)
    (fun s action next kept along step => ?_) ⟨.start cfg peers, ?_⟩ (steady.and room.along) path).2
  · refine ⟨kept.1.step distinct along.1 step, ?_⟩
    rcases kept.1.lane_step distinct along.1 step member with same | moved
    · rw [same]
      exact kept.2
    · exact moved.untouched along.2 kept.2
  · intro removal removed
    rw [(fresh_start cfg peers consumer.fd).log] at removed
    simp [Deque.Log.empty] at removed

/-- In every interleaving, each source's frames reach a consumer in order and at most
once, none comes back to its sender, and while the backlog never fills up they are
all there but for the one in hand. -/
theorem relay_fifo (distinct : (peers.map Consumer.fd).Nodup)
    (steady : Along (step cfg) Steady (start cfg peers) actions)
    (path : run (step cfg) (start cfg peers) actions = some t) (member : consumer ∈ peers) :
    (∀ source, source ≠ some consumer.fd →
      (ofSource source (t.relayed consumer.fd)).Sublist (t.matched consumer source) ∧
        (t.matched consumer source).Nodup) ∧
    (∀ message ∈ t.relayed consumer.fd, message.source ≠ some consumer.fd) ∧
    (Throughout (step cfg) (fun s => (s.io consumer.fd).outbound.length < cfg.backlogSize)
        (start cfg peers) actions →
      ∀ source, source ≠ some consumer.fd → ∃ rest : List (Relayed Fd),
        t.matched consumer source = ofSource source (t.relayed consumer.fd) ++ rest ∧
        rest.length ≤ 1 ∧
        ∀ message ∈ rest, ∃ passed, t.dispatch (loopOf source) = some (message, passed)) := by
  have relay := Relay.run distinct steady path
  obtain ⟨place, at_place⟩ := List.mem_iff_getElem?.mp member
  have handing := relay.handing place consumer at_place
  have inv := relay.lanes consumer member
  refine ⟨fun source foreign => ⟨handing.relayed_sublist inv foreign, ?_⟩,
    fun message => handing.relayed_foreign inv, fun room source foreign => ?_⟩
  · exact (relay.numbered.nodup source).filter _
  · have untouched := Relay.untouched distinct member steady room path
    exact ⟨_, handing.matched_eq inv untouched foreign,
      relay.connected.inHand distinct at_place source⟩

/-- The bus and another consumer take turns with a consumer whose socket is full; the drain
sends the first two frames. -/
def takingTurnsRun : List (Action Nat) :=
  [.rx, .rx, .rx, .rxRecv (some ⟨0x123, [1], false⟩), .rx, .rx, .rx, .rxCall .wouldBlock, .rx,
    .rx, .rx, .tx, .txSelect [.ready 1 true false], .tx, .txRecv (some ⟨0x123, [4], false⟩), .tx,
    .tx, .tx, .tx, .tx, .tx, .tx, .txBus true, .rx, .rx, .rx, .rx, .rx,
    .rxRecv (some ⟨0x123, [2], false⟩), .rx, .rx, .rx, .rx, .rx, .tx, .tx,
    .txSelect [.ready 0 false true], .tx, .tx, .tx, .txCall (.accepted 16), .tx, .tx, .tx,
    .txCall (.accepted 16), .tx, .tx, .tx, .txCall .wouldBlock]

theorem relay_fifo_taking_turns :
    ∃ t, run (step .realBus) (start .realBus [⟨0, none⟩, ⟨1, some [⟨0x7F, 0x7F, none⟩]⟩])
        takingTurnsRun = some t ∧
      t.relayed 0 = [⟨none, 0, ⟨0x123, [1], false⟩⟩, ⟨some 1, 0, ⟨0x123, [4], false⟩⟩,
        ⟨none, 1, ⟨0x123, [2], false⟩⟩] ∧
      (∀ source, source ≠ some 0 →
        (ofSource source (t.relayed 0)).Sublist (t.matched ⟨0, none⟩ source) ∧
          (t.matched ⟨0, none⟩ source).Nodup) ∧
      ∀ source, source ≠ some 0 → ∃ rest : List (Relayed Nat), rest.length ≤ 1 ∧
        t.matched ⟨0, none⟩ source = ofSource source (t.relayed 0) ++ rest := by
  have ends : (run (step .realBus) (start .realBus [⟨0, none⟩, ⟨1, some [⟨0x7F, 0x7F, none⟩]⟩])
      takingTurnsRun).map (fun t => t.relayed 0) =
        some [⟨none, 0, ⟨0x123, [1], false⟩⟩, ⟨some 1, 0, ⟨0x123, [4], false⟩⟩,
          ⟨none, 1, ⟨0x123, [2], false⟩⟩] := by
    decide +kernel
  obtain ⟨t, path, relayed⟩ := Option.map_eq_some_iff.mp ends
  obtain ⟨ordered, _, accounted⟩ :=
    relay_fifo (by decide) (by decide +kernel) path List.mem_cons_self
  refine ⟨t, path, relayed, ordered, fun source foreign => ?_⟩
  obtain ⟨rest, all, short, _⟩ := accounted (by decide +kernel) source foreign
  exact ⟨rest, short, all⟩

/-- The TX loop sends the head and has not popped it yet. -/
def sendingRun : List (Action Nat) :=
  refusedRun ++
    [.tx, .txSelect [.ready 0 false true], .tx, .tx, .tx, .txCall (.accepted 16)]

/-- Delivered and queued, without the exception for that head. -/
theorem relay_twice_at_pop :
    Along (step .realBus) Steady (start .realBus [⟨0, none⟩]) sendingRun ∧
      ∃ t, run (step .realBus) (start .realBus [⟨0, none⟩]) sendingRun = some t ∧
        ¬ (ofSource none ((t.traffic 0).delivered ++ (t.io 0).outbound)).Sublist
          (t.matched ⟨0, none⟩ none) := by
  refine ⟨by decide +kernel, ?_⟩
  have ends : (run (step .realBus) (start .realBus [⟨0, none⟩]) sendingRun).map
      (fun t => ((ofSource none ((t.traffic 0).delivered ++ (t.io 0).outbound)).length,
        (t.matched ⟨0, none⟩ none).length)) = some (2, 1) := by
    decide +kernel
  obtain ⟨t, path, observed⟩ := Option.map_eq_some_iff.mp ends
  rw [Prod.mk.injEq] at observed
  refine ⟨t, path, fun sublist => ?_⟩
  have := sublist.length_le
  omega

end Sockcan.Server
