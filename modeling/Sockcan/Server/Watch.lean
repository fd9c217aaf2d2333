import Sockcan.Server.Relay

/-! Whether a backlog is always watched. The selector lock ties the write interest
to a backlog that fills up from empty and to one that is found empty again, but the
append of the RX loop to a backlog that it found non-empty is outside of it. -/
namespace Sockcan.Server
open Protocol Transition
variable {Fd : Type} [DecidableEq Fd]

/-- Every registered consumer with a backlog is watched for `EVENT_WRITE`. -/
def NoneStranded (s : Server Fd) : Prop :=
  ∀ fd, (s.selector fd).isSome → (s.io fd).outbound ≠ [] → s.selector fd = some .readWrite

/-- The RX loop appends to a backlog that it found non-empty only while the selector
still watches the consumer for `EVENT_WRITE`. -/
def AppendsWatched (s : Server Fd) (action : Action Fd) : Prop :=
  match action, s.rx with
  | .rx, .offer _ _ consumer .append => s.selector consumer.fd = some .readWrite
  | _, _ => True

variable {cfg : Config} {peers : List (Consumer Fd)} {s t : Server Fd} {action : Action Fd}
  {actions : List (Action Fd)} {consumer : Consumer Fd} {message : Relayed Fd} {fd : Fd}

theorem RxPoint.of_counted {point : RxPoint Fd}
    (held : point.holding fd = some (message, .counted)) :
    ∃ index consumer, point = .offer message index consumer .append ∧ consumer.fd = fd := by
  cases point with
  | offer other index consumer point =>
    simp only [RxPoint.holding] at held
    split at held
    · cases point <;> simp only [Offer.stage, Option.some.injEq, Prod.mk.injEq] at held <;>
        simp_all
    · contradiction
  | _ => contradiction

/-- Only the RX loop itself appends what it has counted. -/
theorem Moves.rx_append (move : Moves cfg s action t) {index : Nat}
    (at_append : s.rx = .offer message index consumer .append) :
    action = .rx ∨ t.rx = s.rx := by
  rcases move.rx_cases with same | ⟨rx, _⟩ | relays
  · exact Or.inr same
  · exact Or.inl rx
  · cases relays with
    | recvError at_ | recv at_ | call at_ => simp [at_append] at at_
    | _ => exact Or.inl rfl

theorem lane_watched (s : Server Fd) (fd : Fd) :
    (s.lane fd).watched = false ↔ s.selector fd ≠ some .readWrite := by
  simp [Server.lane, outbox]

theorem append_stranded (relay : Relay cfg peers s) {index : Nat}
    (at_append : s.rx = .offer message index consumer .append)
    (step : step cfg s .rx = some t) (none_stranded : t.NoneStranded) :
    s.selector consumer.fd = some .readWrite := by
  have steady := relay.connected.rx
  rw [at_append] at steady
  have registered := (relay.connected.selector consumer.fd).mpr ⟨_, steady.2.1.mem, rfl⟩
  simp only [Server.step, rxStep, at_append, offerStep, Option.map_some, Option.some.injEq] at step
  subst step
  refine none_stranded consumer.fd registered ?_
  have queued := Deque.append_ne_nil cfg.positive (s.io consumer.fd).outbound message
  simpa [Server.append, setIo, setTraffic] using queued

theorem Relay.none_stranded (relay : Relay cfg peers s) (distinct : (peers.map Consumer.fd).Nodup)
    (steady : s.Steady action) (step : Server.step cfg s action = some t)
    (none_stranded : s.NoneStranded) (watched : AppendsWatched s action) : t.NoneStranded := by
  intro fd registered queued
  by_contra unwatched
  have later := relay.step distinct steady step
  obtain ⟨consumer, member, rfl⟩ := (later.connected.selector fd).mp registered
  have before := (relay.connected.selector consumer.fd).mpr ⟨consumer, member, rfl⟩
  have inv := relay.lanes consumer member
  have never : ¬ (s.lane consumer.fd).Stranded := fun stranded =>
    (lane_watched s consumer.fd).mp stranded.2 (none_stranded consumer.fd before stranded.1)
  have stranded : (t.lane consumer.fd).Stranded :=
    ⟨queued, (lane_watched t consumer.fd).mpr unwatched⟩
  rcases relay.lane_step distinct steady step member with same | moved
  · exact never (same ▸ stranded)
  · rcases moved.stranded stranded with already | ⟨loop, item, held, released, blind⟩
    · exact never already
    · cases loop with
      | tx =>
        -- The drainer found a backlog, which nobody else empties.
        have occupied := inv.behind item .counted held trivial
        exact never ⟨occupied, blind⟩
      | rx =>
        obtain ⟨index, target, at_append, here⟩ := RxPoint.of_counted held
        rcases (step_moves step).rx_append at_append with rfl | same
        · simp only [AppendsWatched, at_append] at watched
          exact (lane_watched s consumer.fd).mp blind (here ▸ watched)
        · have kept : (t.lane consumer.fd).holding .rx = (s.lane consumer.fd).holding .rx := by
            simp only [Server.lane, outbox, Server.holding, same]
          rw [kept, held] at released
          contradiction

/-- No backlog is ever stranded exactly when every append of the RX loop to a backlog
that it found non-empty still finds the consumer watched: the TX loop has not drained
and demoted it in between. -/
theorem backlog_watched_iff (distinct : (peers.map Consumer.fd).Nodup)
    (steady : Along (step cfg) Steady (start cfg peers) actions) :
    Throughout (step cfg) NoneStranded (start cfg peers) actions ↔
      Along (step cfg) AppendsWatched (start cfg peers) actions := by
  refine throughout_iff_along (I := Relay cfg peers)
    (fun _ _ _ relay steady step => relay.step distinct steady step)
    (fun s action t relay steady step none_stranded => ⟨fun later => ?_, fun watched =>
      relay.none_stranded distinct steady step none_stranded watched⟩)
    (.start cfg peers) (fun fd _ queued => absurd rfl queued) steady
  unfold AppendsWatched
  split
  · exact append_stranded relay ‹_› step later
  · trivial

instance (s : Server Fd) (action : Action Fd) : Decidable (AppendsWatched s action) := by
  unfold AppendsWatched
  split <;> infer_instance

/-- The next frame finds the backlog. -/
def queueingRun : List (Action Nat) :=
  refusedRun ++ [.rx, .rx, .rx, .rx, .rxRecv (some ⟨0x124, [2], false⟩), .rx, .rx, .rx]

theorem backlog_watched_iff_queueing :
    Throughout (step .realBus) NoneStranded (start .realBus [⟨0, none⟩])
      (queueingRun ++ [.rx, .rx]) :=
  (backlog_watched_iff (by decide) (by decide +kernel)).mpr (by decide +kernel)

/-- Before the second append, the TX loop drains the backlog and demotes the consumer. -/
def strandingRun : List (Action Nat) :=
  queueingRun ++
    [.tx, .txSelect [.ready 0 false true], .tx, .tx, .tx, .txCall (.accepted 16), .tx, .tx, .tx,
      .rx, .rx]

theorem backlog_stranded :
    Along (step .realBus) Steady (start .realBus [⟨0, none⟩]) strandingRun ∧
      ¬ Throughout (step .realBus) NoneStranded (start .realBus [⟨0, none⟩]) strandingRun := by
  refine ⟨by decide +kernel, fun all => ?_⟩
  have ends : (run (step .realBus) (start .realBus [⟨0, none⟩]) strandingRun).map
      (fun s => (s.selector 0, decide ((s.io 0).outbound = []))) = some (some .read, false) := by
    decide +kernel
  obtain ⟨t, path, observed⟩ := Option.map_eq_some_iff.mp ends
  rw [Prod.mk.injEq, decide_eq_false_iff_not] at observed
  have watched := all.last path 0 (by rw [observed.1]; rfl) observed.2
  rw [observed.1] at watched
  contradiction

end Sockcan.Server
