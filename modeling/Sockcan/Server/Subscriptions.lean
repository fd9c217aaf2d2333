import Sockcan.Server.Order
import Mathlib.Data.List.Sort

/-! What a client gets, in every run, against what it subscribed to: the subscriptions are
those that `listen_to` was called with, kept beside the server. -/
namespace Sockcan.Server
open Protocol Transition
variable {Fd : Type}

def subscribed (subscriptions : List (Consumer Fd)) (_ : Server Fd) :
    Action Fd → List (Consumer Fd)
  | .listen consumer => subscriptions ++ [consumer]
  | _ => subscriptions

/-- A subscription under this descriptor asks for the frame, which another client sent. -/
def Wanted (subscriptions : List (Consumer Fd)) (fd : Fd) (message : Relayed Fd) : Prop :=
  message.source ≠ some fd ∧
    ∃ consumer ∈ subscriptions, consumer.fd = fd ∧ consumer.accepts message

structure Subscribed (subscriptions : List (Consumer Fd)) (s : Server Fd) : Prop where
  distinct : (subscriptions.map Consumer.fd).Nodup
  heard : ∀ consumer ∈ subscriptions, s.listeners consumer.fd ≠ .fresh
  appending : ∀ fd consumer, s.listeners fd = .appendConsumer consumer → consumer ∈ subscriptions
  listed : ∀ consumer ∈ s.consumers, consumer ∈ subscriptions
  sourced : ∀ job, s.tx.job = some job → job.message.source = some job.fileobj
  looked : ∀ loop message index consumer, s.lookedUp loop = some (message, index, consumer) →
    consumer ∈ subscriptions ∧ Wanted subscriptions consumer.fd message
  handed : ∀ fd, ∀ message ∈ (s.traffic fd).handed, Wanted subscriptions fd message

variable [DecidableEq Fd] {cfg : Config} {peers : List (Consumer Fd)} {s t : Server Fd}
  {action : Action Fd} {actions : List (Action Fd)} {fd : Fd} {message : Relayed Fd}
  {consumer : Consumer Fd} {subscriptions : List (Consumer Fd)}

omit [DecidableEq Fd] in
theorem mem_subscribed (member : consumer ∈ subscriptions) :
    consumer ∈ subscribed subscriptions s action := by
  cases action with
  | listen => exact List.mem_append_left _ member
  | _ => exact member

omit [DecidableEq Fd] in
theorem Wanted.subscribed (wanted : Wanted subscriptions fd message) :
    Wanted (subscribed subscriptions s action) fd message := by
  obtain ⟨other, consumer, member, same, accepts⟩ := wanted
  exact ⟨other, consumer, mem_subscribed member, same, accepts⟩

/-- Only a call of `listen_to` leaves the first point, once. -/
theorem Listens.heard (move : Listens cfg s action t) (heard : s.listeners fd ≠ .fresh) :
    t.listeners fd ≠ .fresh := by
  have goes {point : ListenPoint Fd} {other : Fd} (past : point ≠ .fresh) :
      Function.update s.listeners other point fd ≠ .fresh := by
    by_cases same : fd = other
    · simpa [same] using past
    · simpa [same] using heard
  cases move with
  | refresh =>
    refine goes ?_
    split <;> simp
  | publish | append | aggregate | aggregated | install | register | registered | wake | noWake =>
    exact goes (by simp)

theorem Moves.listeners_cases (move : Moves cfg s action t) :
    t.listeners = s.listeners ∨ Listens cfg s action t := by
  cases move with
  | listen move => exact Or.inr move
  | clean move => exact Or.inl (congrArg Server.listeners move.frame :)
  | rxRelay move => exact Or.inl (congrArg Server.listeners move.frame :)
  | select move => exact Or.inl (congrArg Server.listeners move.frame :)
  | giveUp move => exact Or.inl (congrArg Server.listeners move.frame :)
  | txRelay move => exact Or.inl (congrArg Server.listeners move.frame :)
  | drain move => exact Or.inl (congrArg Server.listeners move.frame :)
  | stop move => exact Or.inl (congrArg Server.listeners move.frame :)

/-- What is about to be published is a subscription, made just now or before. -/
theorem Listens.appending (move : Listens cfg s action t)
    (appending : ∀ fd consumer, s.listeners fd = .appendConsumer consumer →
      consumer ∈ subscriptions)
    (at_ : t.listeners fd = .appendConsumer consumer) :
    consumer ∈ subscribed subscriptions s action := by
  have goes {point : ListenPoint Fd} {other : Fd} (past : ∀ new, point ≠ .appendConsumer new)
      (same : Function.update s.listeners other point fd = .appendConsumer consumer) :
      consumer ∈ subscriptions := by
    by_cases here : fd = other
    · rw [here, Function.update_self] at same
      exact absurd same (past consumer)
    · rw [Function.update_of_ne here] at same
      exact appending fd consumer same
  cases move with
  | @publish new =>
    simp only at at_
    by_cases here : fd = new.fd
    · rw [here, Function.update_self] at at_
      cases at_
      exact List.mem_append_right _ List.mem_cons_self
    · rw [Function.update_of_ne here] at at_
      exact mem_subscribed (appending fd consumer at_)
  | refresh =>
    refine mem_subscribed (goes ?_ at_)
    split <;> simp
  | append | aggregate | aggregated | install | register | registered | wake | noWake =>
    exact mem_subscribed (goes (by simp) at_)

/-- The frame of a dispatch was read from the descriptor that the dispatch skips. -/
theorem Moves.job_cases (move : Moves cfg s action t) {job : Job Fd}
    (dispatching : t.tx.job = some job) :
    s.tx.job = some job ∨ ∃ frame, job.message = s.stamp (some job.fileobj) frame := by
  rcases move.tx_cases with same | selects | givesUp | relays | ⟨_, _, drains⟩
  · exact Or.inl (same ▸ dispatching)
  · cases selects <;> contradiction
  · cases givesUp <;> contradiction
  · cases relays with
    | @recv fd writable events frame =>
      cases dispatching
      exact Or.inr ⟨frame, rfl⟩
    | self at_ | accept at_ | skip at_ | hand at_ | handMissing at_ =>
      rw [at_]
      exact Or.inl dispatching
    | @offer other index target point after result at_ =>
      rw [at_]
      cases result with
      | raised => contradiction
      | _ => exact Or.inl dispatching
    | @call other index target progress outcome after answer at_ =>
      rw [at_]
      cases answer with
      | error => contradiction
      | ok step => cases step <;> exact Or.inl dispatching
    | @finish other =>
      dsimp only [Job.afterRead] at dispatching
      split at dispatching
      · split at dispatching <;> contradiction
      · contradiction
    | @bus other =>
      simp only [Job.afterRead] at dispatching
      split at dispatching <;> contradiction
    | busError => contradiction
  · cases drains with
    | @call _ _ _ _ answer =>
      cases answer with
      | error => contradiction
      | ok step => cases step <;> contradiction
    | _ => contradiction

omit [DecidableEq Fd] in
/-- What a loop finds next for its frame is a subscription that wants it. -/
theorem Subscribed.finds (held : s.Subscribed subscriptions) (ledger : s.Ledger) {loop : Loop}
    {index : Nat} (finds : s.Finds loop message index consumer) :
    consumer ∈ subscriptions ∧ Wanted subscriptions consumer.fd message := by
  obtain ⟨before, _, goes, next⟩ := finds.next
  have member := held.listed consumer (List.mem_of_getElem? next)
  refine ⟨member, ?_, consumer, member, rfl, finds.accepts⟩
  have route := (ledger.routed loop message before goes).1
  cases loop with
  | rx =>
    cases source : message.source with
    | none => nofun
    | some fd =>
      rw [Relayed.loop_tx source] at route
      contradiction
  | tx =>
    have job : ∃ job, s.tx.job = some job ∧ job.message = message := by
      simp only [dispatch] at goes
      cases at_ : s.tx <;> rw [at_] at goes <;> cases goes
      all_goals exact ⟨_, rfl, rfl⟩
    obtain ⟨job, here, rfl⟩ := job
    rw [held.sourced job here]
    exact fun same => finds.other job here rfl (Option.some.inj same).symm

theorem Moves.listens (move : Moves cfg s (.listen consumer) t) :
    s.listeners consumer.fd = .fresh ∧ t.listeners consumer.fd = .appendConsumer consumer := by
  cases move with
  | listen move =>
    cases move with
    | publish at_ => exact ⟨at_, Function.update_self _ _ _⟩
  | rxRelay move => cases move
  | txRelay move => cases move
  | select move => cases move
  | giveUp move => cases move
  | drain move => cases move

theorem Moves.subscribed (move : Moves cfg s action t) (ledger : s.Ledger)
    (held : s.Subscribed subscriptions) :
    t.Subscribed (subscribed subscriptions s action) where
  distinct := by
    cases action with
    | listen consumer =>
      simp only [Server.subscribed, List.map_append, List.map_cons, List.map_nil]
      refine List.nodup_append.mpr ⟨held.distinct, List.nodup_singleton _, ?_⟩
      rintro _ member _ last rfl
      obtain ⟨old, older, same⟩ := List.mem_map.mp member
      refine held.heard old older ?_
      rw [same, List.mem_singleton.mp last]
      exact move.listens.1
    | _ => exact held.distinct
  heard consumer member := by
    have stays (heard : s.listeners consumer.fd ≠ .fresh) : t.listeners consumer.fd ≠ .fresh := by
      rcases move.listeners_cases with same | listens
      · rwa [same]
      · exact listens.heard heard
    cases action with
    | listen new =>
      rcases List.mem_append.mp member with old | last
      · exact stays (held.heard consumer old)
      · rw [List.mem_singleton.mp last, move.listens.2]
        nofun
    | _ => exact stays (held.heard consumer member)
  appending fd consumer at_ := by
    rcases move.listeners_cases with same | listens
    · exact mem_subscribed (held.appending fd consumer (same ▸ at_))
    · exact listens.appending held.appending at_
  listed consumer member := by
    refine mem_subscribed ?_
    rcases move.consumers_cases with ⟨same, _⟩ | ⟨fd, _, _, _, removed⟩ |
      ⟨fd, new, appending, _, _, _, appended⟩
    · exact held.listed consumer (same ▸ member)
    · rw [removed] at member
      exact held.listed consumer (List.mem_of_mem_eraseP member)
    · rw [appended] at member
      rcases List.mem_append.mp member with old | last
      · exact held.listed consumer old
      · rw [List.mem_singleton.mp last]
        exact held.appending fd new appending
  sourced job dispatching := by
    rcases move.job_cases dispatching with before | ⟨frame, read⟩
    · exact held.sourced job before
    · rw [read]
      rfl
  looked loop message index consumer found := by
    have known : consumer ∈ subscriptions ∧ Wanted subscriptions consumer.fd message := by
      rcases move.finds found with before | finds
      · exact held.looked loop message index consumer before
      · exact held.finds ledger finds
    exact ⟨mem_subscribed known.1, known.2.subscribed⟩
  handed fd message member := by
    refine Wanted.subscribed ?_
    have new {loop : Loop} {looked : Relayed Fd} {index : Nat} {peer : Consumer Fd}
        (found : s.lookedUp loop = some (looked, index, peer))
        (handed : message ∈ ((s.hand peer.fd looked).traffic fd).handed) :
        Wanted subscriptions fd message := by
      rw [hand_handed] at handed
      split at handed
      · next here =>
        rcases List.mem_append.mp handed with old | last
        · exact held.handed fd message old
        · rw [here, List.mem_singleton.mp last]
          exact (held.looked loop looked index peer found).2
      · exact held.handed fd message handed
    rcases move.handed_cases with same | ⟨looked, index, peer, _, at_, _, rfl⟩ |
      ⟨job, index, peer, _, at_, _, rfl⟩
    · exact held.handed fd message (same fd ▸ member)
    · have found : s.lookedUp .rx = some (looked, index, peer) := by
        simp only [lookedUp, at_, RxPoint.lookedUp]
      exact new found member
    · have found : s.lookedUp .tx = some (job.message, index, peer) := by
        simp only [lookedUp, at_, TxPoint.lookedUp]
      exact new found member

theorem Subscribed.start (distinct : (peers.map Consumer.fd).Nodup) :
    (start cfg peers).Subscribed peers where
  distinct := distinct
  heard consumer member := by
    have found : (peers.any fun other => decide (other.fd = consumer.fd)) = true :=
      List.any_eq_true.mpr ⟨consumer, member, by simp⟩
    have returned : (Server.start cfg peers).listeners consumer.fd = .returned := if_pos found
    rw [returned]
    nofun
  appending fd consumer at_ := by
    simp only [Server.start] at at_
    split at at_ <;> contradiction
  listed consumer member := member
  sourced job dispatching := by contradiction
  looked loop message index consumer found := by
    cases loop with
    | rx =>
      simp only [Server.start, lookedUp] at found
      split at found <;> contradiction
    | tx => contradiction
  handed fd message member := by contradiction

/-- What every run keeps, whatever becomes of the clients. -/
structure Orderings (cfg : Config) (subscriptions : List (Consumer Fd)) (s : Server Fd) :
    Prop where
  registry : s.Registry
  ledger : s.Ledger
  rising : s.Rising
  orderly : ∀ fd, s.Orderly cfg fd
  subscribed : s.Subscribed subscriptions

theorem Orderly.start (cfg : Config) (peers : List (Consumer Fd)) (fd : Fd) :
    (start cfg peers).Orderly cfg fd :=
  ⟨[], List.nil_sublist _, (fresh_start cfg peers fd).inv⟩

theorem Orderings.run (distinct : (peers.map Consumer.fd).Nodup)
    (path : Transition.run (recorded (step cfg) Server.subscribed) (start cfg peers, peers)
      actions = some (s, subscriptions)) : s.Orderings cfg subscriptions := by
  refine invariant_run (I := fun state : Server Fd × List (Consumer Fd) =>
    state.1.Orderings cfg state.2) ?_ ?_ along_true path
  · rintro ⟨u, before⟩ action ⟨v, after⟩ kept _ stepped
    obtain ⟨next, step, same⟩ := Option.map_eq_some_iff.mp stepped
    cases same
    have move := step_moves step
    exact {
      registry := move.registry kept.registry
      ledger := move.ledger kept.ledger
      rising := move.rising kept.registry kept.ledger kept.rising
      orderly := fun fd => move.orderly kept.ledger kept.rising (kept.orderly fd)
      subscribed := move.subscribed kept.ledger kept.subscribed }
  · exact {
      registry := .start distinct
      ledger := .start cfg peers
      rising := .start cfg peers
      orderly := .start cfg peers
      subscribed := .start distinct }

/-- The frames of one source that were handed over are among those read that the consumer
wants, in order and once each. -/
theorem Orderings.handed_sublist (kept : s.Orderings cfg subscriptions)
    (member : consumer ∈ subscriptions) (source : Option Fd) :
    (ofSource source (s.traffic consumer.fd).handed).Sublist (s.matched consumer source) := by
  have numbered : (s.matched consumer source).Pairwise fun old new => old.serial < new.serial := by
    refine List.Pairwise.sublist List.filter_sublist (List.pairwise_iff_getElem.mpr ?_)
    intro i j before short less
    have first := (kept.ledger.numbered source i _ (List.getElem?_eq_getElem before)).1
    have second := (kept.ledger.numbered source j _ (List.getElem?_eq_getElem short)).1
    omega
  have rising := kept.rising.handed consumer.fd source
  have among : ∀ message ∈ ofSource source (s.traffic consumer.fd).handed,
      message ∈ s.matched consumer source := by
    intro message inside
    obtain ⟨handed, of_source⟩ := List.mem_filter.mp inside
    have source_eq := of_decide_eq_true of_source
    obtain ⟨_, subscription, known, same, accepts⟩ := kept.subscribed.handed _ message handed
    obtain rfl : subscription = consumer :=
      List.inj_on_of_nodup_map kept.subscribed.distinct known member same
    exact List.mem_filter.mpr ⟨source_eq ▸ kept.ledger.handed _ message handed, accepts⟩
  have antisymmetric : Std.Antisymm fun old new : Relayed Fd => old.serial < new.serial :=
    ⟨fun old new less more => absurd (Nat.lt_trans less more) (Nat.lt_irrefl _)⟩
  have irreflexive : Std.Irrefl fun old new : Relayed Fd => old.serial < new.serial :=
    ⟨fun message => Nat.lt_irrefl _⟩
  exact List.sublist_of_subperm_of_pairwise (List.subperm_of_subset rising.nodup among) rising
    numbered

/-- The frames of one source arrive in the order in which they were handed over. -/
theorem Orderings.delivered_sublist (kept : s.Orderings cfg subscriptions) (fd : Fd)
    (source : Option Fd) :
    (ofSource source (s.traffic fd).delivered).Sublist
      (ofSource source (s.traffic fd).handed) := by
  obtain ⟨left, fewer, inv⟩ := kept.orderly fd
  have line : (Outbox.ofOwner Relayed.loop (loopOf source) (s.traffic fd).delivered).Sublist
      (Outbox.ofOwner Relayed.loop (loopOf source) left) := by
    refine List.Sublist.trans ?_ (inv.line (loopOf source))
    exact ((List.sublist_append_left _ _).filter _).trans (List.sublist_append_left _ _)
  have handed :=
    (line.trans (fewer.filter _)).filter fun message => decide (message.source = source)
  rw [← ofSource_ofOwner source, ← ofSource_ofOwner source (s.traffic fd).handed]
  exact handed

theorem Orderings.queued_handed (kept : s.Orderings cfg subscriptions)
    (queued : message ∈ (s.io fd).outbound) : message ∈ (s.traffic fd).handed := by
  obtain ⟨left, fewer, inv⟩ := kept.orderly fd
  exact fewer.subset (inv.queued_handed queued)

/-- In every run in which `listen_to` is called once for each socket, with clients that come, go
and fail, sends in pieces, overflow and `stop`: only subscribers are handed frames; what a client
is handed of a source are frames of others that its filters match, in the order of the source and
once each, and what it gets is among them in the same order; and what overflow costs it had a
backlog of newer frames behind. -/
theorem subscription_kept (distinct : (peers.map Consumer.fd).Nodup)
    (path : run (recorded (step cfg) subscribed) (start cfg peers, peers) actions =
      some (s, subscriptions)) :
    (∀ fd, (∀ consumer ∈ subscriptions, consumer.fd ≠ fd) → (s.traffic fd).handed = []) ∧
    ∀ consumer ∈ subscriptions,
      (∀ message ∈ (s.traffic consumer.fd).handed, message.source ≠ some consumer.fd) ∧
      (∀ source,
        (ofSource source (s.traffic consumer.fd).handed).Sublist (s.matched consumer source) ∧
        (s.matched consumer source).Nodup ∧
        (ofSource source (s.traffic consumer.fd).delivered).Sublist
          (ofSource source (s.traffic consumer.fd).handed)) ∧
      (∀ message ∈ (s.io consumer.fd).outbound, message ∈ (s.traffic consumer.fd).handed) ∧
      ∀ removal ∈ (s.traffic consumer.fd).backlog.removed,
        removal.item ∈ (s.traffic consumer.fd).delivered ∨
          cfg.backlogSize - 1 ≤ removal.left.length := by
  have kept := Orderings.run distinct path
  refine ⟨fun fd unsubscribed => ?_, fun consumer member =>
    ⟨fun message handed => (kept.subscribed.handed _ message handed).1, fun source =>
      ⟨kept.handed_sublist member source, ?_, kept.delivered_sublist consumer.fd source⟩,
      fun message => kept.queued_handed, fun removal removed => ?_⟩⟩
  · refine List.eq_nil_iff_forall_not_mem.mpr fun message handed => ?_
    obtain ⟨_, consumer, member, same, _⟩ := kept.subscribed.handed fd message handed
    exact unsubscribed consumer member same
  · exact (kept.ledger.numbered.nodup source).filter _
  · obtain ⟨left, _, inv⟩ := kept.orderly consumer.fd
    refine (inv.sacrificed removal removed).imp_right fun behind => ?_
    omega

/-- A client subscribes; the first one breaks in the middle of a frame that both want. -/
def joinedRun : List (Action Nat) :=
  [.listen ⟨1, some [⟨0x200, 0x7FF, none⟩]⟩, .listenNext 1, .rx, .listenNext 1, .listenNext 1,
    .rx, .rx, .rxRecv (some ⟨0x200, [1], false⟩), .listenNext 1, .listenNext 1, .listenNext 1,
    .rx, .rx, .rx, .rxCall (.accepted 5), .rxCall .disconnected, .rx,
    .rx, .rx, .rx, .rxCall (.accepted 16), .rx]

theorem subscription_kept_joined :
    ∃ s subscriptions, run (recorded (step .realBus) subscribed)
        (start .realBus [⟨0, none⟩], [⟨0, none⟩]) joinedRun = some (s, subscriptions) ∧
      ⟨1, some [⟨0x200, 0x7FF, none⟩]⟩ ∈ subscriptions ∧
      (s.traffic 1).delivered = [⟨none, 0, ⟨0x200, [1], false⟩⟩] ∧
      (ofSource none (s.traffic 1).delivered).Sublist
        (s.matched ⟨1, some [⟨0x200, 0x7FF, none⟩]⟩ none) := by
  have ends : (run (recorded (step .realBus) subscribed)
      (start .realBus [⟨0, none⟩], [⟨0, none⟩]) joinedRun).map
        (fun state => (state.2, (state.1.traffic 1).delivered)) =
      some ([⟨0, none⟩, ⟨1, some [⟨0x200, 0x7FF, none⟩]⟩],
        [⟨none, 0, ⟨0x200, [1], false⟩⟩]) := by decide +kernel
  obtain ⟨⟨s, subscriptions⟩, path, observed⟩ := Option.map_eq_some_iff.mp ends
  simp only [Prod.mk.injEq] at observed
  have member : (⟨1, some [⟨0x200, 0x7FF, none⟩]⟩ : Consumer Nat) ∈ subscriptions := by
    simp [observed.1]
  obtain ⟨_, ordered, _⟩ := (subscription_kept (by decide) path).2 _ member
  obtain ⟨handed, _, delivered⟩ := ordered none
  exact ⟨s, subscriptions, path, member, observed.2, delivered.trans handed⟩

end Sockcan.Server
