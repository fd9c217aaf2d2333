import Sockcan.Server.Moves
import Mathlib.Data.List.Nodup

/-! The registries in every interleaving, with clients that come and go: which
descriptors the selector holds, which of them the TX loop has in its hands, and which
consumers have been published. -/
namespace Sockcan.Server
open Protocol
variable {Fd : Type}

/-- `listen_to` is past its `selector.register`. -/
def Listened (s : Server Fd) (fd : Fd) : Prop :=
  s.listeners fd = .wake ∨ s.listeners fd = .returned

/-- `listen_to` is past its `_consumers.append`. -/
def Published (s : Server Fd) (fd : Fd) : Prop :=
  s.listeners fd ≠ .fresh ∧ ∀ consumer, s.listeners fd ≠ .appendConsumer consumer

/-- The keys of the event in hand and of those still to be handled, from the selection
on until the one in hand is unregistered. -/
def TxPoint.keys : TxPoint Fd → List (Option Fd)
  | .whileRunning | .select | .ended _ => []
  | .nextEvent events | .readKillSwitch events | .checkRunning events | .reportDead _ events =>
    events.map Event.key
  | .recv fd _ events | .unregister fd events | .drain fd events | .peek fd events
  | .drainSend fd _ _ events | .popleft fd _ events | .settle fd events =>
    some fd :: events.map Event.key
  | .advance job _ | .lookup job _ _ | .offer job _ _ _ | .busSend job =>
    some job.fileobj :: job.rest.map Event.key

/-- The consumer that the RX loop has in hand. -/
def RxPoint.consumer : RxPoint Fd → Option (Consumer Fd)
  | .lookup _ _ consumer | .offer _ _ consumer _ | .close _ _ consumer => some consumer
  | _ => none

/-- The dead descriptor that the RX loop has in hand. -/
def RxPoint.dead : RxPoint Fd → Option Fd
  | .popDead fd | .removeDead fd => some fd
  | _ => none

/-- The dead descriptor that the TX loop is about to report. -/
def TxPoint.reporting : TxPoint Fd → Option Fd
  | .reportDead fd _ => some fd
  | _ => none

/-- What every interleaving of `listen_to` calls and of the loops keeps. -/
structure Registry (s : Server Fd) : Prop where
  selector : ∀ fd, (s.selector fd).isSome ↔ s.Listened fd ∧ (s.traffic fd).unregistered = false
  unregistered : ∀ fd, (s.traffic fd).unregistered = true → s.Listened fd
  keys : s.tx.keys.Nodup
  selected : ∀ fd, some fd ∈ s.tx.keys → (s.selector fd).isSome
  appending : ∀ fd consumer, s.listeners fd = .appendConsumer consumer → consumer.fd = fd
  published : ∀ consumer ∈ s.consumers, s.Published consumer.fd
  distinct : (s.consumers.map Consumer.fd).Nodup
  closed : ∀ consumer ∈ s.closedConnections, s.Published consumer.fd
  inHand : ∀ consumer ∈ s.rx.consumer, s.Published consumer.fd
  dead : ∀ fd ∈ s.deadConsumerFds, (s.traffic fd).unregistered = true
  taken : ∀ fd ∈ s.rx.dead, (s.traffic fd).unregistered = true
  reporting : ∀ fd ∈ s.tx.reporting, (s.traffic fd).unregistered = true

variable [DecidableEq Fd] {cfg : Config} {s t : Server Fd} {action : Action Fd}

omit [DecidableEq Fd] in
theorem Listened.published {fd : Fd} (listened : s.Listened fd) : s.Published fd := by
  rcases listened with at_ | at_ <;> exact ⟨by simp [at_], fun consumer => by simp [at_]⟩

variable {peers : List (Consumer Fd)}

theorem Registry.start (distinct : (peers.map Consumer.fd).Nodup) :
    (start cfg peers).Registry where
  selector fd := by
    simp only [Server.start, Listened, Traffic.quiet, and_true]
    split <;> simp [*]
  unregistered fd was := by simp [Server.start, Traffic.quiet] at was
  keys := List.nodup_nil
  selected fd member := by simp [Server.start, TxPoint.keys] at member
  appending fd consumer at_ := by
    simp only [Server.start] at at_
    split at at_ <;> contradiction
  published consumer member := by
    have found : (peers.any fun other => decide (other.fd = consumer.fd)) = true :=
      List.any_eq_true.mpr ⟨consumer, member, by simp⟩
    have returned : (Server.start cfg peers).listeners consumer.fd = .returned := if_pos found
    exact ⟨by simp [returned], fun other => by simp [returned]⟩
  distinct := distinct
  closed consumer member := by simp [Server.start] at member
  inHand consumer member := by
    simp only [Server.start] at member
    split at member <;> simp [RxPoint.consumer] at member
  dead fd member := by simp [Server.start] at member
  taken fd member := by
    simp only [Server.start] at member
    split at member <;> simp [RxPoint.dead] at member
  reporting fd member := by simp [Server.start, TxPoint.reporting] at member

section Frames
variable {fd : Fd} {message : Relayed Fd} {point : Offer} {result : OfferResult}
  {progress : Progress} {outcome : CallOutcome} {answer : Except Ending SendStep}

/-- What handing a frame over leaves alone. -/
theorem Offers.registries (offer : Offers cfg s fd message point t result) :
    t.consumers = s.consumers ∧ t.listeners = s.listeners ∧
      t.closedConnections = s.closedConnections ∧ t.deadConsumerFds = s.deadConsumerFds := by
  rw [offer.frame]
  exact ⟨rfl, rfl, rfl, rfl⟩

theorem Offers.selector_isSome (offer : Offers cfg s fd message point t result) (other : Fd) :
    (t.selector other).isSome = (s.selector other).isSome := by
  cases offer with
  | direct | behind | append | queueMissing => rfl
  | countDropped | queueCount =>
    rw [noteDroppedFrame_eq]
    rfl
  | queue registered =>
    by_cases same : other = fd
    · subst same
      simp [setInterest, registered]
    · simp [setInterest, same, Server.append, setIo, setTraffic]

theorem append_unregistered (other : Fd) : ((s.append cfg fd message).traffic other).unregistered =
    (s.traffic other).unregistered :=
  setTraffic_keeps Traffic.unregistered (by rfl) other

theorem Offers.unregistered (offer : Offers cfg s fd message point t result) (other : Fd) :
    (t.traffic other).unregistered = (s.traffic other).unregistered := by
  cases offer with
  | direct | behind => rfl
  | countDropped | queueCount =>
    rw [noteDroppedFrame_eq]
    rfl
  | append | queue | queueMissing => exact append_unregistered other

omit [DecidableEq Fd] in
@[simp] theorem record_unregistered (traffic : Traffic Fd) (bytes : List UInt8) :
    (traffic.record message bytes progress outcome).unregistered = traffic.unregistered := by
  unfold Traffic.record
  cases outcome <;> dsimp only <;> split <;> rfl

theorem Sends.unregistered (call : Sends s fd message progress outcome t answer) (other : Fd) :
    (t.traffic other).unregistered = (s.traffic other).unregistered := by
  cases call with
  | unpacked => rfl
  | call packed possible => exact setTraffic_keeps Traffic.unregistered (by simp) other

theorem Sends.registries (call : Sends s fd message progress outcome t answer) :
    t.consumers = s.consumers ∧ t.listeners = s.listeners ∧ t.selector = s.selector ∧
      t.closedConnections = s.closedConnections ∧ t.deadConsumerFds = s.deadConsumerFds := by
  cases call <;> exact ⟨rfl, rfl, rfl, rfl, rfl⟩

end Frames

omit [DecidableEq Fd] in
theorem Registry.congr (registry : s.Registry) (rx : t.rx = s.rx) (tx : t.tx = s.tx)
    (consumers : t.consumers = s.consumers) (listeners : t.listeners = s.listeners)
    (closed : t.closedConnections = s.closedConnections)
    (dead : t.deadConsumerFds = s.deadConsumerFds)
    (selector : ∀ fd, (t.selector fd).isSome = (s.selector fd).isSome)
    (unregistered : ∀ fd, (t.traffic fd).unregistered = (s.traffic fd).unregistered) :
    t.Registry := by
  have listened (fd : Fd) : t.Listened fd ↔ s.Listened fd := by simp only [Listened, listeners]
  have published (fd : Fd) : t.Published fd ↔ s.Published fd := by simp only [Published, listeners]
  constructor
  · intro fd
    rw [selector, unregistered, listened]
    exact registry.selector fd
  · intro fd was
    rw [unregistered] at was
    exact (listened fd).mpr (registry.unregistered fd was)
  · rw [tx]
    exact registry.keys
  · intro fd member
    rw [selector]
    exact registry.selected fd (tx ▸ member)
  · rw [listeners]
    exact registry.appending
  · intro consumer member
    exact (published _).mpr (registry.published consumer (consumers ▸ member))
  · rw [consumers]
    exact registry.distinct
  · intro consumer member
    exact (published _).mpr (registry.closed consumer (closed ▸ member))
  · intro consumer member
    exact (published _).mpr (registry.inHand consumer (rx ▸ member))
  · intro fd member
    rw [unregistered]
    exact registry.dead fd (dead ▸ member)
  · intro fd member
    rw [unregistered]
    exact registry.taken fd (rx ▸ member)
  · intro fd member
    rw [unregistered]
    exact registry.reporting fd (tx ▸ member)

theorem Offers.registry {fd : Fd} {message : Relayed Fd} {point : Offer} {result : OfferResult}
    (offer : Offers cfg s fd message point t result) (registry : s.Registry) : t.Registry := by
  obtain ⟨consumers, listeners, closed, dead⟩ := offer.registries
  exact registry.congr offer.rx offer.tx consumers listeners closed dead offer.selector_isSome
    offer.unregistered

theorem Sends.registry {fd : Fd} {message : Relayed Fd} {progress : Progress}
    {outcome : CallOutcome} {answer : Except Ending SendStep}
    (call : Sends s fd message progress outcome t answer) (registry : s.Registry) :
    t.Registry := by
  obtain ⟨consumers, listeners, selector, closed, dead⟩ := call.registries
  exact registry.congr call.rx call.tx consumers listeners closed dead
    (fun fd => by rw [selector]) call.unregistered

omit [DecidableEq Fd] in
/-- The RX loop moves on to a point with nothing in its hands. -/
theorem Registry.rx_free (registry : s.Registry) {point : RxPoint Fd}
    (consumer : point.consumer = none) (dead : point.dead = none) :
    ({ s with rx := point } : Server Fd).Registry :=
  { registry with
    inHand := by simp [consumer]
    taken := by simp [dead] }

omit [DecidableEq Fd] in
/-- The TX loop moves on among the events that it has selected. -/
theorem Registry.tx_keys (registry : s.Registry) {point : TxPoint Fd}
    (keys : point.keys.Sublist s.tx.keys) (reporting : point.reporting = none) :
    ({ s with tx := point } : Server Fd).Registry :=
  { registry with
    keys := registry.keys.sublist keys
    selected := fun fd member => registry.selected fd (keys.subset member)
    reporting := by simp [reporting] }

omit [DecidableEq Fd] in
theorem Job.keys_afterRead (job : Job Fd) :
    job.afterRead.keys.Sublist (some job.fileobj :: job.rest.map Event.key) := by
  unfold Job.afterRead
  split
  · exact .refl _
  · exact List.sublist_cons_self _ _

omit [DecidableEq Fd] in
theorem Job.reporting_afterRead (job : Job Fd) : job.afterRead.reporting = none := by
  unfold Job.afterRead
  split <;> rfl

theorem Registry.removeConsumer (registry : s.Registry) (fd : Fd) :
    (s.removeConsumer fd).Registry :=
  { registry with
    published := fun consumer member =>
      registry.published consumer (List.mem_of_mem_eraseP member)
    distinct := registry.distinct.sublist (List.eraseP_sublist.map _) }

theorem hand_unregistered (fd : Fd) (message : Relayed Fd) (other : Fd) :
    ((s.hand fd message).traffic other).unregistered = (s.traffic other).unregistered :=
  setTraffic_keeps Traffic.unregistered (by rfl) other

theorem popleft_unregistered (fd : Fd) (first : Relayed Fd) (rest : List (Relayed Fd))
    (other : Fd) : ((s.popleft fd first rest).traffic other).unregistered =
      (s.traffic other).unregistered :=
  setTraffic_keeps Traffic.unregistered (by rfl) other

theorem Registry.hand (registry : s.Registry) (fd : Fd) (message : Relayed Fd) :
    (s.hand fd message).Registry :=
  registry.congr rfl rfl rfl rfl rfl rfl (fun _ => rfl) (hand_unregistered fd message)

theorem Registry.popleft (registry : s.Registry) (fd : Fd) (first : Relayed Fd)
    (rest : List (Relayed Fd)) : (s.popleft fd first rest).Registry :=
  registry.congr rfl rfl rfl rfl rfl rfl (fun _ => rfl) (popleft_unregistered fd first rest)

theorem Registry.settle (registry : s.Registry) {fd : Fd} (registered : (s.selector fd).isSome)
    (io : ConsumerIO Fd) : ((s.setInterest fd (some .read)).setIo fd io).Registry := by
  refine registry.congr rfl rfl rfl rfl rfl rfl (fun other => ?_) fun _ => rfl
  by_cases same : other = fd
  · subst same
    simp [setInterest, setIo, registered]
  · simp [setInterest, setIo, same]

theorem not_mem_removeConsumer (distinct : (s.consumers.map Consumer.fd).Nodup) (fd : Fd) :
    ∀ consumer ∈ (s.removeConsumer fd).consumers, consumer.fd ≠ fd := by
  simp only [removeConsumer]
  generalize s.consumers = consumers at distinct
  induction consumers with
  | nil => simp
  | cons first rest ih =>
    obtain ⟨absent, nodup⟩ := List.nodup_cons.mp distinct
    intro consumer member
    by_cases here : first.fd = fd
    · rw [List.eraseP_cons_of_pos (by simp [here])] at member
      rintro rfl
      exact absent (here ▸ List.mem_map_of_mem member)
    · rw [List.eraseP_cons_of_neg (by simp [here])] at member
      rcases List.mem_cons.mp member with rfl | later
      · exact here
      · exact ih nodup consumer later

/-- The TX loop unregisters the descriptor that it has in hand. -/
theorem Registry.unregister (registry : s.Registry) {fd : Fd} {events : List (Event Fd)}
    (at_ : s.tx = .unregister fd events) : ({ (s.setInterest fd none).setTraffic fd
      { s.traffic fd with unregistered := true } with tx := .reportDead fd events } :
        Server Fd).Registry := by
  have keys := registry.keys
  have selected := registry.selected
  rw [at_] at keys selected
  obtain ⟨absent, nodup⟩ := List.nodup_cons.mp keys
  have was := (registry.selector fd).mp (selected fd List.mem_cons_self)
  have kept (other : Fd) (gone : (s.traffic other).unregistered = true) :
      (Function.update s.traffic fd { s.traffic fd with unregistered := true } other).unregistered =
        true := by
    by_cases same : other = fd
    · simp [same]
    · simpa [same] using gone
  refine { registry with
    selector := fun other => ?_
    unregistered := fun other gone => ?_
    keys := nodup
    selected := fun other member => ?_
    dead := fun other member => kept other (registry.dead other member)
    taken := fun other member => kept other (registry.taken other member)
    reporting := ?_ }
  · by_cases same : other = fd
    · simp [setInterest, setTraffic, same]
    · simpa [setInterest, setTraffic, same, Listened] using registry.selector other
  · by_cases same : other = fd
    · exact same ▸ was.1
    · exact registry.unregistered other (by simpa [setInterest, setTraffic, same] using gone)
  · have different : other ≠ fd := fun same => absent (same ▸ member)
    simpa [setInterest, setTraffic, different] using
      selected other (List.mem_cons_of_mem _ member)
  · intro other member
    obtain rfl : fd = other := by simpa [TxPoint.reporting] using member
    simp [setInterest, setTraffic]

/-- `listen_to` goes on, without registering yet. -/
theorem Registry.listenGoto (registry : s.Registry) (fd : Fd) (point : ListenPoint Fd)
    (listened : (point = .wake ∨ point = .returned) ↔ s.Listened fd)
    (published : s.Published fd → point ≠ .fresh ∧ ∀ consumer, point ≠ .appendConsumer consumer)
    (appending : ∀ consumer, point = .appendConsumer consumer → consumer.fd = fd) :
    ({ s with listeners := Function.update s.listeners fd point } : Server Fd).Registry := by
  have listens (other : Fd) : ({ s with listeners := Function.update s.listeners fd point } :
      Server Fd).Listened other ↔ s.Listened other := by
    by_cases same : other = fd
    · subst same
      simpa [Listened] using listened
    · simp [Listened, same]
  have publishes (other : Fd) (was : s.Published other) :
      ({ s with listeners := Function.update s.listeners fd point } :
        Server Fd).Published other := by
    by_cases same : other = fd
    · subst same
      simpa [Published] using published was
    · simpa [Published, same] using was
  refine { registry with
    selector := fun other => (registry.selector other).trans (and_congr_left' (listens other).symm)
    unregistered := fun other gone => (listens other).mpr (registry.unregistered other gone)
    appending := fun other consumer at_ => ?_
    published := fun consumer member => publishes _ (registry.published consumer member)
    closed := fun consumer member => publishes _ (registry.closed consumer member)
    inHand := fun consumer member => publishes _ (registry.inHand consumer member) }
  by_cases same : other = fd
  · subst same
    exact appending consumer (by simpa using at_)
  · exact registry.appending other consumer (by simpa [same] using at_)

theorem Registry.listenAppend (registry : s.Registry) {fd : Fd} {consumer : Consumer Fd}
    (at_ : s.listeners fd = .appendConsumer consumer) : ({ s with
      consumers := s.consumers ++ [consumer]
      listeners := Function.update s.listeners fd .refresh } : Server Fd).Registry := by
  have here := registry.appending fd consumer at_
  have moved := registry.listenGoto fd .refresh (by simp [Listened, at_])
    (fun _ => by simp) (by simp)
  refine { moved with
    published := fun other member => ?_
    distinct := ?_ }
  · rcases List.mem_append.mp member with old | new
    · exact moved.published other old
    · rw [List.mem_singleton.mp new, here]
      exact ⟨by simp, by simp⟩
  · rw [List.map_append, List.nodup_append]
    refine ⟨registry.distinct, by simp, ?_⟩
    intro other old another new same
    obtain ⟨peer, member, rfl⟩ := List.mem_map.mp old
    have published := registry.published peer member
    rw [same, List.mem_singleton.mp new, here] at published
    exact published.2 consumer at_

theorem Registry.listenRegister (registry : s.Registry) {fd : Fd}
    (at_ : s.listeners fd = .register) : ({ s.setInterest fd (some .read) with
      listeners := Function.update s.listeners fd .wake } : Server Fd).Registry := by
  have never : (s.traffic fd).unregistered = false := by
    cases gone : (s.traffic fd).unregistered with
    | false => rfl
    | true =>
      have listened := registry.unregistered fd gone
      simp [Listened, at_] at listened
  have publishes (other : Fd) (was : s.Published other) :
      ({ s.setInterest fd (some .read) with
        listeners := Function.update s.listeners fd .wake } : Server Fd).Published other := by
    by_cases same : other = fd
    · simp [Published, same]
    · simpa [Published, setInterest, same] using was
  refine { registry with
    selector := fun other => ?_
    unregistered := fun other gone => ?_
    selected := fun other member => ?_
    appending := fun other consumer appends => ?_
    published := fun consumer member => publishes _ (registry.published consumer member)
    closed := fun consumer member => publishes _ (registry.closed consumer member)
    inHand := fun consumer member => publishes _ (registry.inHand consumer member) }
  · by_cases same : other = fd
    · simp [setInterest, Listened, same, never]
    · simpa [setInterest, Listened, same] using registry.selector other
  · by_cases same : other = fd
    · simp [Listened, same]
    · simpa [Listened, setInterest, same] using registry.unregistered other gone
  · by_cases same : other = fd
    · simp [setInterest, same]
    · simpa [setInterest, same] using registry.selected other member
  · by_cases same : other = fd
    · simp [same] at appends
    · exact registry.appending other consumer (by simpa [same] using appends)

omit [DecidableEq Fd] in
theorem RxPoint.consumer_afterOffer {message : Relayed Fd} {index : Nat}
    {consumer other : Consumer Fd} {result : OfferResult}
    (member : other ∈ (RxPoint.afterOffer message index consumer result).consumer) :
    other = consumer := by
  cases result <;> simp_all [RxPoint.afterOffer, RxPoint.consumer]

omit [DecidableEq Fd] in
theorem RxPoint.dead_afterOffer (message : Relayed Fd) (index : Nat) (consumer : Consumer Fd)
    (result : OfferResult) : (RxPoint.afterOffer message index consumer result).dead = none := by
  cases result <;> rfl

omit [DecidableEq Fd] in
theorem RxPoint.consumer_afterSend {message : Relayed Fd} {index : Nat}
    {consumer other : Consumer Fd} {answer : Except Ending SendStep}
    (member : other ∈ (RxPoint.afterSend message index consumer answer).consumer) :
    other = consumer := by
  cases answer with
  | error => simp [RxPoint.afterSend, RxPoint.consumer] at member
  | ok step => cases step <;> simp_all [RxPoint.afterSend, RxPoint.consumer]

omit [DecidableEq Fd] in
theorem RxPoint.dead_afterSend (message : Relayed Fd) (index : Nat) (consumer : Consumer Fd)
    (answer : Except Ending SendStep) :
    (RxPoint.afterSend message index consumer answer).dead = none := by
  cases answer with
  | error => rfl
  | ok step => cases step <;> rfl

omit [DecidableEq Fd] in
theorem TxPoint.keys_afterOffer (job : Job Fd) (index : Nat) (consumer : Consumer Fd)
    (result : OfferResult) : (TxPoint.afterOffer job index consumer result).keys.Sublist
      (some job.fileobj :: job.rest.map Event.key) := by
  cases result with
  | raised => exact List.nil_sublist _
  | _ => exact .refl _

omit [DecidableEq Fd] in
theorem TxPoint.keys_afterSend (job : Job Fd) (index : Nat) (consumer : Consumer Fd)
    (answer : Except Ending SendStep) : (TxPoint.afterSend job index consumer answer).keys.Sublist
      (some job.fileobj :: job.rest.map Event.key) := by
  cases answer with
  | error => exact List.nil_sublist _
  | ok step => cases step <;> exact .refl _

omit [DecidableEq Fd] in
theorem TxPoint.reporting_afterSend (job : Job Fd) (index : Nat) (consumer : Consumer Fd)
    (answer : Except Ending SendStep) :
    (TxPoint.afterSend job index consumer answer).reporting = none := by
  cases answer with
  | error => rfl
  | ok step => cases step <;> rfl

omit [DecidableEq Fd] in
theorem TxPoint.keys_afterDrainSend (fd : Fd) (head : Relayed Fd) (events : List (Event Fd))
    (answer : Except Ending SendStep) :
    (TxPoint.afterDrainSend fd head events answer).keys.Sublist
      (some fd :: events.map Event.key) := by
  cases answer with
  | error => exact List.nil_sublist _
  | ok step => cases step <;> exact .refl _

omit [DecidableEq Fd] in
theorem TxPoint.reporting_afterDrainSend (fd : Fd) (head : Relayed Fd)
    (events : List (Event Fd)) (answer : Except Ending SendStep) :
    (TxPoint.afterDrainSend fd head events answer).reporting = none := by
  cases answer with
  | error => rfl
  | ok step => cases step <;> rfl

theorem Cleans.registry (move : Cleans s t) (registry : s.Registry) : t.Registry := by
  have taken := registry.taken
  cases move with
  | noneClosed | removeMissing | deleteMissing | noneDead | refresh | noRefresh | aggregate
  | aggregated =>
    exact registry.rx_free rfl rfl
  | install => exact { registry.rx_free rfl rfl with }
  | remove => exact (registry.removeConsumer _).rx_free rfl rfl
  | removeDead => exact { (registry.removeConsumer _).rx_free rfl rfl with }
  | delete => exact { registry.rx_free rfl rfl with
      closed := fun consumer member => registry.closed consumer (List.mem_of_mem_tail member) }
  | takeDead _ dead =>
    have reported := registry.dead
    rw [dead] at reported
    exact { registry with
      inHand := by simp [RxPoint.consumer]
      dead := fun fd member => reported fd (List.mem_cons_of_mem _ member)
      taken := by simpa [RxPoint.dead] using reported _ List.mem_cons_self }
  | popDead at_ =>
    rw [at_] at taken
    exact { registry with
      inHand := by simp [RxPoint.consumer]
      taken := taken }

theorem RxRelays.registry (move : RxRelays cfg s action t) (registry : s.Registry) :
    t.Registry := by
  have inHand := registry.inHand
  cases move with
  | handMissing | recvError | skip => exact registry.rx_free rfl rfl
  | finish | wake | recv => exact { registry.rx_free rfl rfl with }
  | accept _ next =>
    refine { registry with inHand := fun consumer member => ?_, taken := by simp [RxPoint.dead] }
    cases member
    exact registry.published _ (List.mem_of_getElem? next)
  | hand at_ =>
    rw [at_] at inHand
    exact { registry.hand _ _ with
      inHand := inHand
      taken := by simp [RxPoint.dead] }
  | offer at_ offer =>
    have held := (offer.registry registry).inHand
    rw [offer.rx, at_] at held
    exact { offer.registry registry with
      inHand := fun other member => by
        rw [RxPoint.consumer_afterOffer member]
        exact held _ rfl
      taken := by simp [RxPoint.dead_afterOffer] }
  | call at_ call =>
    have held := (call.registry registry).inHand
    rw [call.rx, at_] at held
    exact { call.registry registry with
      inHand := fun other member => by
        rw [RxPoint.consumer_afterSend member]
        exact held _ rfl
      taken := by simp [RxPoint.dead_afterSend] }
  | close at_ =>
    rw [at_] at inHand
    refine { registry.rx_free rfl rfl with closed := fun consumer member => ?_ }
    rcases List.mem_append.mp member with old | new
    · exact registry.closed consumer old
    · rw [List.mem_singleton.mp new]
      exact inHand _ rfl

omit [DecidableEq Fd] in
theorem Selects.registry (move : Selects s action t) (registry : s.Registry) : t.Registry := by
  cases move with
  | running | stopped | round | leave => exact registry.tx_keys (List.nil_sublist _) rfl
  | killSwitch at_ | neither at_ =>
    exact registry.tx_keys (by rw [at_]; exact List.sublist_cons_self _ _) rfl
  | readable at_ | writable at_ | resume at_ =>
    exact registry.tx_keys (by rw [at_]; exact .refl _) rfl
  | readKillSwitch at_ => exact { registry.tx_keys (by rw [at_]; exact .refl _) rfl with }
  | select at_ selection =>
    refine { registry with
      keys := selection.1
      selected := fun fd member => ?_
      reporting := by simp [TxPoint.reporting] }
    obtain ⟨event, selected, key⟩ := List.mem_map.mp member
    have ready := selection.2 event selected
    cases event with
    | killSwitch => contradiction
    | ready other readable writable =>
      obtain rfl : other = fd := by simpa [Event.key] using key
      exact ready.1

theorem GivesUp.registry (move : GivesUp s action t) (registry : s.Registry) : t.Registry := by
  cases move with
  | recvError at_ => exact registry.tx_keys (by rw [at_]; exact .refl _) rfl
  | unregister at_ => exact registry.unregister at_
  | unregisterMissing => exact registry.tx_keys (List.nil_sublist _) rfl
  | reportDead at_ =>
    have reporting := registry.reporting
    rw [at_] at reporting
    refine { registry.tx_keys (by rw [at_]; exact .refl _) rfl with dead := fun fd member => ?_ }
    rcases List.mem_append.mp member with old | new
    · exact registry.dead fd old
    · rw [List.mem_singleton.mp new]
      exact reporting _ rfl

theorem TxRelays.registry (move : TxRelays cfg s action t) (registry : s.Registry) :
    t.Registry := by
  cases move with
  | busError => exact registry.tx_keys (List.nil_sublist _) rfl
  | self at_ | accept at_ | skip at_ | handMissing at_ =>
    exact registry.tx_keys (by rw [at_]; exact .refl _) rfl
  | recv at_ => exact { registry.tx_keys (by rw [at_]; exact .refl _) rfl with }
  | @finish job _ at_ =>
    by_cases virtual : cfg.virtual
    · simp only [virtual, if_true]
      exact registry.tx_keys (by rw [at_]; exact job.keys_afterRead) job.reporting_afterRead
    · simp only [virtual]
      exact registry.tx_keys (by rw [at_]; exact .refl _) rfl
  | hand at_ =>
    refine (registry.hand _ _).tx_keys ?_ rfl
    simp only [Server.hand, setTraffic, at_]
    exact .refl _
  | @offer job index target point after result at_ offer =>
    refine (offer.registry registry).tx_keys ?_ (by cases result <;> rfl)
    rw [offer.tx, at_]
    exact TxPoint.keys_afterOffer job index target result
  | @call job index target progress outcome after answer at_ call =>
    refine (call.registry registry).tx_keys ?_ (TxPoint.reporting_afterSend job index target answer)
    rw [call.tx, at_]
    exact TxPoint.keys_afterSend job index target answer
  | @bus job at_ =>
    exact { registry.tx_keys (by rw [at_]; exact job.keys_afterRead) job.reporting_afterRead with }

theorem Drains.registry {fd : Fd} {events : List (Event Fd)}
    (move : Drains s fd events action t) (registry : s.Registry) : t.Registry := by
  cases move with
  | peekEmpty | popEmpty | settleMissing => exact registry.tx_keys (List.nil_sublist _) rfl
  | drained at_ | find at_ | peek at_ =>
    exact registry.tx_keys (by rw [at_]; exact .refl _) rfl
  | settle at_ => exact registry.tx_keys (by rw [at_]; exact List.sublist_cons_self _ _) rfl
  | @call head progress outcome after answer at_ call =>
    refine (call.registry registry).tx_keys ?_
      (TxPoint.reporting_afterDrainSend fd head events answer)
    rw [call.tx, at_]
    exact TxPoint.keys_afterDrainSend fd head events answer
  | pop at_ =>
    refine (registry.popleft _ _ _).tx_keys ?_ rfl
    simp only [Server.popleft, setIo, setTraffic, at_]
    exact .refl _
  | settleEmpty at_ _ registered =>
    refine (registry.settle registered _).tx_keys ?_ rfl
    simp only [setInterest, setIo, at_]
    exact List.sublist_cons_self _ _

theorem Listens.registry (move : Listens cfg s action t) (registry : s.Registry) :
    t.Registry := by
  cases move with
  | @publish consumer at_ =>
    have goes := registry.listenGoto consumer.fd (.appendConsumer consumer)
      (by simp [Listened, at_]) (fun published => absurd at_ published.1)
      (fun other same => by cases same; rfl)
    exact { goes with }
  | append at_ => exact registry.listenAppend at_
  | @refresh fd at_ =>
    refine registry.listenGoto fd _ ?_ (fun _ => ?_) fun consumer same => ?_
    · cases virtual : cfg.virtual <;> simp [Listened, at_]
    · cases virtual : cfg.virtual <;> simp
    · cases virtual : cfg.virtual <;> simp [virtual] at same
  | @aggregate fd _ _ _ at_ | @aggregated fd _ _ _ at_ =>
    exact registry.listenGoto fd _ (by simp [Listened, at_]) (fun _ => by simp) (by simp)
  | @install fd filters at_ =>
    have goes := registry.listenGoto fd .register (by simp [Listened, at_])
      (fun _ => by simp) (by simp)
    exact { goes with }
  | register at_ => exact registry.listenRegister at_
  | @registered fd at_ present =>
    have listened := ((registry.selector fd).mp present).1
    simp [Listened, at_] at listened
  | @wake fd at_ =>
    have goes := registry.listenGoto fd .returned (by simp [Listened, at_])
      (fun _ => by simp) (by simp)
    exact { goes with }
  | @noWake fd at_ =>
    exact registry.listenGoto fd _ (by simp [Listened, at_]) (fun _ => by simp) (by simp)

theorem Moves.registry (move : Moves cfg s action t) (registry : s.Registry) : t.Registry := by
  cases move with
  | clean move => exact move.registry registry
  | rxRelay move => exact move.registry registry
  | select move => exact move.registry registry
  | giveUp move => exact move.registry registry
  | txRelay move => exact move.registry registry
  | drain move => exact move.registry registry
  | listen move => exact move.registry registry
  | stop move =>
    rw [move.frame]
    exact { registry with }

/-- Only `_run_tx` unregisters a descriptor. -/
theorem Moves.unregistered_cases (move : Moves cfg s action t) (fd : Fd) :
    (t.traffic fd).unregistered = (s.traffic fd).unregistered ∨
      (t.traffic fd).unregistered = true ∧
        ∃ events, s.tx = .unregister fd events ∧ t.tx = .reportDead fd events := by
  cases move with
  | clean move => exact Or.inl (congrArg (fun u => (u.traffic fd).unregistered) move.frame :)
  | rxRelay move =>
    refine Or.inl ?_
    cases move with
    | hand => exact hand_unregistered _ _ fd
    | offer _ offer => exact offer.unregistered fd
    | call _ call => exact call.unregistered fd
    | _ => rfl
  | select move => exact Or.inl (congrArg (fun u => (u.traffic fd).unregistered) move.frame :)
  | giveUp move =>
    cases move with
    | @unregister other events at_ registered =>
      by_cases same : fd = other
      · subst same
        exact Or.inr ⟨by simp [setTraffic], events, at_, rfl⟩
      · left
        simp [setInterest, setTraffic, same]
    | _ => exact Or.inl rfl
  | txRelay move =>
    refine Or.inl ?_
    cases move with
    | hand => exact hand_unregistered _ _ fd
    | offer _ offer => exact offer.unregistered fd
    | call _ call => exact call.unregistered fd
    | _ => rfl
  | drain move =>
    refine Or.inl ?_
    cases move with
    | call _ call => exact call.unregistered fd
    | pop => exact popleft_unregistered _ _ _ fd
    | _ => rfl
  | listen move => exact Or.inl (congrArg (fun u => (u.traffic fd).unregistered) move.frame :)
  | stop move => exact Or.inl (congrArg (fun u => (u.traffic fd).unregistered) move.frame :)

theorem Moves.stays_unregistered (move : Moves cfg s action t) {fd : Fd}
    (gone : (s.traffic fd).unregistered = true) : (t.traffic fd).unregistered = true := by
  rcases move.unregistered_cases fd with same | ⟨unregistered, _⟩
  · exact same.trans gone
  · exact unregistered

end Sockcan.Server
