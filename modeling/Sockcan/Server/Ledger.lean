import Sockcan.Server.Served

/-! What is handed over was read before, in every interleaving: each loop dispatches the
last frame that it read, and a frame has its own number. -/
namespace Sockcan.Server
open Protocol
variable {Fd : Type}

/-- A dispatch counts the consumer that it looks up as its next one. -/
def TxPoint.Counted : TxPoint Fd → Prop
  | .lookup _ index _ | .offer _ index _ _ => 0 < index
  | _ => True

/-- The frames in dispatch, handed over, sent, queued and drained are among those read,
and the frame of a dispatch that begins is new to every consumer. -/
structure Ledger (s : Server Fd) : Prop where
  numbered : s.Numbered
  routed : ∀ loop message passed, s.dispatch loop = some (message, passed) →
    message.loop = loop ∧ message ∈ s.received message.source
  handed : ∀ fd, ∀ message ∈ (s.traffic fd).handed, message ∈ s.received message.source
  served : ∀ fd, ∀ message ∈ (s.traffic fd).served, message ∈ s.received message.source
  queued : ∀ fd, ∀ message ∈ (s.io fd).outbound, message ∈ s.received message.source
  draining : ∀ message ∈ s.tx.head, message ∈ s.received message.source
  counted : s.tx.Counted
  fresh : ∀ job, s.tx = .advance job 0 → ∀ fd,
    job.message ∉ (s.traffic fd).handed ∧ job.message ∉ (s.traffic fd).served

variable [DecidableEq Fd] {cfg : Config} {peers : List (Consumer Fd)} {s t : Server Fd}
  {action : Action Fd} {fd : Fd} {message queued : Relayed Fd}

/-- The one statement that hands a frame over, in either loop. -/
theorem Moves.handed_cases (move : Moves cfg s action t) :
    (∀ fd, (t.traffic fd).handed = (s.traffic fd).handed) ∨
    (∃ message index consumer, action = .rx ∧ s.rx = .lookup message index consumer ∧
      s.consumerIo consumer.fd = true ∧
      t = { s.hand consumer.fd message with rx := .offer message index consumer .test }) ∨
    ∃ job index consumer, action = .tx ∧ s.tx = .lookup job index consumer ∧
      s.consumerIo consumer.fd = true ∧
      t = { s.hand consumer.fd job.message with tx := .offer job index consumer .test } := by
  have kept (same : t.traffic = s.traffic) (fd : Fd) :
      (t.traffic fd).handed = (s.traffic fd).handed := by rw [same]
  cases move with
  | clean move => exact Or.inl (kept (congrArg Server.traffic move.frame :))
  | rxRelay move =>
    cases move with
    | hand at_ present => exact Or.inr (Or.inl ⟨_, _, _, rfl, at_, present, rfl⟩)
    | offer _ offer => exact Or.inl offer.handed
    | call _ call => exact Or.inl call.handed
    | _ => exact Or.inl fun _ => rfl
  | select move => exact Or.inl (kept (congrArg Server.traffic move.frame :))
  | giveUp move => exact Or.inl move.handed
  | txRelay move =>
    cases move with
    | hand at_ present => exact Or.inr (Or.inr ⟨_, _, _, rfl, at_, present, rfl⟩)
    | offer _ offer => exact Or.inl offer.handed
    | call _ call => exact Or.inl call.handed
    | _ => exact Or.inl fun _ => rfl
  | drain move => exact Or.inl move.handed
  | listen move => exact Or.inl (kept (congrArg Server.traffic move.frame :))
  | stop move => exact Or.inl (kept (congrArg Server.traffic move.frame :))

theorem hand_handed (consumer : Fd) (message : Relayed Fd) (fd : Fd) :
    ((s.hand consumer message).traffic fd).handed =
      if fd = consumer then (s.traffic fd).handed ++ [message] else (s.traffic fd).handed := by
  by_cases same : fd = consumer
  · simp [Server.hand, setTraffic, same]
  · simp [Server.hand, setTraffic, same]

/-- A frame that was not handed over before is the one that a loop has looked up. -/
theorem Moves.handed_mem (move : Moves cfg s action t)
    (member : message ∈ (t.traffic fd).handed) :
    message ∈ (s.traffic fd).handed ∨ (∃ index consumer, s.rx = .lookup message index consumer) ∨
      ∃ job index consumer, s.tx = .lookup job index consumer ∧ message = job.message := by
  have grown {consumer : Fd} {looked : Relayed Fd}
      (member : message ∈ ((s.hand consumer looked).traffic fd).handed) :
      message ∈ (s.traffic fd).handed ∨ message = looked := by
    rw [hand_handed] at member
    split at member
    · exact (List.mem_append.mp member).imp_right List.mem_singleton.mp
    · exact Or.inl member
  rcases move.handed_cases with same | ⟨looked, index, consumer, _, at_, _, rfl⟩ |
    ⟨job, index, consumer, _, at_, _, rfl⟩
  · exact Or.inl (same fd ▸ member)
  · refine (grown member).imp_right fun same => Or.inl ⟨index, consumer, ?_⟩
    rw [same, at_]
  · exact (grown member).imp_right fun same => Or.inr ⟨job, index, consumer, at_, same⟩

theorem Moves.received_mem (move : Moves cfg s action t) {source : Option Fd}
    (member : message ∈ s.received source) : message ∈ t.received source := by
  rcases move.received_cases with same | ⟨other, frame, same⟩
  · exact same ▸ member
  · rw [same]
    by_cases here : source = other
    · subst here
      simpa [receive, stamp] using Or.inl member
    · simpa [receive, stamp, here] using member

omit [DecidableEq Fd] in
theorem RxPoint.dispatch_of_afterOffer {index passed : Nat} {consumer : Consumer Fd}
    {result : OfferResult} {other : Relayed Fd}
    (dispatches : (RxPoint.afterOffer message index consumer result).dispatch =
      some (other, passed)) : other = message := by
  cases result <;> simp_all [RxPoint.afterOffer, RxPoint.dispatch]

omit [DecidableEq Fd] in
theorem RxPoint.dispatch_of_afterSend {index passed : Nat} {consumer : Consumer Fd}
    {answer : Except Ending SendStep} {other : Relayed Fd}
    (dispatches : (RxPoint.afterSend message index consumer answer).dispatch =
      some (other, passed)) : other = message := by
  cases answer with
  | error => simp [RxPoint.afterSend, RxPoint.dispatch] at dispatches
  | ok step => cases step <;> simp_all [RxPoint.afterSend, RxPoint.dispatch]

/-- The dispatch of the RX loop goes on with its frame, or begins with the one just read. -/
theorem RxRelays.dispatch_cases (move : RxRelays cfg s action t) {passed : Nat}
    (dispatches : t.rx.dispatch = some (message, passed)) :
    (∃ before, s.rx.dispatch = some (message, before)) ∨
      message.source = none ∧ (t.received none).getLast? = some message := by
  cases move with
  | recvError | finish | handMissing => contradiction
  | recv =>
    cases dispatches
    exact Or.inr ⟨rfl, by simp [receive, stamp]⟩
  | accept at_ | skip at_ | hand at_ | wake at_ | close at_ =>
    cases dispatches
    exact Or.inl ⟨_, by rw [at_]; rfl⟩
  | offer at_ =>
    obtain rfl := RxPoint.dispatch_of_afterOffer dispatches
    exact Or.inl ⟨_, by rw [at_]; rfl⟩
  | call at_ =>
    obtain rfl := RxPoint.dispatch_of_afterSend dispatches
    exact Or.inl ⟨_, by rw [at_]; rfl⟩

theorem Moves.rx_dispatch_cases (move : Moves cfg s action t) {passed : Nat}
    (dispatches : t.rx.dispatch = some (message, passed)) :
    (∃ before, s.rx.dispatch = some (message, before)) ∨
      message.source = none ∧ (t.received none).getLast? = some message := by
  rcases move.rx_cases with same | ⟨_, cleans⟩ | relays
  · exact Or.inl ⟨passed, same ▸ dispatches⟩
  · rw [cleans.idle.2] at dispatches
    contradiction
  · exact relays.dispatch_cases dispatches

omit [DecidableEq Fd] in
theorem TxPoint.dispatch_of_afterOffer {job : Job Fd} {index passed : Nat} {consumer : Consumer Fd}
    {result : OfferResult}
    (dispatches : (TxPoint.afterOffer job index consumer result).dispatch =
      some (message, passed)) : message = job.message := by
  cases result <;> simp_all [TxPoint.afterOffer, TxPoint.dispatch]

omit [DecidableEq Fd] in
theorem TxPoint.dispatch_of_afterSend {job : Job Fd} {index passed : Nat} {consumer : Consumer Fd}
    {answer : Except Ending SendStep}
    (dispatches : (TxPoint.afterSend job index consumer answer).dispatch =
      some (message, passed)) : message = job.message := by
  cases answer with
  | error => simp [TxPoint.afterSend, TxPoint.dispatch] at dispatches
  | ok step => cases step <;> simp_all [TxPoint.afterSend, TxPoint.dispatch]

theorem TxRelays.dispatch_cases (move : TxRelays cfg s action t) {passed : Nat}
    (dispatches : t.tx.dispatch = some (message, passed)) :
    (∃ before, s.tx.dispatch = some (message, before)) ∨
      ∃ fd, message.source = some fd ∧ message ∈ t.received (some fd) := by
  cases move with
  | @recv fd =>
    cases dispatches
    exact Or.inr ⟨fd, rfl, by simp [receive, stamp]⟩
  | @finish job =>
    dsimp only at dispatches
    split at dispatches
    · rw [job.dispatch_afterRead] at dispatches
      contradiction
    · contradiction
  | self at_ | accept at_ | skip at_ | hand at_ | handMissing at_ =>
    cases dispatches
    exact Or.inl ⟨_, by rw [at_]; rfl⟩
  | offer at_ =>
    obtain rfl := TxPoint.dispatch_of_afterOffer dispatches
    exact Or.inl ⟨_, by rw [at_]; rfl⟩
  | call at_ =>
    obtain rfl := TxPoint.dispatch_of_afterSend dispatches
    exact Or.inl ⟨_, by rw [at_]; rfl⟩
  | @bus job =>
    rw [job.dispatch_afterRead] at dispatches
    contradiction
  | busError => contradiction

theorem Moves.tx_dispatch_cases (move : Moves cfg s action t) {passed : Nat}
    (dispatches : t.tx.dispatch = some (message, passed)) :
    (∃ before, s.tx.dispatch = some (message, before)) ∨
      ∃ fd, message.source = some fd ∧ message ∈ t.received (some fd) := by
  rcases move.tx_cases with same | selects | gives_up | relays | ⟨_, _, drains⟩
  · exact Or.inl ⟨passed, same ▸ dispatches⟩
  · rw [selects.idle.2] at dispatches
    contradiction
  · rw [gives_up.idle.2] at dispatches
    contradiction
  · exact relays.dispatch_cases dispatches
  · rw [drains.idle.2] at dispatches
    contradiction

theorem TxRelays.counted (move : TxRelays cfg s action t) (counted : s.tx.Counted) :
    t.tx.Counted := by
  cases move with
  | accept => exact Nat.succ_pos _
  | hand at_ =>
    rw [at_] at counted
    exact counted
  | @finish job =>
    dsimp only
    split
    · unfold Job.afterRead
      split <;> trivial
    · trivial
  | @bus job =>
    simp only [Job.afterRead]
    split <;> trivial
  | @offer job index consumer point after result at_ =>
    rw [at_] at counted
    cases result with
    | next => exact counted
    | _ => trivial
  | @call job index consumer progress outcome after answer at_ =>
    rw [at_] at counted
    cases answer with
    | error => trivial
    | ok step =>
      cases step with
      | more | wouldBlock => exact counted
      | _ => trivial
  | recv | self | skip | handMissing | busError => trivial

omit [DecidableEq Fd] in
theorem TxPoint.counted_of_idle {point : TxPoint Fd} (idle : point.dispatch = none) :
    point.Counted := by
  cases point with
  | lookup | offer => contradiction
  | _ => trivial

theorem Moves.counted (move : Moves cfg s action t) (counted : s.tx.Counted) : t.tx.Counted := by
  rcases move.tx_cases with same | selects | gives_up | relays | ⟨_, _, drains⟩
  · rw [same]
    exact counted
  · exact TxPoint.counted_of_idle selects.idle.2
  · exact TxPoint.counted_of_idle gives_up.idle.2
  · exact relays.counted counted
  · exact TxPoint.counted_of_idle drains.idle.2

/-- A dispatch begins with the read of its frame. -/
theorem TxRelays.begins_cases (move : TxRelays cfg s action t) (counted : s.tx.Counted)
    {job : Job Fd} (begins : t.tx = .advance job 0) :
    ∃ frame, job.message = s.stamp (some job.fileobj) frame ∧ t.traffic = s.traffic := by
  cases move with
  | @recv fd writable events frame =>
    cases begins
    exact ⟨frame, rfl, rfl⟩
  | @finish other =>
    dsimp only [Job.afterRead] at begins
    split at begins
    · split at begins <;> contradiction
    · contradiction
  | @bus other =>
    simp only [Job.afterRead] at begins
    split at begins <;> contradiction
  | handMissing at_ =>
    cases begins
    rw [at_] at counted
    exact absurd counted (Nat.lt_irrefl 0)
  | @offer other index consumer point after result at_ =>
    rw [at_] at counted
    cases result with
    | done | queued =>
      cases begins
      exact absurd counted (Nat.lt_irrefl 0)
    | _ => contradiction
  | @call other index consumer progress outcome after answer at_ =>
    rw [at_] at counted
    cases answer with
    | error => contradiction
    | ok step =>
      cases step with
      | more | wouldBlock => contradiction
      | _ =>
        cases begins
        exact absurd counted (Nat.lt_irrefl 0)
  | self | accept | skip | hand | busError => cases begins

theorem Moves.begins_cases (move : Moves cfg s action t) (counted : s.tx.Counted) {job : Job Fd}
    (begins : t.tx = .advance job 0) :
    s.tx = .advance job 0 ∨
      ∃ frame, job.message = s.stamp (some job.fileobj) frame ∧ t.traffic = s.traffic := by
  rcases move.tx_cases with same | selects | gives_up | relays | ⟨_, _, drains⟩
  · exact Or.inl (same ▸ begins)
  · have idle := selects.idle.2
    rw [begins] at idle
    contradiction
  · have idle := gives_up.idle.2
    rw [begins] at idle
    contradiction
  · exact Or.inr (relays.begins_cases counted begins)
  · have idle := drains.idle.2
    rw [begins] at idle
    contradiction

theorem append_outbound {consumer : Fd}
    (member : message ∈ ((s.append cfg consumer queued).io fd).outbound) :
    message ∈ (s.io fd).outbound ∨ message = queued := by
  by_cases same : fd = consumer
  · subst same
    simp only [Server.append, setIo, setTraffic, Function.update_self] at member
    simpa using (Deque.append_sublist _ _ _).subset member
  · simp only [Server.append, setIo, setTraffic, Function.update_of_ne same] at member
    exact Or.inl member

theorem Offers.outbound {consumer : Fd} {point : Offer} {result : OfferResult}
    (offer : Offers cfg s consumer queued point t result)
    (member : message ∈ (t.io fd).outbound) :
    message ∈ (s.io fd).outbound ∨ message = queued := by
  cases offer with
  | direct | behind => exact Or.inl member
  | countDropped | queueCount =>
    rw [noteDroppedFrame_eq] at member
    simp only [setIo, Function.update_apply] at member
    split at member
    · next same =>
      subst same
      exact Or.inl member
    · exact Or.inl member
  | append | queue | queueMissing => exact append_outbound member

theorem Sends.io {consumer : Fd} {progress : Progress} {outcome : CallOutcome}
    {answer : Except Ending SendStep} (call : Sends s consumer queued progress outcome t answer) :
    t.io = s.io := by
  cases call <;> rfl

/-- What is queued was queued before or comes from a dispatch. -/
theorem Moves.outbound_cases (move : Moves cfg s action t)
    (member : message ∈ (t.io fd).outbound) :
    message ∈ (s.io fd).outbound ∨ ∃ loop passed, s.dispatch loop = some (message, passed) := by
  have kept (same : t.io = s.io) : message ∈ (s.io fd).outbound := same ▸ member
  cases move with
  | clean move => exact Or.inl (kept (congrArg Server.io move.frame :))
  | rxRelay move =>
    cases move with
    | offer at_ offer =>
      refine (offer.outbound member).imp_right ?_
      rintro rfl
      exact ⟨.rx, _, by rw [dispatch, at_]; rfl⟩
    | call _ call => exact Or.inl (call.io ▸ member)
    | _ => exact Or.inl member
  | select move => exact Or.inl (kept (congrArg Server.io move.frame :))
  | giveUp move => exact Or.inl (kept (congrArg Server.io move.frame :))
  | txRelay move =>
    cases move with
    | offer at_ offer =>
      refine (offer.outbound member).imp_right ?_
      rintro rfl
      exact ⟨.tx, _, by rw [dispatch, at_]; rfl⟩
    | call _ call => exact Or.inl (call.io ▸ member)
    | _ => exact Or.inl member
  | drain move =>
    left
    cases move with
    | call _ call => exact call.io ▸ member
    | pop _ queue =>
      simp only [Server.popleft, setIo, setTraffic, Function.update_apply] at member
      split at member
      · next same =>
        rw [same, queue]
        exact List.mem_cons_of_mem _ member
      · exact member
    | settleEmpty =>
      simp only [setIo, setInterest, Function.update_apply] at member
      split at member
      · next same =>
        subst same
        exact member
      · exact member
    | _ => exact member
  | listen move =>
    left
    cases move with
    | publish =>
      simp only [setIo, setConsumerIo, Function.update_apply] at member
      split at member
      · simp [ ConsumerIO.empty] at member
      · exact member
    | _ => exact member
  | stop move => exact Or.inl (kept (congrArg Server.io move.frame :))

theorem TxRelays.no_head (move : TxRelays cfg s action t) : t.tx.head = none := by
  cases move with
  | @finish job =>
    simp only [Job.afterRead]
    split
    · split <;> rfl
    · rfl
  | @bus job =>
    simp only [Job.afterRead]
    split <;> rfl
  | @offer _ _ _ _ _ result => cases result <;> rfl
  | @call _ _ _ _ _ _ answer =>
    cases answer with
    | error => rfl
    | ok step => cases step <;> rfl
  | _ => rfl

theorem Drains.head_cases {other : Fd} {events : List (Event Fd)}
    (move : Drains s other events action t) (drains : message ∈ t.tx.head) :
    message ∈ s.tx.head ∨ message ∈ (s.io other).outbound := by
  cases move with
  | peek _ queue =>
    cases drains
    exact Or.inr (by rw [queue]; exact List.mem_cons_self)
  | @call head progress outcome after answer at_ =>
    cases answer with
    | error => contradiction
    | ok step =>
      cases step with
      | more => exact Or.inl (by rw [at_]; exact drains)
      | _ => contradiction
  | _ => contradiction

theorem Moves.head_cases (move : Moves cfg s action t) (drains : message ∈ t.tx.head) :
    message ∈ s.tx.head ∨ ∃ fd, message ∈ (s.io fd).outbound := by
  rcases move.tx_cases with same | selects | gives_up | relays | ⟨fd, _, move⟩
  · exact Or.inl (same ▸ drains)
  · cases selects <;> contradiction
  · cases gives_up <;> contradiction
  · rw [relays.no_head] at drains
    contradiction
  · exact (move.head_cases drains).imp_right fun queued => ⟨fd, queued⟩

/-- A job that begins has been handed to nobody, nor has it been served. -/
theorem Moves.fresh (move : Moves cfg s action t) (ledger : s.Ledger) (job : Job Fd)
    (begins : t.tx = .advance job 0) (fd : Fd) :
    job.message ∉ (t.traffic fd).handed ∧ job.message ∉ (t.traffic fd).served := by
  rcases move.begins_cases ledger.counted begins with was | ⟨frame, message, same⟩
  · obtain ⟨unhanded, unserved⟩ := ledger.fresh job was fd
    have apart {other : Relayed Fd} {passed : Nat}
        (other_rx : s.dispatch .rx = some (other, passed)) : other ≠ job.message := by
      rintro rfl
      have tx := (ledger.routed .tx job.message _ (by rw [dispatch, was]; rfl)).1
      rw [(ledger.routed .rx job.message _ other_rx).1] at tx
      contradiction
    constructor
    · intro member
      rcases move.handed_mem member with old | ⟨index, consumer, at_⟩ | ⟨_, index, consumer, at_, _⟩
      · exact unhanded old
      · exact apart (by rw [dispatch, at_]; rfl) rfl
      · rw [was] at at_
        contradiction
    · intro member
      rcases move.served_cases member with before | ⟨loop, offers⟩ | drains
      · exact unserved before
      · cases loop with
        | rx =>
          obtain ⟨passed, dispatches⟩ := offering_dispatch offers
          exact apart dispatches rfl
        | tx => simp [offering, was] at offers
      · rw [was] at drains
        contradiction
  · have unread : job.message ∉ s.received job.message.source := by
      rw [message]
      intro known
      obtain ⟨place, found⟩ := List.mem_iff_getElem?.mp known
      have serial := (ledger.numbered _ place _ found).1
      have short := (List.getElem?_eq_some_iff.mp found).1
      simp only [stamp] at serial short
      omega
    rw [same]
    exact ⟨fun member => unread (ledger.handed fd _ member),
      fun member => unread (ledger.served fd _ member)⟩

theorem Moves.ledger (move : Moves cfg s action t) (ledger : s.Ledger) : t.Ledger where
  numbered := move.numbered ledger.numbered
  routed loop message passed dispatches := by
    cases loop with
    | rx =>
      rcases move.rx_dispatch_cases dispatches with ⟨before, was⟩ | ⟨source, last⟩
      · obtain ⟨route, member⟩ := ledger.routed .rx message before was
        exact ⟨route, move.received_mem member⟩
      · exact ⟨by rw [Relayed.loop, source]; rfl, source ▸ List.mem_of_getLast? last⟩
    | tx =>
      rcases move.tx_dispatch_cases dispatches with ⟨before, was⟩ | ⟨fd, source, member⟩
      · obtain ⟨route, member⟩ := ledger.routed .tx message before was
        exact ⟨route, move.received_mem member⟩
      · exact ⟨by rw [Relayed.loop, source]; rfl, source ▸ member⟩
  handed fd message member := by
    apply move.received_mem
    rcases move.handed_mem member with old | ⟨index, consumer, at_⟩ |
      ⟨job, index, consumer, at_, rfl⟩
    · exact ledger.handed fd message old
    · exact (ledger.routed .rx message _ (by rw [dispatch, at_]; rfl)).2
    · exact (ledger.routed .tx job.message _ (by rw [dispatch, at_]; rfl)).2
  served fd message member := by
    apply move.received_mem
    rcases move.served_cases member with before | ⟨loop, offers⟩ | drains
    · exact ledger.served fd message before
    · obtain ⟨passed, dispatches⟩ := offering_dispatch offers
      exact (ledger.routed loop message passed dispatches).2
    · exact ledger.draining message drains
  queued fd message member := by
    apply move.received_mem
    rcases move.outbound_cases member with before | ⟨loop, passed, dispatches⟩
    · exact ledger.queued fd message before
    · exact (ledger.routed loop message passed dispatches).2
  draining message drains := by
    apply move.received_mem
    rcases move.head_cases drains with before | ⟨fd, member⟩
    · exact ledger.draining message before
    · exact ledger.queued fd message member
  counted := move.counted ledger.counted
  fresh := move.fresh ledger

theorem Ledger.start (cfg : Config) (peers : List (Consumer Fd)) : (start cfg peers).Ledger where
  numbered := .start cfg peers
  routed loop message passed dispatches := by
    cases loop with
    | rx =>
      simp only [Server.start, dispatch] at dispatches
      split at dispatches <;> contradiction
    | tx => contradiction
  handed fd message member := by simp [Server.start, Traffic.quiet] at member
  served fd message member := by
    simp [Server.start, Traffic.quiet, Traffic.served, Deque.Log.empty] at member
  queued fd message member := by simp [Server.start, ConsumerIO.empty] at member
  draining message drains := by contradiction
  counted := trivial
  fresh job begins := by contradiction

end Sockcan.Server
