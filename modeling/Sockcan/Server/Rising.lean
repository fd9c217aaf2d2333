import Sockcan.Server.Cleanup
import Sockcan.Server.Dispatch

/-! What the dispatches hand to a consumer, in every run: clients come, go and fail while the
loops walk along `_consumers`. Removals may make a dispatch skip a consumer, but none is come
to twice, so the frames of one source that a consumer is handed are in its order. -/
namespace Sockcan.Server
open Protocol Transition
variable {Fd : Type}

/-- What a loop has looked up: its frame, the index of the next consumer and the one found. -/
def RxPoint.lookedUp : RxPoint Fd → Option (Relayed Fd × Nat × Consumer Fd)
  | .lookup message index consumer => some (message, index, consumer)
  | _ => none

def TxPoint.lookedUp : TxPoint Fd → Option (Relayed Fd × Nat × Consumer Fd)
  | .lookup job index consumer => some (job.message, index, consumer)
  | _ => none

def lookedUp (s : Server Fd) : Loop → Option (Relayed Fd × Nat × Consumer Fd)
  | .rx => s.rx.lookedUp
  | .tx => s.tx.lookedUp

/-- The consumer has been handed frames of this source only that were read before. -/
def NewTo (s : Server Fd) (fd : Fd) (message : Relayed Fd) : Prop :=
  ∀ old ∈ (s.traffic fd).handed, old.source = message.source → old.serial < message.serial

variable [DecidableEq Fd]

structure Rising (s : Server Fd) : Prop where
  handed : ∀ fd source, (ofSource source (s.traffic fd).handed).Pairwise fun old new =>
    old.serial < new.serial
  ahead : ∀ loop message passed, s.dispatch loop = some (message, passed) →
    ∀ consumer ∈ s.consumers.drop passed, s.NewTo consumer.fd message
  looked : ∀ loop message index consumer, s.lookedUp loop = some (message, index, consumer) →
    s.NewTo consumer.fd message ∧ s.Published consumer.fd ∧
      ∀ other ∈ s.consumers.drop index, other.fd ≠ consumer.fd
  unpublished : ∀ fd, ¬ s.Published fd → (s.traffic fd).handed = []

variable {cfg : Config} {peers : List (Consumer Fd)} {s t : Server Fd} {action : Action Fd}
  {fd : Fd} {message : Relayed Fd} {index passed : Nat} {consumer : Consumer Fd}

omit [DecidableEq Fd] in
theorem NewTo.congr (new : s.NewTo fd message)
    (handed : (t.traffic fd).handed = (s.traffic fd).handed) : t.NewTo fd message := by
  rw [NewTo, handed]
  exact new

omit [DecidableEq Fd] in
/-- A frame that has just been read is new to everyone. -/
theorem Ledger.newTo_stamp (ledger : s.Ledger) (source : Option Fd) (frame : Frame) (fd : Fd) :
    s.NewTo fd (s.stamp source frame) := by
  intro old member same
  obtain ⟨place, inside, found⟩ := List.mem_iff_getElem.mp (ledger.handed fd old member)
  have serial := (ledger.numbered old.source place old
    (by rw [List.getElem?_eq_getElem inside, found])).1
  have same : old.source = source := same
  rw [same] at inside
  simp only [stamp]
  omega

omit [DecidableEq Fd] in
theorem lookedUp_dispatch {loop : Loop}
    (found : s.lookedUp loop = some (message, index, consumer)) :
    s.dispatch loop = some (message, index - 1) := by
  cases loop with
  | rx =>
    cases at_ : s.rx <;> simp only [lookedUp, at_, RxPoint.lookedUp, Option.some.injEq,
      Prod.mk.injEq, reduceCtorEq] at found
    obtain ⟨rfl, rfl, rfl⟩ := found
    simp only [dispatch, at_, RxPoint.dispatch]
  | tx =>
    cases at_ : s.tx <;> simp only [lookedUp, at_, TxPoint.lookedUp, Option.some.injEq,
      Prod.mk.injEq, reduceCtorEq] at found
    obtain ⟨rfl, rfl, rfl⟩ := found
    simp only [dispatch, at_, TxPoint.dispatch]

/-- A step that hands nothing over: its dispatches go on or are of a new frame, and what it
looks up is ahead of its index. -/
theorem Rising.keep (rising : s.Rising)
    (handed : ∀ fd, (t.traffic fd).handed = (s.traffic fd).handed)
    (consumers : ∀ i, ∀ consumer ∈ t.consumers.drop i,
      consumer ∈ s.consumers.drop i ∨ ¬ s.Published consumer.fd)
    (dispatches : ∀ loop message passed, t.dispatch loop = some (message, passed) →
      (∃ before ≤ passed, s.dispatch loop = some (message, before)) ∨ ∀ fd, s.NewTo fd message)
    (looks : ∀ loop message index consumer, t.lookedUp loop = some (message, index, consumer) →
      s.lookedUp loop = some (message, index, consumer) ∨
        s.NewTo consumer.fd message ∧ s.Published consumer.fd ∧
          ∀ other ∈ s.consumers.drop index, other.fd ≠ consumer.fd)
    (published : ∀ fd, s.Published fd → t.Published fd) : t.Rising where
  handed fd source := by
    rw [handed]
    exact rising.handed fd source
  ahead loop message passed goes consumer member := by
    refine NewTo.congr ?_ (handed consumer.fd)
    rcases consumers passed consumer member with old | absent
    · rcases dispatches loop message passed goes with ⟨before, less, was⟩ | new
      · exact rising.ahead loop message before was consumer
          ((List.drop_sublist_drop_left _ less).subset old)
      · exact new consumer.fd
    · intro old member
      rw [rising.unpublished _ absent] at member
      contradiction
  looked loop message index consumer found := by
    have looked := (looks loop message index consumer found).elim
      (rising.looked loop message index consumer) id
    obtain ⟨new, listed, passed⟩ := looked
    refine ⟨new.congr (handed _), published _ listed, fun other member same => ?_⟩
    rcases consumers index other member with old | absent
    · exact passed other old same
    · exact absent (same ▸ listed)
  unpublished fd absent := by
    rw [handed]
    exact rising.unpublished fd fun listed => absent (published fd listed)

/-- A consumer is handed the frame that was looked up for it. -/
theorem Rising.hand (rising : s.Rising) (ledger : s.Ledger) {loop : Loop}
    (found : s.lookedUp loop = some (message, index, consumer))
    (traffic : t.traffic = (s.hand consumer.fd message).traffic)
    (consumers : t.consumers = s.consumers) (listeners : t.listeners = s.listeners)
    (goes : t.dispatch loop = some (message, index)) (rests : t.lookedUp loop = none)
    (others : ∀ other, other ≠ loop → t.dispatch other = s.dispatch other ∧
      t.lookedUp other = s.lookedUp other) : t.Rising := by
  obtain ⟨new, listed, passed⟩ := rising.looked loop message index consumer found
  have dispatching := lookedUp_dispatch found
  have handed (fd : Fd) : (t.traffic fd).handed = if fd = consumer.fd
      then (s.traffic fd).handed ++ [message] else (s.traffic fd).handed := by
    rw [traffic, hand_handed]
  have same (fd : Fd) (other : fd ≠ consumer.fd) :
      (t.traffic fd).handed = (s.traffic fd).handed := by rw [handed, if_neg other]
  -- The frame that the other loop has in hand is of another source.
  have foreign (other : Loop) (older : Relayed Fd) (before : Nat) (apart : other ≠ loop)
      (dispatches : s.dispatch other = some (older, before)) (fd : Fd)
      (was : s.NewTo fd older) : t.NewTo fd older := by
    intro old member source
    rw [handed] at member
    split at member
    · rcases List.mem_append.mp member with member | last
      · exact was old member source
      · rw [List.mem_singleton.mp last] at source
        have here := (ledger.routed loop message _ dispatching).1
        have there := (ledger.routed other older before dispatches).1
        rw [Relayed.loop, source] at here
        exact absurd (there.symm.trans here) apart
    · exact was old member source
  constructor
  · intro fd source
    rw [handed]
    split
    · next here =>
      subst here
      rw [ofSource_append, List.pairwise_append]
      refine ⟨rising.handed _ _, ?_, fun old member last is_last => ?_⟩
      · exact (List.pairwise_singleton _ _).sublist List.filter_sublist
      · obtain ⟨last_here, of_last⟩ := List.mem_filter.mp is_last
        obtain ⟨old_here, of_old⟩ := List.mem_filter.mp member
        have last_source := of_decide_eq_true of_last
        rw [List.mem_singleton.mp last_here] at last_source ⊢
        exact new old old_here ((of_decide_eq_true of_old).trans last_source.symm)
    · exact rising.handed fd source
  · intro other older before dispatches peer member
    rw [consumers] at member
    by_cases here : other = loop
    · subst here
      rw [goes] at dispatches
      cases dispatches
      refine NewTo.congr ?_ (same peer.fd (passed peer member))
      exact rising.ahead _ _ _ dispatching peer
        ((List.drop_sublist_drop_left _ (Nat.sub_le index 1)).subset member)
    · rw [(others other here).1] at dispatches
      exact foreign other older before here dispatches peer.fd
        (rising.ahead other older before dispatches peer member)
  · intro other older next peer looks
    by_cases here : other = loop
    · subst here
      rw [rests] at looks
      contradiction
    · rw [(others other here).2] at looks
      obtain ⟨was, known, behind⟩ := rising.looked other older next peer looks
      refine ⟨foreign other older _ here (lookedUp_dispatch looks) peer.fd was,
        known.congr listeners, ?_⟩
      rw [consumers]
      exact behind
  · intro fd absent
    have unlisted : ¬ s.Published fd := fun known => absent (known.congr listeners)
    have other : fd ≠ consumer.fd := fun here => unlisted (here ▸ listed)
    rw [same fd other]
    exact rising.unpublished fd unlisted

section Steps

omit [DecidableEq Fd] in
theorem RxPoint.afterOffer_passed {result : OfferResult} {other : Relayed Fd}
    (goes : (RxPoint.afterOffer message index consumer result).dispatch = some (other, passed)) :
    other = message ∧ passed = index := by
  cases result <;> simp_all [RxPoint.afterOffer, RxPoint.dispatch]

omit [DecidableEq Fd] in
theorem RxPoint.afterSend_passed {answer : Except Ending SendStep} {other : Relayed Fd}
    (goes : (RxPoint.afterSend message index consumer answer).dispatch = some (other, passed)) :
    other = message ∧ passed = index := by
  cases answer with
  | error => contradiction
  | ok step => cases step <;> simp_all [RxPoint.afterSend, RxPoint.dispatch]

omit [DecidableEq Fd] in
theorem TxPoint.afterOffer_passed {job : Job Fd} {result : OfferResult} {other : Relayed Fd}
    (goes : (TxPoint.afterOffer job index consumer result).dispatch = some (other, passed)) :
    other = job.message ∧ passed = index := by
  cases result <;> simp_all [TxPoint.afterOffer, TxPoint.dispatch]

omit [DecidableEq Fd] in
theorem TxPoint.afterSend_passed {job : Job Fd} {answer : Except Ending SendStep}
    {other : Relayed Fd}
    (goes : (TxPoint.afterSend job index consumer answer).dispatch = some (other, passed)) :
    other = job.message ∧ passed = index := by
  cases answer with
  | error => contradiction
  | ok step => cases step <;> simp_all [TxPoint.afterSend, TxPoint.dispatch]

/-- A dispatch does not go back, and it begins with a frame that has just been read. -/
theorem RxRelays.passes (move : RxRelays cfg s action t)
    (goes : t.rx.dispatch = some (message, passed)) :
    (∃ before ≤ passed, s.rx.dispatch = some (message, before)) ∨
      ∃ source frame, message = s.stamp source frame := by
  cases move with
  | recvError | finish | handMissing => contradiction
  | @recv frame =>
    cases goes
    exact Or.inr ⟨none, frame, rfl⟩
  | accept at_ | wake at_ | close at_ =>
    cases goes
    exact Or.inl ⟨_, Nat.le_refl _, by rw [at_]; rfl⟩
  | skip at_ =>
    cases goes
    exact Or.inl ⟨_, Nat.le_succ _, by rw [at_]; rfl⟩
  | hand at_ =>
    cases goes
    exact Or.inl ⟨_, Nat.sub_le _ 1, by rw [at_]; rfl⟩
  | offer at_ =>
    obtain ⟨rfl, rfl⟩ := RxPoint.afterOffer_passed goes
    exact Or.inl ⟨_, Nat.le_refl _, by rw [at_]; rfl⟩
  | call at_ =>
    obtain ⟨rfl, rfl⟩ := RxPoint.afterSend_passed goes
    exact Or.inl ⟨_, Nat.le_refl _, by rw [at_]; rfl⟩

theorem TxRelays.passes (move : TxRelays cfg s action t)
    (goes : t.tx.dispatch = some (message, passed)) :
    (∃ before ≤ passed, s.tx.dispatch = some (message, before)) ∨
      ∃ source frame, message = s.stamp source frame := by
  cases move with
  | busError => contradiction
  | @recv fd writable events frame =>
    cases goes
    exact Or.inr ⟨some fd, frame, rfl⟩
  | @finish job =>
    dsimp only at goes
    split at goes
    · rw [job.dispatch_afterRead] at goes
      contradiction
    · contradiction
  | @bus job =>
    rw [job.dispatch_afterRead] at goes
    contradiction
  | accept at_ =>
    cases goes
    exact Or.inl ⟨_, Nat.le_refl _, by rw [at_]; rfl⟩
  | self at_ | skip at_ =>
    cases goes
    exact Or.inl ⟨_, Nat.le_succ _, by rw [at_]; rfl⟩
  | hand at_ | handMissing at_ =>
    cases goes
    exact Or.inl ⟨_, Nat.sub_le _ 1, by rw [at_]; rfl⟩
  | offer at_ =>
    obtain ⟨rfl, rfl⟩ := TxPoint.afterOffer_passed goes
    exact Or.inl ⟨_, Nat.le_refl _, by rw [at_]; rfl⟩
  | call at_ =>
    obtain ⟨rfl, rfl⟩ := TxPoint.afterSend_passed goes
    exact Or.inl ⟨_, Nat.le_refl _, by rw [at_]; rfl⟩

theorem Moves.passes (move : Moves cfg s action t) {loop : Loop}
    (goes : t.dispatch loop = some (message, passed)) :
    (∃ before ≤ passed, s.dispatch loop = some (message, before)) ∨
      ∃ source frame, message = s.stamp source frame := by
  cases loop with
  | rx =>
    simp only [dispatch] at goes
    rcases move.rx_cases with same | ⟨_, cleans⟩ | relays
    · rw [same] at goes
      exact Or.inl ⟨passed, Nat.le_refl _, goes⟩
    · rw [cleans.idle.2] at goes
      contradiction
    · exact relays.passes goes
  | tx =>
    simp only [dispatch] at goes
    rcases move.tx_cases with same | selects | givesUp | relays | ⟨_, _, drains⟩
    · rw [same] at goes
      exact Or.inl ⟨passed, Nat.le_refl _, goes⟩
    · rw [selects.idle.2] at goes
      contradiction
    · rw [givesUp.idle.2] at goes
      contradiction
    · exact relays.passes goes
    · rw [drains.idle.2] at goes
      contradiction

/-- A lookup comes from the index of its dispatch, and finds a consumer of another client
that wants the frame. -/
structure Finds (s : Server Fd) (loop : Loop) (message : Relayed Fd) (index : Nat)
    (consumer : Consumer Fd) : Prop where
  next : ∃ before, index = before + 1 ∧ s.dispatch loop = some (message, before) ∧
    s.consumers[before]? = some consumer
  accepts : consumer.accepts message
  other : ∀ job, s.tx.job = some job → loop = .tx → consumer.fd ≠ job.fileobj

theorem Moves.finds (move : Moves cfg s action t) {loop : Loop}
    (found : t.lookedUp loop = some (message, index, consumer)) :
    s.lookedUp loop = some (message, index, consumer) ∨
      s.Finds loop message index consumer := by
  cases loop with
  | rx =>
    simp only [lookedUp] at found
    rcases move.rx_cases with same | ⟨_, cleans⟩ | relays
    · rw [same] at found
      exact Or.inl found
    · cases cleans <;> contradiction
    · cases relays with
      | accept at_ next accepts =>
        cases found
        exact Or.inr ⟨⟨_, rfl, by simp only [dispatch, at_, RxPoint.dispatch], next⟩, accepts,
          fun _ _ => nofun⟩
      | @offer _ _ _ _ _ result => cases result <;> contradiction
      | @call _ _ _ _ _ _ answer =>
        cases answer with
        | error => contradiction
        | ok step => cases step <;> contradiction
      | _ => contradiction
  | tx =>
    simp only [lookedUp] at found
    rcases move.tx_cases with same | selects | givesUp | relays | ⟨_, _, drains⟩
    · rw [same] at found
      exact Or.inl found
    · cases selects <;> contradiction
    · cases givesUp <;> contradiction
    · cases relays with
      | accept at_ next other accepts =>
        cases found
        refine Or.inr ⟨⟨_, rfl, by simp only [dispatch, at_, TxPoint.dispatch], next⟩, accepts,
          fun job here _ => ?_⟩
        rw [at_] at here
        cases here
        exact other
      | @offer _ _ _ _ _ result => cases result <;> contradiction
      | @call _ _ _ _ _ _ answer =>
        cases answer with
        | error => contradiction
        | ok step => cases step <;> contradiction
      | @finish job =>
        dsimp only [Job.afterRead] at found
        split at found
        · split at found <;> contradiction
        · contradiction
      | @bus job =>
        simp only [Job.afterRead] at found
        split at found <;> contradiction
      | _ => contradiction
    · cases drains with
      | @call _ _ _ _ answer =>
        cases answer with
        | error => contradiction
        | ok step => cases step <;> contradiction
      | _ => contradiction

/-- What comes ahead of an index was there before, or is about to be published. -/
theorem Moves.drops (move : Moves cfg s action t) (registry : s.Registry) (i : Nat)
    (member : consumer ∈ t.consumers.drop i) :
    consumer ∈ s.consumers.drop i ∨ ¬ s.Published consumer.fd := by
  rcases move.consumers_cases with ⟨same, _⟩ | ⟨fd, _, _, _, removed⟩ |
    ⟨fd, new, appending, _, _, _, appended⟩
  · exact Or.inl (same ▸ member)
  · rw [removed] at member
    exact Or.inl (Cursor.mem_of_mem_drop_eraseP member)
  · rw [appended, List.drop_append] at member
    rcases List.mem_append.mp member with old | last
    · exact Or.inl old
    · right
      rw [List.mem_singleton.mp (List.mem_of_mem_drop last), registry.appending fd new appending]
      exact fun known => known.2 new appending

theorem Rising.finds (rising : s.Rising) (registry : s.Registry) {loop : Loop}
    (finds : s.Finds loop message index consumer) :
    s.NewTo consumer.fd message ∧ s.Published consumer.fd ∧
      ∀ other ∈ s.consumers.drop index, other.fd ≠ consumer.fd := by
  obtain ⟨before, rfl, goes, next⟩ := finds.next
  obtain ⟨inside, found⟩ := List.getElem?_eq_some_iff.mp next
  have split : s.consumers.drop before = consumer :: s.consumers.drop (before + 1) := by
    rw [List.drop_eq_getElem_cons inside, found]
  have distinct : ((s.consumers.drop before).map Consumer.fd).Nodup :=
    registry.distinct.sublist ((List.drop_sublist _ _).map _)
  rw [split, List.map_cons, List.nodup_cons] at distinct
  have here : consumer ∈ s.consumers.drop before := by
    rw [split]
    exact List.mem_cons_self
  refine ⟨rising.ahead loop message before goes consumer here,
    registry.published consumer (List.mem_of_mem_drop here), fun other member same => ?_⟩
  exact distinct.1 (same ▸ List.mem_map_of_mem member)

theorem Moves.rising (move : Moves cfg s action t) (registry : s.Registry) (ledger : s.Ledger)
    (rising : s.Rising) : t.Rising := by
  rcases move.handed_cases with same | ⟨message, index, consumer, rfl, at_, _, rfl⟩ |
    ⟨job, index, consumer, rfl, at_, _, rfl⟩
  · refine rising.keep same (fun i consumer member => move.drops registry i member) ?_ ?_
      fun fd published => move.published published
    · intro loop message passed goes
      refine (move.passes goes).imp_right ?_
      rintro ⟨source, frame, rfl⟩ fd
      exact ledger.newTo_stamp source frame fd
    · intro loop message index consumer found
      exact (move.finds found).imp_right (rising.finds registry)
  · have found : s.lookedUp .rx = some (message, index, consumer) := by
      simp only [lookedUp, at_, RxPoint.lookedUp]
    refine rising.hand ledger found rfl rfl rfl rfl rfl fun other apart => ?_
    cases other with
    | rx => contradiction
    | tx => exact ⟨rfl, rfl⟩
  · have found : s.lookedUp .tx = some (job.message, index, consumer) := by
      simp only [lookedUp, at_, TxPoint.lookedUp]
    refine rising.hand ledger found rfl rfl rfl rfl rfl fun other apart => ?_
    cases other with
    | rx => exact ⟨rfl, rfl⟩
    | tx => contradiction

theorem Rising.start (cfg : Config) (peers : List (Consumer Fd)) : (start cfg peers).Rising where
  handed fd source := List.Pairwise.nil
  ahead loop message passed goes := by
    cases loop with
    | rx =>
      simp only [Server.start, dispatch] at goes
      split at goes <;> contradiction
    | tx => contradiction
  looked loop message index consumer found := by
    cases loop with
    | rx =>
      simp only [Server.start, lookedUp] at found
      split at found <;> contradiction
    | tx => contradiction
  unpublished fd absent := rfl

end Steps

end Sockcan.Server
