import Sockcan.Server.Connected
import Mathlib.Data.List.Nodup

/-! How far a dispatch is. While all consumers stay connected, each of them is
handed the frames of every other source that its filters match, in order, and at
most the one in dispatch is still to come. -/
namespace Sockcan.Server
open Protocol
variable {Fd : Type}

/-- The loop that reads from this source. -/
def loopOf : Option Fd → Loop
  | none => .rx
  | some _ => .tx

def Relayed.loop (message : Relayed Fd) : Loop := loopOf message.source

theorem Relayed.loop_rx {message : Relayed Fd} (source : message.source = none) :
    message.loop = .rx := congrArg loopOf source

theorem Relayed.loop_tx {message : Relayed Fd} {fd : Fd} (source : message.source = some fd) :
    message.loop = .tx := congrArg loopOf source

/-- The message in dispatch and the number of consumers that it has passed. -/
def RxPoint.dispatch : RxPoint Fd → Option (Relayed Fd × Nat)
  | .advance message index | .offer message index _ _ | .wake message index
  | .close message index _ => some (message, index)
  | .lookup message index _ => some (message, index - 1)
  | .removeClosed | .deleteClosed _ | .takeDead | .popDead _ | .removeDead _ | .refresh
  | .aggregate _ _ | .install _ | .recv | .ended _ => none

def TxPoint.dispatch : TxPoint Fd → Option (Relayed Fd × Nat)
  | .advance job index | .offer job index _ _ => some (job.message, index)
  | .lookup job index _ => some (job.message, index - 1)
  | .whileRunning | .select | .nextEvent _ | .readKillSwitch _ | .checkRunning _ | .recv _ _ _
  | .unregister _ _ | .reportDead _ _ | .busSend _ | .drain _ _ | .peek _ _ | .drainSend _ _ _ _
  | .popleft _ _ _ | .settle _ _ | .ended _ => none

def dispatch (s : Server Fd) : Loop → Option (Relayed Fd × Nat)
  | .rx => s.rx.dispatch
  | .tx => s.tx.dispatch

variable [DecidableEq Fd]

/-- What a dispatch still has to hand to the consumer at this place. -/
def pending (consumer : Consumer Fd) (place : Nat) (source : Option Fd) :
    Option (Relayed Fd × Nat) → List (Relayed Fd)
  | none => []
  | some (message, passed) =>
    if message.source = source ∧ passed ≤ place ∧ consumer.accepts message then [message] else []

/-- The frames of one source among these. -/
def ofSource (source : Option Fd) (messages : List (Relayed Fd)) : List (Relayed Fd) :=
  messages.filter fun message => decide (message.source = source)

/-- The frames read from a source that match the filters of a consumer. -/
def matched (s : Server Fd) (consumer : Consumer Fd) (source : Option Fd) : List (Relayed Fd) :=
  (s.received source).filter fun message => consumer.accepts message

structure Handing (consumer : Consumer Fd) (place : Nat) (s : Server Fd) : Prop where
  all : ∀ source, source ≠ some consumer.fd → s.matched consumer source =
    ofSource source (s.traffic consumer.fd).handed ++
      pending consumer place source (s.dispatch (loopOf source))
  own : ∀ message ∈ (s.traffic consumer.fd).handed, message.source ≠ some consumer.fd

/-- The frames of a source carry their number and their source. -/
def Numbered (s : Server Fd) : Prop :=
  ∀ source i (message : Relayed Fd), (s.received source)[i]? = some message →
    message.serial = i ∧ message.source = source

variable {cfg : Config} {s t : Server Fd} {action : Action Fd} {peers : List (Consumer Fd)}
variable {consumer : Consumer Fd} {place : Nat} {message : Relayed Fd}

theorem ofSource_append (source : Option Fd) (xs ys : List (Relayed Fd)) :
    ofSource source (xs ++ ys) = ofSource source xs ++ ofSource source ys :=
  List.filter_append _ _

omit [DecidableEq Fd] in
theorem Numbered.nodup (numbered : s.Numbered) (source : Option Fd) :
    (s.received source).Nodup := by
  rw [List.nodup_iff_getElem?_ne_getElem?]
  intro i j before short same
  have first := List.getElem?_eq_getElem (l := s.received source) (Nat.lt_trans before short)
  have at_i := numbered source i _ first
  have at_j := numbered source j _ (same ▸ first)
  omega

/-- What has been read of a source is old, or the frame read last. -/
theorem receive_cases {source other : Option Fd} {frame : Frame} {i : Nat}
    (found : ((s.receive (s.stamp source frame)).received other)[i]? = some message) :
    (s.received other)[i]? = some message ∨
      other = source ∧ i = (s.received source).length ∧ message = s.stamp source frame := by
  simp only [Server.receive, stamp] at found ⊢
  by_cases same : other = source
  · subst same
    rw [Function.update_self] at found
    rcases Nat.lt_trichotomy i (s.received other).length with before | last | after
    · rw [List.getElem?_append_left before] at found
      exact Or.inl found
    · subst last
      simp only [List.getElem?_concat_length, Option.some.injEq] at found
      exact Or.inr ⟨rfl, rfl, found.symm⟩
    · rw [List.getElem?_eq_none (by simp; omega)] at found
      contradiction
  · rw [Function.update_of_ne same] at found
    exact Or.inl found

theorem Numbered.receive (numbered : s.Numbered) (source : Option Fd) (frame : Frame) :
    (s.receive (s.stamp source frame)).Numbered := by
  intro other i message found
  rcases receive_cases found with old | ⟨rfl, rfl, rfl⟩
  · exact numbered other i message old
  · exact ⟨rfl, rfl⟩

omit [DecidableEq Fd] in
theorem Numbered.of_eq (numbered : s.Numbered) (received : t.received = s.received) :
    t.Numbered := by
  intro source i message found
  exact numbered source i message (received ▸ found)

section Pending

theorem pending_passed {passed : Nat} (past : place < passed) (source : Option Fd) :
    pending consumer place source (some (message, passed)) = [] := by
  simp only [pending]
  rw [if_neg (by omega)]

/-- Passing a consumer that is not handed the message changes nothing for the one
at this place, unless it is that one and the message is for it. -/
theorem pending_next {source : Option Fd} {passed : Nat}
    (skips : passed = place → ¬ (message.source = source ∧ consumer.accepts message)) :
    pending consumer place source (some (message, passed + 1)) =
      pending consumer place source (some (message, passed)) := by
  simp only [pending]
  by_cases here : passed = place
  · have skip := skips here
    rw [if_neg (by omega), if_neg fun reaches => skip ⟨reaches.1, reaches.2.2⟩]
  · have same : passed + 1 ≤ place ↔ passed ≤ place := by omega
    simp only [same]

theorem pending_here (accepts : consumer.accepts message) :
    pending consumer place message.source (some (message, place)) = [message] := by
  simp [pending, accepts]

theorem pending_other {source : Option Fd} (other : message.source ≠ source) (passed : Nat) :
    pending consumer place source (some (message, passed)) = [] := by
  simp [pending, other]

end Pending

section Progress

omit [DecidableEq Fd] in
theorem place_unique (distinct : (peers.map Consumer.fd).Nodup) {k : Nat} {other : Consumer Fd}
    (found : peers[k]? = some other) (at_ : peers[place]? = some consumer)
    (same : other.fd = consumer.fd) : k = place ∧ other = consumer := by
  have index : (peers.map Consumer.fd)[k]? = (peers.map Consumer.fd)[place]? := by
    rw [List.getElem?_map, List.getElem?_map, found, at_, Option.map_some, Option.map_some, same]
  have short : k < (peers.map Consumer.fd).length := by
    rw [List.length_map]
    exact (List.getElem?_eq_some_iff.mp found).1
  obtain rfl := (List.getElem?_inj short distinct).mp index
  exact ⟨rfl, by simpa [found] using at_⟩

theorem Handing.keep (handing : Handing consumer place s) (received : t.received = s.received)
    (handed : (t.traffic consumer.fd).handed = (s.traffic consumer.fd).handed)
    (same : ∀ source, source ≠ some consumer.fd →
      pending consumer place source (t.dispatch (loopOf source)) =
        pending consumer place source (s.dispatch (loopOf source))) :
    Handing consumer place t where
  all source other := by
    rw [matched, received, handed, same source other]
    exact handing.all source other
  own := by
    rw [handed]
    exact handing.own

/-- A statement of the RX loop concerns the frames of the bus. -/
theorem Handing.keep_rx (handing : Handing consumer place s) (received : t.received = s.received)
    (handed : (t.traffic consumer.fd).handed = (s.traffic consumer.fd).handed)
    (same_tx : t.tx = s.tx)
    (same : pending consumer place none t.rx.dispatch = pending consumer place none s.rx.dispatch) :
    Handing consumer place t := by
  refine handing.keep received handed fun source _ => ?_
  cases source with
  | none => exact same
  | some fd => simp only [loopOf, Server.dispatch, same_tx]

/-- A statement of the TX loop concerns the frames of the other consumers. -/
theorem Handing.keep_tx (handing : Handing consumer place s) (received : t.received = s.received)
    (handed : (t.traffic consumer.fd).handed = (s.traffic consumer.fd).handed)
    (same_rx : t.rx = s.rx)
    (same : ∀ fd, fd ≠ consumer.fd → pending consumer place (some fd) t.tx.dispatch =
      pending consumer place (some fd) s.tx.dispatch) : Handing consumer place t := by
  refine handing.keep received handed fun source foreign => ?_
  cases source with
  | none => simp only [loopOf, Server.dispatch, same_rx]
  | some fd => exact same fd fun same => foreign (by rw [same])

/-- A frame is read: it is still to be handed to everyone. -/
theorem Handing.receive (handing : Handing consumer place s) (source : Option Fd) {frame : Frame}
    (idle : s.dispatch (loopOf source) = none)
    (begins : t.dispatch (loopOf source) = some (s.stamp source frame, 0))
    (others : ∀ loop, loop ≠ loopOf source → t.dispatch loop = s.dispatch loop)
    (received : t.received = (s.receive (s.stamp source frame)).received)
    (handed : (t.traffic consumer.fd).handed = (s.traffic consumer.fd).handed) :
    Handing consumer place t where
  all other foreign := by
    have before := handing.all other foreign
    rw [handed]
    by_cases same : other = source
    · subst same
      rw [idle] at before
      simp only [pending, List.append_nil] at before
      simp only [matched] at before ⊢
      rw [begins, received, ← before]
      simp only [Server.receive, stamp, Function.update_self, List.filter_append, pending]
      simp [List.filter_cons]
    · have unchanged : t.matched consumer other = s.matched consumer other := by
        simp only [matched, received, Server.receive, stamp]
        rw [Function.update_of_ne same]
      rw [unchanged, before]
      congr 1
      by_cases reader : loopOf other = loopOf source
      · rw [reader, begins, idle, pending_other (Ne.symm same)]
        rfl
      · rw [others _ reader]
  own := by
    rw [handed]
    exact handing.own

/-- The dispatch reaches the consumer at this place, for which the message is. -/
theorem Handing.hand (handing : Handing consumer place s)
    (before : s.dispatch message.loop = some (message, place))
    (after : t.dispatch message.loop = some (message, place + 1))
    (others : ∀ loop, loop ≠ message.loop → t.dispatch loop = s.dispatch loop)
    (accepts : consumer.accepts message) (foreign : message.source ≠ some consumer.fd)
    (received : t.received = s.received)
    (handed : (t.traffic consumer.fd).handed = (s.traffic consumer.fd).handed ++ [message]) :
    Handing consumer place t where
  all source other := by
    have total := handing.all source other
    rw [matched, received, handed, ofSource, List.filter_append, List.append_assoc]
    refine total.trans (congrArg _ ?_)
    by_cases same : message.source = source
    · subst same
      rw [Relayed.loop] at before after
      rw [before, after, pending_here accepts, pending_passed (Nat.lt_succ_self place)]
      simp
    · simp only [List.filter_cons, same, decide_false, Bool.false_eq_true, if_false,
        List.filter_nil, List.nil_append]
      by_cases reader : loopOf source = message.loop
      · rw [reader, before, after, pending_other same, pending_other same]
      · rw [others _ reader]
  own := by
    intro other member
    rw [handed] at member
    rcases List.mem_append.mp member with old | new
    · exact handing.own other old
    · rw [List.mem_singleton.mp new]
      exact foreign

theorem Offers.not_raised {fd : Fd} {point : Offer} {result : OfferResult}
    (offer : Offers cfg s fd message point t result)
    (connected : Connected peers s) (known : Known peers fd) (why : Ending) :
    result ≠ .raised why := by
  cases offer with
  | queueMissing absent => exact absurd ((connected.selector fd).mpr known) absent
  | _ => exact OfferResult.noConfusion

omit [DecidableEq Fd] in
theorem RxPoint.dispatch_afterOffer {index : Nat} {target : Consumer Fd} {result : OfferResult}
    (returns : ∀ why, result ≠ .raised why) :
    (RxPoint.afterOffer message index target result).dispatch = some (message, index) := by
  cases result with
  | raised why => exact absurd rfl (returns why)
  | _ => rfl

omit [DecidableEq Fd] in
theorem TxPoint.dispatch_afterOffer {job : Job Fd} {index : Nat} {target : Consumer Fd}
    {result : OfferResult} (returns : ∀ why, result ≠ .raised why) :
    (TxPoint.afterOffer job index target result).dispatch = some (job.message, index) := by
  cases result with
  | raised why => exact absurd rfl (returns why)
  | _ => rfl

omit [DecidableEq Fd] in
theorem Job.dispatch_afterRead (job : Job Fd) : job.afterRead.dispatch = none := by
  unfold Job.afterRead
  split <;> rfl

omit [DecidableEq Fd] in
theorem all_passed {index : Nat} (past : peers[index]? = none)
    (at_place : peers[place]? = some consumer) : place < index := by
  have short := (List.getElem?_eq_some_iff.mp at_place).1
  have long := List.getElem?_eq_none_iff.mp past
  omega

end Progress

section Idle

theorem Cleans.idle (move : Cleans s t) : s.rx.dispatch = none ∧ t.rx.dispatch = none := by
  cases move <;> exact ⟨by simp [*, RxPoint.dispatch], rfl⟩

omit [DecidableEq Fd] in
theorem Selects.idle (move : Selects s action t) :
    s.tx.dispatch = none ∧ t.tx.dispatch = none := by
  cases move <;> exact ⟨by simp [*, TxPoint.dispatch], rfl⟩

theorem GivesUp.idle (move : GivesUp s action t) :
    s.tx.dispatch = none ∧ t.tx.dispatch = none := by
  cases move <;> exact ⟨by simp [*, TxPoint.dispatch], rfl⟩

theorem GivesUp.handed (move : GivesUp s action t) (fd : Fd) :
    (t.traffic fd).handed = (s.traffic fd).handed := by
  cases move with
  | unregister => exact setTraffic_keeps Traffic.handed (by rfl) fd
  | _ => rfl

omit [DecidableEq Fd] in
theorem TxPoint.dispatch_afterDrainSend (fd : Fd) (head : Relayed Fd) (events : List (Event Fd))
    (answer : Except Ending SendStep) :
    (TxPoint.afterDrainSend fd head events answer).dispatch = none := by
  cases answer with
  | error => rfl
  | ok step => cases step <;> rfl

variable {fd : Fd} {events : List (Event Fd)}

theorem Drains.idle (move : Drains s fd events action t) :
    s.tx.dispatch = none ∧ t.tx.dispatch = none := by
  cases move with
  | call at_ =>
    exact ⟨by rw [at_]; rfl, TxPoint.dispatch_afterDrainSend _ _ _ _⟩
  | _ => exact ⟨by simp [*, TxPoint.dispatch], rfl⟩

theorem Drains.handed (move : Drains s fd events action t) (other : Fd) :
    (t.traffic other).handed = (s.traffic other).handed := by
  cases move with
  | call _ call => exact call.handed other
  | pop => exact setTraffic_keeps Traffic.handed (by rfl) other
  | _ => rfl

end Idle

section Relays
variable (connected : Connected peers s) (distinct : (peers.map Consumer.fd).Nodup)
  (at_place : peers[place]? = some consumer) (given : Handing consumer place s)

include connected distinct at_place given

theorem RxRelays.handing (move : RxRelays cfg s action t) (steady : s.Steady action) :
    Handing consumer place t := by
  have rx := connected.rx
  cases move with
  | recvError at_ => exact given.keep_rx rfl rfl rfl (by rw [at_]; rfl)
  | recv at_ =>
    refine given.receive none ?_ rfl (fun loop other => ?_) rfl rfl
    · simp only [loopOf, Server.dispatch, at_]
      rfl
    · cases loop with
      | rx => exact absurd rfl other
      | tx => rfl
  | finish at_ past =>
    rw [connected.consumers] at past
    refine given.keep_rx rfl rfl rfl ?_
    rw [at_]
    exact (pending_passed (all_passed past at_place) none).symm
  | accept at_ | wake at_ => exact given.keep_rx rfl rfl rfl (by rw [at_]; rfl)
  | skip at_ next rejects =>
    rw [connected.consumers] at next
    refine given.keep_rx rfl rfl rfl ?_
    rw [at_]
    refine pending_next fun here reaches => rejects ?_
    rw [here, at_place, Option.some.injEq] at next
    rw [← next]
    exact reaches.2
  | @hand message index target at_ =>
    rw [at_] at rx
    obtain ⟨source, k, rfl, found, accepts⟩ := rx
    have before : s.dispatch message.loop = some (message, k) := by
      rw [Relayed.loop_rx source, Server.dispatch, at_]
      rfl
    have after : ({ s.hand target.fd message with
        rx := .offer message (k + 1) target .test } : Server Fd).dispatch message.loop =
          some (message, k + 1) := by
      rw [Relayed.loop_rx source]
      rfl
    by_cases here : target.fd = consumer.fd
    · obtain ⟨rfl, rfl⟩ := place_unique distinct found at_place here
      refine given.hand before after (fun loop other => ?_) accepts (by simp [source]) rfl ?_
      · cases loop with
        | rx => exact absurd (Relayed.loop_rx source).symm other
        | tx => rfl
      · simp [Server.hand, setTraffic]
    · refine given.keep_rx rfl (by simp [Server.hand, setTraffic, Ne.symm here]) rfl ?_
      rw [at_]
      refine pending_next fun there => absurd ?_ here
      rw [there, at_place, Option.some.injEq] at found
      rw [found]
  | handMissing at_ absent =>
    rw [at_] at rx
    exact absurd (connected.io _ rx.2.mem) absent
  | offer at_ offer =>
    rw [at_] at rx
    have returns := offer.not_raised connected ⟨_, rx.2.1.mem, rfl⟩
    refine given.keep_rx offer.received (offer.handed _) offer.tx ?_
    rw [at_]
    exact congrArg _ (RxPoint.dispatch_afterOffer returns)
  | call at_ call =>
    rw [at_] at rx
    obtain ⟨_, _, start⟩ := rx
    subst start
    refine given.keep_rx call.received (call.handed _) call.tx ?_
    rw [at_]
    rcases call.whole (steady.rx at_) with ⟨rfl, _⟩ | ⟨rfl, _⟩ <;> rfl
  | close at_ =>
    rw [at_] at rx
    exact rx.elim

theorem TxRelays.handing (move : TxRelays cfg s action t) (steady : s.Steady action) :
    Handing consumer place t := by
  have tx := connected.tx
  cases move with
  | @recv fd _ _ _ at_ =>
    refine given.receive (some fd) ?_ rfl (fun loop other => ?_) rfl rfl
    · simp only [loopOf, Server.dispatch, at_]
      rfl
    · cases loop with
      | rx => rfl
      | tx => exact absurd rfl other
  | @finish job index at_ past =>
    rw [connected.consumers] at past
    refine given.keep_tx rfl rfl rfl fun fd _ => ?_
    rw [at_]
    have none_left : (if cfg.virtual then job.afterRead else .busSend job).dispatch = none := by
      split
      · exact job.dispatch_afterRead
      · rfl
    exact (congrArg _ none_left).trans (pending_passed (all_passed past at_place) _).symm
  | self at_ next same =>
    rw [at_] at tx
    rw [connected.consumers] at next
    refine given.keep_tx rfl rfl rfl fun fd foreign => ?_
    rw [at_]
    refine pending_next fun here reaches => foreign ?_
    rw [here, at_place, Option.some.injEq] at next
    have source := reaches.1
    rw [tx.source, ← same, ← next, Option.some.injEq] at source
    exact source.symm
  | accept at_ => exact given.keep_tx rfl rfl rfl fun fd _ => by rw [at_]; rfl
  | skip at_ next other rejects =>
    rw [connected.consumers] at next
    refine given.keep_tx rfl rfl rfl fun fd _ => ?_
    rw [at_]
    refine pending_next fun here reaches => rejects ?_
    rw [here, at_place, Option.some.injEq] at next
    rw [← next]
    exact reaches.2
  | @hand job index target at_ =>
    rw [at_] at tx
    obtain ⟨job_steady, other, k, rfl, found, accepts⟩ := tx
    have before : s.dispatch job.message.loop = some (job.message, k) := by
      rw [Relayed.loop_tx job_steady.source, Server.dispatch, at_]
      rfl
    have after : ({ s.hand target.fd job.message with
        tx := .offer job (k + 1) target .test } : Server Fd).dispatch job.message.loop =
          some (job.message, k + 1) := by
      rw [Relayed.loop_tx job_steady.source]
      rfl
    by_cases here : target.fd = consumer.fd
    · obtain ⟨rfl, rfl⟩ := place_unique distinct found at_place here
      refine given.hand before after (fun loop other => ?_) accepts ?_ rfl ?_
      · cases loop with
        | rx => rfl
        | tx => exact absurd (Relayed.loop_tx job_steady.source).symm other
      · rw [job_steady.source, Ne, Option.some.injEq]
        exact Ne.symm other
      · simp [Server.hand, setTraffic]
    · refine given.keep_tx rfl (by simp [Server.hand, setTraffic, Ne.symm here]) rfl fun fd _ => ?_
      rw [at_]
      refine pending_next fun there => absurd ?_ here
      rw [there, at_place, Option.some.injEq] at found
      rw [found]
  | handMissing at_ absent =>
    rw [at_] at tx
    exact absurd (connected.io _ tx.2.2.mem) absent
  | offer at_ offer =>
    rw [at_] at tx
    have returns := offer.not_raised connected ⟨_, tx.2.2.1.mem, rfl⟩
    refine given.keep_tx offer.received (offer.handed _) offer.rx fun fd _ => ?_
    rw [at_]
    exact congrArg _ (TxPoint.dispatch_afterOffer returns)
  | call at_ call =>
    rw [at_] at tx
    obtain ⟨_, _, _, start⟩ := tx
    subst start
    refine given.keep_tx call.received (call.handed _) call.rx fun fd _ => ?_
    rw [at_]
    rcases call.whole (steady.tx at_) with ⟨rfl, _⟩ | ⟨rfl, _⟩ <;> rfl
  | @bus job at_ =>
    refine given.keep_tx rfl rfl rfl fun fd _ => ?_
    rw [at_]
    exact congrArg _ job.dispatch_afterRead
  | busError at_ => exact given.keep_tx rfl rfl rfl fun fd _ => by rw [at_]; rfl

/-- A steady step hands nothing twice and leaves nobody out. -/
theorem Moves.handing (move : Moves cfg s action t) (steady : s.Steady action) :
    Handing consumer place t := by
  -- Outside of a dispatch, a loop has nothing to hand over.
  have still {before after : Option (Relayed Fd × Nat)} (idle : before = none ∧ after = none)
      (source : Option Fd) : pending consumer place source after =
        pending consumer place source before := by
    rw [idle.1, idle.2]
  cases move with
  | clean move =>
    exact given.keep_rx (congrArg Server.received move.frame :)
      (congrArg (fun s : Server Fd => (s.traffic consumer.fd).handed) move.frame :)
      (congrArg Server.tx move.frame :) (still move.idle none)
  | rxRelay move => exact move.handing connected distinct at_place given steady
  | select move =>
    exact given.keep_tx (congrArg Server.received move.frame :)
      (congrArg (fun s : Server Fd => (s.traffic consumer.fd).handed) move.frame :)
      (congrArg Server.rx move.frame :) fun fd _ => still move.idle (some fd)
  | giveUp move => exact (move.not_steady steady connected).elim
  | txRelay move => exact move.handing connected distinct at_place given steady
  | drain move =>
    exact given.keep_tx (congrArg Server.received move.frame :) (move.handed consumer.fd)
      (congrArg Server.rx move.frame :) fun fd _ => still move.idle (some fd)
  | listen move => exact (move.not_steady steady connected).elim
  | stop move =>
    rw [move.frame]
    exact given.keep_tx rfl rfl rfl fun _ _ => rfl

end Relays

theorem Moves.received_cases (move : Moves cfg s action t) :
    t.received = s.received ∨
      ∃ source frame, t.received = (s.receive (s.stamp source frame)).received := by
  rcases move.read_cases with same | move | move
  · exact Or.inl same
  · cases move with
    | @recv frame => exact Or.inr ⟨none, frame, rfl⟩
    | offer _ offer => exact Or.inl offer.received
    | call _ call => exact Or.inl call.received
    | _ => exact Or.inl rfl
  · cases move with
    | @recv fd _ _ frame => exact Or.inr ⟨some fd, frame, rfl⟩
    | offer _ offer => exact Or.inl offer.received
    | call _ call => exact Or.inl call.received
    | _ => exact Or.inl rfl

theorem Moves.numbered (move : Moves cfg s action t) (numbered : s.Numbered) : t.Numbered := by
  rcases move.received_cases with same | ⟨source, frame, same⟩
  · exact numbered.of_eq same
  · exact (numbered.receive source frame).of_eq same

theorem Numbered.start (cfg : Config) (peers : List (Consumer Fd)) :
    (start cfg peers).Numbered := by
  intro source i message found
  simp [Server.start] at found

theorem Handing.start (cfg : Config) (peers : List (Consumer Fd)) (consumer : Consumer Fd)
    (place : Nat) : Handing consumer place (start cfg peers) where
  all source _ := by
    have idle : (Server.start cfg peers).dispatch (loopOf source) = none := by
      cases source with
      | none =>
        simp only [loopOf, dispatch, Server.start]
        split <;> rfl
      | some fd => rfl
    rw [idle]
    rfl
  own message member := by simp [Server.start, Traffic.quiet] at member

/-- What is about to be handed over was not handed over before. -/
theorem Handing.fresh (handing : Handing consumer place s) (numbered : s.Numbered)
    (reached : s.dispatch message.loop = some (message, place))
    (accepts : consumer.accepts message) (foreign : message.source ≠ some consumer.fd) :
    message ∉ (s.traffic consumer.fd).handed := by
  intro again
  have total := handing.all message.source foreign
  rw [Relayed.loop] at reached
  rw [reached, pending_here accepts] at total
  have nodup : (ofSource message.source (s.traffic consumer.fd).handed ++ [message]).Nodup := by
    rw [← total]
    exact (numbered.nodup _).filter _
  have twice : message ∈ ofSource message.source (s.traffic consumer.fd).handed :=
    List.mem_filter.mpr ⟨again, by simp⟩
  exact (List.disjoint_of_nodup_append nodup) twice (List.mem_singleton_self _)

end Sockcan.Server
