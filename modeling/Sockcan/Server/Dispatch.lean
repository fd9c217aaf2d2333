import Sockcan.Cursor
import Sockcan.Server.Ledger
import Sockcan.Server.Registry

/-! A dispatch of the TX loop walks along `_consumers` by index while the RX loop
removes dead consumers from the list and `listen_to` appends to it. -/
namespace Sockcan.Server
open Protocol Transition
variable {Fd : Type}

/-- The index of the next consumer of a dispatch. -/
def TxPoint.next : TxPoint Fd → Nat
  | .advance _ index | .lookup _ index _ | .offer _ index _ _ => index
  | _ => 0

/-- The consumer whose IO state is about to be looked up. -/
def TxPoint.looking : TxPoint Fd → Option (Consumer Fd)
  | .lookup _ _ consumer => some consumer
  | _ => none

/-- The dispatch that the TX loop is in. -/
def TxPoint.job : TxPoint Fd → Option (Job Fd)
  | .advance job _ | .lookup job _ _ | .offer job _ _ _ => some job
  | _ => none

def Dispatching (job : Job Fd) (s : Server Fd) : Prop := s.tx.job = some job

instance [DecidableEq Fd] (job : Job Fd) : DecidablePred (Dispatching job) := fun _ =>
  inferInstanceAs (Decidable (_ = _))

/-- The descriptor of the consumer that a statement of the RX loop takes out of
`_consumers`. -/
def removed (s : Server Fd) : Action Fd → Option Fd
  | .rx => match s.rx with
    | .removeClosed => s.closedConnections.head?.map Consumer.fd
    | .removeDead fd => some fd
    | _ => none
  | _ => none

/-- The statement removes a consumer that the dispatch has passed while `consumer` is
the very next one, which thereby falls behind the index. -/
def Overtakes (consumer : Consumer Fd) (s : Server Fd) (action : Action Fd) : Prop :=
  s.consumers[s.tx.next]? = some consumer ∧
    ∃ peer ∈ s.consumers.take s.tx.next, s.removed action = some peer.fd

/-- The statement looks `consumer` up, whose entry of `_consumer_io` is gone already. -/
def Abandons (consumer : Consumer Fd) (s : Server Fd) (action : Action Fd) : Prop :=
  action = .tx ∧ s.tx.looking = some consumer ∧ s.consumerIo consumer.fd = false

def Reaches (consumer : Consumer Fd) (s : Server Fd) (action : Action Fd) : Prop :=
  ¬ s.Overtakes consumer action ∧ ¬ s.Abandons consumer action

instance [DecidableEq Fd] (consumer : Consumer Fd) (s : Server Fd) (action : Action Fd) :
    Decidable (s.Reaches consumer action) :=
  inferInstanceAs (Decidable (¬ (_ ∧ _) ∧ ¬ (_ ∧ _ ∧ _)))

/-- The dispatch has not come to `consumer` yet. -/
def Awaited (consumer : Consumer Fd) (s : Server Fd) : Prop :=
  consumer ∈ s.consumers.drop s.tx.next ∨ s.tx.looking = some consumer

variable [DecidableEq Fd] {cfg : Config} {peers : List (Consumer Fd)} {s t : Server Fd}
  {action : Action Fd} {actions : List (Action Fd)} {consumer : Consumer Fd} {job : Job Fd}

/-- How often `consumer` was handed the frame of `job`. -/
def times (consumer : Consumer Fd) (job : Job Fd) (s : Server Fd) : Nat :=
  (s.traffic consumer.fd).handed.count job.message

/-- A frame handed over is sent or queued, once, when the dispatch goes on. -/
def Settled (fd : Fd) (job : Job Fd) (s : Server Fd) : Prop :=
  (s.traffic fd).handed.count job.message = (s.traffic fd).served.count job.message +
    if s.offering .tx = some (fd, job.message) then 1 else 0

/-- What holds of `consumer` in the dispatch of `job`, of which `consumer` is in the list
all the time. -/
structure Course (consumer : Consumer Fd) (job : Job Fd) (s : Server Fd) : Prop where
  registry : s.Registry
  ledger : s.Ledger
  settled : s.Settled consumer.fd job
  dispatching : s.Dispatching job
  listed : consumer ∈ s.consumers
  looking : ∀ other, s.tx.looking = some other → other.fd = consumer.fd → other = consumer
  apart : s.tx.looking = some consumer → consumer ∉ s.consumers.drop s.tx.next
  waiting : s.Awaited consumer → s.times consumer job = 0

/-- How the cleanup edits `_consumers`. -/
theorem Cleans.consumers_cases (move : Cleans s t) :
    (t.consumers = s.consumers ∧ ∀ peer ∈ s.consumers, s.removed .rx ≠ some peer.fd) ∨
    ∃ fd, s.removed .rx = some fd ∧ t.consumers = (s.removeConsumer fd).consumers := by
  cases move with
  | remove at_ closed => exact Or.inr ⟨_, by simp [removed, at_, closed], rfl⟩
  | removeDead at_ => exact Or.inr ⟨_, by simp [removed, at_], rfl⟩
  | @removeMissing gone rest at_ closed absent =>
    refine Or.inl ⟨rfl, fun peer member same => absent ?_⟩
    simp only [removed, at_, closed, List.head?_cons, Option.map_some, Option.some.injEq] at same
    exact List.any_eq_true.mpr ⟨peer, member, by simp [same]⟩
  | noneClosed at_ closed => exact Or.inl ⟨rfl, fun peer _ => by simp [removed, at_, closed]⟩
  | delete at_ | deleteMissing at_ | noneDead at_ | takeDead at_ | popDead at_ | refresh at_
  | noRefresh at_ | aggregate at_ | aggregated at_ | install at_ =>
    exact Or.inl ⟨rfl, fun peer _ => by simp [removed, at_]⟩

theorem RxRelays.removed_eq_none (move : RxRelays cfg s action t) : s.removed action = none := by
  cases move <;> simp only [removed, *]

/-- How a statement edits `_consumers`. -/
theorem Moves.consumers_cases (move : Moves cfg s action t) :
    (t.consumers = s.consumers ∧ ∀ peer ∈ s.consumers, s.removed action ≠ some peer.fd) ∨
    (∃ fd, s.removed action = some fd ∧ action = .rx ∧ t.tx = s.tx ∧
      t.consumers = (s.removeConsumer fd).consumers) ∨
    ∃ fd consumer, s.listeners fd = .appendConsumer consumer ∧ s.removed action = none ∧
      action ≠ .tx ∧ t.tx = s.tx ∧ t.consumers = s.consumers ++ [consumer] := by
  have quiet (none_removed : s.removed action = none) (same : t.consumers = s.consumers) :
      t.consumers = s.consumers ∧ ∀ peer ∈ s.consumers, s.removed action ≠ some peer.fd :=
    ⟨same, fun peer _ => by simp [none_removed]⟩
  cases move with
  | clean move =>
    rcases move.consumers_cases with kept | ⟨fd, removes, same⟩
    · exact Or.inl kept
    · exact Or.inr (Or.inl ⟨fd, removes, rfl, (congrArg Server.tx move.frame :), same⟩)
  | rxRelay move =>
    exact Or.inl (quiet move.removed_eq_none (congrArg Server.consumers move.frame :))
  | select move =>
    exact Or.inl (quiet (by cases move <;> rfl) (congrArg Server.consumers move.frame :))
  | giveUp move =>
    exact Or.inl (quiet (by cases move <;> rfl) (congrArg Server.consumers move.frame :))
  | txRelay move =>
    exact Or.inl (quiet (by cases move <;> rfl) (congrArg Server.consumers move.frame :))
  | drain move =>
    exact Or.inl (quiet (by cases move <;> rfl) (congrArg Server.consumers move.frame :))
  | listen move =>
    cases move with
    | append at_ => exact Or.inr (Or.inr ⟨_, _, at_, rfl, nofun, rfl, rfl⟩)
    | _ => exact Or.inl (quiet rfl rfl)
  | stop move => exact Or.inl (quiet rfl (congrArg Server.consumers move.frame :))

omit [DecidableEq Fd] in
theorem Dispatching.routed (dispatching : s.Dispatching job) :
    ∃ passed, s.dispatch .tx = some (job.message, passed) := by
  unfold Dispatching at dispatching
  cases at_ : s.tx <;> rw [at_] at dispatching <;> cases dispatching
  all_goals exact ⟨_, by rw [dispatch, at_]; rfl⟩

omit [DecidableEq Fd] in
theorem Dispatching.busy (dispatching : s.Dispatching job) : s.tx.dispatch ≠ none := by
  obtain ⟨passed, dispatches⟩ := dispatching.routed
  simp only [dispatch] at dispatches
  simp [dispatches]

/-- While the TX loop is in a dispatch, it goes on with it. -/
theorem Moves.dispatching_cases (move : Moves cfg s action t) (before : s.Dispatching job) :
    t.tx = s.tx ∧ action ≠ .tx ∨ TxRelays cfg s action t := by
  cases move with
  | clean move => exact Or.inl ⟨(congrArg Server.tx move.frame :), nofun⟩
  | rxRelay move => exact Or.inl ⟨(congrArg Server.tx move.frame :), by cases move <;> nofun⟩
  | select move => exact absurd move.idle.1 before.busy
  | giveUp move => exact absurd move.idle.1 before.busy
  | txRelay move => exact Or.inr move
  | drain move => exact absurd move.idle.1 before.busy
  | listen move => exact Or.inl ⟨(congrArg Server.tx move.frame :), by cases move <;> nofun⟩
  | stop move => exact Or.inl ⟨(congrArg Server.tx move.frame :), nofun⟩

/-- How a statement moves the index of a dispatch that goes on. -/
theorem Moves.next_cases (move : Moves cfg s action t) (before : s.Dispatching job)
    (after : t.Dispatching job) :
    (t.tx.next = s.tx.next ∧ t.tx.looking = s.tx.looking ∧
      ¬ (action = .tx ∧ s.tx.looking.isSome)) ∨
    (action = .tx ∧ t.consumers = s.consumers ∧ s.tx.looking = none ∧
      t.tx.next = s.tx.next + 1 ∧ ∃ peer, s.consumers[s.tx.next]? = some peer ∧
        (t.tx.looking = some peer ∨
          t.tx.looking = none ∧ (peer.fd = job.fileobj ∨ ¬ peer.accepts job.message))) ∨
    action = .tx ∧ t.consumers = s.consumers ∧ s.tx.looking.isSome ∧
      t.tx.next = s.tx.next ∧ t.tx.looking = none := by
  rcases move.dispatching_cases before with ⟨same, other⟩ | relays
  · rw [same]
    exact Or.inl ⟨rfl, rfl, fun here => other here.1⟩
  unfold Dispatching at before after
  cases relays with
  | self at_ next same =>
    rw [at_] at before ⊢
    cases before
    exact Or.inr (Or.inl ⟨rfl, rfl, rfl, rfl, _, next, Or.inr ⟨rfl, Or.inl same⟩⟩)
  | accept at_ next =>
    rw [at_]
    exact Or.inr (Or.inl ⟨rfl, rfl, rfl, rfl, _, next, Or.inl rfl⟩)
  | skip at_ next other rejects =>
    rw [at_] at before ⊢
    cases before
    exact Or.inr (Or.inl ⟨rfl, rfl, rfl, rfl, _, next, Or.inr ⟨rfl, Or.inr rejects⟩⟩)
  | hand at_ | handMissing at_ =>
    rw [at_]
    exact Or.inr (Or.inr ⟨rfl, rfl, rfl, rfl, rfl⟩)
  | @offer other index target point after result at_ =>
    rw [at_]
    cases result with
    | raised => contradiction
    | _ => exact Or.inl ⟨rfl, rfl, by simp [TxPoint.looking]⟩
  | @call other index target progress outcome after answer at_ =>
    rw [at_]
    cases answer with
    | error => contradiction
    | ok step => cases step <;> exact Or.inl ⟨rfl, rfl, by simp⟩
  | recv at_ | bus at_ | busError at_ =>
    rw [at_] at before
    contradiction
  | @finish other index at_ =>
    dsimp only [Job.afterRead] at after
    split at after
    · split at after <;> contradiction
    · contradiction

omit [DecidableEq Fd] in
theorem not_overtakes (none_removed : s.removed action = none) :
    ¬ s.Overtakes consumer action := by
  rintro ⟨_, peer, _, removes⟩
  rw [none_removed] at removes
  contradiction

/-- While the index stays, a consumer stays ahead of it unless it is overtaken. -/
theorem Moves.ahead_iff (move : Moves cfg s action t) (course : s.Course consumer job)
    (listed : consumer ∈ t.consumers) (next : t.tx.next = s.tx.next) :
    consumer ∈ t.consumers.drop t.tx.next ↔
      consumer ∈ s.consumers.drop s.tx.next ∧ ¬ s.Overtakes consumer action := by
  have nodup : s.consumers.Nodup := course.registry.distinct.of_map
  rcases move.consumers_cases with ⟨same, unremoved⟩ | ⟨fd, removes, _, _, same⟩ |
    ⟨fd, appended, at_, none_removed, _, _, same⟩
  · have passed : ¬ s.Overtakes consumer action := by
      rintro ⟨_, peer, member, removes⟩
      exact unremoved peer (List.mem_of_mem_take member) removes
    simp only [same, next, passed, not_false_iff, and_true]
  · rw [same] at listed
    have survives : consumer.fd ≠ fd :=
      not_mem_removeConsumer course.registry.distinct fd consumer listed
    have pulls : s.Overtakes consumer action ↔ s.consumers[s.tx.next]? = some consumer ∧
        ∃ peer ∈ s.consumers.take s.tx.next, decide (peer.fd = fd) = true := by
      simp only [Overtakes, removes, Option.some.injEq, decide_eq_true_eq, eq_comm (a := fd)]
    rw [same, next, pulls]
    exact Cursor.mem_drop_eraseP_iff nodup (by simp [survives])
  · have distinct : consumer ∉ [appended] := by
      intro new
      have published := course.registry.published consumer course.listed
      rw [List.mem_singleton.mp new, course.registry.appending fd appended at_] at published
      exact published.2 appended at_
    rw [same, next, Cursor.mem_drop_append_iff distinct]
    simp only [not_overtakes none_removed, not_false_iff, and_true]

theorem Course.not_overtakes_looking (course : s.Course consumer job)
    (looks : s.tx.looking = some consumer) : ¬ s.Overtakes consumer action := by
  intro overtakes
  apply course.apart looks
  exact List.mem_iff_getElem?.mpr ⟨0, by simpa using overtakes.1⟩

/-- A consumer stays to come until it is looked up, unless it is overtaken. -/
theorem Moves.awaited_iff (move : Moves cfg s action t) (course : s.Course consumer job)
    (after : t.Dispatching job) (listed : consumer ∈ t.consumers)
    (other : consumer.fd ≠ job.fileobj) (accepts : consumer.accepts job.message) :
    t.Awaited consumer ↔ s.Awaited consumer ∧ ¬ s.Overtakes consumer action ∧
      ¬ (action = .tx ∧ s.tx.looking = some consumer) := by
  have nodup : s.consumers.Nodup := course.registry.distinct.of_map
  have kept : ¬ s.Overtakes consumer .tx := not_overtakes rfl
  rcases move.next_cases course.dispatching after with ⟨next, looking, stays⟩ |
    ⟨rfl, same, idle, next, peer, found, taken⟩ | ⟨rfl, same, busy, next, looked⟩
  · have unlooked : ¬ (action = .tx ∧ s.tx.looking = some consumer) := by
      rintro ⟨here, looks⟩
      exact stays ⟨here, by rw [looks]; rfl⟩
    simp only [Awaited, move.ahead_iff course listed next, looking, unlooked, not_false_iff,
      and_true]
    constructor
    · rintro (⟨ahead, passed⟩ | looks)
      · exact ⟨Or.inl ahead, passed⟩
      · exact ⟨Or.inr looks, course.not_overtakes_looking looks⟩
    · rintro ⟨ahead | looks, passed⟩
      · exact Or.inl ⟨ahead, passed⟩
      · exact Or.inr looks
  · have unlooked : ¬ (none : Option (Consumer Fd)) = some consumer := nofun
    simp only [Awaited, same, next, idle, Cursor.mem_drop_succ_iff nodup, found, kept, unlooked,
      not_false_iff, and_true, and_false, or_false]
    rcases taken with looks | ⟨looks, skipped⟩
    · constructor
      · rintro (ahead | here)
        · exact ahead.1
        · rw [looks] at here
          cases here
          exact List.mem_iff_getElem?.mpr ⟨0, by simpa using found⟩
      · intro ahead
        by_cases here : some peer = some consumer
        · exact Or.inr (looks.trans here)
        · exact Or.inl ⟨ahead, here⟩
    · have another : some peer ≠ some consumer := by
        rintro here
        cases here
        rcases skipped with own | rejects
        · exact other own
        · exact rejects accepts
      rw [looks]
      simp [another]
  · simp only [Awaited, same, next, looked, kept, not_false_iff, true_and]
    constructor
    · rintro (ahead | nothing)
      · exact ⟨Or.inl ahead, fun looks => course.apart looks ahead⟩
      · contradiction
    · rintro ⟨ahead | looks, unlooked⟩
      · exact Or.inl ahead
      · exact absurd looks unlooked

theorem Settled.congr {fd : Fd} (settled : s.Settled fd job) (same : t.tx = s.tx)
    (handed : (t.traffic fd).handed.count job.message = (s.traffic fd).handed.count job.message)
    (served : (t.traffic fd).served.count job.message = (s.traffic fd).served.count job.message) :
    t.Settled fd job := by
  have offers : t.offering .tx = s.offering .tx := by simp only [offering, same]
  rw [Settled, handed, served, offers]
  exact settled

/-- The RX loop has another frame. -/
theorem RxRelays.settled {fd : Fd} (move : RxRelays cfg s action t)
    (apart : ∀ message passed, s.dispatch .rx = some (message, passed) → message ≠ job.message)
    (settled : s.Settled fd job) : t.Settled fd job := by
  cases move with
  | hand at_ =>
    have other := apart _ _ (by rw [dispatch, at_]; rfl)
    refine settled.congr rfl ?_ (by simp only [hand_served])
    simp only [hand_handed]
    split
    · simp [List.count_append, other]
    · rfl
  | offer at_ offer =>
    have other := apart _ _ (by rw [dispatch, at_]; rfl)
    exact settled.congr offer.tx (by rw [offer.handed]) (offer.served_count other fd)
  | call at_ call =>
    have other := apart _ _ (by rw [dispatch, at_]; rfl)
    exact settled.congr call.tx (by rw [call.handed]) (call.served_count other fd)
  | _ => exact settled

/-- Each statement of the dispatch keeps the books of its frame. -/
theorem TxRelays.settled {fd : Fd} (move : TxRelays cfg s action t) (before : s.Dispatching job)
    (after : t.Dispatching job) (settled : s.Settled fd job) : t.Settled fd job := by
  unfold Dispatching at before after
  cases move with
  | @hand other index target at_ =>
    rw [at_] at before
    cases before
    simp only [Settled, offering, at_, reduceCtorEq, if_false, Nat.add_zero] at settled
    simp only [Settled, hand_handed, hand_served, offering, Option.some.injEq, Prod.mk.injEq,
      and_true]
    by_cases here : fd = target.fd
    · subst here
      simp [settled]
    · simp [here, Ne.symm here, settled]
  | @offer other index target point u result at_ offer =>
    rw [at_] at before
    cases before
    simp only [Settled, offering, at_, Option.some.injEq, Prod.mk.injEq, and_true] at settled
    rw [Settled, offer.handed, settled]
    rcases offer.served fd with ⟨⟨next, rfl⟩, same⟩ | ⟨over_, more⟩
    · simp only [offering, TxPoint.afterOffer, same, Option.some.injEq, Prod.mk.injEq, and_true]
    · cases result with
      | next next => exact absurd rfl (over_ next)
      | raised => contradiction
      | done | queued =>
        simp only [offering, TxPoint.afterOffer, more, reduceCtorEq, if_false, Nat.add_zero]
        by_cases here : fd = target.fd
        · simp [here, List.count_append]
        · simp [here, Ne.symm here]
  | @call other index target progress outcome u answer at_ call =>
    rw [at_] at before
    cases before
    simp only [Settled, offering, at_, Option.some.injEq, Prod.mk.injEq, and_true] at settled
    rw [Settled, call.handed, settled]
    cases call with
    | unpacked => contradiction
    | @call bytes =>
      by_cases here : fd = target.fd
      · subst here
        simp only [setTraffic, Function.update_self]
        rcases record_served (s.traffic target.fd) job.message bytes progress outcome with
          ⟨final, more⟩ | ⟨goes, same⟩
        · rw [more.count_eq, List.count_cons_self]
          cases step : sendCall streamSendAttempts progress outcome <;>
            simp_all [offering, TxPoint.afterSend, SendStep.Final]
        · rw [same]
          cases step : sendCall streamSendAttempts progress outcome <;>
            simp_all [offering, TxPoint.afterSend, SendStep.Final]
      · simp only [setTraffic, Function.update_of_ne here]
        cases step : sendCall streamSendAttempts progress outcome <;>
          simp [offering, TxPoint.afterSend, Ne.symm here]
  | self at_ | accept at_ | skip at_ | handMissing at_ =>
    simpa [Settled, offering, at_] using settled
  | @finish other index at_ =>
    dsimp only [Job.afterRead] at after
    split at after
    · split at after <;> contradiction
    · contradiction
  | recv at_ | bus at_ | busError at_ =>
    rw [at_] at before
    contradiction

theorem Moves.settled {fd : Fd} (move : Moves cfg s action t) (before : s.Dispatching job)
    (after : t.Dispatching job)
    (apart : ∀ message passed, s.dispatch .rx = some (message, passed) → message ≠ job.message)
    (settled : s.Settled fd job) : t.Settled fd job := by
  cases move with
  | clean move =>
    exact settled.congr (congrArg Server.tx move.frame :)
      (congrArg (fun s : Server Fd => (s.traffic fd).handed.count job.message) move.frame :)
      (congrArg (fun s : Server Fd => (s.traffic fd).served.count job.message) move.frame :)
  | rxRelay move => exact move.settled apart settled
  | select move => exact absurd move.idle.1 before.busy
  | giveUp move => exact absurd move.idle.1 before.busy
  | txRelay move => exact move.settled before after settled
  | drain move => exact absurd move.idle.1 before.busy
  | listen move =>
    exact settled.congr (congrArg Server.tx move.frame :)
      (congrArg (fun s : Server Fd => (s.traffic fd).handed.count job.message) move.frame :)
      (congrArg (fun s : Server Fd => (s.traffic fd).served.count job.message) move.frame :)
  | stop move =>
    rw [move.frame]
    exact settled

theorem step_lookup {index : Nat} (step : step cfg s .tx = some t)
    (at_ : s.tx = .lookup job index consumer) (present : s.consumerIo consumer.fd = true) :
    t = { s.hand consumer.fd job.message with tx := .offer job index consumer .test } := by
  simp only [Server.step, txStep, at_, if_pos present, Option.some.injEq] at step
  exact step.symm

omit [DecidableEq Fd] in
theorem TxPoint.looking_eq {point : TxPoint Fd} (looks : point.looking = some consumer)
    (dispatching : point.job = some job) : ∃ index, point = .lookup job index consumer := by
  cases point with
  | lookup other index target =>
    cases looks
    cases dispatching
    exact ⟨index, rfl⟩
  | _ => contradiction

/-- The frame that the RX loop has meanwhile is another one. -/
theorem Course.rx_apart (course : s.Course consumer job) (message : Relayed Fd) (passed : Nat)
    (dispatches : s.dispatch .rx = some (message, passed)) : message ≠ job.message := by
  rintro rfl
  obtain ⟨_, own⟩ := course.dispatching.routed
  have tx := (course.ledger.routed .tx job.message _ own).1
  rw [(course.ledger.routed .rx job.message _ dispatches).1] at tx
  contradiction

/-- Only the lookup of the consumer itself hands it the frame of the dispatch. -/
theorem step_times (step : step cfg s action = some t) (course : s.Course consumer job) :
    t.times consumer job = s.times consumer job +
      if action = .tx ∧ s.tx.looking = some consumer ∧ s.consumerIo consumer.fd = true then 1
      else 0 := by
  have unchanged (message : Relayed Fd) (apart : message ≠ job.message)
      (handed : (t.traffic consumer.fd).handed = (s.traffic consumer.fd).handed ∨
        (t.traffic consumer.fd).handed = (s.traffic consumer.fd).handed ++ [message]) :
      t.times consumer job = s.times consumer job := by
    rcases handed with same | more
    · simp only [times, same]
    · simp only [times, more, List.count_append, List.count_singleton]
      simp [apart]
  rcases (step_moves step).handed_cases with same | ⟨message, index, target, rfl, at_, _, rfl⟩ |
    ⟨other, index, target, rfl, at_, present, rfl⟩
  · rw [if_neg, Nat.add_zero]
    · simp only [times, same]
    · rintro ⟨rfl, looks, present⟩
      obtain ⟨index, at_⟩ := TxPoint.looking_eq looks course.dispatching
      have grown := same consumer.fd
      rw [step_lookup step at_ present] at grown
      simp [hand_handed] at grown
  · rw [if_neg (by simp), Nat.add_zero]
    apply unchanged message
    · exact course.rx_apart message _ (by rw [dispatch, at_]; rfl)
    · simp only [hand_handed]
      split
      · exact Or.inr rfl
      · exact Or.inl rfl
  · have here : other = job := by
      have dispatching := course.dispatching
      rw [Dispatching, at_] at dispatching
      cases dispatching
      rfl
    subst here
    have looking := course.looking target (by rw [at_]; rfl)
    simp only [times, hand_handed]
    by_cases same : consumer.fd = target.fd
    · obtain rfl := looking same.symm
      rw [if_pos rfl, if_pos ⟨trivial, by rw [at_]; rfl, present⟩]
      simp
    · rw [if_neg same, if_neg]
      · rfl
      · rintro ⟨_, looks, _⟩
        rw [at_] at looks
        cases looks
        exact same rfl

theorem step_course (step : step cfg s action = some t) (course : s.Course consumer job)
    (after : t.Dispatching job) (listed : consumer ∈ t.consumers)
    (other : consumer.fd ≠ job.fileobj) (accepts : consumer.accepts job.message) :
    t.Course consumer job := by
  have move := step_moves step
  have nodup : s.consumers.Nodup := course.registry.distinct.of_map
  refine ⟨move.registry course.registry, move.ledger course.ledger,
    move.settled course.dispatching after course.rx_apart course.settled, after, listed, ?_, ?_, ?_⟩
  · intro target looks same
    rcases move.next_cases course.dispatching after with ⟨_, looking, _⟩ |
      ⟨_, _, _, _, peer, found, looked | ⟨looked, _⟩⟩ | ⟨_, _, _, _, looked⟩
    · exact course.looking target (looking ▸ looks) same
    · obtain rfl : peer = target := Option.some.inj (looked.symm.trans looks)
      exact List.inj_on_of_nodup_map course.registry.distinct (List.mem_of_getElem? found)
        course.listed same
    · rw [looked] at looks
      contradiction
    · rw [looked] at looks
      contradiction
  · intro looks ahead
    rcases move.next_cases course.dispatching after with ⟨next, looking, _⟩ |
      ⟨_, same, _, next, peer, found, looked | ⟨looked, _⟩⟩ | ⟨_, _, _, _, looked⟩
    · exact course.apart (looking ▸ looks) ((move.ahead_iff course listed next).mp ahead).1
    · rw [same, next, Cursor.mem_drop_succ_iff nodup] at ahead
      exact ahead.2 (found.trans (looked.symm.trans looks))
    · rw [looked] at looks
      contradiction
    · rw [looked] at looks
      contradiction
  · intro awaited
    obtain ⟨before, _, unlooked⟩ :=
      (move.awaited_iff course after listed other accepts).mp awaited
    rw [step_times step course, course.waiting before, if_neg]
    exact fun looked => unlooked ⟨looked.1, looked.2.1⟩

/-- `consumer` is still to come, or was handed the frame once. -/
def Attended (consumer : Consumer Fd) (job : Job Fd) (s : Server Fd) : Prop :=
  s.Awaited consumer ∨ s.times consumer job = 1

section Step
variable (step : step cfg s action = some t) (course : s.Course consumer job)
  (after : t.Dispatching job) (listed : consumer ∈ t.consumers)
  (other : consumer.fd ≠ job.fileobj) (accepts : consumer.accepts job.message)

include step course after listed other accepts

/-- A dispatch does not come back to a consumer that it has missed. -/
theorem step_attended (attended : t.Attended consumer job) : s.Attended consumer job := by
  rcases attended with awaited | once
  · exact Or.inl (((step_moves step).awaited_iff course after listed other accepts).mp awaited).1
  · by_cases looked : s.tx.looking = some consumer
    · exact Or.inl (Or.inr looked)
    · rw [step_times step course, if_neg fun handed => looked handed.2.1, Nat.add_zero] at once
      exact Or.inr once

/-- A statement keeps the consumer attended exactly when it neither overtakes nor
abandons it. -/
theorem step_reaches (attended : s.Attended consumer job) :
    t.Attended consumer job ↔ s.Reaches consumer action := by
  have awaits := (step_moves step).awaited_iff course after listed other accepts
  have times := step_times step course
  constructor
  · intro still
    constructor
    · intro overtakes
      have before : s.Awaited consumer :=
        Or.inl (List.mem_iff_getElem?.mpr ⟨0, by simpa using overtakes.1⟩)
      rcases still with awaited | once
      · exact (awaits.mp awaited).2.1 overtakes
      · have elsewhere : s.tx.looking ≠ some consumer :=
          fun looks => course.not_overtakes_looking looks overtakes
        rw [times, course.waiting before, if_neg fun handed => elsewhere handed.2.1] at once
        omega
    · rintro ⟨rfl, looks, absent⟩
      rcases still with awaited | once
      · exact (awaits.mp awaited).2.2 ⟨rfl, looks⟩
      · rw [times, course.waiting (Or.inr looks), if_neg (by simp [absent])] at once
        omega
  · rintro ⟨passed, kept⟩
    rcases attended with awaited | once
    · by_cases looked : action = .tx ∧ s.tx.looking = some consumer
      · have present : s.consumerIo consumer.fd = true := by
          by_contra absent
          exact kept ⟨looked.1, looked.2, Bool.eq_false_iff.mpr absent⟩
        right
        rw [times, course.waiting awaited, if_pos ⟨looked.1, looked.2, present⟩]
      · exact Or.inl (awaits.mpr ⟨awaited, passed, looked⟩)
    · right
      have unlooked : s.tx.looking ≠ some consumer := by
        intro looks
        rw [course.waiting (Or.inr looks)] at once
        contradiction
      rw [times, once, if_neg fun handed => unlooked handed.2.1]

end Step

theorem Ledger.settled_fresh (ledger : s.Ledger) {job : Job Fd} (begins : s.tx = .advance job 0)
    (fd : Fd) : s.Settled fd job := by
  obtain ⟨unhanded, unserved⟩ := ledger.fresh job begins fd
  simp only [Settled, List.count_eq_zero.mpr unhanded, List.count_eq_zero.mpr unserved, offering,
    begins, reduceCtorEq, if_false]

/-- A consumer that stays in the list for a whole dispatch, is not the sender and whose
filters match is handed the frame exactly once, sent or queued, exactly when no consumer
behind the index is removed while it is the next one, and its IO state is still there when
it is looked up. -/
theorem dispatch_once_iff {before : List (Action Fd)} {index : Nat}
    (distinct : (peers.map Consumer.fd).Nodup)
    (reached : run (step cfg) (start cfg peers) before = some s) (begins : s.tx = .advance job 0)
    (path : run (step cfg) s actions = some t)
    (during : Throughout (step cfg) (fun s => s.Dispatching job ∧ consumer ∈ s.consumers) s actions)
    (ends : t.tx = .advance job index) (past : t.consumers[index]? = none)
    (other : consumer.fd ≠ job.fileobj) (accepts : consumer.accepts job.message) :
    (t.traffic consumer.fd).served.count job.message = 1 ↔
      Along (step cfg) (Reaches consumer) s actions := by
  obtain ⟨registry, ledger⟩ : s.Registry ∧ s.Ledger :=
    invariant_run (I := fun s => s.Registry ∧ s.Ledger)
      (fun s action t kept _ step =>
        ⟨(step_moves step).registry kept.1, (step_moves step).ledger kept.2⟩)
      ⟨.start distinct, .start cfg peers⟩ along_true reached
  have course : s.Course consumer job := {
    registry
    ledger
    settled := ledger.settled_fresh begins consumer.fd
    dispatching := during.head.1
    listed := during.head.2
    looking := by simp [begins, TxPoint.looking]
    apart := by simp [begins, TxPoint.looking]
    waiting := fun _ => List.count_eq_zero.mpr (ledger.fresh job begins consumer.fd).1 }
  have awaited : s.Awaited consumer := by
    left
    rw [begins]
    exact during.head.2
  have preserved (s : Server Fd) (action : Action Fd) (t : Server Fd)
      (course : s.Course consumer job)
      (next : ∀ t, step cfg s action = some t → t.Dispatching job ∧ consumer ∈ t.consumers)
      (step : step cfg s action = some t) : t.Course consumer job :=
    step_course step course (next t step).1 (next t step).2 other accepts
  have final : t.Attended consumer job ↔ (t.traffic consumer.fd).served.count job.message = 1 := by
    have settled : t.times consumer job = (t.traffic consumer.fd).served.count job.message := by
      have kept : t.Course consumer job := invariant_run preserved course during.along_next path
      simpa [Settled, times, offering, ends] using kept.settled
    rw [← settled]
    have gone : ¬ t.Awaited consumer := by
      simp only [Awaited, ends, TxPoint.next, TxPoint.looking]
      rw [List.drop_eq_nil_of_le (List.getElem?_eq_none_iff.mp past)]
      simp
    exact or_iff_right gone
  rw [← final, ← throughout_iff_along preserved (fun s action t course next step attended =>
    step_reaches step course (next t step).1 (next t step).2 other accepts attended)
    course (Or.inl awaited) during.along_next]
  constructor
  · exact throughout_of_last preserved (fun s action t course next step attended =>
      step_attended step course (next t step).1 (next t step).2 other accepts attended)
      course during.along_next path
  · exact fun all => all.last path

/-- The read of consumer 0 fails, and consumer 2 sends a frame. -/
def disconnectRun : List (Action Nat) :=
  [.tx, .txSelect [.ready 0 true false, .ready 2 true false], .tx, .txRecv none, .tx, .tx, .tx,
    .txRecv (some ⟨0x123, [1], false⟩)]

/-- The RX loop removes consumer 0 before the dispatch has come to it. -/
def removedAhead : List (Action Nat) :=
  [.rx, .rx, .rx, .rx, .tx, .tx, .tx, .tx, .txCall .wouldBlock, .tx, .tx]

theorem dispatch_once_iff_ahead :
    ∃ s t job index, run (step .realBus) (start .realBus [⟨0, none⟩, ⟨2, none⟩, ⟨1, none⟩])
        disconnectRun = some s ∧ s.tx = .advance job 0 ∧
      run (step .realBus) s removedAhead = some t ∧ t.tx = .advance job index ∧
      (t.traffic 1).served.count job.message = 1 := by
  obtain ⟨s, t, job, index, reached, begins, path, during, ends, past, sender, accepts, reaches⟩ :
      ∃ s t job index, run (step .realBus) (start .realBus [⟨0, none⟩, ⟨2, none⟩, ⟨1, none⟩])
          disconnectRun = some s ∧ s.tx = .advance job 0 ∧
        run (step .realBus) s removedAhead = some t ∧
        Throughout (step .realBus) (fun s => s.Dispatching job ∧ ⟨1, none⟩ ∈ s.consumers) s
          removedAhead ∧
        t.tx = .advance job index ∧ t.consumers[index]? = none ∧ job.fileobj = 2 ∧
        (⟨1, none⟩ : Consumer Nat).accepts job.message ∧
        Along (step .realBus) (Reaches ⟨1, none⟩) s removedAhead := by
    refine ⟨_, _, _, _, rfl, rfl, rfl, ?_, rfl, rfl, rfl, rfl, ?_⟩
    · decide +kernel
    · decide +kernel
  refine ⟨s, t, job, index, reached, begins, path, ends, ?_⟩
  exact (dispatch_once_iff (by decide) reached begins path during ends past
    (by simp [sender]) accepts).mpr reaches

/-- The RX loop removes consumer 0 when the dispatch has passed it and consumer 1 is next. -/
def removedBehind : List (Action Nat) := [.rx, .rx, .rx, .tx, .tx, .rx, .tx]

theorem dispatch_skips :
    ∃ s t job index, run (step .realBus) (start .realBus [⟨0, none⟩, ⟨1, none⟩, ⟨2, none⟩])
        disconnectRun = some s ∧ s.tx = .advance job 0 ∧
      run (step .realBus) s removedBehind = some t ∧
      Throughout (step .realBus) (fun s => s.Dispatching job ∧ ⟨1, none⟩ ∈ s.consumers) s
        removedBehind ∧
      t.tx = .advance job index ∧ t.consumers[index]? = none ∧ job.fileobj = 2 ∧
      (⟨1, none⟩ : Consumer Nat).accepts job.message ∧
      (t.traffic 1).served.count job.message = 0 := by
  refine ⟨_, _, _, _, rfl, rfl, rfl, ?_, rfl, rfl, rfl, rfl, rfl⟩
  decide +kernel

end Sockcan.Server
