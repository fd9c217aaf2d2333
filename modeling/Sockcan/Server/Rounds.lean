import Sockcan.Server.Dispatch
import Sockcan.Server.Loops

/-! How long a loop can stay away from what it waits for: the RX loop from `recv`, the TX loop
from `select`. Ranks bound the statements that are left, and credits what the other threads
can add to them. -/
namespace Sockcan.Server
open Protocol Transition
variable {Fd : Type}

section Ranks

/-- The socket calls that are left of one send, at most. -/
def callsLeft (progress : Progress) : Nat :=
  (msgSize - progress.sent) * (streamSendAttempts + 1) + progress.remainingAttempts

/-- The socket calls of a send from its start. -/
def sendRank : Nat := callsLeft (.start streamSendAttempts)

/-- The statements that are left of handing a frame to one consumer. The RX loop has some to
take after the last of these, which are counted here. -/
def Offer.rank : Offer → Nat
  | .test => sendRank + 5
  | .countDropped => 2
  | .append => 1
  | .send progress => callsLeft progress + 4
  | .queueCount => 3
  | .queue => 2

def OfferResult.rank : OfferResult → Nat
  | .next point => point.rank
  | .queued => 1
  | .done | .raised _ => 0

def answerRank : Except Ending SendStep → Nat
  | .ok (.more next) => callsLeft next + 4
  | .ok .wouldBlock | .ok .disconnected | .ok .failed => 3
  | .ok .sent | .error _ => 0

/-- The statements that one consumer costs a dispatch. -/
def consumerRank : Nat := sendRank + 7

/-- The statements of the cleanup, and the one that gets there. -/
def cleanupRank (s : Server Fd) : Nat :=
  2 * s.closedConnections.length + 3 * s.deadConsumerFds.length + s.consumers.length + 6

def dispatchRank (s : Server Fd) (index : Nat) : Nat :=
  (s.consumers.length - index) * consumerRank

def rxRank (s : Server Fd) : Nat :=
  match s.rx with
  | .removeClosed =>
    2 * s.closedConnections.length + 3 * s.deadConsumerFds.length + s.consumers.length + 5
  | .deleteClosed _ =>
    2 * (s.closedConnections.length - 1) + 3 * s.deadConsumerFds.length + s.consumers.length + 6
  | .takeDead => 3 * s.deadConsumerFds.length + s.consumers.length + 4
  | .popDead _ => 3 * s.deadConsumerFds.length + s.consumers.length + 6
  | .removeDead _ => 3 * s.deadConsumerFds.length + s.consumers.length + 5
  | .refresh => s.consumers.length + 3
  | .aggregate index _ => s.consumers.length - index + 2
  | .install _ => 1
  | .advance _ index => s.dispatchRank index + s.cleanupRank
  | .lookup _ index _ => s.dispatchRank index + (sendRank + 6) + s.cleanupRank
  | .offer _ index _ point => s.dispatchRank index + point.rank + s.cleanupRank
  | .wake _ index => s.dispatchRank index + 1 + s.cleanupRank
  | .close _ index _ => s.dispatchRank index + 3 + s.cleanupRank
  | .recv | .ended _ => 0

/-- The drain of a backlog of so many frames. -/
def drainRank (queued : Nat) : Nat := queued * (sendRank + 4) + 4

/-- The events that are still to be handled, but for the one in hand. -/
def TxPoint.events : TxPoint Fd → List (Event Fd)
  | .whileRunning | .select | .ended _ => []
  | .nextEvent events | .readKillSwitch events | .checkRunning events | .reportDead _ events
  | .recv _ _ events | .unregister _ events | .drain _ events | .peek _ events
  | .drainSend _ _ _ events | .popleft _ _ events | .settle _ events => events
  | .advance job _ | .lookup job _ _ | .offer job _ _ _ | .busSend job => job.rest

/-- The events of a selection, each with a dispatch and a full backlog to drain. -/
def eventsRank (cfg : Config) (s : Server Fd) (events : List (Event Fd)) : Nat :=
  events.length * (s.dispatchRank 0 + drainRank cfg.backlogSize + 4) + 2

def afterReadRank (cfg : Config) (s : Server Fd) (events : List (Event Fd)) : Nat :=
  drainRank cfg.backlogSize + s.eventsRank cfg events

def txRank (cfg : Config) (s : Server Fd) : Nat :=
  match s.tx with
  | .whileRunning => 1
  | .select | .ended _ => 0
  | .nextEvent events => s.eventsRank cfg events
  | .readKillSwitch events => s.eventsRank cfg events + 2
  | .checkRunning events => s.eventsRank cfg events + 1
  | .recv _ _ events => s.dispatchRank 0 + 3 + s.afterReadRank cfg events
  | .unregister _ events => s.eventsRank cfg events + 2
  | .reportDead _ events => s.eventsRank cfg events + 1
  | .advance job index => s.dispatchRank index + 2 + s.afterReadRank cfg job.rest
  | .lookup job index _ =>
    s.dispatchRank index + (sendRank + 6) + 2 + s.afterReadRank cfg job.rest
  | .offer job index _ point =>
    s.dispatchRank index + point.rank + 2 + s.afterReadRank cfg job.rest
  | .busSend job => 1 + s.afterReadRank cfg job.rest
  | .drain fd events => drainRank (s.io fd).outbound.length + s.eventsRank cfg events
  | .peek fd events =>
    (s.io fd).outbound.length * (sendRank + 4) + 3 + s.eventsRank cfg events
  | .drainSend fd _ progress events =>
    callsLeft progress + 2 + drainRank ((s.io fd).outbound.length - 1) + s.eventsRank cfg events
  | .popleft fd _ events =>
    1 + drainRank ((s.io fd).outbound.length - 1) + s.eventsRank cfg events
  | .settle _ events => 1 + s.eventsRank cfg events

/-- The statements that are left to a loop before it waits again. -/
def remaining (cfg : Config) (s : Server Fd) : Loop → Nat
  | .rx => s.rxRank
  | .tx => s.txRank cfg

/-- What one statement of another thread can add: one more consumer for each dispatch, one
more frame to drain, one more dead descriptor. -/
def credit (s : Server Fd) : Loop → Nat
  | .rx => consumerRank + 4
  | .tx => (s.tx.events.length + 2) * consumerRank

/-- The loop comes to what it waits for. -/
def Action.waits : Loop → Action Fd → Bool
  | .rx, .rxRecv _ | .tx, .txSelect _ => true
  | _, _ => false

def Action.own (loop : Loop) (action : Action Fd) : Bool := decide (action.loop = some loop)

end Ranks

section Sending
variable {progress : Progress} {outcome : CallOutcome}

theorem sendCall_lowers {offered : Nat} (possible : outcome.Possible offered) :
    answerRank (.ok (sendCall streamSendAttempts progress outcome)) <
      callsLeft progress + 4 := by
  cases outcome with
  | accepted count =>
    obtain ⟨some_taken, _⟩ := possible
    simp only [sendCall]
    split
    · next short =>
      simp only [answerRank, callsLeft, streamSendAttempts]
      omega
    · exact Nat.succ_pos _
  | wouldBlock =>
    simp only [sendCall]
    split
    · exact Nat.le_add_left 4 _
    · split
      · exact Nat.le_add_left 4 _
      · next more =>
        simp only [answerRank, callsLeft]
        omega
  | disconnected | failed => exact Nat.le_add_left 4 _

variable [DecidableEq Fd] {cfg : Config} {s t : Server Fd} {fd : Fd} {message : Relayed Fd}

theorem Sends.lowers {answer : Except Ending SendStep}
    (call : Sends s fd message progress outcome t answer) :
    answerRank answer < callsLeft progress + 4 := by
  cases call with
  | unpacked => exact Nat.succ_pos _
  | call _ possible => exact sendCall_lowers possible

theorem Offers.lowers {point : Offer} {result : OfferResult}
    (offer : Offers cfg s fd message point t result) : result.rank < point.rank := by
  cases offer with
  | direct | behind => simp [OfferResult.rank, Offer.rank, sendRank]
  | _ => simp [OfferResult.rank, Offer.rank]

end Sending

section Rx

theorem rxRank_afterOffer (s : Server Fd) (message : Relayed Fd) (index : Nat)
    (consumer : Consumer Fd) (result : OfferResult) :
    rxRank { s with rx := .afterOffer message index consumer result } ≤
      s.dispatchRank index + result.rank + s.cleanupRank := by
  cases result with
  | raised => exact Nat.zero_le _
  | _ => exact Nat.le_refl _

theorem rxRank_afterSend (s : Server Fd) (message : Relayed Fd) (index : Nat)
    (consumer : Consumer Fd) (answer : Except Ending SendStep) :
    rxRank { s with rx := .afterSend message index consumer answer } ≤
      s.dispatchRank index + answerRank answer + s.cleanupRank := by
  cases answer with
  | error => exact Nat.zero_le _
  | ok step => cases step <;> exact Nat.le_refl _

/-- The next consumer is paid for. -/
theorem dispatchRank_succ {s : Server Fd} {index : Nat} {consumer : Consumer Fd}
    (next : s.consumers[index]? = some consumer) :
    s.dispatchRank (index + 1) + consumerRank = s.dispatchRank index := by
  have inside : index < s.consumers.length := (List.getElem?_eq_some_iff.mp next).1
  have one_less : s.consumers.length - index = s.consumers.length - (index + 1) + 1 := by omega
  rw [dispatchRank, dispatchRank, one_less, Nat.add_mul, Nat.one_mul]

variable [DecidableEq Fd] {cfg : Config} {s t : Server Fd} {action : Action Fd}

theorem removeConsumer_length (s : Server Fd) (fd : Fd) :
    (s.removeConsumer fd).consumers.length ≤ s.consumers.length :=
  List.eraseP_sublist.length_le

theorem Cleans.lowers (move : Cleans s t) : t.rxRank < s.rxRank := by
  cases move with
  | noneClosed at_ | noneDead at_ | noRefresh at_ | refresh at_ | install at_ =>
    simp only [rxRank, at_]
    omega
  | removeMissing at_ | deleteMissing at_ =>
    simp only [rxRank, at_]
    omega
  | @remove consumer rest at_ closed =>
    have fewer := s.removeConsumer_length consumer.fd
    change 2 * (s.closedConnections.length - 1) + 3 * s.deadConsumerFds.length +
      (s.removeConsumer consumer.fd).consumers.length + 6 < _
    simp only [rxRank, at_, closed, List.length_cons]
    omega
  | delete at_ =>
    simp only [rxRank, at_, List.length_tail, setConsumerIo]
    omega
  | takeDead at_ dead =>
    simp only [rxRank, at_, dead, List.length_cons]
    omega
  | popDead at_ =>
    simp only [rxRank, at_, setConsumerIo]
    omega
  | @removeDead fd at_ =>
    have fewer := s.removeConsumer_length fd
    change 3 * s.deadConsumerFds.length + (s.removeConsumer fd).consumers.length + 4 < _
    simp only [rxRank, at_]
    omega
  | aggregate at_ more =>
    obtain ⟨consumer, canFilters, next, _, _, rfl⟩ := aggregateNext_more more
    have inside := (List.getElem?_eq_some_iff.mp next).1
    simp only [rxRank, at_]
    omega
  | aggregated at_ =>
    simp only [rxRank, at_]
    omega

theorem RxRelays.lowers (move : RxRelays cfg s action t) (goes : ¬ action.waits .rx) :
    t.rxRank < s.rxRank := by
  cases move with
  | recvError | recv => exact absurd rfl goes
  | finish at_ =>
    simp only [rxRank, at_, cleanupRank]
    omega
  | @accept message index consumer at_ next =>
    have paid := dispatchRank_succ next
    change s.dispatchRank (index + 1) + (sendRank + 6) + s.cleanupRank < _
    simp only [rxRank, at_, ← paid, consumerRank]
    omega
  | @skip message index consumer at_ next =>
    have paid := dispatchRank_succ next
    change s.dispatchRank (index + 1) + s.cleanupRank < _
    simp only [rxRank, at_, ← paid, consumerRank]
    omega
  | @hand message index consumer at_ =>
    change s.dispatchRank index + (sendRank + 5) + s.cleanupRank < _
    simp only [rxRank, at_]
    omega
  | handMissing at_ =>
    simp only [rxRank, at_]
    omega
  | @offer message index consumer point after result at_ offer =>
    obtain ⟨consumers, _, closed, dead⟩ := offer.registries
    refine Nat.lt_of_le_of_lt (rxRank_afterOffer after message index consumer result) ?_
    have less := offer.lowers
    simp only [rxRank, at_, dispatchRank, cleanupRank, consumers, closed, dead]
    omega
  | @call message index consumer progress outcome after answer at_ call =>
    obtain ⟨consumers, _, _, closed, dead⟩ := call.registries
    refine Nat.lt_of_le_of_lt (rxRank_afterSend after message index consumer answer) ?_
    have less := call.lowers
    simp only [rxRank, at_, dispatchRank, cleanupRank, consumers, closed, dead, Offer.rank]
    omega
  | @wake message index at_ =>
    change s.dispatchRank index + s.cleanupRank < _
    simp only [rxRank, at_]
    omega
  | close at_ =>
    simp only [rxRank, at_, cleanupRank, dispatchRank, List.length_append, List.length_singleton]
    omega

omit [DecidableEq Fd] in
/-- One more consumer. -/
theorem dispatchRank_le (more : t.consumers.length ≤ s.consumers.length + 1) (index : Nat) :
    t.dispatchRank index ≤ s.dispatchRank index + consumerRank := by
  have one_more : t.consumers.length - index ≤ s.consumers.length - index + 1 := by omega
  have paid := Nat.mul_le_mul_right consumerRank one_more
  rwa [Nat.add_mul, Nat.one_mul] at paid

omit [DecidableEq Fd] in
theorem rxRank_le (rx : t.rx = s.rx) (closed : t.closedConnections = s.closedConnections)
    (consumers : t.consumers.length ≤ s.consumers.length + 1)
    (dead : t.deadConsumerFds.length ≤ s.deadConsumerFds.length + 1) :
    t.rxRank ≤ s.rxRank + (consumerRank + 4) := by
  simp only [rxRank, rx, cleanupRank, closed]
  cases s.rx with
  | advance _ index | lookup _ index | offer _ index | wake _ index | close _ index =>
    have paid := dispatchRank_le consumers index
    dsimp only
    omega
  | _ =>
    dsimp only
    omega

theorem Moves.consumers_length (move : Moves cfg s action t) :
    t.consumers.length ≤ s.consumers.length + 1 := by
  rcases move.consumers_cases with ⟨same, _⟩ | ⟨fd, _, _, _, removed⟩ | ⟨_, _, _, _, _, _, added⟩
  · rw [same]
    exact Nat.le_succ _
  · rw [removed]
    exact Nat.le_succ_of_le (s.removeConsumer_length fd)
  · rw [added, List.length_append, List.length_singleton]

theorem Moves.dead_length (move : Moves cfg s action t) (other : action.loop ≠ some .rx) :
    t.deadConsumerFds.length ≤ s.deadConsumerFds.length + 1 := by
  cases move with
  | clean => exact absurd rfl other
  | rxRelay move => cases move <;> exact absurd rfl other
  | giveUp move => cases move with
    | reportDead => simp
    | _ => exact Nat.le_succ _
  | select move => exact Nat.le_succ_of_le (Nat.le_of_eq
      (congrArg (fun s => s.deadConsumerFds.length) move.frame :))
  | txRelay move => exact Nat.le_succ_of_le (Nat.le_of_eq
      (congrArg (fun s => s.deadConsumerFds.length) move.frame :))
  | drain move => exact Nat.le_succ_of_le (Nat.le_of_eq
      (congrArg (fun s => s.deadConsumerFds.length) move.frame :))
  | listen move => exact Nat.le_succ_of_le (Nat.le_of_eq
      (congrArg (fun s => s.deadConsumerFds.length) move.frame :))
  | stop move => exact Nat.le_succ_of_le (Nat.le_of_eq
      (congrArg (fun s => s.deadConsumerFds.length) move.frame :))

theorem Moves.rx_raises (move : Moves cfg s action t) (other : action.loop ≠ some .rx) :
    t.rxRank ≤ s.rxRank + (consumerRank + 4) := by
  have same := move.rxLoop_of_loop other
  exact rxRank_le (congrArg RxLoop.point same) (congrArg RxLoop.closedConnections same)
    move.consumers_length (move.dead_length other)

theorem Moves.rx_lowers (move : Moves cfg s action t) (own : action.loop = some .rx)
    (goes : ¬ action.waits .rx) : t.rxRank < s.rxRank := by
  cases move with
  | clean move => exact move.lowers
  | rxRelay move => exact move.lowers goes
  | select move => cases move <;> cases own
  | giveUp move => cases move <;> cases own
  | txRelay move => cases move <;> cases own
  | drain move => cases move <;> cases own
  | listen move => cases move <;> cases own
  | stop => cases own

end Rx

section Tx
variable {cfg : Config} {s t : Server Fd}

/-- No backlog outgrows its deque. -/
def Bounded (cfg : Config) (s : Server Fd) : Prop :=
  ∀ fd, (s.io fd).outbound.length ≤ cfg.backlogSize

/-- What may become of a backlog in one statement. -/
def Queues (cfg : Config) (before after : ConsumerIO Fd) : Prop :=
  after.outbound.length ≤ before.outbound.length ∨
    ∃ message, after.outbound = Deque.append cfg.backlogSize before.outbound message

theorem txRank_afterRead (job : Job Fd) (bounded : s.Bounded cfg) :
    txRank cfg { s with tx := job.afterRead } ≤ s.afterReadRank cfg job.rest := by
  have fits := Nat.mul_le_mul_right (sendRank + 4) (bounded job.fileobj)
  unfold Job.afterRead
  split
  · exact Nat.add_le_add_right (Nat.add_le_add_right fits 4) _
  · exact Nat.le_add_left _ _

theorem txRank_afterOffer (s : Server Fd) (job : Job Fd) (index : Nat) (consumer : Consumer Fd)
    (result : OfferResult) :
    txRank cfg { s with tx := .afterOffer job index consumer result } ≤
      s.dispatchRank index + result.rank + 2 + s.afterReadRank cfg job.rest := by
  cases result with
  | raised => exact Nat.zero_le _
  | queued => exact Nat.add_le_add_right (Nat.add_le_add_right (Nat.le_succ _) 2) _
  | _ => exact Nat.le_refl _

theorem txRank_afterSend (s : Server Fd) (job : Job Fd) (index : Nat) (consumer : Consumer Fd)
    (answer : Except Ending SendStep) :
    txRank cfg { s with tx := .afterSend job index consumer answer } ≤
      s.dispatchRank index + answerRank answer + 2 + s.afterReadRank cfg job.rest := by
  cases answer with
  | error => exact Nat.zero_le _
  | ok step => cases step with
    | disconnected | failed =>
      exact Nat.add_le_add_right (Nat.add_le_add_right (Nat.le_add_right _ 3) 2) _
    | _ => exact Nat.le_refl _

theorem txRank_afterDrainSend (s : Server Fd) (fd : Fd) (head : Relayed Fd)
    (events : List (Event Fd)) (answer : Except Ending SendStep) {left : Nat}
    (lowers : answerRank answer < left + 4) :
    txRank cfg { s with tx := .afterDrainSend fd head events answer } <
      left + 2 + drainRank ((s.io fd).outbound.length - 1) + s.eventsRank cfg events := by
  cases answer with
  | error =>
    change 0 < _
    omega
  | ok step => cases step with
    | more next =>
      change callsLeft next + 2 + drainRank ((s.io fd).outbound.length - 1) +
        s.eventsRank cfg events < _
      simp only [answerRank] at lowers
      omega
    | sent =>
      change 1 + drainRank ((s.io fd).outbound.length - 1) + s.eventsRank cfg events < _
      omega
    | wouldBlock =>
      change 1 + s.eventsRank cfg events < _
      simp only [drainRank]
      omega
    | disconnected | failed =>
      change s.eventsRank cfg events + 2 < _
      simp only [drainRank]
      omega

theorem eventsRank_cons (event : Event Fd) (rest : List (Event Fd)) :
    s.eventsRank cfg (event :: rest) =
      s.eventsRank cfg rest + (s.dispatchRank 0 + drainRank cfg.backlogSize + 4) := by
  simp only [eventsRank, List.length_cons, Nat.add_mul, Nat.one_mul]
  omega

variable [DecidableEq Fd] {action : Action Fd}

theorem Bounded.start (cfg : Config) (peers : List (Consumer Fd)) :
    (start cfg peers).Bounded cfg := fun _ => Nat.zero_le _

theorem queues_setIo {fd : Fd} {io : ConsumerIO Fd} (here : Queues cfg (s.io fd) io) (other : Fd) :
    Queues cfg (s.io other) ((s.setIo fd io).io other) := by
  by_cases same : other = fd
  · subst same
    simpa [setIo] using here
  · simp [Queues, setIo, same]

theorem Offers.queues {fd : Fd} {message : Relayed Fd} {point : Offer} {result : OfferResult}
    (offer : Offers cfg s fd message point t result) (other : Fd) :
    Queues cfg (s.io other) (t.io other) := by
  cases offer with
  | direct | behind => exact Or.inl (Nat.le_refl _)
  | countDropped | queueCount =>
    rw [noteDroppedFrame_eq]
    refine queues_setIo (Or.inl ?_) other
    exact Nat.le_refl _
  | append | queue | queueMissing => exact queues_setIo (Or.inr ⟨message, rfl⟩) other

/-- A statement queues one frame for a consumer at most. -/
theorem Moves.queues (move : Moves cfg s action t) (fd : Fd) :
    Queues cfg (s.io fd) (t.io fd) := by
  have same (unchanged : t.io = s.io) : Queues cfg (s.io fd) (t.io fd) :=
    Or.inl (Nat.le_of_eq (by rw [unchanged]))
  cases move with
  | clean move => exact same (congrArg Server.io move.frame :)
  | rxRelay move => cases move with
    | offer _ offer => exact offer.queues fd
    | call _ call => exact same (congrArg Server.io call.frame :)
    | _ => exact same rfl
  | select move => exact same (congrArg Server.io move.frame :)
  | giveUp move => exact same (congrArg Server.io move.frame :)
  | txRelay move => cases move with
    | offer _ offer => exact offer.queues fd
    | call _ call => exact same (congrArg Server.io call.frame :)
    | _ => exact same rfl
  | drain move => cases move with
    | call _ call => exact same (congrArg Server.io call.frame :)
    | pop _ queued => exact queues_setIo (Or.inl (by simp [queued])) fd
    | settleEmpty =>
      refine queues_setIo (Or.inl ?_) fd
      exact Nat.le_refl _
    | _ => exact same rfl
  | listen move => cases move with
    | publish => exact queues_setIo (Or.inl (Nat.zero_le _)) fd
    | _ => exact same rfl
  | stop move => exact same (congrArg Server.io move.frame :)

theorem Moves.bounded (move : Moves cfg s action t) (bounded : s.Bounded cfg) :
    t.Bounded cfg := by
  intro fd
  rcases move.queues fd with fewer | ⟨message, queued⟩
  · exact fewer.trans (bounded fd)
  · rw [queued]
    exact Deque.append_length_le message (bounded fd)

theorem Moves.outbound_length (move : Moves cfg s action t) (fd : Fd) :
    (t.io fd).outbound.length ≤ (s.io fd).outbound.length + 1 := by
  rcases move.queues fd with fewer | ⟨message, queued⟩
  · exact Nat.le_succ_of_le fewer
  · rw [queued]
    simpa using (Deque.append_sublist cfg.backlogSize (s.io fd).outbound message).length_le

omit [DecidableEq Fd] in
theorem Selects.lowers (move : Selects s action t) (bounded : s.Bounded cfg)
    (goes : ¬ action.waits .tx) : t.txRank cfg < s.txRank cfg := by
  cases move with
  | select => exact absurd rfl goes
  | running at_ | stopped at_ =>
    simp only [txRank, at_]
    exact Nat.one_pos
  | round at_ =>
    simp only [txRank, at_, eventsRank]
    omega
  | leave at_ =>
    simp only [txRank, at_, eventsRank]
    omega
  | resume at_ | readKillSwitch at_ =>
    simp only [txRank, at_]
    exact Nat.lt_succ_self _
  | @killSwitch rest at_ =>
    change s.eventsRank cfg rest + 2 < _
    simp only [txRank, at_, eventsRank_cons]
    omega
  | @neither fd rest at_ =>
    change s.eventsRank cfg rest < _
    simp only [txRank, at_, eventsRank_cons]
    omega
  | @readable fd writable rest at_ =>
    change s.dispatchRank 0 + 3 + s.afterReadRank cfg rest < _
    simp only [txRank, at_, eventsRank_cons, afterReadRank]
    omega
  | @writable fd rest at_ =>
    have fits := Nat.mul_le_mul_right (sendRank + 4) (bounded fd)
    change drainRank (s.io fd).outbound.length + s.eventsRank cfg rest < _
    simp only [txRank, at_, eventsRank_cons, drainRank]
    omega

theorem GivesUp.lowers (move : GivesUp s action t) : t.txRank cfg < s.txRank cfg := by
  cases move with
  | @recvError fd writable events at_ =>
    change s.eventsRank cfg events + 2 < _
    simp only [txRank, at_, afterReadRank]
    omega
  | @unregister fd events at_ =>
    change s.eventsRank cfg events + 1 < _
    simp only [txRank, at_]
    exact Nat.lt_succ_self _
  | unregisterMissing at_ =>
    simp only [txRank, at_]
    exact Nat.succ_pos _
  | @reportDead fd events at_ =>
    change s.eventsRank cfg events < _
    simp only [txRank, at_]
    exact Nat.lt_succ_self _

theorem TxRelays.lowers (move : TxRelays cfg s action t) (bounded : s.Bounded cfg) :
    t.txRank cfg < s.txRank cfg := by
  cases move with
  | @recv fd writable events frame at_ =>
    change s.dispatchRank 0 + 2 + s.afterReadRank cfg events < _
    simp only [txRank, at_]
    omega
  | @finish job index at_ =>
    have read := txRank_afterRead job bounded
    simp only [txRank, at_]
    cases cfg.virtual with
    | true =>
      change txRank cfg { s with tx := job.afterRead } < _
      omega
    | false =>
      change 1 + s.afterReadRank cfg job.rest < _
      omega
  | @self job index consumer at_ next | @skip job index consumer at_ next =>
    have paid := dispatchRank_succ next
    change s.dispatchRank (index + 1) + 2 + s.afterReadRank cfg job.rest < _
    simp only [txRank, at_, ← paid, consumerRank]
    omega
  | @accept job index consumer at_ next =>
    have paid := dispatchRank_succ next
    change s.dispatchRank (index + 1) + (sendRank + 6) + 2 + s.afterReadRank cfg job.rest < _
    simp only [txRank, at_, ← paid, consumerRank]
    omega
  | @hand job index consumer at_ =>
    change s.dispatchRank index + (sendRank + 5) + 2 + s.afterReadRank cfg job.rest < _
    simp only [txRank, at_]
    omega
  | @handMissing job index consumer at_ =>
    change s.dispatchRank index + 2 + s.afterReadRank cfg job.rest < _
    simp only [txRank, at_]
    omega
  | @offer job index consumer point after result at_ offer =>
    refine Nat.lt_of_le_of_lt (txRank_afterOffer after job index consumer result) ?_
    have less := offer.lowers
    simp only [txRank, at_, dispatchRank, afterReadRank, eventsRank, offer.registries.1]
    omega
  | @call job index consumer progress outcome after answer at_ call =>
    refine Nat.lt_of_le_of_lt (txRank_afterSend after job index consumer answer) ?_
    have less := call.lowers
    simp only [txRank, at_, dispatchRank, afterReadRank, eventsRank, call.registries.1, Offer.rank]
    omega
  | @bus job at_ =>
    have read := txRank_afterRead job bounded
    change txRank cfg { s with tx := job.afterRead } < _
    simp only [txRank, at_] at read ⊢
    omega
  | busError at_ =>
    simp only [txRank, at_]
    omega

theorem Drains.lowers {fd : Fd} {events : List (Event Fd)} (move : Drains s fd events action t) :
    t.txRank cfg < s.txRank cfg := by
  cases move with
  | drained at_ =>
    change 1 + s.eventsRank cfg events < _
    simp only [txRank, at_, drainRank]
    omega
  | find at_ =>
    change (s.io fd).outbound.length * (sendRank + 4) + 3 + s.eventsRank cfg events < _
    simp only [txRank, at_, drainRank]
    omega
  | @peek head rest at_ queued =>
    change sendRank + 2 + drainRank ((s.io fd).outbound.length - 1) + s.eventsRank cfg events < _
    simp only [txRank, at_, queued, drainRank, List.length_cons, Nat.add_sub_cancel, Nat.add_mul,
      Nat.one_mul]
    omega
  | peekEmpty at_ | popEmpty at_ | settleMissing at_ =>
    simp only [txRank, at_]
    omega
  | @call head progress outcome after answer at_ call =>
    have same : after.io = s.io := (congrArg Server.io call.frame :)
    refine Nat.lt_of_lt_of_le (txRank_afterDrainSend after fd head events answer call.lowers) ?_
    simp only [txRank, at_, same, eventsRank, dispatchRank, call.registries.1]
    exact Nat.le_refl _
  | @pop head first rest at_ queued =>
    have left : ((s.popleft fd first rest).io fd).outbound.length = rest.length := by
      simp [Server.popleft, setTraffic, setIo]
    change drainRank ((s.popleft fd first rest).io fd).outbound.length +
      s.eventsRank cfg events < _
    simp only [txRank, at_, left, queued, List.length_cons, Nat.add_sub_cancel]
    omega
  | settleEmpty at_ | settle at_ =>
    change s.eventsRank cfg events < _
    simp only [txRank, at_]
    omega

omit [DecidableEq Fd] in
theorem eventsRank_le (more : t.consumers.length ≤ s.consumers.length + 1)
    (events : List (Event Fd)) :
    t.eventsRank cfg events ≤ s.eventsRank cfg events + events.length * consumerRank := by
  have paid := Nat.mul_le_mul_left events.length (dispatchRank_le more 0)
  simp only [eventsRank, Nat.mul_add] at paid ⊢
  omega

theorem drainRank_le {before after : Nat} (more : after ≤ before + 1) :
    drainRank after ≤ drainRank before + consumerRank := by
  have paid := Nat.mul_le_mul_right (sendRank + 4) more
  simp only [drainRank, consumerRank, Nat.add_mul, Nat.one_mul] at paid ⊢
  omega

/-- One more consumer, and one more frame in each backlog. -/
theorem Moves.tx_raises (move : Moves cfg s action t) (other : action.loop ≠ some .tx) :
    t.txRank cfg ≤ s.txRank cfg + (s.tx.events.length + 2) * consumerRank := by
  have dispatches := dispatchRank_le move.consumers_length
  have waits (events : List (Event Fd)) :
      t.eventsRank cfg events ≤ s.eventsRank cfg events + events.length * consumerRank :=
    eventsRank_le move.consumers_length events
  have drains := fun fd => drainRank_le (move.outbound_length fd)
  rw [Nat.add_mul, Nat.mul_comm 2]
  simp only [txRank, move.tx_of_loop other, afterReadRank]
  cases s.tx with
  | whileRunning | select | ended => exact Nat.le_add_right _ _
  | nextEvent events | readKillSwitch events | checkRunning events | unregister _ events
  | reportDead _ events | settle _ events =>
    have wait := waits events
    simp only [TxPoint.events]
    omega
  | recv _ _ events =>
    have wait := waits events
    have dispatch := dispatches 0
    simp only [TxPoint.events]
    omega
  | advance job index | lookup job index | offer job index =>
    have wait := waits job.rest
    have dispatch := dispatches index
    simp only [TxPoint.events]
    omega
  | busSend job =>
    have wait := waits job.rest
    simp only [TxPoint.events]
    omega
  | drain fd events =>
    have wait := waits events
    have drain := drains fd
    simp only [TxPoint.events]
    omega
  | peek fd events =>
    have wait := waits events
    have drain := drains fd
    simp only [TxPoint.events, drainRank] at drain ⊢
    omega
  | drainSend fd _ _ events | popleft fd _ events =>
    have wait := waits events
    have left : (t.io fd).outbound.length - 1 ≤ (s.io fd).outbound.length - 1 + 1 := by
      have more := move.outbound_length fd
      omega
    have drain := drainRank_le left
    simp only [TxPoint.events]
    omega

end Tx

section KillSwitch

def TxPoint.reading : TxPoint Fd → Nat
  | .readKillSwitch _ => 1
  | _ => 0

theorem Job.events_afterRead (job : Job Fd) :
    job.afterRead.events.Sublist job.rest ∧ job.afterRead.reading = 0 := by
  unfold Job.afterRead
  split <;> exact ⟨.refl _, rfl⟩

theorem TxPoint.events_afterOffer (job : Job Fd) (index : Nat) (consumer : Consumer Fd)
    (result : OfferResult) :
    (TxPoint.afterOffer job index consumer result).events.Sublist job.rest ∧
      (TxPoint.afterOffer job index consumer result).reading = 0 := by
  cases result with
  | raised => exact ⟨List.nil_sublist _, rfl⟩
  | _ => exact ⟨.refl _, rfl⟩

theorem TxPoint.events_afterSend (job : Job Fd) (index : Nat) (consumer : Consumer Fd)
    (answer : Except Ending SendStep) :
    (TxPoint.afterSend job index consumer answer).events.Sublist job.rest ∧
      (TxPoint.afterSend job index consumer answer).reading = 0 := by
  cases answer with
  | error => exact ⟨List.nil_sublist _, rfl⟩
  | ok step => cases step <;> exact ⟨.refl _, rfl⟩

theorem TxPoint.events_afterDrainSend (fd : Fd) (head : Relayed Fd) (events : List (Event Fd))
    (answer : Except Ending SendStep) :
    (TxPoint.afterDrainSend fd head events answer).events.Sublist events ∧
      (TxPoint.afterDrainSend fd head events answer).reading = 0 := by
  cases answer with
  | error => exact ⟨List.nil_sublist _, rfl⟩
  | ok step => cases step <;> exact ⟨.refl _, rfl⟩

variable [DecidableEq Fd] {cfg : Config} {peers : List (Consumer Fd)} {s t : Server Fd}
  {action : Action Fd} {actions : List (Action Fd)}

/-- The bytes of the kill switch that the TX loop is going to read before it selects again. -/
def TxPoint.reads (point : TxPoint Fd) : Nat := point.events.count .killSwitch + point.reading

theorem GivesUp.events (move : GivesUp s action t) :
    t.tx.events.Sublist s.tx.events ∧ t.tx.reading = 0 := by
  cases move with
  | unregisterMissing => exact ⟨List.nil_sublist _, rfl⟩
  | recvError at_ | unregister at_ | reportDead at_ =>
    rw [at_]
    exact ⟨.refl _, rfl⟩

theorem TxRelays.events (move : TxRelays cfg s action t) :
    t.tx.events.Sublist s.tx.events ∧ t.tx.reading = 0 := by
  cases move with
  | busError => exact ⟨List.nil_sublist _, rfl⟩
  | recv at_ | self at_ | accept at_ | skip at_ | hand at_ | handMissing at_ =>
    rw [at_]
    exact ⟨.refl _, rfl⟩
  | @finish job index at_ =>
    rw [at_]
    cases cfg.virtual with
    | true => exact job.events_afterRead
    | false => exact ⟨.refl _, rfl⟩
  | @bus job at_ =>
    rw [at_]
    exact job.events_afterRead
  | offer at_ =>
    rw [at_]
    exact TxPoint.events_afterOffer _ _ _ _
  | call at_ =>
    rw [at_]
    exact TxPoint.events_afterSend _ _ _ _

theorem Drains.events_eq {fd : Fd} {events : List (Event Fd)} (move : Drains s fd events action t) :
    t.tx.events.Sublist s.tx.events ∧ t.tx.reading = 0 := by
  cases move with
  | peekEmpty | popEmpty | settleMissing => exact ⟨List.nil_sublist _, rfl⟩
  | drained at_ | find at_ | peek at_ | pop at_ | settleEmpty at_ | settle at_ =>
    rw [at_]
    exact ⟨.refl _, rfl⟩
  | call at_ =>
    rw [at_]
    exact TxPoint.events_afterDrainSend _ _ _ _

theorem TxPoint.reads_le {before after : TxPoint Fd} (fewer : after.events.Sublist before.events)
    (reading : after.reading = 0) : after.reads ≤ before.reads := by
  have less := fewer.count_le .killSwitch
  rw [reads, reads, reading]
  omega

omit [DecidableEq Fd] in
theorem Selects.events (move : Selects s action t) (goes : ¬ action.waits .tx) :
    t.tx.events.Sublist s.tx.events := by
  cases move with
  | select => exact absurd rfl goes
  | running at_ | stopped at_ | round at_ | resume at_ | readKillSwitch at_ =>
    rw [at_]
    exact .refl _
  | leave => exact List.nil_sublist _
  | killSwitch at_ | readable at_ | writable at_ | neither at_ =>
    rw [at_]
    exact List.sublist_cons_self _ _

/-- The events in hand become fewer, until the next selection. -/
theorem Moves.events (move : Moves cfg s action t) (goes : ¬ action.waits .tx) :
    t.tx.events.Sublist s.tx.events := by
  rcases move.tx_cases with same | move | move | move | ⟨fd, events, move⟩
  · rw [same]
  · exact move.events goes
  · exact move.events.1
  · exact move.events.1
  · exact move.events_eq.1

/-- Each event of the kill switch that is still in hand has a byte to be read. -/
theorem Selects.reads (move : Selects s action t) (kept : s.tx.reads ≤ s.wakeUps) :
    t.tx.reads ≤ t.wakeUps := by
  cases move with
  | running | stopped | round | leave => exact Nat.zero_le _
  | @select events at_ selection =>
    change events.count .killSwitch + 0 ≤ s.wakeUps
    have once := List.nodup_iff_count_le_one.mp selection.1.of_map .killSwitch
    by_cases member : .killSwitch ∈ events
    · have unread : 0 < s.wakeUps := selection.2 _ member
      omega
    · rw [List.count_eq_zero_of_not_mem member]
      exact Nat.zero_le _
  | @killSwitch rest at_ =>
    rw [at_, TxPoint.reads] at kept
    change rest.count .killSwitch + 1 ≤ s.wakeUps
    simpa [TxPoint.events, TxPoint.reading] using kept
  | @readKillSwitch events at_ =>
    rw [at_] at kept
    change events.count .killSwitch + 1 ≤ s.wakeUps at kept
    change events.count .killSwitch + 0 ≤ s.wakeUps - 1
    omega
  | resume at_ =>
    rw [at_] at kept
    exact kept
  | readable at_ | writable at_ | neither at_ =>
    refine (TxPoint.reads_le ?_ rfl).trans kept
    rw [at_]
    exact List.sublist_cons_self _ _

theorem Moves.reads (move : Moves cfg s action t) (kept : s.tx.reads ≤ s.wakeUps) :
    t.tx.reads ≤ t.wakeUps := by
  cases move with
  | clean move => rwa [move.frame]
  | rxRelay move =>
    rw [show t.tx = s.tx from (congrArg Server.tx move.frame :)]
    cases move with
    | wake => exact Nat.le_succ_of_le kept
    | offer _ offer => rwa [offer.frame]
    | call _ call => rwa [call.frame]
    | _ => exact kept
  | select move => exact move.reads kept
  | giveUp move =>
    rw [show t.wakeUps = s.wakeUps from (congrArg Server.wakeUps move.frame :)]
    exact (TxPoint.reads_le move.events.1 move.events.2).trans kept
  | txRelay move =>
    rw [show t.wakeUps = s.wakeUps from (congrArg Server.wakeUps move.frame :)]
    exact (TxPoint.reads_le move.events.1 move.events.2).trans kept
  | drain move =>
    rw [show t.wakeUps = s.wakeUps from (congrArg Server.wakeUps move.frame :)]
    exact (TxPoint.reads_le move.events_eq.1 move.events_eq.2).trans kept
  | listen move =>
    cases move with
    | wake => exact Nat.le_succ_of_le kept
    | _ => exact kept
  | stop move =>
    cases move with
    | wake => exact Nat.le_succ_of_le kept
    | clear => exact kept

end KillSwitch

section Rounds
variable [DecidableEq Fd] {cfg : Config} {peers : List (Consumer Fd)} {s t : Server Fd}
  {action : Action Fd} {actions : List (Action Fd)}

/-- The thread of the loop is over. -/
def Over (s : Server Fd) : Loop → Prop
  | .rx => ∃ why, s.rx = .ended why
  | .tx => ∃ why, s.tx = .ended why

/-- The outcome is one that the next socket call of the send can have. -/
def Relayed.Takes (message : Relayed Fd) (progress : Progress) (outcome : CallOutcome) : Prop :=
  ∀ bytes, message.frame.payload = some bytes → outcome.Possible (bytes.length - progress.sent)

/-- The statement comes next in the loop: one for each answer that the call it is at can
return with, and the only one where it calls nobody. -/
def Next (s : Server Fd) (action : Action Fd) : Loop → Prop
  | .rx => match s.rx with
    | .ended _ => False
    | .recv => ∃ answer, action = .rxRecv answer
    | .offer message _ _ (.send progress) =>
      ∃ outcome, action = .rxCall outcome ∧ message.Takes progress outcome
    | _ => action = .rx
  | .tx => match s.tx with
    | .ended _ => False
    | .select => ∃ events, action = .txSelect events ∧ s.Selection events
    | .recv _ _ _ => ∃ answer, action = .txRecv answer ∧ ∀ frame ∈ answer, frame.Classic
    | .busSend _ => ∃ returned, action = .txBus returned
    | .offer job _ _ (.send progress) =>
      ∃ outcome, action = .txCall outcome ∧ job.message.Takes progress outcome
    | .drainSend _ head progress _ =>
      ∃ outcome, action = .txCall outcome ∧ head.Takes progress outcome
    | _ => action = .tx

/-- Whatever its calls return, the loop has a next statement, which it can take. -/
def GoesOn (cfg : Config) (s : Server Fd) (loop : Loop) : Prop :=
  (∃ action, s.Next action loop) ∧
    ∀ action, s.Next action loop → action.loop = some loop ∧ (s.step cfg action).isSome

theorem socketSend_isSome (fd : Fd) {message : Relayed Fd} {progress : Progress}
    {outcome : CallOutcome} (takes : message.Takes progress outcome) :
    (s.socketSend fd message progress outcome).isSome := by
  unfold socketSend
  split
  · rfl
  · next bytes packed =>
    rw [if_pos (takes bytes packed)]
    rfl

omit [DecidableEq Fd] in
theorem Relayed.takes_wouldBlock (message : Relayed Fd) (progress : Progress) :
    message.Takes progress .wouldBlock := fun _ _ => trivial

/-- All that handing a frame over waits for is its socket calls. -/
theorem offerStep_isSome (fd : Fd) (message : Relayed Fd) {point : Offer}
    (local_ : ∀ progress, point ≠ .send progress) :
    (offerStep cfg s fd message point).isSome := by
  cases point with
  | send progress => exact absurd rfl (local_ progress)
  | test | queue =>
    simp only [offerStep]
    split <;> rfl
  | countDropped | append | queueCount => rfl

theorem rx_goesOn (cfg : Config) (s : Server Fd) : s.Over .rx ∨ s.GoesOn cfg .rx := by
  cases at_ : s.rx with
  | ended why => exact Or.inl ⟨why, at_⟩
  | recv =>
    refine Or.inr ⟨⟨.rxRecv none, by simp [Next, at_]⟩, ?_⟩
    simp only [Next, at_]
    rintro _ ⟨answer, rfl⟩
    exact ⟨rfl, by cases answer <;> simp [step, rxRecv, at_]⟩
  | offer message index consumer point =>
    by_cases sends : ∃ progress, point = .send progress
    · obtain ⟨progress, rfl⟩ := sends
      refine Or.inr ⟨⟨.rxCall .wouldBlock, ?_⟩, ?_⟩ <;> simp only [Next, at_]
      · exact ⟨.wouldBlock, rfl, message.takes_wouldBlock progress⟩
      · rintro _ ⟨outcome, rfl, takes⟩
        exact ⟨rfl, by simpa [step, rxCall, at_] using socketSend_isSome consumer.fd takes⟩
    · have next (action : Action Fd) : s.Next action .rx ↔ action = .rx := by
        cases point with
        | send progress => exact absurd ⟨progress, rfl⟩ sends
        | _ => simp only [Next, at_]
      refine Or.inr ⟨⟨.rx, (next _).mpr rfl⟩, fun action own => ?_⟩
      obtain rfl := (next action).mp own
      refine ⟨rfl, ?_⟩
      simpa [step, rxStep, at_] using
        offerStep_isSome consumer.fd message fun progress here => sends ⟨progress, here⟩
  | _ =>
    refine Or.inr ⟨⟨.rx, by simp only [Next, at_]⟩, ?_⟩
    simp only [Next, at_]
    rintro _ rfl
    refine ⟨rfl, ?_⟩
    simp only [step, rxStep, at_]
    repeat' split
    all_goals rfl

/-- The kill switch has a byte for each read of it, so that no such read blocks. -/
theorem tx_goesOn (kept : s.tx.reads ≤ s.wakeUps) : s.Over .tx ∨ s.GoesOn cfg .tx := by
  cases at_ : s.tx with
  | ended why => exact Or.inl ⟨why, at_⟩
  | select =>
    refine Or.inr ⟨⟨.txSelect [], by simp [Next, at_, Selection]⟩, ?_⟩
    simp only [Next, at_]
    rintro _ ⟨events, rfl, selection⟩
    exact ⟨rfl, by simp [step, txSelect, at_, selection]⟩
  | recv fd writable events =>
    refine Or.inr ⟨⟨.txRecv none, by simp [Next, at_]⟩, ?_⟩
    simp only [Next, at_]
    rintro _ ⟨answer, rfl, classic⟩
    refine ⟨rfl, ?_⟩
    cases answer with
    | none => simp [step, txRecv, at_]
    | some frame => simp [step, txRecv, at_, classic frame rfl]
  | busSend job =>
    refine Or.inr ⟨⟨.txBus true, by simp [Next, at_]⟩, ?_⟩
    simp only [Next, at_]
    rintro _ ⟨returned, rfl⟩
    exact ⟨rfl, by cases returned <;> simp [step, txBus, at_]⟩
  | readKillSwitch events =>
    rw [at_] at kept
    have unread : 0 < s.wakeUps := Nat.lt_of_lt_of_le (Nat.succ_pos _) kept
    refine Or.inr ⟨⟨.tx, by simp only [Next, at_]⟩, ?_⟩
    simp only [Next, at_]
    rintro _ rfl
    exact ⟨rfl, by simp [step, txStep, at_, unread]⟩
  | drainSend fd head progress events =>
    refine Or.inr ⟨⟨.txCall .wouldBlock, ?_⟩, ?_⟩ <;> simp only [Next, at_]
    · exact ⟨.wouldBlock, rfl, head.takes_wouldBlock progress⟩
    · rintro _ ⟨outcome, rfl, takes⟩
      exact ⟨rfl, by simpa [step, txCall, at_] using socketSend_isSome fd takes⟩
  | offer job index consumer point =>
    by_cases sends : ∃ progress, point = .send progress
    · obtain ⟨progress, rfl⟩ := sends
      refine Or.inr ⟨⟨.txCall .wouldBlock, ?_⟩, ?_⟩ <;> simp only [Next, at_]
      · exact ⟨.wouldBlock, rfl, job.message.takes_wouldBlock progress⟩
      · rintro _ ⟨outcome, rfl, takes⟩
        exact ⟨rfl, by simpa [step, txCall, at_] using socketSend_isSome consumer.fd takes⟩
    · have next (action : Action Fd) : s.Next action .tx ↔ action = .tx := by
        cases point with
        | send progress => exact absurd ⟨progress, rfl⟩ sends
        | _ => simp only [Next, at_]
      refine Or.inr ⟨⟨.tx, (next _).mpr rfl⟩, fun action own => ?_⟩
      obtain rfl := (next action).mp own
      refine ⟨rfl, ?_⟩
      simpa [step, txStep, at_] using
        offerStep_isSome consumer.fd job.message fun progress here => sends ⟨progress, here⟩
  | _ =>
    refine Or.inr ⟨⟨.tx, by simp only [Next, at_]⟩, ?_⟩
    simp only [Next, at_]
    rintro _ rfl
    refine ⟨rfl, ?_⟩
    simp only [step, txStep, at_]
    repeat' split
    all_goals rfl

theorem Moves.tx_lowers (move : Moves cfg s action t) (bounded : s.Bounded cfg)
    (own : action.loop = some .tx) (goes : ¬ action.waits .tx) : t.txRank cfg < s.txRank cfg := by
  cases move with
  | clean => cases own
  | rxRelay move => cases move <;> cases own
  | select move => exact move.lowers bounded goes
  | giveUp move => exact move.lowers
  | txRelay move => exact move.lowers bounded
  | drain move => exact move.lowers
  | listen move => cases move <;> cases own
  | stop => cases own

/-- A later state of the round that the loop is in. -/
structure Round (cfg : Config) (s : Server Fd) (loop : Loop) (u : Server Fd) : Prop where
  bounded : u.Bounded cfg
  fewer : loop = .tx → u.tx.events.length ≤ s.tx.events.length

theorem Round.next {loop : Loop} {u v : Server Fd} (round : s.Round cfg loop u)
    (goes : ¬ action.waits loop) (move : Moves cfg u action v) : s.Round cfg loop v where
  bounded := move.bounded round.bounded
  fewer := by
    rintro rfl
    exact (move.events goes).length_le.trans (round.fewer rfl)

/-- In every run, a loop that is not over has a statement to take, whatever its calls return;
and until it waits again, what remains of its round, and the credit of what the other threads do
meanwhile, bound the statements that it takes. -/
theorem rounds_end (path : run (step cfg) (start cfg peers) actions = some s) (loop : Loop) :
    (s.Over loop ∨ s.GoesOn cfg loop) ∧
    ∀ later t, run (step cfg) s later = some t →
      (∀ action ∈ later, ¬ action.waits loop) →
      later.countP (Action.own loop) + t.remaining cfg loop ≤
        s.remaining cfg loop + s.credit loop * later.countP (fun action => !action.own loop) := by
  have kept : s.Bounded cfg ∧ s.tx.reads ≤ s.wakeUps := by
    refine invariant_run (I := fun s : Server Fd => s.Bounded cfg ∧ s.tx.reads ≤ s.wakeUps)
      ?_ ⟨.start cfg peers, Nat.zero_le _⟩ along_true path
    intro u action v ⟨bounded, reads⟩ _ step
    exact ⟨(step_moves step).bounded bounded, (step_moves step).reads reads⟩
  have owns {action : Action Fd} {mine : Bool} (is_own : action.own loop = mine) :
      action.loop = some loop ↔ mine = true := by
    rw [← is_own, Action.own, decide_eq_true_iff]
  constructor
  · cases loop with
    | rx => exact rx_goesOn cfg s
    | tx => exact tx_goesOn kept.2
  · intro later t onwards away
    have lowers : ∀ u action v, s.Round cfg loop u → ¬ action.waits loop →
        action.own loop = true → u.step cfg action = some v →
          v.remaining cfg loop < u.remaining cfg loop := by
      intro u action v round goes own step
      have mine := (owns own).mpr rfl
      cases loop with
      | rx => exact (step_moves step).rx_lowers mine goes
      | tx => exact (step_moves step).tx_lowers round.bounded mine goes
    have raises : ∀ u action v, s.Round cfg loop u → ¬ action.waits loop →
        action.own loop = false → u.step cfg action = some v →
          v.remaining cfg loop ≤ u.remaining cfg loop + s.credit loop := by
      intro u action v round _ other step
      have others : action.loop ≠ some loop := fun mine => Bool.false_ne_true ((owns other).mp mine)
      cases loop with
      | rx => exact (step_moves step).rx_raises others
      | tx =>
        refine ((step_moves step).tx_raises others).trans (Nat.add_le_add_left ?_ _)
        exact Nat.mul_le_mul_right _ (Nat.add_le_add_right (round.fewer rfl) 2)
    exact countP_add_rank_le (fun u action v round goes step => round.next goes (step_moves step))
      lowers raises ⟨kept.1, fun _ => Nat.le_refl _⟩ (along_of_mem away) onwards

/-- A virtual bus has selected a readable consumer; it dispatches what it reads to the other,
which takes it in two calls, while a third client subscribes. -/
def selectedRun : List (Action Nat) := [.tx, .txSelect [.ready 0 true false], .tx]

def dispatchRun : List (Action Nat) :=
  [.txRecv (some ⟨0x200, [1], false⟩), .tx, .tx, .tx, .tx, .listen ⟨2, some [⟨0x100, 0x7FF, none⟩]⟩,
    .txCall (.accepted 5), .listenNext 2, .txCall (.accepted 11), .tx, .tx, .tx, .tx]

theorem rounds_end_dispatched :
    ∃ s t, run (step .virtualBus) (start .virtualBus [⟨0, none⟩, ⟨1, none⟩]) selectedRun = some s ∧
      run (step .virtualBus) s dispatchRun = some t ∧ t.tx = .select ∧
      s.GoesOn .virtualBus .tx ∧ t.GoesOn .virtualBus .tx ∧
      dispatchRun.countP (Action.own .tx) + t.remaining .virtualBus .tx ≤
        s.remaining .virtualBus .tx +
          s.credit .tx * dispatchRun.countP (fun action => !action.own .tx) := by
  have ends : ((run (step .virtualBus) (start .virtualBus [⟨0, none⟩, ⟨1, none⟩]) selectedRun).bind
      fun s => (run (step .virtualBus) s dispatchRun).map fun t => (s.tx, t.tx)) =
        some (.recv 0 false [], .select) := by
    decide +kernel
  obtain ⟨s, path, rest⟩ := Option.bind_eq_some_iff.mp ends
  obtain ⟨t, later, points⟩ := Option.map_eq_some_iff.mp rest
  simp only [Prod.mk.injEq] at points
  obtain ⟨reads, selects⟩ := points
  obtain ⟨goesOn, bound⟩ := rounds_end path .tx
  have onwards := (rounds_end (run_append.mpr ⟨s, path, later⟩) .tx).1
  refine ⟨s, t, path, later, selects, goesOn.resolve_left ?_, onwards.resolve_left ?_,
    bound dispatchRun t later (by decide)⟩
  · simp [Over, reads]
  · simp [Over, selects]

end Rounds

end Sockcan.Server
