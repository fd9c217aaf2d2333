import Sockcan.Server.Loops

/-! What the statements of one thread read and what they leave alone. A loop goes on in the same
way wherever the other loop is, and `listen_to` and `stop` wherever both are. -/
namespace Sockcan.Server
open Protocol
variable {Fd : Type}

/-- The server with its loops at these program points. -/
def jump (s : Server Fd) (rx : RxPoint Fd) (tx : TxPoint Fd) : Server Fd := { s with rx, tx }

section Fields
variable (s : Server Fd) (rx : RxPoint Fd) (tx : TxPoint Fd)

@[simp] theorem jump_consumers : (s.jump rx tx).consumers = s.consumers := rfl

@[simp] theorem jump_consumerIo : (s.jump rx tx).consumerIo = s.consumerIo := rfl

@[simp] theorem jump_io : (s.jump rx tx).io = s.io := rfl

@[simp] theorem jump_selector : (s.jump rx tx).selector = s.selector := rfl

@[simp] theorem jump_dead : (s.jump rx tx).deadConsumerFds = s.deadConsumerFds := rfl

@[simp] theorem jump_running : (s.jump rx tx).running = s.running := rfl

@[simp] theorem jump_wakeUps : (s.jump rx tx).wakeUps = s.wakeUps := rfl

@[simp] theorem jump_closed : (s.jump rx tx).closedConnections = s.closedConnections := rfl

@[simp] theorem jump_changed : (s.jump rx tx).consumersChanged = s.consumersChanged := rfl

@[simp] theorem jump_listeners : (s.jump rx tx).listeners = s.listeners := rfl

@[simp] theorem jump_stopping : (s.jump rx tx).stopping = s.stopping := rfl

@[simp] theorem jump_received : (s.jump rx tx).received = s.received := rfl

@[simp] theorem jump_busTraffic : (s.jump rx tx).busTraffic = s.busTraffic := rfl

@[simp] theorem jump_rx : (s.jump rx tx).rx = rx := rfl

@[simp] theorem jump_tx : (s.jump rx tx).tx = tx := rfl

@[simp] theorem jump_here : s.jump s.rx s.tx = s := rfl

@[simp] theorem aggregateNext_jump (index : Nat) (aggregated : List CanFilter) :
    (s.jump rx tx).aggregateNext index aggregated = s.aggregateNext index aggregated := rfl

end Fields

variable [DecidableEq Fd] {cfg : Config} {action : Action Fd}

section Statements
variable (s : Server Fd) (rx : RxPoint Fd) (tx : TxPoint Fd)

@[simp] theorem hasConsumer_jump (fd : Fd) : (s.jump rx tx).hasConsumer fd = s.hasConsumer fd :=
  rfl

theorem noteDroppedFrame_jump (fd : Fd) :
    (s.jump rx tx).noteDroppedFrame cfg fd = (s.noteDroppedFrame cfg fd).jump rx tx := by
  rw [noteDroppedFrame_eq, noteDroppedFrame_eq]
  rfl

theorem offerStep_jump (fd : Fd) (message : Relayed Fd) (point : Offer) :
    offerStep cfg (s.jump rx tx) fd message point =
      (offerStep cfg s fd message point).map fun (t, result) => (t.jump rx tx, result) := by
  cases point with
  | test => by_cases empty : (s.io fd).outbound = [] <;> simp [offerStep, empty]
  | countDropped | queueCount => simp [offerStep, noteDroppedFrame_jump]
  | queue =>
    by_cases watched : (s.selector fd).isSome <;> simp only [offerStep, jump_selector, watched] <;>
      rfl
  | append | send => rfl

theorem socketSend_jump (fd : Fd) (message : Relayed Fd) (progress : Progress)
    (outcome : CallOutcome) :
    (s.jump rx tx).socketSend fd message progress outcome =
      (s.socketSend fd message progress outcome).map fun (t, result) =>
        (t.jump rx tx, result) := by
  unfold socketSend
  split
  · rfl
  · split <;> rfl

theorem rxStep_jump :
    rxStep cfg (s.jump s.rx tx) = (rxStep cfg s).map fun t => t.jump t.rx tx := by
  unfold rxStep
  rw [jump_rx]
  cases s.rx with
  | removeClosed =>
    cases closed : s.closedConnections with
    | nil =>
      simp only [jump_closed, closed]
      rfl
    | cons consumer rest =>
      by_cases present : s.hasConsumer consumer.fd <;>
        simp only [jump_closed, closed, hasConsumer_jump, present] <;> rfl
  | deleteClosed consumer =>
    by_cases present : s.consumerIo consumer.fd <;> simp only [jump_consumerIo, present] <;> rfl
  | takeDead => cases dead : s.deadConsumerFds <;> simp only [jump_dead, dead] <;> rfl
  | refresh => by_cases changed : s.consumersChanged <;> simp only [jump_changed, changed] <;> rfl
  | aggregate index aggregated =>
    cases next : s.aggregateNext index aggregated <;> simp only [aggregateNext_jump, next] <;> rfl
  | advance message index =>
    cases next : s.consumers[index]? with
    | none =>
      simp only [jump_consumers, next]
      rfl
    | some consumer =>
      by_cases accepts : consumer.accepts message <;>
        simp only [jump_consumers, next, accepts] <;> rfl
  | lookup message index consumer =>
    by_cases present : s.consumerIo consumer.fd <;> simp only [jump_consumerIo, present] <;> rfl
  | offer message index consumer point =>
    simp only [offerStep_jump, Option.map_map]
    rfl
  | _ => rfl

theorem txStep_jump :
    txStep cfg (s.jump rx s.tx) = (txStep cfg s).map fun t => t.jump rx t.tx := by
  unfold txStep
  rw [jump_tx]
  cases s.tx with
  | nextEvent events =>
    cases events with
    | nil => rfl
    | cons event rest => cases event <;> rfl
  | readKillSwitch events =>
    by_cases unread : 0 < s.wakeUps <;> simp only [jump_wakeUps, unread] <;> rfl
  | unregister fd events =>
    by_cases watched : (s.selector fd).isSome <;> simp only [jump_selector, watched] <;> rfl
  | advance job index =>
    cases next : s.consumers[index]? with
    | none =>
      simp only [jump_consumers, next]
      rfl
    | some consumer =>
      by_cases own : consumer.fd = job.fileobj
      · simp only [jump_consumers, next, own]
        rfl
      · by_cases accepts : consumer.accepts job.message <;>
          simp only [jump_consumers, next, own, accepts] <;> rfl
  | lookup job index consumer =>
    by_cases present : s.consumerIo consumer.fd <;> simp only [jump_consumerIo, present] <;> rfl
  | offer job index consumer point =>
    simp only [offerStep_jump, Option.map_map]
    rfl
  | drain fd events =>
    by_cases empty : (s.io fd).outbound = [] <;> simp only [jump_io, empty] <;> rfl
  | peek fd events | popleft fd _ events =>
    cases queued : (s.io fd).outbound <;> simp only [jump_io, queued] <;> rfl
  | settle fd events =>
    by_cases empty : (s.io fd).outbound = [] <;>
      by_cases watched : (s.selector fd).isSome <;>
        simp only [jump_io, jump_selector, empty, watched] <;> rfl
  | _ => rfl

theorem listenNext_jump (fd : Fd) :
    listenNext cfg (s.jump rx tx) fd = (listenNext cfg s fd).map fun t => t.jump rx tx := by
  unfold listenNext
  rw [jump_listeners]
  cases s.listeners fd with
  | aggregate index aggregated =>
    cases next : s.aggregateNext index aggregated <;> simp only [aggregateNext_jump, next] <;> rfl
  | register =>
    by_cases watched : (s.selector fd).isSome <;> simp only [jump_selector, watched] <;> rfl
  | wake => by_cases running : s.running <;> simp only [jump_running, running] <;> rfl
  | _ => rfl

omit [DecidableEq Fd] in
theorem stopStep_jump :
    stopStep (s.jump rx tx) = (stopStep s).map fun t => t.jump rx tx := by
  unfold stopStep
  rw [jump_stopping]
  cases s.stopping with
  | ready => by_cases running : s.running <;> simp only [jump_running, running] <;> rfl
  | clear => rfl

end Statements

/-- The RX loop does not see where the TX loop is. -/
theorem step_jump_rx (own : action.loop = some .rx) (s : Server Fd) (tx : TxPoint Fd) :
    step cfg (s.jump s.rx tx) action = (step cfg s action).map fun t => t.jump t.rx tx := by
  cases action with
  | rx => exact rxStep_jump s tx
  | rxRecv answer =>
    simp only [step, rxRecv, jump_rx]
    cases s.rx with
    | recv => cases answer <;> rfl
    | _ => rfl
  | rxCall outcome =>
    simp only [step, rxCall, jump_rx]
    cases s.rx with
    | offer message index consumer point =>
      cases point with
      | send progress =>
        simp only [socketSend_jump, Option.map_map]
        rfl
      | _ => rfl
    | _ => rfl
  | _ => cases own

/-- The TX loop does not see where the RX loop is. -/
theorem step_jump_tx (own : action.loop = some .tx) (s : Server Fd) (rx : RxPoint Fd) :
    step cfg (s.jump rx s.tx) action = (step cfg s action).map fun t => t.jump rx t.tx := by
  cases action with
  | tx => exact txStep_jump s rx
  | txSelect events =>
    simp only [step, txSelect, jump_tx]
    cases s.tx with
    | select =>
      have same : (s.jump rx .select).Selection events ↔ s.Selection events := Iff.rfl
      by_cases ready : s.Selection events
      · simp only [ready, same.mpr ready]
        rfl
      · simp only [ready, mt same.mp ready]
        rfl
    | _ => rfl
  | txRecv answer =>
    simp only [step, txRecv, jump_tx]
    cases s.tx with
    | recv fd writable events =>
      cases answer with
      | none => rfl
      | some frame => by_cases classic : frame.Classic <;> simp only [classic] <;> rfl
    | _ => rfl
  | txCall outcome =>
    simp only [step, txCall, jump_tx]
    cases s.tx with
    | offer job index consumer point =>
      cases point with
      | send progress =>
        simp only [socketSend_jump, Option.map_map]
        rfl
      | _ => rfl
    | drainSend fd head progress events =>
      simp only [socketSend_jump, Option.map_map]
      rfl
    | _ => rfl
  | txBus returned =>
    simp only [step, txBus, jump_tx]
    cases s.tx with
    | busSend job => cases returned <;> rfl
    | _ => rfl
  | _ => cases own

/-- `listen_to` and `stop` see neither. -/
theorem step_jump_other (other : action.loop = none) (s : Server Fd) (rx : RxPoint Fd)
    (tx : TxPoint Fd) :
    step cfg (s.jump rx tx) action = (step cfg s action).map fun t => t.jump rx tx := by
  cases action with
  | listen consumer =>
    simp only [step, listen, jump_listeners]
    cases s.listeners consumer.fd <;> rfl
  | listenNext fd => exact listenNext_jump s rx tx fd
  | stop => exact stopStep_jump s rx tx
  | _ => cases other

section Bus
variable {s s' : Server Fd}

theorem recv_of_rxRecv {s server : Server Fd} {answer : Option Frame}
    (stepped : s.rxRecv answer = some server) : s.rx = .recv := by
  unfold rxRecv at stepped
  split at stepped
  · assumption
  · cases stepped

omit [DecidableEq Fd] in
theorem busSend_of_txBus {s server : Server Fd} {returned : Bool}
    (stepped : s.txBus returned = some server) : ∃ job, s.tx = .busSend job := by
  unfold txBus at stepped
  split at stepped
  · exact ⟨_, ‹_›⟩
  · cases stepped

/-- Only the RX loop takes frames from the bus. -/
theorem Moves.received_bus (move : Moves cfg s action s')
    (unread : ∀ frame, action ≠ .rxRecv (some frame)) : s'.received none = s.received none := by
  rcases move.read_cases with same | relays | relays
  · rw [same]
  · cases relays with
    | recv => exact absurd rfl (unread _)
    | offer _ offer => rw [offer.received]
    | call _ call => rw [call.received]
    | _ => rfl
  · cases relays with
    | recv => rfl
    | offer _ offer => rw [offer.received]
    | call _ call => rw [call.received]
    | _ => rfl

/-- Only a send that returns adds to what the bus got. -/
theorem Moves.busTraffic_keeps (move : Moves cfg s action s')
    (unsent : action ≠ .txBus true) : s'.busTraffic = s.busTraffic := by
  cases move with
  | clean move => exact (congrArg Server.busTraffic move.frame :)
  | rxRelay move => exact (congrArg Server.busTraffic move.frame :)
  | select move => exact (congrArg Server.busTraffic move.frame :)
  | giveUp move => exact (congrArg Server.busTraffic move.frame :)
  | drain move => exact (congrArg Server.busTraffic move.frame :)
  | listen move => exact (congrArg Server.busTraffic move.frame :)
  | stop move => exact (congrArg Server.busTraffic move.frame :)
  | txRelay move =>
    cases move with
    | bus => exact absurd rfl unsent
    | offer _ offer => exact (congrArg Server.busTraffic offer.frame :)
    | call _ call => exact (congrArg Server.busTraffic call.frame :)
    | _ => rfl

end Bus

end Sockcan.Server
