import Sockcan.Server.State
import Sockcan.Transition

/-! The threads of the server, one statement at a time. A statement under
`selector_lock` is one step. Outcomes that the code does not decide (what a
socket, the bus or the selector answers) come with the action. -/
namespace Sockcan.Server
open Protocol
variable {Fd : Type} [DecidableEq Fd]

section Shared

def setIo (server : Server Fd) (fd : Fd) (io : ConsumerIO Fd) : Server Fd :=
  { server with io := Function.update server.io fd io }

def setTraffic (server : Server Fd) (fd : Fd) (traffic : Traffic Fd) : Server Fd :=
  { server with traffic := Function.update server.traffic fd traffic }

def setInterest (server : Server Fd) (fd : Fd) (interest : Option Interest) : Server Fd :=
  { server with selector := Function.update server.selector fd interest }

/-- The next frame of `source`, numbered. -/
def stamp (server : Server Fd) (source : Option Fd) (frame : Frame) : Relayed Fd :=
  ⟨source, (server.received source).length, frame⟩

def receive (server : Server Fd) (message : Relayed Fd) : Server Fd :=
  { server with
    received := Function.update server.received message.source
      (server.received message.source ++ [message]) }

def hand (server : Server Fd) (fd : Fd) (message : Relayed Fd) : Server Fd :=
  server.setTraffic fd
    { server.traffic fd with handed := (server.traffic fd).handed ++ [message] }

/-- `outbound.append(frame)`. -/
def append (cfg : Config) (server : Server Fd) (fd : Fd) (message : Relayed Fd) : Server Fd :=
  let io := server.io fd
  let traffic := server.traffic fd
  (server.setIo fd
    { io with outbound := Deque.append cfg.backlogSize io.outbound message }).setTraffic fd
    { traffic with backlog := traffic.backlog.append cfg.backlogSize io.outbound message }

/-- `outbound.popleft()` of a backlog that is `head :: rest`. -/
def popleft (server : Server Fd) (fd : Fd) (head : Relayed Fd) (rest : List (Relayed Fd)) :
    Server Fd :=
  let traffic := server.traffic fd
  (server.setIo fd { server.io fd with outbound := rest }).setTraffic fd
    { traffic with backlog := traffic.backlog.remove ⟨head, rest, false⟩ }

/-- `if len(outbound) == backlog_size: note_dropped_frame(io_state)`. -/
def noteDroppedFrame (cfg : Config) (server : Server Fd) (fd : Fd) : Server Fd :=
  let io := server.io fd
  if io.outbound.length = cfg.backlogSize then
    server.setIo fd { io with dropped := io.dropped + 1 }
  else server

/-- One round of `_aggregate_filters`, which walks along the list that others edit: the
loop goes on with the next index and what it has aggregated, or returns. -/
def aggregateNext (server : Server Fd) (index : Nat) (aggregated : List CanFilter) :
    (Nat × List CanFilter) ⊕ Option (List CanFilter) :=
  match server.consumers[index]? with
  | none => .inr (some aggregated)
  | some consumer => match consumer.filters with
    | none | some [] => .inr none
    | some canFilters => .inl (index + 1, aggregated ++ canFilters)

def hasConsumer (server : Server Fd) (fd : Fd) : Bool :=
  server.consumers.any fun consumer => decide (consumer.fd = fd)

def removeConsumer (server : Server Fd) (fd : Fd) : Server Fd :=
  { server with consumers := server.consumers.eraseP fun consumer => decide (consumer.fd = fd) }

def setConsumerIo (server : Server Fd) (fd : Fd) (present : Bool) : Server Fd :=
  { server with consumerIo := Function.update server.consumerIo fd present }

def wakeUp (server : Server Fd) : Server Fd := { server with wakeUps := server.wakeUps + 1 }

/-- What one socket call of a sender leaves behind on the connection of `fd`. -/
def Traffic.record (message : Relayed Fd) (bytes : List UInt8) (progress : Progress)
    (outcome : CallOutcome) (traffic : Traffic Fd) : Traffic Fd :=
  let traffic := match outcome with
    | .accepted count =>
      { traffic with written := traffic.written ++ (bytes.drop progress.sent).take count }
    | _ => traffic
  match sendCall streamSendAttempts progress outcome with
  | .sent => { traffic with delivered := traffic.delivered ++ [message] }
  | .disconnected | .failed =>
    { traffic with
      failed := traffic.failed ++ [message]
      broken := traffic.broken || decide (0 < progress.sent) }
  | .more _ | .wouldBlock => traffic

/-- One socket call of `sender(can_id, data, is_extended, None)`. Without a header
there is no call at all: packing it raises. -/
def socketSend (server : Server Fd) (fd : Fd) (message : Relayed Fd) (progress : Progress)
    (outcome : CallOutcome) : Option (Server Fd × Except Ending SendStep) :=
  match message.frame.payload with
  | none => some (server, .error .structError)
  | some bytes =>
    if outcome.Possible (bytes.length - progress.sent) then
      some (server.setTraffic fd ((server.traffic fd).record message bytes progress outcome),
        .ok (sendCall streamSendAttempts progress outcome))
    else none

/-- How one statement of handing a frame to a consumer ends. -/
inductive OfferResult where
  | next (point : Offer)
  | done
  | queued
  | raised (why : Ending)
  deriving DecidableEq

/-- The statements between the lookup of a consumer's IO state and the next
consumer, the send apart. `_queue_frame` appends before it modifies. -/
def offerStep (cfg : Config) (server : Server Fd) (fd : Fd) (message : Relayed Fd) :
    Offer → Option (Server Fd × OfferResult)
  | .test =>
    if (server.io fd).outbound = [] then
      some (server, .next (.send (.start streamSendAttempts)))
    else some (server, .next .countDropped)
  | .countDropped => some (server.noteDroppedFrame cfg fd, .next .append)
  | .append => some (server.append cfg fd message, .done)
  | .send _ => none
  | .queueCount => some (server.noteDroppedFrame cfg fd, .next .queue)
  | .queue =>
    let queued := server.append cfg fd message
    if (server.selector fd).isSome then
      some (queued.setInterest fd (some .readWrite), .queued)
    else some (queued, .raised .selectorKeyError)

end Shared

section Rx

/-- Where `_run_rx` goes on after a statement of handing the frame to `consumer`. -/
def RxPoint.afterOffer (message : Relayed Fd) (index : Nat) (consumer : Consumer Fd) :
    OfferResult → RxPoint Fd
  | .next point => .offer message index consumer point
  | .done => .advance message index
  | .queued => .wake message index
  | .raised why => .ended why

/-- The except ladder around `sender(...)` in `_run_rx`. -/
def RxPoint.afterSend (message : Relayed Fd) (index : Nat) (consumer : Consumer Fd) :
    Except Ending SendStep → RxPoint Fd
  | .ok (.more next) => .offer message index consumer (.send next)
  | .ok .sent => .advance message index
  | .ok .wouldBlock => .offer message index consumer .queueCount
  | .ok .disconnected | .ok .failed => .close message index consumer
  | .error why => .ended why

/-- The statements of `_run_rx` that wait for nothing. -/
def rxStep (cfg : Config) (server : Server Fd) : Option (Server Fd) :=
  match server.rx with
  | .removeClosed => match server.closedConnections with
    | [] => some { server with rx := .takeDead }
    | consumer :: _ =>
      if server.hasConsumer consumer.fd then
        some { server.removeConsumer consumer.fd with rx := .deleteClosed consumer }
      else some { server with rx := .ended .valueError }
  | .deleteClosed consumer =>
    if server.consumerIo consumer.fd then
      some { server.setConsumerIo consumer.fd false with
        closedConnections := server.closedConnections.tail
        consumersChanged := true
        rx := .removeClosed }
    else some { server with rx := .ended .consumerIoKeyError }
  | .takeDead => match server.deadConsumerFds with
    | [] => some { server with rx := .refresh }
    | fd :: rest => some { server with deadConsumerFds := rest, rx := .popDead fd }
  | .popDead fd => some { server.setConsumerIo fd false with rx := .removeDead fd }
  | .removeDead fd =>
    some { server.removeConsumer fd with
      consumersChanged := server.consumersChanged || server.hasConsumer fd
      rx := .takeDead }
  | .refresh =>
    if server.consumersChanged then some { server with rx := .aggregate 0 [] }
    else some { server with rx := .recv }
  | .aggregate index aggregated => match server.aggregateNext index aggregated with
    | .inl (index, aggregated) => some { server with rx := .aggregate index aggregated }
    | .inr filters => some { server with rx := .install filters }
  | .install filters => some { server with busFilters := filters, rx := .recv }
  | .recv => none
  | .advance message index => match server.consumers[index]? with
    | none => some { server with consumersChanged := false, rx := .removeClosed }
    | some consumer =>
      if consumer.accepts message then
        some { server with rx := .lookup message (index + 1) consumer }
      else some { server with rx := .advance message (index + 1) }
  | .lookup message index consumer =>
    if server.consumerIo consumer.fd then
      some { server.hand consumer.fd message with rx := .offer message index consumer .test }
    else some { server with rx := .ended .consumerIoKeyError }
  | .offer message index consumer point =>
    (offerStep cfg server consumer.fd message point).map fun (after, result) =>
      { after with rx := .afterOffer message index consumer result }
  | .wake message index => some { server.wakeUp with rx := .advance message index }
  | .close message index consumer =>
    some { server with
      closedConnections := server.closedConnections ++ [consumer]
      rx := .advance message index }
  | .ended _ => none

/-- `recv()` of the bus, which returns a message or raises. -/
def rxRecv (server : Server Fd) (answer : Option Frame) : Option (Server Fd) :=
  match server.rx with
  | .recv => match answer with
    | none => some { server with rx := .ended .operationError }
    | some frame =>
      let message := server.stamp none frame
      some { server.receive message with rx := .advance message 0 }
  | _ => none

/-- A socket call of the sender in `_run_rx`. -/
def rxCall (server : Server Fd) (outcome : CallOutcome) : Option (Server Fd) :=
  match server.rx with
  | .offer message index consumer (.send progress) =>
    (server.socketSend consumer.fd message progress outcome).map fun (after, result) =>
      { after with rx := .afterSend message index consumer result }
  | _ => none

end Rx

section Tx

/-- The entry is one that `select()` may return. -/
def Selectable (server : Server Fd) : Event Fd → Prop
  | .killSwitch => 0 < server.wakeUps
  | .ready fd readable writable =>
    (server.selector fd).isSome ∧ (readable || writable) ∧
      (writable → server.selector fd = some .readWrite)

instance (server : Server Fd) : DecidablePred server.Selectable
  | .killSwitch => inferInstanceAs (Decidable (0 < server.wakeUps))
  | .ready _ _ _ => inferInstanceAs (Decidable (_ ∧ _ ∧ (_ → _)))

def Event.key : Event Fd → Option Fd
  | .killSwitch => none
  | .ready fd _ _ => some fd

/-- One entry for each key, each of them ready. -/
def Selection (server : Server Fd) (events : List (Event Fd)) : Prop :=
  (events.map Event.key).Nodup ∧ ∀ event ∈ events, server.Selectable event

instance (server : Server Fd) (events : List (Event Fd)) : Decidable (server.Selection events) :=
  inferInstanceAs (Decidable (_ ∧ _))

def Job.afterRead (job : Job Fd) : TxPoint Fd :=
  if job.writable then .drain job.fileobj job.rest else .nextEvent job.rest

/-- Where `_run_tx` goes on after a statement of handing the frame to `consumer`. -/
def TxPoint.afterOffer (job : Job Fd) (index : Nat) (consumer : Consumer Fd) :
    OfferResult → TxPoint Fd
  | .next point => .offer job index consumer point
  | .done | .queued => .advance job index
  | .raised why => .ended why

/-- The except ladder around `send_fn(...)` in the dispatch of `_run_tx`. -/
def TxPoint.afterSend (job : Job Fd) (index : Nat) (consumer : Consumer Fd) :
    Except Ending SendStep → TxPoint Fd
  | .ok (.more next) => .offer job index consumer (.send next)
  | .ok .sent | .ok .disconnected | .ok .failed => .advance job index
  | .ok .wouldBlock => .offer job index consumer .queueCount
  | .error why => .ended why

/-- The except ladder around `io_state.sender(...)` in the drain of `_run_tx`. -/
def TxPoint.afterDrainSend (fd : Fd) (head : Relayed Fd) (events : List (Event Fd)) :
    Except Ending SendStep → TxPoint Fd
  | .ok (.more next) => .drainSend fd head next events
  | .ok .sent => .popleft fd head events
  | .ok .wouldBlock => .settle fd events
  | .ok .disconnected | .ok .failed => .unregister fd events
  | .error why => .ended why

/-- The statements of `_run_tx` that wait for nothing. -/
def txStep (cfg : Config) (server : Server Fd) : Option (Server Fd) :=
  match server.tx with
  | .whileRunning =>
    some { server with tx := if server.running then .select else .ended .returned }
  | .select => none
  | .nextEvent events => match events with
    | [] => some { server with tx := .whileRunning }
    | .killSwitch :: rest => some { server with tx := .readKillSwitch rest }
    | .ready fd readable writable :: rest =>
      some { server with tx := if readable then .recv fd writable rest
        else if writable then .drain fd rest else .nextEvent rest }
  | .readKillSwitch events =>
    if 0 < server.wakeUps then
      some { server with wakeUps := server.wakeUps - 1, tx := .checkRunning events }
    else none
  | .checkRunning events =>
    some { server with tx := if server.running then .nextEvent events else .whileRunning }
  | .recv _ _ _ => none
  | .unregister fd events =>
    if (server.selector fd).isSome then
      some { (server.setInterest fd none).setTraffic fd
        { server.traffic fd with unregistered := true } with tx := .reportDead fd events }
    else some { server with tx := .ended .selectorKeyError }
  | .reportDead fd events =>
    some { server with
      deadConsumerFds := server.deadConsumerFds ++ [fd]
      tx := .nextEvent events }
  | .advance job index => match server.consumers[index]? with
    | none => some { server with tx := if cfg.virtual then job.afterRead else .busSend job }
    | some consumer =>
      if consumer.fd = job.fileobj then some { server with tx := .advance job (index + 1) }
      else if consumer.accepts job.message then
        some { server with tx := .lookup job (index + 1) consumer }
      else some { server with tx := .advance job (index + 1) }
  | .lookup job index consumer =>
    if server.consumerIo consumer.fd then
      some { server.hand consumer.fd job.message with tx := .offer job index consumer .test }
    else some { server with tx := .advance job index }
  | .offer job index consumer point =>
    (offerStep cfg server consumer.fd job.message point).map fun (after, result) =>
      { after with tx := .afterOffer job index consumer result }
  | .busSend _ => none
  | .drain fd events =>
    if (server.io fd).outbound = [] then some { server with tx := .settle fd events }
    else some { server with tx := .peek fd events }
  | .peek fd events => match (server.io fd).outbound with
    | [] => some { server with tx := .ended .indexError }
    | head :: _ =>
      some { server with tx := .drainSend fd head (.start streamSendAttempts) events }
  | .drainSend _ _ _ _ => none
  | .popleft fd _ events => match (server.io fd).outbound with
    | [] => some { server with tx := .ended .indexError }
    | head :: rest => some { server.popleft fd head rest with tx := .drain fd events }
  | .settle fd events =>
    if (server.io fd).outbound = [] then
      if (server.selector fd).isSome then
        some { (server.setInterest fd (some .read)).setIo fd
          { server.io fd with dropped := 0 } with tx := .nextEvent events }
      else some { server with tx := .ended .selectorKeyError }
    else some { server with tx := .nextEvent events }
  | .ended _ => none

def txSelect (server : Server Fd) (events : List (Event Fd)) : Option (Server Fd) :=
  match server.tx with
  | .select =>
    if server.Selection events then some { server with tx := .nextEvent events } else none
  | _ => none

/-- `io_state.recv_fn()`, which returns a message that the stream receiver can
return, or raises `struct.error` or `OSError`. -/
def txRecv (server : Server Fd) (answer : Option Frame) : Option (Server Fd) :=
  match server.tx with
  | .recv fd writable events => match answer with
    | none => some { server with tx := .unregister fd events }
    | some frame =>
      if frame.Classic then
        let message := server.stamp (some fd) frame
        some { server.receive message with tx := .advance ⟨fd, message, writable, events⟩ 0 }
      else none
  | _ => none

/-- A socket call of the sender in `_run_tx`, in the dispatch or in the drain. -/
def txCall (server : Server Fd) (outcome : CallOutcome) : Option (Server Fd) :=
  match server.tx with
  | .offer job index consumer (.send progress) =>
    (server.socketSend consumer.fd job.message progress outcome).map fun (after, result) =>
      { after with tx := .afterSend job index consumer result }
  | .drainSend fd head progress events =>
    (server.socketSend fd head progress outcome).map fun (after, result) =>
      { after with tx := .afterDrainSend fd head events result }
  | _ => none

/-- `bus_send`, which returns or raises `CanOperationError`. -/
def txBus (server : Server Fd) (returned : Bool) : Option (Server Fd) :=
  match server.tx with
  | .busSend job =>
    if returned then
      some { server with
        busTraffic := server.busTraffic ++ [job.message]
        tx := job.afterRead }
    else some { server with tx := .ended .operationError }
  | _ => none

end Tx

section Listen

/-- The first registration of `listen_to`, of a socket that is new to the server. -/
def listen (server : Server Fd) (consumer : Consumer Fd) : Option (Server Fd) :=
  match server.listeners consumer.fd with
  | .fresh =>
    some { (server.setConsumerIo consumer.fd true).setIo consumer.fd .empty with
      listeners := Function.update server.listeners consumer.fd (.appendConsumer consumer) }
  | _ => none

/-- The later statements. A `KeyError` of `register` is suppressed. -/
def listenNext (cfg : Config) (server : Server Fd) (fd : Fd) : Option (Server Fd) :=
  let goto (server : Server Fd) (point : ListenPoint Fd) : Option (Server Fd) :=
    some { server with listeners := Function.update server.listeners fd point }
  match server.listeners fd with
  | .fresh | .returned => none
  | .appendConsumer consumer =>
    goto { server with consumers := server.consumers ++ [consumer] } .refresh
  | .refresh => goto server (if cfg.virtual then .register else .aggregate 0 [])
  | .aggregate index aggregated => match server.aggregateNext index aggregated with
    | .inl (index, aggregated) => goto server (.aggregate index aggregated)
    | .inr filters => goto server (.install filters)
  | .install filters => goto { server with busFilters := filters } .register
  | .register =>
    goto (if (server.selector fd).isSome then server else server.setInterest fd (some .read)) .wake
  | .wake => goto (if server.running then server.wakeUp else server) .returned

def stopStep (server : Server Fd) : Option (Server Fd) :=
  match server.stopping with
  | .ready => if server.running then some { server.wakeUp with stopping := .clear } else none
  | .clear => some { server with running := false, stopping := .ready }

end Listen

/-- A statement of one thread, with the answer it waits for. -/
inductive Action (Fd : Type) where
  | rx
  | rxRecv (answer : Option Frame)
  | rxCall (outcome : CallOutcome)
  | tx
  | txSelect (events : List (Event Fd))
  | txRecv (answer : Option Frame)
  | txCall (outcome : CallOutcome)
  | txBus (returned : Bool)
  | listen (consumer : Consumer Fd)
  | listenNext (fd : Fd)
  | stop
  deriving DecidableEq

def step (cfg : Config) (server : Server Fd) : Action Fd → Option (Server Fd)
  | .rx => rxStep cfg server
  | .rxRecv answer => rxRecv server answer
  | .rxCall outcome => rxCall server outcome
  | .tx => txStep cfg server
  | .txSelect events => txSelect server events
  | .txRecv answer => txRecv server answer
  | .txCall outcome => txCall server outcome
  | .txBus returned => txBus server returned
  | .listen consumer => listen server consumer
  | .listenNext fd => listenNext cfg server fd
  | .stop => stopStep server

/-- The server just started, with these consumers connected. A virtual one has no
RX thread. -/
def start (cfg : Config) (consumers : List (Consumer Fd)) : Server Fd where
  consumers := consumers
  consumerIo fd := consumers.any fun consumer => decide (consumer.fd = fd)
  io _ := .empty
  selector fd :=
    if consumers.any fun consumer => decide (consumer.fd = fd) then some .read else none
  deadConsumerFds := []
  busFilters := aggregateFilters (consumers.map Consumer.filters)
  running := true
  wakeUps := 0
  rx := if cfg.virtual then .ended .returned else .removeClosed
  closedConnections := []
  consumersChanged := false
  tx := .whileRunning
  listeners fd :=
    if consumers.any fun consumer => decide (consumer.fd = fd) then .returned else .fresh
  stopping := .ready
  received _ := []
  busTraffic := []
  traffic _ := .quiet

end Sockcan.Server
