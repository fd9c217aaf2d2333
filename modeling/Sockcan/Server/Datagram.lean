import Sockcan.Protocol.Datagram
import Sockcan.Server.Step

/-! The server in datagram mode: `use_stream` is not set. The threads run the statements
of `Sockcan.Server.Step`; a send is one call that takes the frame or nothing, a read is
one datagram, and the except ladders ignore a peer that is absent and raise what they
do not know. -/

/-- The shared objects and the program points, with what only this mode has. -/
structure Sockcan.DatagramServer (Fd : Type) where
  server : Server Fd
  /-- The loops that an exception ended in the middle of a call. -/
  raised : Server.Loop → Bool
  /-- The frames whose send to a consumer is over, each with the datagram that the socket
  took, if it did; `delivered` of the shared part lists these frames as well. -/
  dealt : Fd → List (Server.Relayed Fd × Option (List UInt8))

namespace Sockcan.DatagramServer
open Protocol Server
variable {Fd : Type} [DecidableEq Fd]

def setTraffic (d : DatagramServer Fd) (fd : Fd) (traffic : Traffic Fd) : DatagramServer Fd :=
  { d with server := d.server.setTraffic fd traffic }

/-- The send of a frame is over. -/
def deal (d : DatagramServer Fd) (fd : Fd) (message : Relayed Fd)
    (datagram : Option (List UInt8)) : DatagramServer Fd :=
  let traffic := d.server.traffic fd
  { d.setTraffic fd { traffic with delivered := traffic.delivered ++ [message] } with
    dealt := Function.update d.dealt fd (d.dealt fd ++ [(message, datagram)]) }

/-- What a call of `_socketcan_send` leaves behind on the connection of `fd`. -/
def record (d : DatagramServer Fd) (fd : Fd) (message : Relayed Fd) (payload : List UInt8) :
    SendAnswer → DatagramServer Fd
  | .accepted => d.deal fd message (some payload)
  | .absent => d.deal fd message none
  | .wouldBlock => d
  | .disconnected | .failed =>
    let traffic := d.server.traffic fd
    d.setTraffic fd { traffic with failed := traffic.failed ++ [message] }

def fail (d : DatagramServer Fd) (loop : Loop) : DatagramServer Fd :=
  { d with raised := Function.update d.raised loop true }

/-- The RX loop goes on there, or its exception is not caught. -/
def gotoRx (d : DatagramServer Fd) : Option (RxPoint Fd) → DatagramServer Fd
  | some point => { d with server := { d.server with rx := point } }
  | none => d.fail .rx

def gotoTx (d : DatagramServer Fd) : Option (TxPoint Fd) → DatagramServer Fd
  | some point => { d with server := { d.server with tx := point } }
  | none => d.fail .tx

/-- The except ladder around `sender(...)` in `_run_rx`. -/
def afterRxSend (message : Relayed Fd) (index : Nat) (consumer : Consumer Fd) :
    SendAnswer → Option (RxPoint Fd)
  | .accepted | .absent => some (.advance message index)
  | .wouldBlock => some (.offer message index consumer .queueCount)
  | .disconnected => some (.close message index consumer)
  | .failed => none

/-- The except ladder around `send_fn(...)` in the dispatch of `_run_tx`. -/
def afterTxSend (job : Job Fd) (index : Nat) (consumer : Consumer Fd) :
    SendAnswer → Option (TxPoint Fd)
  | .accepted | .absent | .disconnected => some (.advance job index)
  | .wouldBlock => some (.offer job index consumer .queueCount)
  | .failed => none

/-- The except ladder around `io_state.sender(...)` in the drain of `_run_tx`. -/
def afterDrainSend (fd : Fd) (head : Relayed Fd) (events : List (Event Fd)) :
    SendAnswer → Option (TxPoint Fd)
  | .accepted | .absent => some (.popleft fd head events)
  | .wouldBlock => some (.settle fd events)
  | .disconnected => some (.unregister fd events)
  | .failed => none

/-- A call of the sender in `_run_rx`. Without a header there is no call: packing it
raises a `struct.error`, which the ladder does not name. -/
def rxCall (d : DatagramServer Fd) (answer : SendAnswer) : Option (DatagramServer Fd) :=
  match d.server.rx with
  | .offer message index consumer (.send _) =>
    if d.raised .rx then none
    else match message.frame.payload with
      | none => some (d.gotoRx (some (.ended .structError)))
      | some payload => some ((d.record consumer.fd message payload answer).gotoRx
          (afterRxSend message index consumer answer))
  | _ => none

/-- A call of the sender in `_run_tx`, in the dispatch or in the drain. -/
def txCall (d : DatagramServer Fd) (answer : SendAnswer) : Option (DatagramServer Fd) :=
  match d.server.tx with
  | .offer job index consumer (.send _) =>
    if d.raised .tx then none
    else match job.message.frame.payload with
      | none => some (d.gotoTx (some (.ended .structError)))
      | some payload => some ((d.record consumer.fd job.message payload answer).gotoTx
          (afterTxSend job index consumer answer))
  | .drainSend fd head _ events =>
    if d.raised .tx then none
    else match head.frame.payload with
      | none => some (d.gotoTx (some (.ended .structError)))
      | some payload => some ((d.record fd head payload answer).gotoTx
          (afterDrainSend fd head events answer))
  | _ => none

/-- `io_state.recv_fn()` and the `except (struct.error, OSError)` around it. -/
def txRecv (ancillaryDataSize : Nat) (d : DatagramServer Fd)
    (answer : Except String Datagram) : Option (DatagramServer Fd) :=
  match d.server.tx with
  | .recv fd writable events =>
    if d.raised .tx then none
    else match socketcanRecv ancillaryDataSize answer with
      | .ok stamped =>
        let message := d.server.stamp (some fd) stamped.frame
        some { d with server := { d.server.receive message with
          tx := .advance ⟨fd, message, writable, events⟩ 0 } }
      | .error .noAncillaryData => some (d.gotoTx none)
      | .error _ => some (d.gotoTx (some (.unregister fd events)))
  | _ => none

/-- A statement of one thread. Those that this mode shares with the stream mode keep
their action. -/
inductive Action (Fd : Type) where
  | rx
  | rxRecv (answer : Option Frame)
  | rxCall (answer : SendAnswer)
  | tx
  | txSelect (events : List (Event Fd))
  | txRecv (answer : Except String Datagram)
  | txCall (answer : SendAnswer)
  | txBus (returned : Bool)
  | listen (consumer : Consumer Fd)
  | listenNext (fd : Fd)
  | stop

/-- A shared statement. A loop that raised stays at its call, which is none. -/
def shared (cfg : Config) (d : DatagramServer Fd) (action : Server.Action Fd) :
    Option (DatagramServer Fd) :=
  (d.server.step cfg action).map fun after => { d with server := after }

/-- `ancillaryDataSize` is that of `build_recv_func`, zero without native timestamps. -/
def step (cfg : Config) (ancillaryDataSize : Nat) (d : DatagramServer Fd) :
    Action Fd → Option (DatagramServer Fd)
  | .rx => d.shared cfg .rx
  | .rxRecv answer => d.shared cfg (.rxRecv answer)
  | .rxCall answer => d.rxCall answer
  | .tx => d.shared cfg .tx
  | .txSelect events => d.shared cfg (.txSelect events)
  | .txRecv answer => d.txRecv ancillaryDataSize answer
  | .txCall answer => d.txCall answer
  | .txBus returned => d.shared cfg (.txBus returned)
  | .listen consumer => d.shared cfg (.listen consumer)
  | .listenNext fd => d.shared cfg (.listenNext fd)
  | .stop => d.shared cfg .stop

def start (cfg : Config) (consumers : List (Consumer Fd)) : DatagramServer Fd where
  server := Server.start cfg consumers
  raised _ := false
  dealt _ := []

/-- The datagrams on the socket of a consumer, oldest first. -/
def datagrams (d : DatagramServer Fd) (fd : Fd) : List (List UInt8) :=
  (d.dealt fd).filterMap Prod.snd

/-- The frames that these datagrams are of. -/
def sent (d : DatagramServer Fd) (fd : Fd) : List (Relayed Fd) :=
  ((d.dealt fd).filter fun entry => entry.2.isSome).map Prod.fst

end Sockcan.DatagramServer
