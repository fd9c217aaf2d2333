import Sockcan.Deque
import Sockcan.Filters
import Sockcan.Protocol.Send
import Mathlib.Logic.Function.Basic

/-! The state of one stream-mode `SocketcanServer`: what its threads share, where
each thread is, and what has been observed on the sockets. A socket is passed to
`listen_to` once, so its descriptor also names its `_ConsumerIO` object. -/
namespace Sockcan.Server
open Protocol

def consumerBacklogSize : Nat := 10000

/-- `virtual` is `_bus is None`; `backlogSize` stands for `CONSUMER_BACKLOG_SIZE`. -/
structure Config where
  virtual : Bool
  backlogSize : Nat
  positive : 0 < backlogSize

def Config.realBus : Config := ⟨false, consumerBacklogSize, by decide⟩

def Config.virtualBus : Config := ⟨true, consumerBacklogSize, by decide⟩

/-- `_Consumer`; its sender is the one bound to `fd`. -/
structure Consumer (Fd : Type) where
  fd : Fd
  filters : Option (List CanFilter)
  deriving DecidableEq

/-- A frame on its way through the relay. Its source (`none` is the bus) and its
number among the frames of that source are bookkeeping: no thread reads them. -/
structure Relayed (Fd : Type) where
  source : Option Fd
  serial : Nat
  frame : Frame
  deriving DecidableEq

/-- The mutable part of `_ConsumerIO`. -/
structure ConsumerIO (Fd : Type) where
  outbound : List (Relayed Fd)
  dropped : Nat
  deriving DecidableEq

/-- The event mask of a registered descriptor: `EVENT_READ`, with or without
`EVENT_WRITE`. -/
inductive Interest where
  | read
  | readWrite
  deriving DecidableEq

/-- One entry of what `selector.select()` returns. -/
inductive Event (Fd : Type) where
  | killSwitch
  | ready (fd : Fd) (readable writable : Bool)
  deriving DecidableEq

/-- Why a thread is over: its function returned, or it raised. A `KeyError` says of
which mapping. -/
inductive Ending where
  | returned
  | selectorKeyError
  | consumerIoKeyError
  | valueError
  | indexError
  | structError
  | operationError
  deriving DecidableEq

/-- The program points of handing one frame to one consumer, the same in both
loops: test the backlog, then append to it, or send and queue what is refused. -/
inductive Offer where
  | test
  | countDropped
  | append
  | send (progress : Progress)
  | queueCount
  | queue
  deriving DecidableEq

/-- `_run_rx`. The index of a dispatch, and that of `_aggregate_filters`, is that of the
next consumer. -/
inductive RxPoint (Fd : Type) where
  | removeClosed
  | deleteClosed (consumer : Consumer Fd)
  | takeDead
  | popDead (fd : Fd)
  | removeDead (fd : Fd)
  | refresh
  | aggregate (index : Nat) (aggregated : List CanFilter)
  | install (filters : Option (List CanFilter))
  | recv
  | advance (message : Relayed Fd) (index : Nat)
  | lookup (message : Relayed Fd) (index : Nat) (consumer : Consumer Fd)
  | offer (message : Relayed Fd) (index : Nat) (consumer : Consumer Fd) (point : Offer)
  | wake (message : Relayed Fd) (index : Nat)
  | close (message : Relayed Fd) (index : Nat) (consumer : Consumer Fd)
  | ended (why : Ending)
  deriving DecidableEq

/-- The locals of `_run_tx` between the read of a message and the next event. -/
structure Job (Fd : Type) where
  fileobj : Fd
  message : Relayed Fd
  writable : Bool
  rest : List (Event Fd)
  deriving DecidableEq

/-- `_run_tx`. The events are those of the selection still to be handled. -/
inductive TxPoint (Fd : Type) where
  | whileRunning
  | select
  | nextEvent (events : List (Event Fd))
  | readKillSwitch (events : List (Event Fd))
  | checkRunning (events : List (Event Fd))
  | recv (fileobj : Fd) (writable : Bool) (events : List (Event Fd))
  | unregister (fileobj : Fd) (events : List (Event Fd))
  | reportDead (fileobj : Fd) (events : List (Event Fd))
  | advance (job : Job Fd) (index : Nat)
  | lookup (job : Job Fd) (index : Nat) (consumer : Consumer Fd)
  | offer (job : Job Fd) (index : Nat) (consumer : Consumer Fd) (point : Offer)
  | busSend (job : Job Fd)
  | drain (fileobj : Fd) (events : List (Event Fd))
  | peek (fileobj : Fd) (events : List (Event Fd))
  | drainSend (fileobj : Fd) (head : Relayed Fd) (progress : Progress) (events : List (Event Fd))
  | popleft (fileobj : Fd) (head : Relayed Fd) (events : List (Event Fd))
  | settle (fileobj : Fd) (events : List (Event Fd))
  | ended (why : Ending)
  deriving DecidableEq

/-- `listen_to`, after its checks and the construction of the two functions. -/
inductive ListenPoint (Fd : Type) where
  | fresh
  | appendConsumer (consumer : Consumer Fd)
  | refresh
  | aggregate (index : Nat) (aggregated : List CanFilter)
  | install (filters : Option (List CanFilter))
  | register
  | wake
  | returned
  deriving DecidableEq

/-- `stop`. -/
inductive StopPoint where
  | ready
  | clear
  deriving DecidableEq

/-- What has happened to one consumer so far, oldest first. No thread reads it:
`handed` are the frames that a dispatch reached the consumer with, `delivered`
those whose send returned and `failed` those whose send raised for good, `backlog`
is the history of its `outbound`, and `broken` says that a send failed with part of
its frame written. -/
structure Traffic (Fd : Type) where
  handed : List (Relayed Fd)
  delivered : List (Relayed Fd)
  failed : List (Relayed Fd)
  backlog : Deque.Log (Relayed Fd)
  written : List UInt8
  broken : Bool
  unregistered : Bool
  deriving DecidableEq

end Sockcan.Server

/-- The shared objects, the program points of the threads, and the observations. -/
structure Sockcan.Server (Fd : Type) where
  consumers : List (Server.Consumer Fd)
  /-- The keys of `_consumer_io`. -/
  consumerIo : Fd → Bool
  /-- The `_ConsumerIO` objects, which outlive their entry in `_consumer_io`. -/
  io : Fd → Server.ConsumerIO Fd
  selector : Fd → Option Server.Interest
  deadConsumerFds : List Fd
  busFilters : Option (List CanFilter)
  running : Bool
  /-- The unread bytes of the kill switch. -/
  wakeUps : Nat
  rx : Server.RxPoint Fd
  closedConnections : List (Server.Consumer Fd)
  consumersChanged : Bool
  tx : Server.TxPoint Fd
  listeners : Fd → Server.ListenPoint Fd
  stopping : Server.StopPoint
  /-- The frames read from each source, and those sent to the bus. -/
  received : Option Fd → List (Server.Relayed Fd)
  busTraffic : List (Server.Relayed Fd)
  traffic : Fd → Server.Traffic Fd

namespace Sockcan.Server
open Protocol
variable {Fd : Type}

def Consumer.accepts (consumer : Consumer Fd) (message : Relayed Fd) : Bool :=
  frameMatches consumer.filters message.frame.canId message.frame.isExtended

def ConsumerIO.empty : ConsumerIO Fd := ⟨[], 0⟩

def Traffic.quiet : Traffic Fd := ⟨[], [], [], .empty, [], false, false⟩

/-- The two threads that send to consumers. -/
inductive Loop where
  | rx
  | tx
  deriving DecidableEq

/-- The send that a loop is in the middle of: its destination, its frame and how
far it is. -/
def sending (server : Server Fd) : Loop → Option (Fd × Relayed Fd × Progress)
  | .rx => match server.rx with
    | .offer message _ consumer (.send progress) => some (consumer.fd, message, progress)
    | _ => none
  | .tx => match server.tx with
    | .offer job _ consumer (.send progress) => some (consumer.fd, job.message, progress)
    | .drainSend fileobj head progress _ => some (fileobj, head, progress)
    | _ => none

end Sockcan.Server
