import Sockcan.Transition
import Sockcan.Raising
import Sockcan.Channels
import Sockcan.Bytes
import Sockcan.Text
import Sockcan.Url
import Sockcan.Cursor
import Sockcan.Deque
import Sockcan.Outbox.Basic
import Sockcan.Outbox.Invariant
import Sockcan.Outbox.Sole
import Sockcan.Outbox.Lossy
import Sockcan.Protocol.Frame
import Sockcan.Protocol.Datagram
import Sockcan.Protocol.Send
import Sockcan.Protocol.Stream
import Sockcan.Protocol.Receive
import Sockcan.Protocol.Resume
import Sockcan.Protocol.Sender
import Sockcan.Protocol.Completion
import Sockcan.Protocol.Sizes
import Sockcan.Protocol.Codec
import Sockcan.Protocol.Rebuilt
import Sockcan.Protocol.Link
import Sockcan.Protocol.Shift
import Sockcan.Filters
import Sockcan.Daemon.Client
import Sockcan.Daemon.Handler
import Sockcan.Json
import Sockcan.Lru
import Sockcan.Protocol.HeaderCache
import Sockcan.Numerals
import Sockcan.Daemon.Subscribe
import Sockcan.Daemon.Quoting
import Sockcan.Daemon.RequestLine
import Sockcan.Bits
import Sockcan.Tables
import Sockcan.Rounding
import Sockcan.Transcoders.Common
import Sockcan.Transcoders.Encoders
import Sockcan.Transcoders.Fields
import Sockcan.Transcoders.Decoders
import Sockcan.Transcoders.RoundTrip
import Sockcan.Transcoders.Quantising
import Sockcan.Doubles
import Sockcan.Transcoders.Floating
import Sockcan.Transcoders.Placement
import Sockcan.Transcoders.Labels
import Sockcan.Transcoders.Multiplexed
import Sockcan.Server.State
import Sockcan.Server.Step
import Sockcan.Server.Moves
import Sockcan.Server.Loops
import Sockcan.Server.ListenTo
import Sockcan.Server.Unlisted
import Sockcan.Server.Connected
import Sockcan.Server.Handing
import Sockcan.Server.Lane
import Sockcan.Server.Relay
import Sockcan.Server.Watch
import Sockcan.Server.Fifo
import Sockcan.Server.Overflow
import Sockcan.Server.Accounting
import Sockcan.Server.Registry
import Sockcan.Server.Descriptors
import Sockcan.Server.Served
import Sockcan.Server.Ledger
import Sockcan.Server.Dispatch
import Sockcan.Server.Rounds
import Sockcan.Server.Calls
import Sockcan.Server.Stream
import Sockcan.Server.Forwarding
import Sockcan.Server.BusTraffic
import Sockcan.Server.Datagram
import Sockcan.Server.DatagramFifo
import Sockcan.Server.Atomic
import Sockcan.Server.Splice
import Sockcan.Server.Broken
import Sockcan.Server.Endings
import Sockcan.Server.Faults
import Sockcan.Server.Points
import Sockcan.Server.TraceFile
import Sockcan.Server.Candump
import Sockcan.Releases
import Sockcan.Server.Pacing
import Sockcan.Server.Cleanup
import Sockcan.Server.Rising
import Sockcan.Server.Order
import Sockcan.Server.Subscriptions
import Sockcan.Server.Fates
import Sockcan.Server.Teardown
import Sockcan.Server.Stop
import Sockcan.Server.Quiet
import Sockcan.Server.Without
import Sockcan.Server.Isolation
import Sockcan.Server.Roster
import Sockcan.Versions
import Sockcan.Server.Refresh
import Sockcan.Server.Pushdown
import Sockcan.Interop.Bus
import Sockcan.Interop.Filtering
import Sockcan.Interop.Delivery
import Sockcan.Interop.Activation
import Sockcan.Interop.Starting
import Sockcan.Interop.AllOrNothing
