import Sockcan.Protocol.Frame

/-! One frame to a datagram. A datagram socket takes a frame or nothing, and a read
takes one datagram off the socket whatever is in it; what does not fit the buffer is
cut off. The two words of a timestamp are those of a 64-bit Linux. -/
namespace Sockcan.Protocol

/-- `CANFD_MTU`, the size of the buffer. -/
def canfdMtu : Nat := 72

/-- `CAN_FRAME_HEADER_STRUCT.size`. -/
def headerSize : Nat := 8

/-- A datagram, with the data of each of its control messages. -/
structure Datagram where
  bytes : List UInt8
  ancillaryData : List (List UInt8)
  deriving DecidableEq

/-- Where the timestamp of a message is from: the control message of its datagram, in
seconds and nanoseconds, or the clock. -/
inductive Timestamp where
  | native (seconds nanoseconds : Int)
  | clock
  deriving DecidableEq

structure Stamped where
  frame : Frame
  timestamp : Timestamp
  deriving DecidableEq

/-- What `_socketcan_recv` raises: `exc_class`, the `struct.error` of the header or of
the timestamp, or the `AssertionError` of a socket without ancillary data. -/
inductive DatagramError where
  | receiving (strerror : String)
  | headerError
  | timestampError
  | noAncillaryData
  deriving DecidableEq

def DatagramError.message : DatagramError → String
  | .receiving strerror => "Error receiving: " ++ strerror
  | .headerError => "unpack_from requires a buffer of at least 8 bytes"
  | .timestampError => "unpack_from requires a buffer of at least 16 bytes"
  | .noAncillaryData => "ancillary data was not enabled on the socket"

/-- A `long` of eight bytes. -/
def signed (bytes : List UInt8) : Int :=
  let value := Bytes.toNat bytes
  if value < 2 ^ 63 then value else value - 2 ^ 64

/-- `RECEIVED_TIMESTAMP_STRUCT.unpack_from`. -/
def timestampUnpack (data : List UInt8) : Option (Int × Int) :=
  if data.length < 16 then none
  else some (signed (data.take 8), signed ((data.drop 8).take 8))

/-- `_socketcan_recv`, on the answer of its `recvmsg`. -/
def socketcanRecv (ancillaryDataSize : Nat) :
    Except String Datagram → Except DatagramError Stamped
  | .error strerror => .error (.receiving strerror)
  | .ok datagram =>
    let cf := datagram.bytes.take canfdMtu
    if cf.length < headerSize then .error .headerError
    else if 0 < ancillaryDataSize then
      match datagram.ancillaryData with
      | [] => .error .noAncillaryData
      | cmsgData :: _ => match timestampUnpack cmsgData with
        | none => .error .timestampError
        | some (seconds, nanoseconds) =>
          .ok ⟨decodeFrame cf, .native seconds nanoseconds⟩
    else .ok ⟨decodeFrame cf, .clock⟩

/-- What the one `send` call of `_socketcan_send` does: it takes the datagram, or raises
`WOULD_BLOCK`, one of the three broken-connection errors, an `OSError` with the errno of a
peer that is not connected or refuses, or another one. -/
inductive SendAnswer where
  | accepted
  | wouldBlock
  | disconnected
  | absent
  | failed
  deriving DecidableEq

/-- A datagram that a sender made is read back whole while it fits the buffer. -/
theorem socketcanRecv_payload {frame : Frame} {bytes : List UInt8}
    (bound : frame.canId < 2 ^ 29) (fits : frame.data.length ≤ 64)
    (packed : frame.payload = some bytes) (ancillaryData : List (List UInt8)) :
    socketcanRecv 0 (.ok ⟨bytes, ancillaryData⟩) = .ok ⟨frame.onWire, .clock⟩ := by
  have length := Frame.payload_length packed
  have whole : bytes.take canfdMtu = bytes := List.take_of_length_le (by
    rw [length, canfdMtu]
    omega)
  simp only [socketcanRecv, whole, Nat.lt_irrefl, if_false]
  rw [if_neg (by rw [length, headerSize]; omega), Frame.decode_payload bound packed]

end Sockcan.Protocol
