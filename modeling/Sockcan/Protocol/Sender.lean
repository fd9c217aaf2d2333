import Sockcan.Protocol.Stream

/-! A whole stream send, over a socket whose calls the network decides. The loop of
`_complete_send` is bounded by no counter of its own: it runs on `rounds` here, and how
many are enough is proved. -/
namespace Sockcan.Protocol

/-- What a message has to have for the senders. -/
structure CanMessage where
  arbitrationId : Int
  data : List UInt8
  isExtendedId : Bool
  deriving DecidableEq, Repr

/-- The writing end of a connection: the bytes that the socket took and the calls made
so far. -/
structure Outbound where
  written : List UInt8
  calls : Nat
  deriving DecidableEq, Repr

/-- What a sender raises: the header does not pack, its first call raised, a later one
did, or its attempts without progress ran out. -/
inductive SendError where
  | structError
  | wouldBlock
  | disconnected
  | failed
  | outOfSync (sent : Nat)
  deriving DecidableEq, Repr

/-- What the network makes of the next call. A count beyond the offered bytes stands for
all of them. -/
def Outbound.outcome (network : Nat → CallOutcome) (outbound : Outbound)
    (offered : List UInt8) : CallOutcome :=
  match network outbound.calls with
  | .accepted count => .accepted (min count offered.length)
  | refused => refused

/-- The connection after a call. -/
def Outbound.after (outbound : Outbound) (offered : List UInt8) (outcome : CallOutcome) :
    Outbound :=
  ⟨outbound.written ++ offered.take outcome.written, outbound.calls + 1⟩

def completeSend (network : Nat → CallOutcome) (payload : List UInt8) (attempts : Nat) :
    (rounds sent remainingAttempts : Nat) → Outbound → Option (Except SendError Unit × Outbound)
  | 0, sent, _, outbound => if sent < msgSize then none else some (.ok (), outbound)
  | rounds + 1, sent, remainingAttempts, outbound =>
    if sent < msgSize then
      let outcome := outbound.outcome network (payload.drop sent)
      let next := outbound.after (payload.drop sent) outcome
      match outcome with
      | .accepted (written + 1) =>
        completeSend network payload attempts rounds (sent + (written + 1)) attempts next
      | .accepted 0 | .wouldBlock =>
        if remainingAttempts - 1 = 0 then some (.error (.outOfSync sent), next)
        else completeSend network payload attempts rounds sent (remainingAttempts - 1) next
      | .disconnected => some (.error .disconnected, next)
      | .failed => some (.error .failed, next)
    else some (.ok (), outbound)

/-- What both stream senders do with the header and the padded data: without a header
nothing is offered. -/
def sendPayload (network : Nat → CallOutcome) (attempts rounds : Nat)
    (payload : Option (List UInt8)) (outbound : Outbound) :
    Option (Except SendError Unit × Outbound) :=
  match payload with
  | none => some (.error .structError, outbound)
  | some payload =>
    let outcome := outbound.outcome network payload
    let next := outbound.after payload outcome
    match outcome with
    | .accepted sent =>
      if sent < msgSize then completeSend network payload attempts rounds sent attempts next
      else some (.ok (), next)
    | .wouldBlock => some (.error .wouldBlock, next)
    | .disconnected => some (.error .disconnected, next)
    | .failed => some (.error .failed, next)

/-- Header and data. A negative identifier stays negative under the flag, and `I` packs
none. -/
def txPayload (arbitrationId : Int) (data : List UInt8) (isExtended : Bool) :
    Option (List UInt8) :=
  match arbitrationId with
  | .ofNat canId => (Frame.mk canId data isExtended).payload
  | .negSucc _ => none

def socketcanSendStream (network : Nat → CallOutcome) (attempts rounds : Nat)
    (arbitrationId : Int) (data : List UInt8) (isExtended : Bool) :
    Outbound → Option (Except SendError Unit × Outbound) :=
  sendPayload network attempts rounds (txPayload arbitrationId data isExtended)

def socketcanSendMsgStream (network : Nat → CallOutcome) (attempts rounds : Nat)
    (message : CanMessage) : Outbound → Option (Except SendError Unit × Outbound) :=
  sendPayload network attempts rounds
    (txPayload message.arbitrationId message.data message.isExtendedId)

theorem txPayload_length {arbitrationId : Int} {data : List UInt8} {isExtended : Bool}
    {payload : List UInt8} (packed : txPayload arbitrationId data isExtended = some payload) :
    payload.length = 8 + max 8 data.length := by
  cases arbitrationId with
  | ofNat canId => exact Frame.payload_length packed
  | negSucc _ => contradiction

end Sockcan.Protocol
