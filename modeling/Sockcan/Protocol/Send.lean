import Sockcan.Protocol.Frame

/-! One stream send, cut at its socket calls. The first call offers the whole
payload; `_complete_send` offers what remains of it until the frame is written or
its attempts without progress run out. -/
namespace Sockcan.Protocol

def streamSendAttempts : Nat := 5

/-- What one socket `send` call does: it takes `count` of the offered bytes or
raises `WOULD_BLOCK`, one of the three broken-connection errors, or another
`OSError`. -/
inductive CallOutcome where
  | accepted (count : Nat)
  | wouldBlock
  | disconnected
  | failed
  deriving DecidableEq, Repr

/-- The locals of a sender between two socket calls. No byte is written before
the first call, and at least one before every later one. -/
structure Progress where
  sent : Nat
  remainingAttempts : Nat
  deriving DecidableEq, Repr

/-- Where a sender is after a socket call: about to make another one, returned,
or out with the error its caller sees. -/
inductive SendStep where
  | more (next : Progress)
  | sent
  | wouldBlock
  | disconnected
  | failed
  deriving DecidableEq, Repr

def Progress.start (attempts : Nat) : Progress := ⟨0, attempts⟩

/-- The outcome is one that the socket can give when `offered` bytes are offered. -/
def CallOutcome.Possible (offered : Nat) : CallOutcome → Prop
  | .accepted count => 1 ≤ count ∧ count ≤ offered
  | _ => True

instance (offered : Nat) : DecidablePred (CallOutcome.Possible offered)
  | .accepted _ => inferInstanceAs (Decidable (_ ∧ _))
  | .wouldBlock | .disconnected | .failed => isTrue trivial

/-- The bytes that a call puts on the wire. -/
def CallOutcome.written : CallOutcome → Nat
  | .accepted count => count
  | .wouldBlock | .disconnected | .failed => 0

/-- `_socketcan_send_stream` from one socket call to the next. A call that would
block is the caller's to handle before the first byte, and an attempt without
progress after it. -/
def sendCall (attempts : Nat) (progress : Progress) : CallOutcome → SendStep
  | .accepted count =>
    if progress.sent + count < msgSize then .more ⟨progress.sent + count, attempts⟩ else .sent
  | .wouldBlock =>
    if progress.sent = 0 then .wouldBlock
    else if progress.remainingAttempts - 1 = 0 then .failed
    else .more ⟨progress.sent, progress.remainingAttempts - 1⟩
  | .disconnected => .disconnected
  | .failed => .failed

/-- The send has returned, or raised with nothing left to try. -/
def SendStep.Final : SendStep → Prop
  | .sent | .disconnected | .failed => True
  | .more _ | .wouldBlock => False

/-- A whole payload of sixteen bytes accepted at once ends the send. -/
theorem sendCall_whole {attempts count : Nat} (whole : msgSize ≤ count) :
    sendCall attempts (.start attempts) (.accepted count) = .sent := by
  simp only [sendCall, Progress.start, Nat.zero_add]
  rw [if_neg (by omega)]

theorem sendCall_refused (attempts : Nat) :
    sendCall attempts (.start attempts) .wouldBlock = .wouldBlock := rfl

variable {attempts : Nat} {progress next : Progress} {outcome : CallOutcome}

theorem sendCall_more (goes : sendCall attempts progress outcome = .more next)
    (short : progress.sent < msgSize) :
    next.sent = progress.sent + outcome.written ∧ next.sent < msgSize := by
  cases outcome with
  | accepted count =>
    simp only [sendCall] at goes
    split at goes
    · next within =>
      cases goes
      exact ⟨rfl, within⟩
    · contradiction
  | wouldBlock =>
    simp only [sendCall] at goes
    split at goes
    · contradiction
    · split at goes
      · contradiction
      · cases goes
        exact ⟨rfl, short⟩
  | disconnected => contradiction
  | failed => contradiction

theorem sendCall_sent (ends : sendCall attempts progress outcome = .sent) :
    msgSize ≤ progress.sent + outcome.written := by
  cases outcome with
  | accepted count =>
    simp only [sendCall] at ends
    split at ends
    · contradiction
    · next whole => exact Nat.le_of_not_lt whole
  | wouldBlock =>
    simp only [sendCall] at ends
    split at ends
    · contradiction
    · split at ends <;> contradiction
  | disconnected => contradiction
  | failed => contradiction

theorem sendCall_wouldBlock (refused : sendCall attempts progress outcome = .wouldBlock) :
    outcome = .wouldBlock ∧ progress.sent = 0 := by
  cases outcome with
  | accepted count =>
    simp only [sendCall] at refused
    split at refused <;> contradiction
  | wouldBlock =>
    simp only [sendCall] at refused
    split at refused
    · next unwritten => exact ⟨rfl, unwritten⟩
    · split at refused <;> contradiction
  | disconnected => contradiction
  | failed => contradiction

end Sockcan.Protocol
