import Sockcan.Protocol.Stream
import Sockcan.Server.Ledger

/-! One socket call of a sender: what it writes, and what that makes of the frame which
the loop has begun. -/
namespace Sockcan.Server
open Protocol
variable {Fd : Type}

/-- What a sender offers to the socket for a frame. -/
def Relayed.bytes (message : Relayed Fd) : List UInt8 := message.frame.payload.getD []

/-- The frame fits sixteen bytes. -/
def Relayed.Short (message : Relayed Fd) : Prop := message.frame.data.length ≤ 8

def Loop.call : Loop → CallOutcome → Action Fd
  | .rx, outcome => .rxCall outcome
  | .tx, outcome => .txCall outcome

def socketCall : Action Fd → Option (Loop × CallOutcome)
  | .rxCall outcome => some (.rx, outcome)
  | .txCall outcome => some (.tx, outcome)
  | _ => none

/-- The send that goes on after a socket call. -/
def continues (fd : Fd) (message : Relayed Fd) :
    Except Ending SendStep → Option (Fd × Relayed Fd × Progress)
  | .ok (.more next) => some (fd, message, next)
  | _ => none

/-- What has been observed on a connection. -/
def Traffic.stream (traffic : Traffic Fd) : List UInt8 × List (Relayed Fd) × Bool :=
  (traffic.written, traffic.delivered, traffic.broken)

theorem Traffic.written_eq {traffic other : Traffic Fd} (same : traffic.stream = other.stream) :
    traffic.written = other.written := congrArg Prod.fst same

theorem Traffic.broken_eq {traffic other : Traffic Fd} (same : traffic.stream = other.stream) :
    traffic.broken = other.broken := congrArg (fun stream => stream.2.2) same

variable [DecidableEq Fd] {cfg : Config} {peers : List (Consumer Fd)} {s t : Server Fd}
  {action : Action Fd} {fd : Fd} {message : Relayed Fd}

/-- The bytes of the frame that a loop is in the middle of sending to a consumer. -/
def begun (s : Server Fd) (loop : Loop) (fd : Fd) : List UInt8 :=
  match s.sending loop with
  | some (other, message, progress) => if other = fd then message.bytes.take progress.sent else []
  | none => []

/-- A loop makes no socket call: what it is sending stays, or it starts a send. -/
def Rests (s t : Server Fd) (loop : Loop) : Prop :=
  t.sending loop = s.sending loop ∨ s.sending loop = none ∧
    ∀ other message progress, t.sending loop = some (other, message, progress) →
      progress = .start streamSendAttempts

theorem Rests.begun {loop : Loop} (rests : s.Rests t loop) (fd : Fd) :
    t.begun loop fd = s.begun loop fd := by
  rcases rests with same | ⟨idle, starts⟩
  · simp only [Server.begun, same]
  · cases sends : t.sending loop with
    | none => simp only [Server.begun, idle, sends]
    | some call =>
      obtain ⟨other, message, progress⟩ := call
      obtain rfl := starts other message progress sends
      simp [Server.begun, idle, sends, Progress.start]

theorem append_stream (consumer : Fd) : ((s.append cfg consumer message).traffic fd).stream =
    (s.traffic fd).stream :=
  setTraffic_keeps Traffic.stream (by rfl) fd

theorem Offers.stream {consumer : Fd} {point : Offer} {result : OfferResult}
    (offer : Offers cfg s consumer message point t result) (fd : Fd) :
    (t.traffic fd).stream = (s.traffic fd).stream := by
  cases offer with
  | direct | behind => rfl
  | countDropped | queueCount =>
    rw [noteDroppedFrame_eq]
    rfl
  | append | queue | queueMissing => exact append_stream consumer

omit [DecidableEq Fd] in
theorem sending_congr {loop : Loop} (rx : t.rx = s.rx) (tx : t.tx = s.tx) :
    t.sending loop = s.sending loop := by
  cases loop with
  | rx => simp only [sending, rx]
  | tx => simp only [sending, tx]

/-- One socket call of the send that a loop is in the middle of. -/
structure Call (s t : Server Fd) (loop : Loop) (fd : Fd) (message : Relayed Fd)
    (progress : Progress) (outcome : CallOutcome) : Prop where
  before : s.sending loop = some (fd, message, progress)
  after : ∃ after answer, Sends s fd message progress outcome after answer ∧
    t.traffic = after.traffic ∧ t.sending loop = continues fd message answer

/-- A loop makes one socket call, or none. -/
def CallsOnce (s : Server Fd) (loop : Loop) (action : Action Fd) (t : Server Fd) : Prop :=
  ((∀ fd, (t.traffic fd).stream = (s.traffic fd).stream) ∧ s.Rests t loop) ∨
    ∃ fd message progress outcome, action = Loop.call loop outcome ∧
      Call s t loop fd message progress outcome

theorem CallsOnce.of_sending {loop : Loop}
    (stream : ∀ fd, (t.traffic fd).stream = (s.traffic fd).stream)
    (same : t.sending loop = s.sending loop) : s.CallsOnce loop action t :=
  Or.inl ⟨stream, Or.inl same⟩

theorem hand_stream (consumer : Fd) (message : Relayed Fd) (fd : Fd) :
    ((s.hand consumer message).traffic fd).stream = (s.traffic fd).stream :=
  setTraffic_keeps Traffic.stream (by rfl) fd

theorem Cleans.sending (move : Cleans s t) : t.sending .rx = s.sending .rx := by
  cases move <;> simp only [Server.sending, *]

theorem RxRelays.calls (move : RxRelays cfg s action t) : s.CallsOnce .rx action t := by
  cases move with
  | recvError at_ | recv at_ | finish at_ | accept at_ | skip at_ | handMissing at_ | wake at_
  | close at_ =>
    refine .of_sending (fun _ => rfl) ?_
    simp only [sending, at_]
  | hand at_ =>
    refine .of_sending (hand_stream _ _) ?_
    simp only [sending, at_]
  | offer at_ offer =>
    refine Or.inl ⟨offer.stream, Or.inr ⟨?_, ?_⟩⟩
    · simp only [sending, at_]
      cases offer <;> rfl
    · intro other message progress sends
      cases offer <;> cases sends
      rfl
  | @call message index consumer progress outcome after answer at_ call =>
    refine Or.inr ⟨consumer.fd, message, progress, outcome, rfl, ?_, after, answer, call, rfl, ?_⟩
    · simp only [sending, at_]
    · cases answer with
      | error => rfl
      | ok step => cases step <;> rfl

omit [DecidableEq Fd] in
theorem Selects.sending (move : Selects s action t) : t.sending .tx = s.sending .tx := by
  cases move <;> simp only [Server.sending, *]

theorem GivesUp.sending (move : GivesUp s action t) : t.sending .tx = s.sending .tx := by
  cases move <;> simp only [Server.sending, *]

theorem GivesUp.stream (move : GivesUp s action t) (fd : Fd) :
    (t.traffic fd).stream = (s.traffic fd).stream := by
  cases move with
  | unregister => exact setTraffic_keeps Traffic.stream (by rfl) fd
  | _ => rfl

theorem TxRelays.calls (move : TxRelays cfg s action t) : s.CallsOnce .tx action t := by
  cases move with
  | recv at_ | self at_ | accept at_ | skip at_ | handMissing at_ | busError at_ =>
    refine .of_sending (fun _ => rfl) ?_
    simp only [sending, at_]
  | @finish job index at_ =>
    refine .of_sending (fun _ => rfl) ?_
    simp only [sending, at_, Job.afterRead]
    cases cfg.virtual <;> cases job.writable <;> rfl
  | @bus job at_ =>
    refine .of_sending (fun _ => rfl) ?_
    simp only [sending, at_, Job.afterRead]
    cases job.writable <;> rfl
  | hand at_ =>
    refine .of_sending (hand_stream _ _) ?_
    simp only [sending, at_]
  | offer at_ offer =>
    refine Or.inl ⟨offer.stream, Or.inr ⟨?_, ?_⟩⟩
    · simp only [sending, at_]
      cases offer <;> rfl
    · intro other message progress sends
      cases offer <;> cases sends
      rfl
  | @call job index consumer progress outcome after answer at_ call =>
    refine Or.inr
      ⟨consumer.fd, job.message, progress, outcome, rfl, ?_, after, answer, call, rfl, ?_⟩
    · simp only [sending, at_]
    · cases answer with
      | error => rfl
      | ok step => cases step <;> rfl

theorem Drains.calls {events : List (Event Fd)} (move : Drains s fd events action t) :
    s.CallsOnce .tx action t := by
  cases move with
  | drained at_ | find at_ | peekEmpty at_ | popEmpty at_ | settleEmpty at_ | settleMissing at_
  | settle at_ =>
    refine .of_sending (fun _ => rfl) ?_
    simp only [sending, at_]
  | peek at_ =>
    refine Or.inl ⟨fun _ => rfl, Or.inr ⟨by simp only [sending, at_], ?_⟩⟩
    intro other message progress sends
    cases sends
    rfl
  | pop at_ =>
    refine .of_sending (setTraffic_keeps Traffic.stream (by rfl)) ?_
    simp only [sending, at_]
  | @call head progress outcome after answer at_ call =>
    refine Or.inr ⟨fd, head, progress, outcome, rfl, ?_, after, answer, call, rfl, ?_⟩
    · simp only [sending, at_]
    · cases answer with
      | error => rfl
      | ok step => cases step <;> rfl

/-- Only a socket call writes or goes on with a send. -/
theorem Moves.stream_cases (move : Moves cfg s action t) :
    ((∀ fd, (t.traffic fd).stream = (s.traffic fd).stream) ∧ ∀ loop, s.Rests t loop) ∨
    ∃ loop fd message progress outcome, action = Loop.call loop outcome ∧
      Call s t loop fd message progress outcome ∧
      ∀ other, other ≠ loop → t.sending other = s.sending other := by
  have only {loop : Loop} (once : s.CallsOnce loop action t)
      (others : ∀ other, other ≠ loop → t.sending other = s.sending other) :
      ((∀ fd, (t.traffic fd).stream = (s.traffic fd).stream) ∧ ∀ loop, s.Rests t loop) ∨
      ∃ loop fd message progress outcome, action = Loop.call loop outcome ∧
        Call s t loop fd message progress outcome ∧
        ∀ other, other ≠ loop → t.sending other = s.sending other := by
    rcases once with ⟨stream, rests⟩ | ⟨fd, message, progress, outcome, calls, call⟩
    · refine Or.inl ⟨stream, fun other => ?_⟩
      by_cases same : other = loop
      · exact same ▸ rests
      · exact Or.inl (others other same)
    · exact Or.inr ⟨loop, fd, message, progress, outcome, calls, call, others⟩
  have by_rx (once : s.CallsOnce .rx action t) (tx : t.tx = s.tx) :=
    only once fun other different => by
      cases other with
      | rx => exact absurd rfl different
      | tx => simp only [sending, tx]
  have by_tx (once : s.CallsOnce .tx action t) (rx : t.rx = s.rx) :=
    only once fun other different => by
      cases other with
      | rx => simp only [sending, rx]
      | tx => exact absurd rfl different
  have kept (same : t.traffic = s.traffic) (fd : Fd) :
      (t.traffic fd).stream = (s.traffic fd).stream := by rw [same]
  cases move with
  | clean move =>
    exact by_rx (.of_sending (kept (congrArg Server.traffic move.frame :)) move.sending)
      (congrArg Server.tx move.frame :)
  | rxRelay move => exact by_rx move.calls (congrArg Server.tx move.frame :)
  | select move =>
    exact by_tx (.of_sending (kept (congrArg Server.traffic move.frame :)) move.sending)
      (congrArg Server.rx move.frame :)
  | giveUp move =>
    exact by_tx (.of_sending move.stream move.sending) (congrArg Server.rx move.frame :)
  | txRelay move => exact by_tx move.calls (congrArg Server.rx move.frame :)
  | drain move => exact by_tx move.calls (congrArg Server.rx move.frame :)
  | listen move =>
    exact Or.inl ⟨kept (congrArg Server.traffic move.frame :), fun _ => Or.inl <|
      sending_congr (congrArg Server.rx move.frame :) (congrArg Server.tx move.frame :)⟩
  | stop move =>
    exact Or.inl ⟨kept (congrArg Server.traffic move.frame :), fun _ => Or.inl <|
      sending_congr (congrArg Server.rx move.frame :) (congrArg Server.tx move.frame :)⟩

section Call
variable {progress : Progress} {outcome : CallOutcome} {bytes : List UInt8} {count : Nat}

omit [DecidableEq Fd] in
/-- What an accepting call adds to the wire either grows the frame begun or ends it. -/
theorem record_accepted (traffic : Traffic Fd) (message : Relayed Fd) (progress : Progress)
    (count : Nat) (length : bytes.length = msgSize) :
    (traffic.record message bytes progress (.accepted count)).broken = traffic.broken ∧
    ∃ more, (traffic.record message bytes progress (.accepted count)).written =
        traffic.written ++ more ∧
      ((∃ next, sendCall streamSendAttempts progress (.accepted count) = .more next ∧
          next.sent < msgSize ∧ bytes.take next.sent = bytes.take progress.sent ++ more ∧
          (traffic.record message bytes progress (.accepted count)).delivered =
            traffic.delivered) ∨
        sendCall streamSendAttempts progress (.accepted count) = .sent ∧
          bytes = bytes.take progress.sent ++ more ∧
          (traffic.record message bytes progress (.accepted count)).delivered =
            traffic.delivered ++ [message]) := by
  have grown : bytes.take (progress.sent + count) =
      bytes.take progress.sent ++ (bytes.drop progress.sent).take count := List.take_add
  by_cases short : progress.sent + count < msgSize
  · have goes : sendCall streamSendAttempts progress (.accepted count) =
        .more ⟨progress.sent + count, streamSendAttempts⟩ := if_pos short
    simp only [Traffic.record, goes]
    exact ⟨trivial, _, rfl, Or.inl ⟨_, rfl, short, grown, trivial⟩⟩
  · have ends : sendCall streamSendAttempts progress (.accepted count) = .sent := if_neg short
    have all : bytes.take (progress.sent + count) = bytes := by
      apply List.take_of_length_le
      omega
    rw [all] at grown
    simp only [Traffic.record, ends]
    exact ⟨trivial, _, rfl, Or.inr ⟨trivial, grown, trivial⟩⟩

omit [DecidableEq Fd] in
/-- A call that accepts nothing writes nothing. -/
theorem record_refused (traffic : Traffic Fd) (message : Relayed Fd) (bytes : List UInt8)
    (progress : Progress) (refused : ∀ count, outcome ≠ .accepted count) :
    (traffic.record message bytes progress outcome).written = traffic.written ∧
    (traffic.record message bytes progress outcome).delivered = traffic.delivered ∧
    ((∃ next, sendCall streamSendAttempts progress outcome = .more next ∧
        next.sent = progress.sent ∧
        (traffic.record message bytes progress outcome).broken = traffic.broken) ∨
      (∀ next, sendCall streamSendAttempts progress outcome ≠ .more next) ∧
        (traffic.record message bytes progress outcome).broken =
          (traffic.broken || decide (0 < progress.sent))) := by
  cases outcome with
  | accepted count => exact absurd rfl (refused count)
  | disconnected | failed =>
    exact ⟨rfl, rfl, Or.inr ⟨nofun, rfl⟩⟩
  | wouldBlock =>
    by_cases fresh : progress.sent = 0
    · have blocks : sendCall streamSendAttempts progress .wouldBlock = .wouldBlock := if_pos fresh
      simp [Traffic.record, blocks, fresh]
    · by_cases last : progress.remainingAttempts - 1 = 0
      · have fails : sendCall streamSendAttempts progress .wouldBlock = .failed := by
          simp [sendCall, fresh, last]
        simp [Traffic.record, fails]
      · have goes : sendCall streamSendAttempts progress .wouldBlock =
            .more ⟨progress.sent, progress.remainingAttempts - 1⟩ := by
          simp [sendCall, fresh, last]
        simp [Traffic.record, goes]

/-- The frames delivered to a consumer, as bytes. -/
def wire (s : Server Fd) (fd : Fd) : List UInt8 := (s.traffic fd).delivered.flatMap Relayed.bytes

omit [DecidableEq Fd] in
theorem Relayed.Short.length (short : message.Short) (packed : message.frame.payload = some bytes) :
    bytes.length = msgSize := by
  have total := Frame.payload_length packed
  rw [Relayed.Short] at short
  rw [total, msgSize]
  omega

omit [DecidableEq Fd] in
theorem continues_ok_eq_none {step : SendStep} (stopped : ∀ next, step ≠ .more next) :
    continues fd message (.ok step) = none := by
  cases step with
  | more next => exact absurd rfl (stopped next)
  | _ => rfl

variable {loop : Loop}

theorem Call.accepted (call : Call s t loop fd message progress (.accepted count))
    (short : message.Short) :
    (t.traffic fd).broken = (s.traffic fd).broken ∧
    ∃ more, (t.traffic fd).written = (s.traffic fd).written ++ more ∧
      t.wire fd ++ t.begun loop fd = s.wire fd ++ (s.begun loop fd ++ more) := by
  obtain ⟨before, after, answer, sends, traffic, goes⟩ := call
  cases sends with
  | unpacked none_packed =>
    have empty : message.bytes = [] := by rw [Relayed.bytes, none_packed]; rfl
    refine ⟨by rw [traffic], [], by rw [traffic, List.append_nil], ?_⟩
    simp [wire, traffic, begun, before, goes, continues, empty]
  | @call bytes packed possible =>
    have here : message.bytes = bytes := by rw [Relayed.bytes, packed]; rfl
    have own : t.traffic fd = (s.traffic fd).record message bytes progress (.accepted count) := by
      rw [traffic]
      simp [setTraffic]
    obtain ⟨broken, more, written, ⟨next, step, _, grown, delivered⟩ | ⟨step, ends, delivered⟩⟩ :=
      record_accepted (s.traffic fd) message progress count (short.length packed)
    · refine ⟨by rw [own, broken], more, by rw [own, written], ?_⟩
      simp only [wire, own, delivered, begun, before, goes, step, continues, if_true, here, grown]
    · refine ⟨by rw [own, broken], more, by rw [own, written], ?_⟩
      simp only [wire, own, delivered, begun, before, goes, step, continues, if_true, here,
        List.flatMap_append, List.flatMap_singleton, List.append_nil]
      rw [← ends]

theorem Call.refused (call : Call s t loop fd message progress outcome)
    (refused : ∀ count, outcome ≠ .accepted count) :
    (t.traffic fd).written = (s.traffic fd).written ∧ t.wire fd = s.wire fd ∧
      ((t.traffic fd).broken = false → t.begun loop fd = s.begun loop fd) := by
  obtain ⟨before, after, answer, sends, traffic, goes⟩ := call
  cases sends with
  | unpacked none_packed =>
    have empty : message.bytes = [] := by rw [Relayed.bytes, none_packed]; rfl
    refine ⟨by rw [traffic], by rw [wire, traffic]; rfl, fun _ => ?_⟩
    simp [begun, before, goes, continues, empty]
  | @call bytes packed possible =>
    have own : t.traffic fd = (s.traffic fd).record message bytes progress outcome := by
      rw [traffic]
      simp [setTraffic]
    obtain ⟨written, delivered, ⟨next, step, same, _⟩ | ⟨stopped, broken⟩⟩ :=
      record_refused (s.traffic fd) message bytes progress refused
    · refine ⟨by rw [own, written], by simp only [wire, own, delivered], fun _ => ?_⟩
      simp only [begun, before, goes, step, continues, if_true, same]
    · refine ⟨by rw [own, written], by simp only [wire, own, delivered], fun unbroken => ?_⟩
      rw [own, broken, Bool.or_eq_false_iff, decide_eq_false_iff_not] at unbroken
      have none_sent : progress.sent = 0 := by omega
      simp [begun, before, goes, continues_ok_eq_none stopped, none_sent]

theorem Call.elsewhere (call : Call s t loop fd message progress outcome) {other : Fd}
    (different : other ≠ fd) :
    (t.traffic other).stream = (s.traffic other).stream ∧
      t.begun loop other = s.begun loop other := by
  obtain ⟨before, after, answer, sends, traffic, goes⟩ := call
  constructor
  · rw [traffic]
    cases sends with
    | unpacked => rfl
    | call => simp [setTraffic, different]
  · have nothing (next : Progress) :
        (if fd = other then message.bytes.take next.sent else []) = [] := if_neg (Ne.symm different)
    simp only [begun, before, goes, nothing]
    cases answer with
    | error => rfl
    | ok step => cases step <;> simp [continues, nothing]

omit [DecidableEq Fd] in
theorem record_delivered {traffic : Traffic Fd} {other : Relayed Fd}
    (member : other ∈ (traffic.record message bytes progress outcome).delivered) :
    other ∈ traffic.delivered ∨ other = message := by
  unfold Traffic.record at member
  cases outcome <;> dsimp only at member <;> split at member <;> simp_all

theorem Call.delivered (call : Call s t loop fd message progress outcome) (short : message.Short)
    {other : Relayed Fd} (member : other ∈ (t.traffic fd).delivered) :
    other ∈ (s.traffic fd).delivered ∨ IsFrame other.bytes := by
  obtain ⟨_, after, answer, sends, traffic, _⟩ := call
  rw [traffic] at member
  cases sends with
  | unpacked => exact Or.inl member
  | call packed =>
    simp only [setTraffic, Function.update_self] at member
    refine (record_delivered member).imp_right ?_
    rintro rfl
    rw [Relayed.bytes, packed]
    exact ⟨short.length packed, _, packed⟩

theorem sendCall_fits {attempts : Nat} {next : Progress} (fits : progress.sent < msgSize)
    (goes : sendCall attempts progress outcome = .more next) : next.sent < msgSize := by
  cases outcome with
  | accepted count =>
    simp only [sendCall] at goes
    split at goes
    · cases goes
      assumption
    · contradiction
  | wouldBlock =>
    simp only [sendCall] at goes
    split at goes
    · contradiction
    · split at goes
      · contradiction
      · cases goes
        exact fits
  | disconnected | failed => contradiction

end Call

omit [DecidableEq Fd] in
theorem socketCall_call (loop : Loop) (outcome : CallOutcome) :
    socketCall (Loop.call loop outcome : Action Fd) = some (loop, outcome) := by
  cases loop <;> rfl

omit [DecidableEq Fd] in
/-- Only a send that fails after some of its bytes breaks a connection. -/
theorem record_broken {traffic : Traffic Fd} {bytes : List UInt8} {progress : Progress}
    {outcome : CallOutcome} (unbroken : traffic.broken = false)
    (breaks : (traffic.record message bytes progress outcome).broken = true) :
    0 < progress.sent ∧ (sendCall streamSendAttempts progress outcome = .failed ∨
      sendCall streamSendAttempts progress outcome = .disconnected) := by
  unfold Traffic.record at breaks
  cases outcome <;> dsimp only at breaks <;> split at breaks <;> simp_all

theorem Call.breaks {loop : Loop} {progress : Progress} {outcome : CallOutcome}
    (call : Call s t loop fd message progress outcome) (unbroken : (s.traffic fd).broken = false)
    (breaks : (t.traffic fd).broken = true) :
    0 < progress.sent ∧ (sendCall streamSendAttempts progress outcome = .failed ∨
      sendCall streamSendAttempts progress outcome = .disconnected) := by
  obtain ⟨_, after, answer, sends, traffic, _⟩ := call
  rw [traffic] at breaks
  cases sends with
  | unpacked =>
    rw [unbroken] at breaks
    contradiction
  | call =>
    simp only [setTraffic, Function.update_self] at breaks
    exact record_broken unbroken breaks

end Sockcan.Server
