import Sockcan.Server.Calls
import Sockcan.Server.Connected

/-! The sends of the loops, frame by frame. Seen from here a send that takes several socket
calls is one call, made with the last of them, and until then nothing of it shows. -/
namespace Sockcan.Server
open Protocol Transition
variable {Fd : Type}

section View

/-- A send in progress is yet to begin. -/
def Offer.atomic : Offer → Offer
  | .send _ => .send (.start streamSendAttempts)
  | point => point

def RxPoint.atomic : RxPoint Fd → RxPoint Fd
  | .offer message index consumer point => .offer message index consumer point.atomic
  | point => point

def TxPoint.atomic : TxPoint Fd → TxPoint Fd
  | .offer job index consumer point => .offer job index consumer point.atomic
  | .drainSend fd head _ events => .drainSend fd head (.start streamSendAttempts) events
  | point => point

/-- The bytes of a frame are written when it is delivered. -/
def Traffic.atomic (traffic : Traffic Fd) : Traffic Fd :=
  { traffic with written := traffic.delivered.flatMap Relayed.bytes }

def atomic (s : Server Fd) : Server Fd :=
  { s with
    rx := s.rx.atomic
    tx := s.tx.atomic
    traffic := fun fd => (s.traffic fd).atomic }

/-- The frame that the loop sends has a header, and the call does not fail. -/
def CallSucceeds (s : Server Fd) (loop : Loop) (outcome : CallOutcome) : Prop :=
  ∀ sends ∈ s.sending loop, sends.2.1.frame.payload.isSome ∧
    sendCall streamSendAttempts sends.2.2 outcome ≠ .disconnected ∧
    sendCall streamSendAttempts sends.2.2 outcome ≠ .failed

instance (s : Server Fd) (loop : Loop) (outcome : CallOutcome) :
    Decidable (s.CallSucceeds loop outcome) :=
  inferInstanceAs (Decidable (∀ sends ∈ s.sending loop, _))

/-- No send fails, however many calls it takes. -/
def SendsSucceed (s : Server Fd) : Action Fd → Prop
  | .rxCall outcome => s.CallSucceeds .rx outcome
  | .txCall outcome => s.CallSucceeds .tx outcome
  | _ => True

instance (s : Server Fd) : DecidablePred s.SendsSucceed
  | .rxCall outcome => inferInstanceAs (Decidable (s.CallSucceeds .rx outcome))
  | .txCall outcome => inferInstanceAs (Decidable (s.CallSucceeds .tx outcome))
  | .rx | .rxRecv _ | .tx | .txSelect _ | .txRecv _ | .txBus _ | .listen _ | .listenNext _
  | .stop => isTrue trivial

/-- Each call takes its frame whole, or refuses it. -/
def WholeSends (s : Server Fd) : Action Fd → Prop
  | .rxCall outcome => s.WholeCall .rx outcome
  | .txCall outcome => s.WholeCall .tx outcome
  | _ => True

/-- The consumers stay connected, none is added, and no send fails, however many calls it
takes. -/
def Unfailing (s : Server Fd) : Action Fd → Prop
  | .rxCall outcome => s.CallSucceeds .rx outcome
  | .txCall outcome => s.CallSucceeds .tx outcome
  | .txRecv none | .listen _ => False
  | _ => True

instance (s : Server Fd) : DecidablePred s.Unfailing
  | .rxCall outcome => inferInstanceAs (Decidable (s.CallSucceeds .rx outcome))
  | .txCall outcome => inferInstanceAs (Decidable (s.CallSucceeds .tx outcome))
  | .txRecv none | .listen _ => isFalse id
  | .rx | .rxRecv _ | .tx | .txSelect _ | .txRecv (some _) | .txBus _ | .listenNext _ | .stop =>
    isTrue trivial

variable {s : Server Fd} {fd : Fd}

@[simp] theorem atomic_consumers : s.atomic.consumers = s.consumers := rfl

@[simp] theorem atomic_consumerIo : s.atomic.consumerIo = s.consumerIo := rfl

@[simp] theorem atomic_io : s.atomic.io = s.io := rfl

@[simp] theorem atomic_selector : s.atomic.selector = s.selector := rfl

@[simp] theorem atomic_dead : s.atomic.deadConsumerFds = s.deadConsumerFds := rfl

@[simp] theorem atomic_running : s.atomic.running = s.running := rfl

@[simp] theorem atomic_wakeUps : s.atomic.wakeUps = s.wakeUps := rfl

@[simp] theorem atomic_closed : s.atomic.closedConnections = s.closedConnections := rfl

@[simp] theorem atomic_changed : s.atomic.consumersChanged = s.consumersChanged := rfl

@[simp] theorem atomic_listeners : s.atomic.listeners = s.listeners := rfl

@[simp] theorem atomic_stopping : s.atomic.stopping = s.stopping := rfl

@[simp] theorem atomic_rx : s.atomic.rx = s.rx.atomic := rfl

@[simp] theorem atomic_tx : s.atomic.tx = s.tx.atomic := rfl

@[simp] theorem atomic_traffic : s.atomic.traffic fd = (s.traffic fd).atomic := rfl

end View

variable [DecidableEq Fd] {cfg : Config} {peers : List (Consumer Fd)} {s t : Server Fd}
  {action : Action Fd} {actions : List (Action Fd)} {fd : Fd} {message : Relayed Fd}

section Shared
variable {point : Offer} {result : OfferResult} {progress : Progress} {outcome : CallOutcome}

theorem setTraffic_atomic (traffic : Traffic Fd) :
    (s.setTraffic fd traffic).atomic = s.atomic.setTraffic fd traffic.atomic := by
  have same : (fun other => ((s.setTraffic fd traffic).traffic other).atomic) =
      Function.update (fun other => (s.traffic other).atomic) fd traffic.atomic :=
    Function.comp_update Traffic.atomic s.traffic fd traffic
  simp only [setTraffic, atomic] at same ⊢
  rw [same]

theorem hand_atomic : (s.hand fd message).atomic = s.atomic.hand fd message :=
  setTraffic_atomic _

theorem append_atomic : (s.append cfg fd message).atomic = s.atomic.append cfg fd message :=
  setTraffic_atomic _

theorem popleft_atomic (head : Relayed Fd) (rest : List (Relayed Fd)) :
    (s.popleft fd head rest).atomic = s.atomic.popleft fd head rest :=
  setTraffic_atomic _

theorem noteDroppedFrame_atomic :
    (s.noteDroppedFrame cfg fd).atomic = s.atomic.noteDroppedFrame cfg fd := by
  rw [noteDroppedFrame_eq, noteDroppedFrame_eq]
  rfl

omit [DecidableEq Fd] in
theorem Offer.AtStart.atomic {point : Offer} (fresh : point.AtStart) : point.atomic = point := by
  cases point with
  | send progress => exact congrArg Offer.send fresh.symm
  | _ => rfl

omit [DecidableEq Fd] in
theorem Job.atomic_afterRead (job : Job Fd) : job.afterRead.atomic = job.afterRead := by
  unfold Job.afterRead
  split <;> rfl

theorem Offers.atomic (offer : Offers cfg s fd message point t result) :
    offerStep cfg s.atomic fd message point.atomic = some (t.atomic, result) := by
  cases offer with
  | direct empty => exact if_pos empty
  | behind nonempty => exact if_neg nonempty
  | countDropped | queueCount =>
    rw [noteDroppedFrame_atomic]
    rfl
  | append =>
    rw [append_atomic]
    rfl
  | queue registered =>
    have moved : ((s.append cfg fd message).setInterest fd (some .readWrite)).atomic =
        (s.atomic.append cfg fd message).setInterest fd (some .readWrite) :=
      congrArg (fun u => u.setInterest fd (some .readWrite)) append_atomic
    rw [moved]
    exact if_pos registered
  | queueMissing absent =>
    rw [append_atomic]
    exact if_neg absent

end Shared

section Steps

omit [DecidableEq Fd] in
theorem goto_rx_atomic (s : Server Fd) (point : RxPoint Fd) :
    ({ s with rx := point } : Server Fd).atomic = { s.atomic with rx := point.atomic } := rfl

omit [DecidableEq Fd] in
theorem goto_tx_atomic (s : Server Fd) (point : TxPoint Fd) :
    ({ s with tx := point } : Server Fd).atomic = { s.atomic with tx := point.atomic } := rfl

omit [DecidableEq Fd] in
theorem aggregateNext_atomic (index : Nat) (aggregated : List CanFilter) :
    s.atomic.aggregateNext index aggregated = s.aggregateNext index aggregated := rfl

theorem hasConsumer_atomic (fd : Fd) : s.atomic.hasConsumer fd = s.hasConsumer fd := rfl

/-- No statement but a socket call reads or writes what the view changes. -/
theorem Cleans.atomic (move : Cleans s t) : step cfg s.atomic .rx = some t.atomic := by
  cases move <;>
    simp only [step, rxStep, atomic_rx, atomic_closed, atomic_dead, atomic_changed,
      atomic_consumerIo, aggregateNext_atomic, hasConsumer_atomic, RxPoint.atomic, *] <;> rfl

theorem Selects.atomic (move : Selects s action t) : step cfg s.atomic action = some t.atomic := by
  cases move with
  | select at_ selection =>
    simp only [step, txSelect, atomic_tx, at_, TxPoint.atomic]
    exact if_pos selection
  | _ =>
    simp only [step, txStep, atomic_tx, atomic_running, atomic_wakeUps, TxPoint.atomic, *]
    rfl

theorem GivesUp.atomic (move : GivesUp s action t) : step cfg s.atomic action = some t.atomic := by
  cases move with
  | unregister at_ registered =>
    simp only [step, txStep, atomic_tx, at_, TxPoint.atomic, atomic_selector, registered, if_true]
    refine .trans ?_ (congrArg some (goto_tx_atomic _ _).symm)
    rw [setTraffic_atomic]
    rfl
  | _ =>
    simp only [step, txStep, txRecv, atomic_tx, atomic_selector, TxPoint.atomic, *]
    rfl

omit [DecidableEq Fd] in
theorem RxPoint.atomic_afterOffer (message : Relayed Fd) (index : Nat) (consumer : Consumer Fd)
    {result : OfferResult} (fresh : ∀ next, result = .next next → next.AtStart) :
    (RxPoint.afterOffer message index consumer result).atomic =
      .afterOffer message index consumer result := by
  cases result with
  | next next => exact congrArg _ (fresh next rfl).atomic
  | _ => rfl

omit [DecidableEq Fd] in
theorem TxPoint.atomic_afterOffer (job : Job Fd) (index : Nat) (consumer : Consumer Fd)
    {result : OfferResult} (fresh : ∀ next, result = .next next → next.AtStart) :
    (TxPoint.afterOffer job index consumer result).atomic =
      .afterOffer job index consumer result := by
  cases result with
  | next next => exact congrArg _ (fresh next rfl).atomic
  | _ => rfl

/-- What the relay of a loop does between two socket calls. -/
theorem RxRelays.atomic (move : RxRelays cfg s action t) (no_call : socketCall action = none) :
    step cfg s.atomic action = some t.atomic := by
  cases move with
  | @hand message index consumer at_ present =>
    simp only [step, rxStep, atomic_rx, at_, RxPoint.atomic, atomic_consumerIo, present, if_true]
    refine .trans ?_ (congrArg some (goto_rx_atomic _ _).symm)
    rw [hand_atomic]
    rfl
  | @offer message index consumer point after result at_ offer =>
    have goes := RxPoint.atomic_afterOffer message index consumer fun _ => offer.atStart
    simp only [step, rxStep, atomic_rx, at_, RxPoint.atomic, offer.atomic, Option.map_some]
    exact .trans (by rw [goes]) (congrArg some (goto_rx_atomic _ _).symm)
  | call => contradiction
  | _ =>
    simp only [step, rxStep, rxRecv, atomic_rx, atomic_consumers, atomic_consumerIo,
      RxPoint.atomic, *]
    rfl

theorem TxRelays.atomic (move : TxRelays cfg s action t) (no_call : socketCall action = none) :
    step cfg s.atomic action = some t.atomic := by
  cases move with
  | @finish job index at_ past =>
    have goes : (if cfg.virtual then job.afterRead else .busSend job : TxPoint Fd).atomic =
        if cfg.virtual then job.afterRead else .busSend job := by
      split
      · exact job.atomic_afterRead
      · rfl
    simp only [step, txStep, atomic_tx, at_, TxPoint.atomic, atomic_consumers, past]
    refine .trans ?_ (congrArg some (goto_tx_atomic _ _).symm)
    rw [goes]
    rfl
  | @bus job at_ =>
    simp only [step, txBus, atomic_tx, at_, TxPoint.atomic, if_true]
    refine .trans ?_ (congrArg some
      (goto_tx_atomic { s with busTraffic := s.busTraffic ++ [job.message] } job.afterRead).symm)
    rw [job.atomic_afterRead]
    rfl
  | @hand job index consumer at_ present =>
    simp only [step, txStep, atomic_tx, at_, TxPoint.atomic, atomic_consumerIo, present, if_true]
    refine .trans ?_ (congrArg some (goto_tx_atomic _ _).symm)
    rw [hand_atomic]
    rfl
  | @offer job index consumer point after result at_ offer =>
    have goes := TxPoint.atomic_afterOffer job index consumer fun _ => offer.atStart
    simp only [step, txStep, atomic_tx, at_, TxPoint.atomic, offer.atomic, Option.map_some]
    exact .trans (by rw [goes]) (congrArg some (goto_tx_atomic _ _).symm)
  | call => contradiction
  | _ =>
    simp only [step, txStep, txRecv, txBus, atomic_tx, atomic_consumers, atomic_consumerIo,
      TxPoint.atomic, *]
    rfl

theorem Drains.atomic {events : List (Event Fd)} (move : Drains s fd events action t)
    (no_call : socketCall action = none) : step cfg s.atomic action = some t.atomic := by
  cases move with
  | call => contradiction
  | pop at_ queued =>
    simp only [step, txStep, atomic_tx, at_, TxPoint.atomic, atomic_io, queued]
    refine .trans ?_ (congrArg some (goto_tx_atomic _ _).symm)
    rw [popleft_atomic]
    rfl
  | _ =>
    simp only [step, txStep, atomic_tx, atomic_io, atomic_selector, TxPoint.atomic, *]
    rfl

theorem Listens.atomic (move : Listens cfg s action t) :
    step cfg s.atomic action = some t.atomic := by
  cases move with
  | noWake at_ stopped =>
    have still : s.running = false := by simpa using stopped
    simp only [step, listenNext, atomic_listeners, at_, atomic_running, still, Bool.false_eq_true,
      if_false]
    rfl
  | _ =>
    simp only [step, listen, listenNext, atomic_listeners, atomic_selector, atomic_running,
      aggregateNext_atomic, *]
    rfl

omit [DecidableEq Fd] in
theorem Stops.atomic (move : Stops s t) : stopStep s.atomic = some t.atomic := by
  cases move <;> simp only [stopStep, atomic_stopping, atomic_running, *] <;> rfl

theorem Moves.atomic (move : Moves cfg s action t) (no_call : socketCall action = none) :
    step cfg s.atomic action = some t.atomic := by
  cases move with
  | clean move => exact move.atomic
  | rxRelay move => exact move.atomic no_call
  | select move => exact move.atomic
  | giveUp move => exact move.atomic
  | txRelay move => exact move.atomic no_call
  | drain move => exact move.atomic no_call
  | listen move => exact move.atomic
  | stop move => exact move.atomic

end Steps

section Sends
variable {progress : Progress} {outcome : CallOutcome} {answer : Except Ending SendStep}

omit [DecidableEq Fd] in
/-- A call that does not end the send does not show. -/
theorem record_unseen {bytes : List UInt8} (traffic : Traffic Fd)
    (goes : (∃ next, sendCall streamSendAttempts progress outcome = .more next) ∨
      sendCall streamSendAttempts progress outcome = .wouldBlock) :
    (traffic.record message bytes progress outcome).atomic = traffic.atomic := by
  rcases goes with ⟨next, goes⟩ | goes <;>
    cases outcome <;> simp only [Traffic.record, goes] <;> rfl

omit [DecidableEq Fd] in
/-- The call that ends it shows as the whole frame. -/
theorem record_sent {bytes : List UInt8} (traffic : Traffic Fd)
    (packed : message.frame.payload = some bytes)
    (ends : sendCall streamSendAttempts progress outcome = .sent) :
    (traffic.record message bytes progress outcome).atomic = { traffic.atomic with
      written := traffic.atomic.written ++ bytes
      delivered := traffic.delivered ++ [message] } := by
  have whole : message.bytes = bytes := by
    rw [Relayed.bytes, packed]
    rfl
  cases outcome <;> simp only [Traffic.record, ends] <;>
    simp [Traffic.atomic, whole]

/-- A call that does not fail is unseen, or is the one call of its send. -/
theorem Sends.atomic (call : Sends s fd message progress outcome t answer)
    (packs : message.frame.payload.isSome)
    (disconnects : sendCall streamSendAttempts progress outcome ≠ .disconnected)
    (fails : sendCall streamSendAttempts progress outcome ≠ .failed) :
    (∃ next, answer = .ok (.more next)) ∧ t.atomic = s.atomic ∨
      ∃ single, Whole message.frame single ∧ (answer = .ok .sent ∨ answer = .ok .wouldBlock) ∧
        s.atomic.socketSend fd message (.start streamSendAttempts) single =
          some (t.atomic, answer) := by
  cases call with
  | unpacked none_packed => simp [none_packed] at packs
  | @call bytes packed possible =>
    have unseen (same : ((s.traffic fd).record message bytes progress outcome).atomic =
        (s.traffic fd).atomic) :
        (s.setTraffic fd ((s.traffic fd).record message bytes progress outcome)).atomic =
          s.atomic := by
      rw [setTraffic_atomic, same, ← atomic_traffic, setTraffic_self]
    cases goes : sendCall streamSendAttempts progress outcome with
    | more next => exact Or.inl ⟨⟨next, rfl⟩, unseen (record_unseen _ (Or.inl ⟨next, goes⟩))⟩
    | wouldBlock =>
      refine Or.inr ⟨.wouldBlock, ?_, Or.inr rfl, ?_⟩
      · simp [Whole, packed]
      · rw [unseen (record_unseen _ (Or.inr goes))]
        exact socketSend_refused packed
    | sent =>
      refine Or.inr ⟨.accepted bytes.length, ?_, Or.inl rfl, ?_⟩
      · simp [Whole, packed]
      · rw [setTraffic_atomic, record_sent _ packed goes]
        exact socketSend_whole packed
    | disconnected => exact absurd goes disconnects
    | failed => exact absurd goes fails

/-- A call of the RX loop is one of a whole frame, or is unseen. -/
theorem RxRelays.call_atomic {outcome : CallOutcome}
    (move : RxRelays cfg s (.rxCall outcome) t) (succeeds : s.CallSucceeds .rx outcome) :
    t.atomic = s.atomic ∨ ∃ single, s.atomic.WholeCall .rx single ∧
      step cfg s.atomic (.rxCall single) = some t.atomic := by
  cases move with
  | @call message index consumer progress _ after answer at_ call =>
    obtain ⟨packs, disconnects, fails⟩ := succeeds _ (by simp only [sending, at_]; rfl)
    have rx : s.atomic.rx =
        .offer message index consumer (.send (.start streamSendAttempts)) := by
      rw [atomic_rx, at_]
      rfl
    rw [goto_rx_atomic]
    rcases call.atomic packs disconnects fails with
      ⟨⟨next, rfl⟩, unseen⟩ | ⟨single, whole, ends, sends⟩
    · refine Or.inl ?_
      rw [unseen]
      exact congrArg (fun point => { s.atomic with rx := point }) rx.symm
    · refine Or.inr ⟨single, by simpa only [WholeCall, sending, rx] using whole, ?_⟩
      simp only [step, rxCall, rx, sends, Option.map_some]
      rcases ends with rfl | rfl <;> rfl

theorem TxRelays.call_atomic {outcome : CallOutcome}
    (move : TxRelays cfg s (.txCall outcome) t) (succeeds : s.CallSucceeds .tx outcome) :
    t.atomic = s.atomic ∨ ∃ single, s.atomic.WholeCall .tx single ∧
      step cfg s.atomic (.txCall single) = some t.atomic := by
  cases move with
  | @call job index consumer progress _ after answer at_ call =>
    obtain ⟨packs, disconnects, fails⟩ := succeeds _ (by simp only [sending, at_]; rfl)
    have tx : s.atomic.tx = .offer job index consumer (.send (.start streamSendAttempts)) := by
      rw [atomic_tx, at_]
      rfl
    rw [goto_tx_atomic]
    rcases call.atomic packs disconnects fails with
      ⟨⟨next, rfl⟩, unseen⟩ | ⟨single, whole, ends, sends⟩
    · refine Or.inl ?_
      rw [unseen]
      exact congrArg (fun point => { s.atomic with tx := point }) tx.symm
    · refine Or.inr ⟨single, by simpa only [WholeCall, sending, tx] using whole, ?_⟩
      simp only [step, txCall, tx, sends, Option.map_some]
      rcases ends with rfl | rfl <;> rfl

theorem Drains.call_atomic {events : List (Event Fd)} {outcome : CallOutcome}
    (move : Drains s fd events (.txCall outcome) t) (succeeds : s.CallSucceeds .tx outcome) :
    t.atomic = s.atomic ∨ ∃ single, s.atomic.WholeCall .tx single ∧
      step cfg s.atomic (.txCall single) = some t.atomic := by
  cases move with
  | @call head progress _ after answer at_ call =>
    obtain ⟨packs, disconnects, fails⟩ := succeeds _ (by simp only [sending, at_]; rfl)
    have tx : s.atomic.tx = .drainSend fd head (.start streamSendAttempts) events := by
      rw [atomic_tx, at_]
      rfl
    rw [goto_tx_atomic]
    rcases call.atomic packs disconnects fails with
      ⟨⟨next, rfl⟩, unseen⟩ | ⟨single, whole, ends, sends⟩
    · refine Or.inl ?_
      rw [unseen]
      exact congrArg (fun point => { s.atomic with tx := point }) tx.symm
    · refine Or.inr ⟨single, by simpa only [WholeCall, sending, tx] using whole, ?_⟩
      simp only [step, txCall, tx, sends, Option.map_some]
      rcases ends with rfl | rfl <;> rfl

end Sends

/-- Each step is one of whole frames, or unseen; and it is steady where nobody joins or leaves. -/
theorem atomic_step (succeeds : s.SendsSucceed action) (step : step cfg s action = some t) :
    t.atomic = s.atomic ∨ ∃ single, s.atomic.WholeSends single ∧
      (s.Unfailing action → s.atomic.Steady single) ∧
      Server.step cfg s.atomic single = some t.atomic := by
  have move := step_moves step
  have shown (whole : s.atomic.WholeSends action)
      (steady : s.Unfailing action → s.atomic.Steady action) (no_call : socketCall action = none) :
      t.atomic = s.atomic ∨ ∃ single, s.atomic.WholeSends single ∧
        (s.Unfailing action → s.atomic.Steady single) ∧
        Server.step cfg s.atomic single = some t.atomic :=
    Or.inr ⟨action, whole, steady, move.atomic no_call⟩
  cases action with
  | rxCall outcome =>
    cases move with
    | rxRelay move =>
      refine (move.call_atomic succeeds).imp_right ?_
      rintro ⟨single, whole, made⟩
      exact ⟨.rxCall single, whole, fun _ => whole, made⟩
    | select move | giveUp move | txRelay move | drain move | listen move => cases move
  | txCall outcome =>
    have called : (∃ single, s.atomic.WholeCall .tx single ∧
        Server.step cfg s.atomic (.txCall single) = some t.atomic) →
        ∃ single, s.atomic.WholeSends single ∧
          (s.Unfailing (.txCall outcome) → s.atomic.Steady single) ∧
          Server.step cfg s.atomic single = some t.atomic := by
      rintro ⟨single, whole, made⟩
      exact ⟨.txCall single, whole, fun _ => whole, made⟩
    cases move with
    | txRelay move => exact (move.call_atomic succeeds).imp_right called
    | drain move => exact (move.call_atomic succeeds).imp_right called
    | rxRelay move | select move | giveUp move | listen move => cases move
  | txRecv answer =>
    cases answer with
    | none => exact shown trivial (fun unfailing => unfailing.elim) rfl
    | some frame => exact shown trivial (fun _ => trivial) rfl
  | listen consumer => exact shown trivial (fun unfailing => unfailing.elim) rfl
  | _ => exact shown trivial (fun _ => trivial) rfl

theorem atomic_simulates :
    Simulates (step cfg) (step cfg) SendsSucceed WholeSends (atomic : Server Fd → Server Fd) := by
  intro s action t succeeds step
  refine (atomic_step succeeds step).imp_right ?_
  rintro ⟨single, whole, _, made⟩
  exact ⟨single, whole, made⟩

omit [DecidableEq Fd] in
theorem Unfailing.sendsSucceed (unfailing : s.Unfailing action) : s.SendsSucceed action := by
  cases action with
  | rxCall | txCall => exact unfailing
  | _ => trivial

theorem atomic_simulates_steady :
    Simulates (step cfg) (step cfg) Unfailing Steady (atomic : Server Fd → Server Fd) := by
  intro s action t unfailing step
  refine (atomic_step unfailing.sendsSucceed step).imp_right ?_
  rintro ⟨single, _, steady, made⟩
  exact ⟨single, steady unfailing, made⟩

theorem atomic_start (cfg : Config) (peers : List (Consumer Fd)) :
    (start cfg peers).atomic = start cfg peers := by
  have rx : (start cfg peers).rx.atomic = (start cfg peers).rx := by
    simp only [start]
    split <;> rfl
  exact congrArg (fun point => { start cfg peers with rx := point }) rx

/-- With consumers that stay connected, the view of a run is a steady one. -/
theorem atomic_steady (unfailing : Along (step cfg) Unfailing (start cfg peers) actions)
    (path : run (step cfg) (start cfg peers) actions = some s) :
    ∃ shown, run (step cfg) (start cfg peers) shown = some s.atomic ∧
      Along (step cfg) Steady (start cfg peers) shown ∧
      ∀ P : Server Fd → Prop,
        Throughout (step cfg) (fun s => P s.atomic) (start cfg peers) actions →
          Throughout (step cfg) P (start cfg peers) shown := by
  have shown := atomic_simulates_steady.run unfailing path
  rwa [atomic_start] at shown

/-- A run in which no send fails, however its sends are cut into socket calls, is in what it
reads, hands over, queues and delivers a run in which each send is one call. -/
theorem sends_atomic (succeed : Along (step cfg) SendsSucceed (start cfg peers) actions)
    (path : run (step cfg) (start cfg peers) actions = some s) :
    ∃ shown, run (step cfg) (start cfg peers) shown = some s.atomic ∧
      Along (step cfg) WholeSends (start cfg peers) shown ∧
      ∀ P : Server Fd → Prop,
        Throughout (step cfg) (fun s => P s.atomic) (start cfg peers) actions →
          Throughout (step cfg) P (start cfg peers) shown := by
  have shown := atomic_simulates.run succeed path
  rwa [atomic_start] at shown

/-- The frame is written in two calls; between them the TX loop reads that the other client has
left, and a third one joins. -/
def piecewiseRun : List (Action Nat) :=
  [.rx, .rx, .rx, .rxRecv (some ⟨0x123, [1], false⟩), .rx, .rx, .rx, .rxCall (.accepted 5), .tx,
    .txSelect [.ready 1 true false], .tx, .txRecv none, .tx, .tx, .listen ⟨2, none⟩,
    .listenNext 2, .rxCall .wouldBlock, .rxCall (.accepted 11)]

theorem sends_atomic_piecewise :
    ∃ s shown, run (step .realBus) (start .realBus [⟨0, none⟩, ⟨1, none⟩]) piecewiseRun = some s ∧
      (s.traffic 0).delivered.length = 1 ∧ s.deadConsumerFds = [1] ∧ s.consumers.length = 3 ∧
      run (step .realBus) (start .realBus [⟨0, none⟩, ⟨1, none⟩]) shown = some s.atomic ∧
      Along (step .realBus) WholeSends (start .realBus [⟨0, none⟩, ⟨1, none⟩]) shown := by
  have ends : (run (step .realBus) (start .realBus [⟨0, none⟩, ⟨1, none⟩]) piecewiseRun).map
      (fun s => ((s.traffic 0).delivered.length, s.deadConsumerFds, s.consumers.length)) =
        some (1, [1], 3) := by decide +kernel
  obtain ⟨s, path, observed⟩ := Option.map_eq_some_iff.mp ends
  simp only [Prod.mk.injEq] at observed
  obtain ⟨delivered, dead, listed⟩ := observed
  obtain ⟨shown, shows, whole, _⟩ := sends_atomic (by decide +kernel) path
  exact ⟨s, shown, path, delivered, dead, listed, shows, whole⟩

end Sockcan.Server
