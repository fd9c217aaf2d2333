import Sockcan.Server.Moves

/-! Runs in which no consumer comes or goes and a socket takes a whole frame or
nothing: the registries never change, and every program point is about consumers
that stay connected. -/
namespace Sockcan.Server
open Protocol
variable {Fd : Type}

/-- The call takes all of the frame, or nothing. -/
def Whole (frame : Frame) (outcome : CallOutcome) : Prop :=
  match frame.payload with
  | none => False
  | some bytes => outcome = .wouldBlock ∨ outcome = .accepted bytes.length

instance (frame : Frame) (outcome : CallOutcome) : Decidable (Whole frame outcome) := by
  unfold Whole
  cases frame.payload <;> infer_instance

/-- The call of that loop, if it is in the middle of a send, is a whole one. -/
def WholeCall (s : Server Fd) (loop : Loop) (outcome : CallOutcome) : Prop :=
  match s.sending loop with
  | none => True
  | some (_, message, _) => Whole message.frame outcome

instance (s : Server Fd) (loop : Loop) (outcome : CallOutcome) :
    Decidable (s.WholeCall loop outcome) := by
  unfold WholeCall
  cases s.sending loop <;> infer_instance

/-- The consumers stay connected, none is added, and all calls are whole. -/
def Steady (s : Server Fd) : Action Fd → Prop
  | .rxCall outcome => s.WholeCall .rx outcome
  | .txCall outcome => s.WholeCall .tx outcome
  | .txRecv none | .listen _ => False
  | _ => True

instance (s : Server Fd) : DecidablePred s.Steady
  | .rxCall outcome => inferInstanceAs (Decidable (s.WholeCall .rx outcome))
  | .txCall outcome => inferInstanceAs (Decidable (s.WholeCall .tx outcome))
  | .txRecv none | .listen _ => isFalse id
  | .rx | .rxRecv _ | .tx | .txSelect _ | .txRecv (some _) | .txBus _ | .listenNext _ | .stop =>
    isTrue trivial

theorem Whole.possible {frame : Frame} {outcome : CallOutcome} (whole : Whole frame outcome) :
    ∃ bytes, frame.payload = some bytes ∧
      (outcome = .wouldBlock ∨ outcome = .accepted bytes.length) := by
  unfold Whole at whole
  split at whole
  · exact whole.elim
  · exact ⟨_, ‹_›, whole⟩

section Points

def Known (peers : List (Consumer Fd)) (fd : Fd) : Prop := ∃ c ∈ peers, c.fd = fd

def KnownEvents (peers : List (Consumer Fd)) (events : List (Event Fd)) : Prop :=
  ∀ fd readable writable, Event.ready fd readable writable ∈ events → Known peers fd

/-- `consumer` is the one before `index`, and takes the message. -/
def Chosen (peers : List (Consumer Fd)) (message : Relayed Fd) (index : Nat)
    (consumer : Consumer Fd) : Prop :=
  ∃ k, index = k + 1 ∧ peers[k]? = some consumer ∧ consumer.accepts message

/-- No send is in the middle of its frame. -/
def Offer.AtStart : Offer → Prop
  | .send progress => progress = .start streamSendAttempts
  | _ => True

def RxPoint.Steady (peers : List (Consumer Fd)) : RxPoint Fd → Prop
  | .advance message _ | .wake message _ => message.source = none
  | .lookup message index consumer => message.source = none ∧ Chosen peers message index consumer
  | .offer message index consumer point =>
    message.source = none ∧ Chosen peers message index consumer ∧ point.AtStart
  | .deleteClosed _ | .popDead _ | .removeDead _ | .close _ _ _ => False
  | .removeClosed | .takeDead | .refresh | .aggregate _ _ | .install _ | .recv | .ended _ => True

structure Job.Steady (peers : List (Consumer Fd)) (job : Job Fd) : Prop where
  source : job.message.source = some job.fileobj
  fileobj : Known peers job.fileobj
  rest : KnownEvents peers job.rest

def TxPoint.Steady (peers : List (Consumer Fd)) : TxPoint Fd → Prop
  | .nextEvent events | .readKillSwitch events | .checkRunning events => KnownEvents peers events
  | .recv fd _ events | .drain fd events | .peek fd events | .popleft fd _ events
  | .settle fd events => Known peers fd ∧ KnownEvents peers events
  | .drainSend fd _ progress events =>
    Known peers fd ∧ KnownEvents peers events ∧ progress = .start streamSendAttempts
  | .unregister _ _ | .reportDead _ _ => False
  | .advance job _ | .busSend job => job.Steady peers
  | .lookup job index consumer =>
    job.Steady peers ∧ consumer.fd ≠ job.fileobj ∧ Chosen peers job.message index consumer
  | .offer job index consumer point =>
    job.Steady peers ∧ consumer.fd ≠ job.fileobj ∧
      Chosen peers job.message index consumer ∧ point.AtStart
  | .whileRunning | .select | .ended _ => True

end Points

structure Connected (peers : List (Consumer Fd)) (s : Server Fd) : Prop where
  consumers : s.consumers = peers
  io : ∀ c ∈ peers, s.consumerIo c.fd = true
  selector : ∀ fd, (s.selector fd).isSome ↔ Known peers fd
  dead : s.deadConsumerFds = []
  closed : s.closedConnections = []
  listeners : ∀ fd, s.listeners fd = .fresh ∨ s.listeners fd = .returned
  rx : s.rx.Steady peers
  tx : s.tx.Steady peers

variable {peers : List (Consumer Fd)}

theorem Chosen.mem {message : Relayed Fd} {index : Nat} {consumer : Consumer Fd}
    (chosen : Chosen peers message index consumer) : consumer ∈ peers := by
  obtain ⟨k, _, found, _⟩ := chosen
  exact List.mem_of_getElem? found

theorem Job.Steady.afterRead {job : Job Fd} (steady : job.Steady peers) :
    job.afterRead.Steady peers := by
  unfold Job.afterRead
  split
  · exact ⟨steady.fileobj, steady.rest⟩
  · exact steady.rest

theorem KnownEvents.tail {event : Event Fd} {rest : List (Event Fd)}
    (known : KnownEvents peers (event :: rest)) : KnownEvents peers rest :=
  fun fd readable writable member => known fd readable writable (List.mem_cons_of_mem _ member)

variable [DecidableEq Fd] {cfg : Config} {s t : Server Fd} {action : Action Fd}

omit [DecidableEq Fd] in
theorem WholeCall.rx {outcome : CallOutcome} (whole : s.WholeCall .rx outcome)
    {message : Relayed Fd} {index : Nat} {consumer : Consumer Fd} {progress : Progress}
    (at_ : s.rx = .offer message index consumer (.send progress)) :
    Whole message.frame outcome := by
  simpa only [WholeCall, sending, at_] using whole

omit [DecidableEq Fd] in
theorem WholeCall.tx {outcome : CallOutcome} (whole : s.WholeCall .tx outcome)
    {job : Job Fd} {index : Nat} {consumer : Consumer Fd} {progress : Progress}
    (at_ : s.tx = .offer job index consumer (.send progress)) :
    Whole job.message.frame outcome := by
  simpa only [WholeCall, sending, at_] using whole

omit [DecidableEq Fd] in
theorem WholeCall.drain {outcome : CallOutcome} (whole : s.WholeCall .tx outcome) {fd : Fd}
    {head : Relayed Fd} {progress : Progress} {events : List (Event Fd)}
    (at_ : s.tx = .drainSend fd head progress events) : Whole head.frame outcome := by
  simpa only [WholeCall, sending, at_] using whole

section Calls
variable {fd : Fd} {message : Relayed Fd} {outcome : CallOutcome}
  {result : Except Ending SendStep}

/-- What a whole call from the start of a frame leaves behind. -/
theorem Sends.whole (call : Sends s fd message (.start streamSendAttempts) outcome t result)
    (whole : Whole message.frame outcome) :
    (result = .ok .wouldBlock ∧ t = s) ∨
      (result = .ok .sent ∧ ∃ bytes, message.frame.payload = some bytes ∧
        t = s.setTraffic fd { s.traffic fd with
          written := (s.traffic fd).written ++ bytes
          delivered := (s.traffic fd).delivered ++ [message] }) := by
  -- A frame that packs has at least sixteen bytes, so one call ends its send.
  obtain ⟨bytes, packed, which⟩ := whole.possible
  cases call with
  | unpacked none_packed => simp [packed] at none_packed
  | @call other packed' possible =>
    obtain rfl : bytes = other := by simpa [packed] using packed'
    have long : msgSize ≤ bytes.length := by
      rw [Frame.payload_length packed, msgSize]
      omega
    rcases which with rfl | rfl
    · left
      refine ⟨rfl, ?_⟩
      simp [Traffic.record, sendCall_refused]
    · right
      refine ⟨by rw [sendCall_whole long], bytes, packed, ?_⟩
      simp only [Traffic.record]
      rw [sendCall_whole long]
      simp [Progress.start]

theorem socketSend_whole {bytes : List UInt8} (packed : message.frame.payload = some bytes) :
    s.socketSend fd message (.start streamSendAttempts) (.accepted bytes.length) =
      some (s.setTraffic fd { s.traffic fd with
        written := (s.traffic fd).written ++ bytes
        delivered := (s.traffic fd).delivered ++ [message] }, .ok .sent) := by
  have long : msgSize ≤ bytes.length := by
    rw [Frame.payload_length packed, msgSize]
    omega
  have possible : (CallOutcome.accepted bytes.length).Possible
      (bytes.length - (Progress.start streamSendAttempts).sent) := by
    simp only [msgSize] at long
    exact ⟨by omega, by simp [Progress.start]⟩
  simp only [socketSend, packed]
  rw [if_pos possible, sendCall_whole long]
  simp only [Traffic.record]
  rw [sendCall_whole long]
  simp [Progress.start]

theorem socketSend_refused {bytes : List UInt8} (packed : message.frame.payload = some bytes) :
    s.socketSend fd message (.start streamSendAttempts) .wouldBlock =
      some (s, .ok .wouldBlock) := by
  simp [socketSend, packed, CallOutcome.Possible, Traffic.record, sendCall_refused]

end Calls

section Offers
variable {fd : Fd} {message : Relayed Fd} {point : Offer} {result : OfferResult}

theorem Offers.atStart (offer : Offers cfg s fd message point t result) {next : Offer}
    (continues : result = .next next) : next.AtStart := by
  cases offer <;> cases continues <;> trivial

theorem RxPoint.Steady.afterOffer {index : Nat} {consumer : Consumer Fd}
    (offer : Offers cfg s fd message point t result) (source : message.source = none)
    (chosen : Chosen peers message index consumer) :
    (RxPoint.afterOffer message index consumer result).Steady peers := by
  cases result with
  | next next => exact ⟨source, chosen, offer.atStart rfl⟩
  | done | queued => exact source
  | raised => trivial

theorem TxPoint.Steady.afterOffer {job : Job Fd} {index : Nat} {consumer : Consumer Fd}
    (offer : Offers cfg s fd message point t result) (steady : job.Steady peers)
    (other : consumer.fd ≠ job.fileobj) (chosen : Chosen peers job.message index consumer) :
    (TxPoint.afterOffer job index consumer result).Steady peers := by
  cases result with
  | next next => exact ⟨steady, other, chosen, offer.atStart rfl⟩
  | done | queued => exact steady
  | raised => trivial

theorem Connected.setInterest (connected : Connected peers s) (known : Known peers fd)
    (interest : Interest) : Connected peers (s.setInterest fd (some interest)) :=
  { connected with
    selector := by
      intro other
      by_cases same : other = fd
      · simpa [Server.setInterest, same] using known
      · simpa [Server.setInterest, same] using connected.selector other }

theorem Connected.append (connected : Connected peers s) (fd : Fd) (message : Relayed Fd) :
    Connected peers (s.append cfg fd message) := { connected with }

/-- Handing a frame over does not touch the registries. -/
theorem Offers.connected (offer : Offers cfg s fd message point t result)
    (known : Known peers fd) (connected : Connected peers s) : Connected peers t := by
  cases offer with
  | direct | behind => exact connected
  | countDropped | queueCount =>
    rw [noteDroppedFrame_eq]
    exact { connected with }
  | append | queueMissing => exact connected.append fd message
  | queue => exact (connected.append fd message).setInterest known .readWrite

end Offers

theorem Connected.start (peers : List (Consumer Fd)) : Connected peers (start cfg peers) where
  consumers := rfl
  io c member := by simpa [Server.start] using ⟨c, member, rfl⟩
  selector fd := by simp [Server.start, Known, Option.isSome_iff_ne_none]
  dead := rfl
  closed := rfl
  listeners fd := by
    simp only [Server.start]
    split
    · exact Or.inr rfl
    · exact Or.inl rfl
  rx := by
    simp only [Server.start]
    split <;> trivial
  tx := trivial

section Moves
variable {events : List (Event Fd)} {fd : Fd}

theorem Cleans.connected (move : Cleans s t) (connected : Connected peers s) :
    Connected peers t := by
  have rx := connected.rx
  cases move with
  | remove _ closed => simp [connected.closed] at closed
  | takeDead _ dead => simp [connected.dead] at dead
  | delete at_ | popDead at_ | removeDead at_ =>
    rw [at_] at rx
    exact rx.elim
  | _ => exact { connected with rx := trivial }

theorem RxRelays.connected (move : RxRelays cfg s action t) (steady : s.Steady action)
    (connected : Connected peers s) : Connected peers t := by
  have rx := connected.rx
  cases move with
  | recv at_ => exact { connected with rx := rfl }
  | accept at_ next accepts =>
    rw [at_] at rx
    rw [connected.consumers] at next
    exact { connected with rx := ⟨rx, _, rfl, next, accepts⟩ }
  | skip at_ | wake at_ =>
    rw [at_] at rx
    exact { connected with rx := rx }
  | hand at_ =>
    rw [at_] at rx
    exact { connected with rx := ⟨rx.1, rx.2, trivial⟩ }
  | offer at_ offer =>
    rw [at_] at rx
    obtain ⟨source, chosen, _⟩ := rx
    exact { offer.connected ⟨_, chosen.mem, rfl⟩ connected with
      rx := RxPoint.Steady.afterOffer offer source chosen }
  | call at_ call =>
    rw [at_] at rx
    obtain ⟨source, chosen, start⟩ := rx
    subst start
    rcases call.whole (steady.rx at_) with ⟨rfl, rfl⟩ | ⟨rfl, bytes, _, rfl⟩
    · exact { connected with rx := ⟨source, chosen, trivial⟩ }
    · exact { connected with rx := source }
  | close at_ =>
    rw [at_] at rx
    exact rx.elim
  | recvError | finish | handMissing => exact { connected with rx := trivial }

omit [DecidableEq Fd] in
theorem Selects.connected (move : Selects s action t) (connected : Connected peers s) :
    Connected peers t := by
  have tx := connected.tx
  cases move with
  | select at_ selection =>
    refine { connected with tx := fun fd readable writable member => ?_ }
    exact (connected.selector fd).mp (selection.2 _ member).1
  | killSwitch at_ | neither at_ =>
    rw [at_] at tx
    exact { connected with tx := tx.tail }
  | readable at_ | writable at_ =>
    rw [at_] at tx
    exact { connected with tx := ⟨tx _ _ _ List.mem_cons_self, tx.tail⟩ }
  | readKillSwitch at_ | resume at_ =>
    rw [at_] at tx
    exact { connected with tx := tx }
  | running | stopped | round | leave => exact { connected with tx := trivial }

/-- Nobody is given up. -/
theorem GivesUp.not_steady (move : GivesUp s action t) (steady : s.Steady action)
    (connected : Connected peers s) : False := by
  have tx := connected.tx
  cases move with
  | recvError => exact steady
  | unregister at_ | unregisterMissing at_ | reportDead at_ =>
    rw [at_] at tx
    exact tx

theorem TxRelays.connected (move : TxRelays cfg s action t) (steady : s.Steady action)
    (connected : Connected peers s) : Connected peers t := by
  have tx := connected.tx
  cases move with
  | recv at_ =>
    rw [at_] at tx
    exact { connected with tx := ⟨rfl, tx.1, tx.2⟩ }
  | finish at_ =>
    rw [at_] at tx
    refine { connected with tx := ?_ }
    dsimp only
    split
    · exact tx.afterRead
    · exact tx
  | self at_ | skip at_ =>
    rw [at_] at tx
    exact { connected with tx := tx }
  | accept at_ next other accepts =>
    rw [at_] at tx
    rw [connected.consumers] at next
    exact { connected with tx := ⟨tx, other, _, rfl, next, accepts⟩ }
  | hand at_ =>
    rw [at_] at tx
    exact { connected with tx := ⟨tx.1, tx.2.1, tx.2.2, trivial⟩ }
  | handMissing at_ =>
    rw [at_] at tx
    exact { connected with tx := tx.1 }
  | offer at_ offer =>
    rw [at_] at tx
    obtain ⟨steady, other, chosen, _⟩ := tx
    exact { offer.connected ⟨_, chosen.mem, rfl⟩ connected with
      tx := TxPoint.Steady.afterOffer offer steady other chosen }
  | call at_ call =>
    rw [at_] at tx
    obtain ⟨job, other, chosen, start⟩ := tx
    subst start
    rcases call.whole (steady.tx at_) with ⟨rfl, rfl⟩ | ⟨rfl, bytes, _, rfl⟩
    · exact { connected with tx := ⟨job, other, chosen, trivial⟩ }
    · exact { connected with tx := job }
  | bus at_ =>
    rw [at_] at tx
    exact { connected with tx := tx.afterRead }
  | busError => exact { connected with tx := trivial }

theorem Drains.connected (move : Drains s fd events action t) (steady : s.Steady action)
    (connected : Connected peers s) : Connected peers t := by
  have tx := connected.tx
  cases move with
  | drained at_ | find at_ | pop at_ =>
    rw [at_] at tx
    exact { connected with tx := tx }
  | peek at_ =>
    rw [at_] at tx
    exact { connected with tx := ⟨tx.1, tx.2, rfl⟩ }
  | call at_ call =>
    rw [at_] at tx
    obtain ⟨known, rest, start⟩ := tx
    subst start
    rcases call.whole (steady.drain at_) with ⟨rfl, rfl⟩ | ⟨rfl, bytes, _, rfl⟩
    · exact { connected with tx := ⟨known, rest⟩ }
    · exact { connected with tx := ⟨known, rest⟩ }
  | settleEmpty at_ =>
    rw [at_] at tx
    exact { connected.setInterest tx.1 .read with tx := tx.2 }
  | settle at_ =>
    rw [at_] at tx
    exact { connected with tx := tx.2 }
  | peekEmpty | popEmpty | settleMissing => exact { connected with tx := trivial }

/-- No `listen_to` is under way. -/
theorem Listens.not_steady (move : Listens cfg s action t) (steady : s.Steady action)
    (connected : Connected peers s) : False := by
  cases move with
  | publish => exact steady
  | @append fd _ at_ | @refresh fd at_ | @aggregate fd _ _ _ at_ | @aggregated fd _ _ _ at_
  | @install fd _ at_ | @register fd at_ | @registered fd at_ | @wake fd at_ | @noWake fd at_ =>
    rcases connected.listeners fd with idle | idle <;> simp [idle] at at_

end Moves

/-- A steady step changes no registry and stays among connected consumers. -/
theorem Moves.connected (move : Moves cfg s action t) (steady : s.Steady action)
    (connected : Connected peers s) : Connected peers t := by
  cases move with
  | clean move => exact move.connected connected
  | rxRelay move => exact move.connected steady connected
  | select move => exact move.connected connected
  | giveUp move => exact (move.not_steady steady connected).elim
  | txRelay move => exact move.connected steady connected
  | drain move => exact move.connected steady connected
  | listen move => exact (move.not_steady steady connected).elim
  | stop move =>
    rw [move.frame]
    exact { connected with }

end Sockcan.Server
