import Sockcan.Server.Step

/-! What one statement of a thread can do, guards included: the inversion of
`step`. The invariants of the server are proved by cases on these moves. -/
namespace Sockcan.Server
open Protocol
variable {Fd : Type} [DecidableEq Fd]

/-- The statements of handing a frame over, but for the send. -/
inductive Offers (cfg : Config) (s : Server Fd) (fd : Fd) (message : Relayed Fd) :
    Offer → Server Fd → OfferResult → Prop where
  | direct (empty : (s.io fd).outbound = []) :
      Offers cfg s fd message .test s (.next (.send (.start streamSendAttempts)))
  | behind (nonempty : (s.io fd).outbound ≠ []) :
      Offers cfg s fd message .test s (.next .countDropped)
  | countDropped :
      Offers cfg s fd message .countDropped (s.noteDroppedFrame cfg fd) (.next .append)
  | append : Offers cfg s fd message .append (s.append cfg fd message) .done
  | queueCount : Offers cfg s fd message .queueCount (s.noteDroppedFrame cfg fd) (.next .queue)
  | queue (registered : (s.selector fd).isSome) :
      Offers cfg s fd message .queue
        ((s.append cfg fd message).setInterest fd (some .readWrite)) .queued
  | queueMissing (absent : ¬ (s.selector fd).isSome) :
      Offers cfg s fd message .queue (s.append cfg fd message) (.raised .selectorKeyError)

/-- One socket call of a sender. -/
inductive Sends (s : Server Fd) (fd : Fd) (message : Relayed Fd) (progress : Progress)
    (outcome : CallOutcome) : Server Fd → Except Ending SendStep → Prop where
  | unpacked (none_packed : message.frame.payload = none) :
      Sends s fd message progress outcome s (.error .structError)
  | call {bytes} (packed : message.frame.payload = some bytes)
      (possible : outcome.Possible (bytes.length - progress.sent)) :
      Sends s fd message progress outcome
        (s.setTraffic fd ((s.traffic fd).record message bytes progress outcome))
        (.ok (sendCall streamSendAttempts progress outcome))

/-- The cleanup pass of `_run_rx`. -/
inductive Cleans (s : Server Fd) : Server Fd → Prop where
  | noneClosed (at_ : s.rx = .removeClosed) (none_left : s.closedConnections = []) :
      Cleans s { s with rx := .takeDead }
  | remove {consumer rest} (at_ : s.rx = .removeClosed)
      (closed : s.closedConnections = consumer :: rest) (present : s.hasConsumer consumer.fd) :
      Cleans s { s.removeConsumer consumer.fd with rx := .deleteClosed consumer }
  | removeMissing {consumer rest} (at_ : s.rx = .removeClosed)
      (closed : s.closedConnections = consumer :: rest) (absent : ¬ s.hasConsumer consumer.fd) :
      Cleans s { s with rx := .ended .valueError }
  | delete {consumer} (at_ : s.rx = .deleteClosed consumer) (present : s.consumerIo consumer.fd) :
      Cleans s { s.setConsumerIo consumer.fd false with
        closedConnections := s.closedConnections.tail
        consumersChanged := true
        rx := .removeClosed }
  | deleteMissing {consumer} (at_ : s.rx = .deleteClosed consumer)
      (absent : ¬ s.consumerIo consumer.fd) :
      Cleans s { s with rx := .ended .consumerIoKeyError }
  | noneDead (at_ : s.rx = .takeDead) (none_left : s.deadConsumerFds = []) :
      Cleans s { s with rx := .refresh }
  | takeDead {fd rest} (at_ : s.rx = .takeDead) (dead : s.deadConsumerFds = fd :: rest) :
      Cleans s { s with deadConsumerFds := rest, rx := .popDead fd }
  | popDead {fd} (at_ : s.rx = .popDead fd) :
      Cleans s { s.setConsumerIo fd false with rx := .removeDead fd }
  | removeDead {fd} (at_ : s.rx = .removeDead fd) :
      Cleans s { s.removeConsumer fd with
        consumersChanged := s.consumersChanged || s.hasConsumer fd
        rx := .takeDead }
  | refresh (at_ : s.rx = .refresh) (changed : s.consumersChanged) :
      Cleans s { s with rx := .aggregate 0 [] }
  | noRefresh (at_ : s.rx = .refresh) (unchanged : ¬ s.consumersChanged) :
      Cleans s { s with rx := .recv }
  | aggregate {index aggregated later} (at_ : s.rx = .aggregate index aggregated)
      (more : s.aggregateNext index aggregated = .inl later) :
      Cleans s { s with rx := .aggregate later.1 later.2 }
  | aggregated {index aggregated filters} (at_ : s.rx = .aggregate index aggregated)
      (all : s.aggregateNext index aggregated = .inr filters) :
      Cleans s { s with rx := .install filters }
  | install {filters} (at_ : s.rx = .install filters) :
      Cleans s { s with busFilters := filters, rx := .recv }

/-- `_run_rx` from the read of a message to the end of its dispatch. -/
inductive RxRelays (cfg : Config) (s : Server Fd) : Action Fd → Server Fd → Prop where
  | recvError (at_ : s.rx = .recv) :
      RxRelays cfg s (.rxRecv none) { s with rx := .ended .operationError }
  | recv {frame} (at_ : s.rx = .recv) :
      RxRelays cfg s (.rxRecv (some frame))
        { s.receive (s.stamp none frame) with rx := .advance (s.stamp none frame) 0 }
  | finish {message index} (at_ : s.rx = .advance message index)
      (past : s.consumers[index]? = none) :
      RxRelays cfg s .rx { s with consumersChanged := false, rx := .removeClosed }
  | accept {message index consumer} (at_ : s.rx = .advance message index)
      (next : s.consumers[index]? = some consumer) (accepts : consumer.accepts message) :
      RxRelays cfg s .rx { s with rx := .lookup message (index + 1) consumer }
  | skip {message index consumer} (at_ : s.rx = .advance message index)
      (next : s.consumers[index]? = some consumer) (rejects : ¬ consumer.accepts message) :
      RxRelays cfg s .rx { s with rx := .advance message (index + 1) }
  | hand {message index consumer} (at_ : s.rx = .lookup message index consumer)
      (present : s.consumerIo consumer.fd) :
      RxRelays cfg s .rx { s.hand consumer.fd message with
        rx := .offer message index consumer .test }
  | handMissing {message index consumer} (at_ : s.rx = .lookup message index consumer)
      (absent : ¬ s.consumerIo consumer.fd) :
      RxRelays cfg s .rx { s with rx := .ended .consumerIoKeyError }
  | offer {message index consumer point after result}
      (at_ : s.rx = .offer message index consumer point)
      (offer : Offers cfg s consumer.fd message point after result) :
      RxRelays cfg s .rx { after with rx := .afterOffer message index consumer result }
  | call {message index consumer progress outcome after result}
      (at_ : s.rx = .offer message index consumer (.send progress))
      (call : Sends s consumer.fd message progress outcome after result) :
      RxRelays cfg s (.rxCall outcome)
        { after with rx := .afterSend message index consumer result }
  | wake {message index} (at_ : s.rx = .wake message index) :
      RxRelays cfg s .rx { s.wakeUp with rx := .advance message index }
  | close {message index consumer} (at_ : s.rx = .close message index consumer) :
      RxRelays cfg s .rx { s with
        closedConnections := s.closedConnections ++ [consumer]
        rx := .advance message index }

/-- `_run_tx` between its selections and the events of the consumers. -/
inductive Selects (s : Server Fd) : Action Fd → Server Fd → Prop where
  | running (at_ : s.tx = .whileRunning) (running : s.running) :
      Selects s .tx { s with tx := .select }
  | stopped (at_ : s.tx = .whileRunning) (stopped : ¬ s.running) :
      Selects s .tx { s with tx := .ended .returned }
  | select {events} (at_ : s.tx = .select) (selection : s.Selection events) :
      Selects s (.txSelect events) { s with tx := .nextEvent events }
  | round (at_ : s.tx = .nextEvent []) : Selects s .tx { s with tx := .whileRunning }
  | killSwitch {rest} (at_ : s.tx = .nextEvent (.killSwitch :: rest)) :
      Selects s .tx { s with tx := .readKillSwitch rest }
  | readable {fd writable rest} (at_ : s.tx = .nextEvent (.ready fd true writable :: rest)) :
      Selects s .tx { s with tx := .recv fd writable rest }
  | writable {fd rest} (at_ : s.tx = .nextEvent (.ready fd false true :: rest)) :
      Selects s .tx { s with tx := .drain fd rest }
  | neither {fd rest} (at_ : s.tx = .nextEvent (.ready fd false false :: rest)) :
      Selects s .tx { s with tx := .nextEvent rest }
  | readKillSwitch {events} (at_ : s.tx = .readKillSwitch events) (unread : 0 < s.wakeUps) :
      Selects s .tx { s with wakeUps := s.wakeUps - 1, tx := .checkRunning events }
  | resume {events} (at_ : s.tx = .checkRunning events) (running : s.running) :
      Selects s .tx { s with tx := .nextEvent events }
  | leave {events} (at_ : s.tx = .checkRunning events) (stopped : ¬ s.running) :
      Selects s .tx { s with tx := .whileRunning }

/-- `_run_tx` gives a consumer up. -/
inductive GivesUp (s : Server Fd) : Action Fd → Server Fd → Prop where
  | recvError {fd writable events} (at_ : s.tx = .recv fd writable events) :
      GivesUp s (.txRecv none) { s with tx := .unregister fd events }
  | unregister {fd events} (at_ : s.tx = .unregister fd events)
      (registered : (s.selector fd).isSome) :
      GivesUp s .tx { (s.setInterest fd none).setTraffic fd
        { s.traffic fd with unregistered := true } with tx := .reportDead fd events }
  | unregisterMissing {fd events} (at_ : s.tx = .unregister fd events)
      (absent : ¬ (s.selector fd).isSome) :
      GivesUp s .tx { s with tx := .ended .selectorKeyError }
  | reportDead {fd events} (at_ : s.tx = .reportDead fd events) :
      GivesUp s .tx { s with
        deadConsumerFds := s.deadConsumerFds ++ [fd]
        tx := .nextEvent events }

/-- `_run_tx` from the read of a message until it is sent to the bus. -/
inductive TxRelays (cfg : Config) (s : Server Fd) : Action Fd → Server Fd → Prop where
  | recv {fd writable events frame} (at_ : s.tx = .recv fd writable events)
      (classic : frame.Classic) :
      TxRelays cfg s (.txRecv (some frame)) { s.receive (s.stamp (some fd) frame) with
        tx := .advance ⟨fd, s.stamp (some fd) frame, writable, events⟩ 0 }
  | finish {job index} (at_ : s.tx = .advance job index)
      (past : s.consumers[index]? = none) :
      TxRelays cfg s .tx { s with tx := if cfg.virtual then job.afterRead else .busSend job }
  | self {job index consumer} (at_ : s.tx = .advance job index)
      (next : s.consumers[index]? = some consumer) (same : consumer.fd = job.fileobj) :
      TxRelays cfg s .tx { s with tx := .advance job (index + 1) }
  | accept {job index consumer} (at_ : s.tx = .advance job index)
      (next : s.consumers[index]? = some consumer) (other : consumer.fd ≠ job.fileobj)
      (accepts : consumer.accepts job.message) :
      TxRelays cfg s .tx { s with tx := .lookup job (index + 1) consumer }
  | skip {job index consumer} (at_ : s.tx = .advance job index)
      (next : s.consumers[index]? = some consumer) (other : consumer.fd ≠ job.fileobj)
      (rejects : ¬ consumer.accepts job.message) :
      TxRelays cfg s .tx { s with tx := .advance job (index + 1) }
  | hand {job index consumer} (at_ : s.tx = .lookup job index consumer)
      (present : s.consumerIo consumer.fd) :
      TxRelays cfg s .tx { s.hand consumer.fd job.message with
        tx := .offer job index consumer .test }
  | handMissing {job index consumer} (at_ : s.tx = .lookup job index consumer)
      (absent : ¬ s.consumerIo consumer.fd) :
      TxRelays cfg s .tx { s with tx := .advance job index }
  | offer {job index consumer point after result}
      (at_ : s.tx = .offer job index consumer point)
      (offer : Offers cfg s consumer.fd job.message point after result) :
      TxRelays cfg s .tx { after with tx := .afterOffer job index consumer result }
  | call {job index consumer progress outcome after result}
      (at_ : s.tx = .offer job index consumer (.send progress))
      (call : Sends s consumer.fd job.message progress outcome after result) :
      TxRelays cfg s (.txCall outcome) { after with tx := .afterSend job index consumer result }
  | bus {job} (at_ : s.tx = .busSend job) :
      TxRelays cfg s (.txBus true) { s with
        busTraffic := s.busTraffic ++ [job.message]
        tx := job.afterRead }
  | busError {job} (at_ : s.tx = .busSend job) :
      TxRelays cfg s (.txBus false) { s with tx := .ended .operationError }

/-- The drain of the backlog of `fd` in `_run_tx`. -/
inductive Drains (s : Server Fd) (fd : Fd) (events : List (Event Fd)) :
    Action Fd → Server Fd → Prop where
  | drained (at_ : s.tx = .drain fd events) (empty : (s.io fd).outbound = []) :
      Drains s fd events .tx { s with tx := .settle fd events }
  | find (at_ : s.tx = .drain fd events) (nonempty : (s.io fd).outbound ≠ []) :
      Drains s fd events .tx { s with tx := .peek fd events }
  | peek {head rest} (at_ : s.tx = .peek fd events) (queued : (s.io fd).outbound = head :: rest) :
      Drains s fd events .tx
        { s with tx := .drainSend fd head (.start streamSendAttempts) events }
  | peekEmpty (at_ : s.tx = .peek fd events) (empty : (s.io fd).outbound = []) :
      Drains s fd events .tx { s with tx := .ended .indexError }
  | call {head progress outcome after result} (at_ : s.tx = .drainSend fd head progress events)
      (call : Sends s fd head progress outcome after result) :
      Drains s fd events (.txCall outcome)
        { after with tx := .afterDrainSend fd head events result }
  | pop {head first rest} (at_ : s.tx = .popleft fd head events)
      (queued : (s.io fd).outbound = first :: rest) :
      Drains s fd events .tx { s.popleft fd first rest with tx := .drain fd events }
  | popEmpty {head} (at_ : s.tx = .popleft fd head events) (empty : (s.io fd).outbound = []) :
      Drains s fd events .tx { s with tx := .ended .indexError }
  | settleEmpty (at_ : s.tx = .settle fd events) (empty : (s.io fd).outbound = [])
      (registered : (s.selector fd).isSome) :
      Drains s fd events .tx { (s.setInterest fd (some .read)).setIo fd
        { s.io fd with dropped := 0 } with tx := .nextEvent events }
  | settleMissing (at_ : s.tx = .settle fd events)
      (empty : (s.io fd).outbound = []) (absent : ¬ (s.selector fd).isSome) :
      Drains s fd events .tx { s with tx := .ended .selectorKeyError }
  | settle (at_ : s.tx = .settle fd events) (nonempty : (s.io fd).outbound ≠ []) :
      Drains s fd events .tx { s with tx := .nextEvent events }

/-- `listen_to`. -/
inductive Listens (cfg : Config) (s : Server Fd) : Action Fd → Server Fd → Prop where
  | publish {consumer} (at_ : s.listeners consumer.fd = .fresh) :
      Listens cfg s (.listen consumer)
        { (s.setConsumerIo consumer.fd true).setIo consumer.fd .empty with
          listeners := Function.update s.listeners consumer.fd (.appendConsumer consumer) }
  | append {fd consumer} (at_ : s.listeners fd = .appendConsumer consumer) :
      Listens cfg s (.listenNext fd) { s with
        consumers := s.consumers ++ [consumer]
        listeners := Function.update s.listeners fd .refresh }
  | refresh {fd} (at_ : s.listeners fd = .refresh) :
      Listens cfg s (.listenNext fd) { s with
        listeners := Function.update s.listeners fd
          (if cfg.virtual then .register else .aggregate 0 []) }
  | aggregate {fd index aggregated later} (at_ : s.listeners fd = .aggregate index aggregated)
      (more : s.aggregateNext index aggregated = .inl later) :
      Listens cfg s (.listenNext fd) { s with
        listeners := Function.update s.listeners fd (.aggregate later.1 later.2) }
  | aggregated {fd index aggregated filters} (at_ : s.listeners fd = .aggregate index aggregated)
      (all : s.aggregateNext index aggregated = .inr filters) :
      Listens cfg s (.listenNext fd) { s with
        listeners := Function.update s.listeners fd (.install filters) }
  | install {fd filters} (at_ : s.listeners fd = .install filters) :
      Listens cfg s (.listenNext fd) { s with
        busFilters := filters
        listeners := Function.update s.listeners fd .register }
  | register {fd} (at_ : s.listeners fd = .register) (absent : s.selector fd = none) :
      Listens cfg s (.listenNext fd) { s.setInterest fd (some .read) with
        listeners := Function.update s.listeners fd .wake }
  | registered {fd} (at_ : s.listeners fd = .register) (present : (s.selector fd).isSome) :
      Listens cfg s (.listenNext fd) { s with
        listeners := Function.update s.listeners fd .wake }
  | wake {fd} (at_ : s.listeners fd = .wake) (running : s.running) :
      Listens cfg s (.listenNext fd) { s.wakeUp with
        listeners := Function.update s.listeners fd .returned }
  | noWake {fd} (at_ : s.listeners fd = .wake) (stopped : ¬ s.running) :
      Listens cfg s (.listenNext fd) { s with
        listeners := Function.update s.listeners fd .returned }

/-- `stop`. -/
inductive Stops (s : Server Fd) : Server Fd → Prop where
  | wake (at_ : s.stopping = .ready) (running : s.running) :
      Stops s { s.wakeUp with stopping := .clear }
  | clear (at_ : s.stopping = .clear) : Stops s { s with running := false, stopping := .ready }

inductive Moves (cfg : Config) (s : Server Fd) : Action Fd → Server Fd → Prop where
  | clean {t} (move : Cleans s t) : Moves cfg s .rx t
  | rxRelay {action t} (move : RxRelays cfg s action t) : Moves cfg s action t
  | select {action t} (move : Selects s action t) : Moves cfg s action t
  | giveUp {action t} (move : GivesUp s action t) : Moves cfg s action t
  | txRelay {action t} (move : TxRelays cfg s action t) : Moves cfg s action t
  | drain {action t fd events} (move : Drains s fd events action t) : Moves cfg s action t
  | listen {action t} (move : Listens cfg s action t) : Moves cfg s action t
  | stop {t} (move : Stops s t) : Moves cfg s .stop t

variable {cfg : Config} {s t : Server Fd} {action : Action Fd}

omit [DecidableEq Fd] in
theorem aggregateNext_more {index : Nat} {aggregated : List CanFilter}
    {later : Nat × List CanFilter} (more : s.aggregateNext index aggregated = .inl later) :
    ∃ consumer canFilters, s.consumers[index]? = some consumer ∧
      consumer.filters = some canFilters ∧ canFilters ≠ [] ∧
      later = (index + 1, aggregated ++ canFilters) := by
  unfold aggregateNext at more
  split at more
  · contradiction
  · next consumer next =>
    split at more
    · contradiction
    · contradiction
    · next canFilters nonempty wanted =>
      cases more
      exact ⟨consumer, canFilters, next, wanted, by simpa using nonempty, rfl⟩

omit [DecidableEq Fd] in
theorem aggregateNext_all {index : Nat} {aggregated : List CanFilter}
    {filters : Option (List CanFilter)} (all : s.aggregateNext index aggregated = .inr filters) :
    filters = none ∨ s.consumers[index]? = none ∧ filters = some aggregated := by
  unfold aggregateNext at all
  split at all
  · next past =>
    cases all
    exact Or.inr ⟨past, rfl⟩
  · split at all
    · cases all
      exact Or.inl rfl
    · cases all
      exact Or.inl rfl
    · contradiction

theorem offerStep_offers {fd : Fd} {message : Relayed Fd} {point : Offer} {result : OfferResult}
    (step : offerStep cfg s fd message point = some (t, result)) :
    Offers cfg s fd message point t result := by
  unfold offerStep at step
  cases point <;> simp only at step
  case test =>
    split at step <;> cases step
    · exact .direct ‹_›
    · exact .behind ‹_›
  case countDropped =>
    cases step
    exact .countDropped
  case append =>
    cases step
    exact .append
  case send => contradiction
  case queueCount =>
    cases step
    exact .queueCount
  case queue =>
    split at step <;> cases step
    · exact .queue ‹_›
    · exact .queueMissing ‹_›

theorem socketSend_sends {fd : Fd} {message : Relayed Fd} {progress : Progress}
    {outcome : CallOutcome} {result : Except Ending SendStep}
    (call : s.socketSend fd message progress outcome = some (t, result)) :
    Sends s fd message progress outcome t result := by
  unfold socketSend at call
  split at call
  · cases call
    exact .unpacked ‹_›
  · split at call <;> cases call
    exact .call ‹_› ‹_›

theorem rxStep_moves (step : rxStep cfg s = some t) : Moves cfg s .rx t := by
  unfold rxStep at step
  cases at_ : s.rx <;> simp only [at_] at step
  case removeClosed =>
    split at step
    · cases step
      exact .clean (.noneClosed at_ ‹_›)
    · split at step <;> cases step
      · exact .clean (.remove at_ ‹_› ‹_›)
      · exact .clean (.removeMissing at_ ‹_› ‹_›)
  case deleteClosed consumer =>
    split at step <;> cases step
    · exact .clean (.delete at_ ‹_›)
    · exact .clean (.deleteMissing at_ ‹_›)
  case takeDead =>
    split at step <;> cases step
    · exact .clean (.noneDead at_ ‹_›)
    · exact .clean (.takeDead at_ ‹_›)
  case popDead fd =>
    cases step
    exact .clean (.popDead at_)
  case removeDead fd =>
    cases step
    exact .clean (.removeDead at_)
  case refresh =>
    split at step <;> cases step
    · exact .clean (.refresh at_ ‹_›)
    · exact .clean (.noRefresh at_ ‹_›)
  case aggregate index aggregated =>
    split at step <;> cases step
    · exact .clean (.aggregate at_ ‹_›)
    · exact .clean (.aggregated at_ ‹_›)
  case install filters =>
    cases step
    exact .clean (.install at_)
  case recv => contradiction
  case advance message index =>
    split at step
    · cases step
      exact .rxRelay (.finish at_ ‹_›)
    · split at step <;> cases step
      · exact .rxRelay (.accept at_ ‹_› ‹_›)
      · exact .rxRelay (.skip at_ ‹_› ‹_›)
  case lookup message index consumer =>
    split at step <;> cases step
    · exact .rxRelay (.hand at_ ‹_›)
    · exact .rxRelay (.handMissing at_ ‹_›)
  case offer message index consumer point =>
    obtain ⟨⟨after, result⟩, offer, rfl⟩ := Option.map_eq_some_iff.mp step
    exact .rxRelay (.offer at_ (offerStep_offers offer))
  case wake message index =>
    cases step
    exact .rxRelay (.wake at_)
  case close message index consumer =>
    cases step
    exact .rxRelay (.close at_)
  case ended why => contradiction

theorem txStep_moves (step : txStep cfg s = some t) : Moves cfg s .tx t := by
  unfold txStep at step
  cases at_ : s.tx <;> simp only [at_] at step
  case whileRunning =>
    cases step
    by_cases running : s.running
    · rw [if_pos running]
      exact .select (.running at_ running)
    · rw [if_neg running]
      exact .select (.stopped at_ running)
  case select => contradiction
  case nextEvent events =>
    split at step <;> cases step
    · exact .select (.round at_)
    · exact .select (.killSwitch at_)
    · rename_i fd readable writable rest
      cases readable
      · cases writable
        · exact .select (.neither at_)
        · exact .select (.writable at_)
      · exact .select (.readable at_)
  case readKillSwitch events =>
    split at step <;> cases step
    exact .select (.readKillSwitch at_ ‹_›)
  case checkRunning events =>
    cases step
    by_cases running : s.running
    · rw [if_pos running]
      exact .select (.resume at_ running)
    · rw [if_neg running]
      exact .select (.leave at_ running)
  case recv => contradiction
  case unregister fd events =>
    split at step <;> cases step
    · exact .giveUp (.unregister at_ ‹_›)
    · exact .giveUp (.unregisterMissing at_ ‹_›)
  case reportDead fd events =>
    cases step
    exact .giveUp (.reportDead at_)
  case advance job index =>
    split at step
    · cases step
      exact .txRelay (.finish at_ ‹_›)
    · split at step
      · cases step
        exact .txRelay (.self at_ ‹_› ‹_›)
      · split at step <;> cases step
        · exact .txRelay (.accept at_ ‹_› ‹_› ‹_›)
        · exact .txRelay (.skip at_ ‹_› ‹_› ‹_›)
  case lookup job index consumer =>
    split at step <;> cases step
    · exact .txRelay (.hand at_ ‹_›)
    · exact .txRelay (.handMissing at_ ‹_›)
  case offer job index consumer point =>
    obtain ⟨⟨after, result⟩, offer, rfl⟩ := Option.map_eq_some_iff.mp step
    exact .txRelay (.offer at_ (offerStep_offers offer))
  case busSend => contradiction
  case drain fd events =>
    split at step <;> cases step
    · exact .drain (.drained at_ ‹_›)
    · exact .drain (.find at_ ‹_›)
  case peek fd events =>
    split at step <;> cases step
    · exact .drain (.peekEmpty at_ ‹_›)
    · exact .drain (.peek at_ ‹_›)
  case drainSend => contradiction
  case popleft fd head events =>
    split at step <;> cases step
    · exact .drain (.popEmpty at_ ‹_›)
    · exact .drain (.pop at_ ‹_›)
  case settle fd events =>
    split at step
    · split at step <;> cases step
      · exact .drain (.settleEmpty at_ ‹_› ‹_›)
      · exact .drain (.settleMissing at_ ‹_› ‹_›)
    · cases step
      exact .drain (.settle at_ ‹_›)
  case ended why => contradiction

theorem listenNext_moves {fd : Fd} (step : listenNext cfg s fd = some t) :
    Moves cfg s (.listenNext fd) t := by
  unfold listenNext at step
  cases at_ : s.listeners fd <;> simp only [at_] at step
  case fresh | returned => contradiction
  case appendConsumer consumer =>
    cases step
    exact .listen (.append at_)
  case refresh =>
    cases step
    exact .listen (.refresh at_)
  case aggregate index aggregated =>
    split at step <;> cases step
    · exact .listen (.aggregate at_ ‹_›)
    · exact .listen (.aggregated at_ ‹_›)
  case install filters =>
    cases step
    exact .listen (.install at_)
  case register =>
    cases step
    cases registered : s.selector fd with
    | none =>
      simp only [Option.isSome_none, Bool.false_eq_true, if_false]
      exact .listen (.register at_ registered)
    | some interest =>
      simp only [Option.isSome_some, if_true]
      exact .listen (.registered at_ (by rw [registered]; rfl))
  case wake =>
    cases step
    by_cases running : s.running
    · simp only [if_pos running]
      exact .listen (.wake at_ running)
    · simp only [if_neg running]
      exact .listen (.noWake at_ running)

theorem step_moves (step : step cfg s action = some t) : Moves cfg s action t := by
  cases action with
  | rx => exact rxStep_moves step
  | rxRecv answer =>
    simp only [Server.step, Server.rxRecv] at step
    split at step
    · split at step <;> cases step
      · exact .rxRelay (.recvError ‹_›)
      · exact .rxRelay (.recv ‹_›)
    · contradiction
  | rxCall outcome =>
    simp only [Server.step, Server.rxCall] at step
    split at step
    · obtain ⟨⟨after, result⟩, call, rfl⟩ := Option.map_eq_some_iff.mp step
      exact .rxRelay (.call ‹_› (socketSend_sends call))
    · contradiction
  | tx => exact txStep_moves step
  | txSelect events =>
    simp only [Server.step, Server.txSelect] at step
    split at step
    · split at step <;> cases step
      exact .select (.select ‹_› ‹_›)
    · contradiction
  | txRecv answer =>
    simp only [Server.step, Server.txRecv] at step
    split at step
    · split at step
      · cases step
        exact .giveUp (.recvError ‹_›)
      · split at step <;> cases step
        exact .txRelay (.recv ‹_› ‹_›)
    · contradiction
  | txCall outcome =>
    simp only [Server.step, Server.txCall] at step
    split at step
    · obtain ⟨⟨after, result⟩, call, rfl⟩ := Option.map_eq_some_iff.mp step
      exact .txRelay (.call ‹_› (socketSend_sends call))
    · obtain ⟨⟨after, result⟩, call, rfl⟩ := Option.map_eq_some_iff.mp step
      exact .drain (.call ‹_› (socketSend_sends call))
    · contradiction
  | txBus returned =>
    simp only [Server.step, Server.txBus] at step
    split at step
    · split at step <;> cases step
      · rename_i job at_ ok
        subst ok
        exact .txRelay (.bus at_)
      · rename_i job at_ failed
        rw [Bool.not_eq_true] at failed
        subst failed
        exact .txRelay (.busError at_)
    · contradiction
  | listen consumer =>
    simp only [Server.step, Server.listen] at step
    split at step
    · cases step
      exact .listen (.publish ‹_›)
    · contradiction
  | listenNext fd => exact listenNext_moves step
  | stop =>
    simp only [Server.step, Server.stopStep] at step
    split at step
    · split at step <;> cases step
      exact .stop (.wake ‹_› ‹_›)
    · cases step
      exact .stop (.clear ‹_›)

section Frames
variable {fd : Fd} {message : Relayed Fd} {point : Offer} {result : OfferResult}
  {progress : Progress} {outcome : CallOutcome} {answer : Except Ending SendStep}

theorem noteDroppedFrame_eq (cfg : Config) (s : Server Fd) (fd : Fd) :
    s.noteDroppedFrame cfg fd = s.setIo fd { s.io fd with
      dropped := if (s.io fd).outbound.length = cfg.backlogSize then (s.io fd).dropped + 1
        else (s.io fd).dropped } := by
  unfold noteDroppedFrame
  split <;> simp [setIo, *]

@[simp] theorem setTraffic_self (fd : Fd) : s.setTraffic fd (s.traffic fd) = s := by
  simp [setTraffic]

/-- What an update of one connection leaves alone there, it leaves alone on every connection. -/
theorem setTraffic_keeps {α : Type} (field : Traffic Fd → α) {traffic : Traffic Fd}
    (same : field traffic = field (s.traffic fd)) (other : Fd) :
    field ((s.setTraffic fd traffic).traffic other) = field (s.traffic other) := by
  by_cases here : other = fd
  · subst here
    simpa only [setTraffic, Function.update_self] using same
  · simp only [setTraffic, Function.update_of_ne here]

/-- A statement of an offer changes the `_ConsumerIO` object and the selector only. -/
theorem Offers.frame (offer : Offers cfg s fd message point t result) :
    t = { s with io := t.io, selector := t.selector, traffic := t.traffic } := by
  cases offer with
  | countDropped | queueCount =>
    rw [noteDroppedFrame_eq]
    rfl
  | _ => rfl

theorem Offers.rx (offer : Offers cfg s fd message point t result) : t.rx = s.rx :=
  (congrArg Server.rx offer.frame :)

theorem Offers.tx (offer : Offers cfg s fd message point t result) : t.tx = s.tx :=
  (congrArg Server.tx offer.frame :)

theorem Offers.received (offer : Offers cfg s fd message point t result) :
    t.received = s.received := (congrArg Server.received offer.frame :)

theorem append_handed (cfg : Config) (fd other : Fd) (message : Relayed Fd) :
    ((s.append cfg fd message).traffic other).handed = (s.traffic other).handed :=
  setTraffic_keeps Traffic.handed (by rfl) other

theorem Offers.handed (offer : Offers cfg s fd message point t result) (other : Fd) :
    (t.traffic other).handed = (s.traffic other).handed := by
  cases offer with
  | direct | behind => rfl
  | countDropped | queueCount =>
    rw [noteDroppedFrame_eq]
    rfl
  | append | queue | queueMissing => exact append_handed cfg fd other message

/-- A socket call leaves all but the connection alone. -/
theorem Sends.frame (call : Sends s fd message progress outcome t answer) :
    t = { s with traffic := t.traffic } := by
  cases call <;> rfl

theorem Sends.rx (call : Sends s fd message progress outcome t answer) : t.rx = s.rx :=
  (congrArg Server.rx call.frame :)

theorem Sends.tx (call : Sends s fd message progress outcome t answer) : t.tx = s.tx :=
  (congrArg Server.tx call.frame :)

theorem Sends.received (call : Sends s fd message progress outcome t answer) :
    t.received = s.received := (congrArg Server.received call.frame :)

omit [DecidableEq Fd] in
@[simp] theorem record_handed (traffic : Traffic Fd) (bytes : List UInt8) :
    (traffic.record message bytes progress outcome).handed = traffic.handed := by
  unfold Traffic.record
  cases outcome <;> dsimp only <;> split <;> rfl

theorem Sends.handed (call : Sends s fd message progress outcome t answer) (other : Fd) :
    (t.traffic other).handed = (s.traffic other).handed := by
  cases call with
  | unpacked => rfl
  | call packed possible => exact setTraffic_keeps Traffic.handed (by simp) other

theorem Cleans.frame (move : Cleans s t) : t = { s with
    rx := t.rx
    consumers := t.consumers
    consumerIo := t.consumerIo
    deadConsumerFds := t.deadConsumerFds
    closedConnections := t.closedConnections
    consumersChanged := t.consumersChanged
    busFilters := t.busFilters } := by
  cases move <;> rfl

theorem Cleans.consumers_subset (move : Cleans s t) : t.consumers ⊆ s.consumers := by
  cases move with
  | remove | removeDead => exact List.eraseP_subset
  | _ => exact List.Subset.refl _

theorem RxRelays.frame (move : RxRelays cfg s action t) : t = { s with
    rx := t.rx
    io := t.io
    selector := t.selector
    wakeUps := t.wakeUps
    closedConnections := t.closedConnections
    consumersChanged := t.consumersChanged
    received := t.received
    traffic := t.traffic } := by
  cases move with
  | offer _ offer => rw [offer.frame]
  | call _ call => rw [call.frame]
  | _ => rfl

omit [DecidableEq Fd] in
theorem Selects.frame (move : Selects s action t) :
    t = { s with tx := t.tx, wakeUps := t.wakeUps } := by
  cases move <;> rfl

theorem GivesUp.frame (move : GivesUp s action t) : t = { s with
    tx := t.tx
    selector := t.selector
    deadConsumerFds := t.deadConsumerFds
    traffic := t.traffic } := by
  cases move <;> rfl

theorem TxRelays.frame (move : TxRelays cfg s action t) : t = { s with
    tx := t.tx
    io := t.io
    selector := t.selector
    received := t.received
    busTraffic := t.busTraffic
    traffic := t.traffic } := by
  cases move with
  | offer _ offer => rw [offer.frame]
  | call _ call => rw [call.frame]
  | _ => rfl

theorem Drains.frame {events : List (Event Fd)} (move : Drains s fd events action t) :
    t = { s with tx := t.tx, io := t.io, selector := t.selector, traffic := t.traffic } := by
  cases move with
  | call _ call => rw [call.frame]
  | _ => rfl

theorem Listens.frame (move : Listens cfg s action t) : t = { s with
    consumers := t.consumers
    consumerIo := t.consumerIo
    io := t.io
    selector := t.selector
    busFilters := t.busFilters
    wakeUps := t.wakeUps
    listeners := t.listeners } := by
  cases move <;> rfl

omit [DecidableEq Fd] in
theorem Stops.frame (move : Stops s t) :
    t = { s with running := t.running, wakeUps := t.wakeUps, stopping := t.stopping } := by
  cases move <;> rfl

end Frames

section Threads

theorem Cleans.not_ended (move : Cleans s t) (why : Ending) : s.rx ≠ .ended why := by
  cases move <;> simp [*]

theorem RxRelays.not_ended (move : RxRelays cfg s action t) (why : Ending) :
    s.rx ≠ .ended why := by
  cases move <;> simp [*]

/-- Only the RX loop moves itself on. -/
theorem Moves.rx_cases (move : Moves cfg s action t) :
    t.rx = s.rx ∨ action = .rx ∧ Cleans s t ∨ RxRelays cfg s action t := by
  cases move with
  | clean move => exact Or.inr (Or.inl ⟨rfl, move⟩)
  | rxRelay move => exact Or.inr (Or.inr move)
  | select move => exact Or.inl (congrArg Server.rx move.frame :)
  | giveUp move => exact Or.inl (congrArg Server.rx move.frame :)
  | txRelay move => exact Or.inl (congrArg Server.rx move.frame :)
  | drain move => exact Or.inl (congrArg Server.rx move.frame :)
  | listen move => exact Or.inl (congrArg Server.rx move.frame :)
  | stop move => exact Or.inl (congrArg Server.rx move.frame :)

/-- Only the TX loop moves itself on. -/
theorem Moves.tx_cases (move : Moves cfg s action t) :
    t.tx = s.tx ∨ Selects s action t ∨ GivesUp s action t ∨ TxRelays cfg s action t ∨
      ∃ fd events, Drains s fd events action t := by
  cases move with
  | clean move => exact Or.inl (congrArg Server.tx move.frame :)
  | rxRelay move => exact Or.inl (congrArg Server.tx move.frame :)
  | select move => exact Or.inr (Or.inl move)
  | giveUp move => exact Or.inr (Or.inr (Or.inl move))
  | txRelay move => exact Or.inr (Or.inr (Or.inr (Or.inl move)))
  | drain move => exact Or.inr (Or.inr (Or.inr (Or.inr ⟨_, _, move⟩)))
  | listen move => exact Or.inl (congrArg Server.tx move.frame :)
  | stop move => exact Or.inl (congrArg Server.tx move.frame :)

/-- The TX loop and `stop` leave alone what the RX loop and `listen_to` keep. -/
theorem Moves.sides (move : Moves cfg s action t) :
    action = .rx ∧ Cleans s t ∨ RxRelays cfg s action t ∨ Listens cfg s action t ∨
      t = { s with
        tx := t.tx
        io := t.io
        selector := t.selector
        deadConsumerFds := t.deadConsumerFds
        running := t.running
        wakeUps := t.wakeUps
        stopping := t.stopping
        received := t.received
        busTraffic := t.busTraffic
        traffic := t.traffic } := by
  cases move with
  | clean move => exact Or.inl ⟨rfl, move⟩
  | rxRelay move => exact Or.inr (Or.inl move)
  | listen move => exact Or.inr (Or.inr (Or.inl move))
  | select move | giveUp move | txRelay move | drain move | stop move =>
    right; right; right
    rw [move.frame]

/-- Only the two relays read frames. -/
theorem Moves.read_cases (move : Moves cfg s action t) :
    t.received = s.received ∨ RxRelays cfg s action t ∨ TxRelays cfg s action t := by
  cases move with
  | clean move => exact Or.inl (congrArg Server.received move.frame :)
  | rxRelay move => exact Or.inr (Or.inl move)
  | select move => exact Or.inl (congrArg Server.received move.frame :)
  | giveUp move => exact Or.inl (congrArg Server.received move.frame :)
  | txRelay move => exact Or.inr (Or.inr move)
  | drain move => exact Or.inl (congrArg Server.received move.frame :)
  | listen move => exact Or.inl (congrArg Server.received move.frame :)
  | stop move => exact Or.inl (congrArg Server.received move.frame :)

/-- A virtual bus has no RX thread. -/
theorem Moves.rx_over (move : Moves cfg s action t) (rxEnded : s.rx = .ended .returned) :
    t.rx = .ended .returned := by
  rcases move.rx_cases with same | ⟨_, cleans⟩ | relays
  · exact same.trans rxEnded
  · exact absurd rxEnded (cleans.not_ended .returned)
  · exact absurd rxEnded (relays.not_ended .returned)

omit [DecidableEq Fd] in
theorem Job.afterRead_running (job : Job Fd) (why : Ending) : job.afterRead ≠ .ended why := by
  unfold Job.afterRead
  split <;> simp

end Threads

end Sockcan.Server
