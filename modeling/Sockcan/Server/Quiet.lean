import Sockcan.Server.Broken

/-! Runs of the TX loop alone in which no read fails and one consumer publishes nothing. No
such run ends the loop: a frame is refused only to a consumer whose backlog is empty, and a
consumer that was given up keeps a backlog for good. -/
namespace Sockcan.Server
open Protocol Transition
variable {Fd : Type}

/-- A step of the TX loop. The consumer has nothing to read, and no read fails. -/
def Quiet (silent : Fd) (_ : Server Fd) : Action Fd → Prop
  | .tx | .txCall _ => True
  | .txSelect events => ∀ writable, .ready silent true writable ∉ events
  | .txRecv answer => answer.isSome
  | _ => False

/-- The events still to be handled: neither the kill switch nor a read of the consumer. -/
def QuietEvents (silent : Fd) (events : List (Event Fd)) : Prop :=
  .killSwitch ∉ events ∧ ∀ writable, .ready silent true writable ∉ events

structure Job.Quiet (silent : Fd) (job : Job Fd) : Prop where
  other : job.fileobj ≠ silent
  rest : QuietEvents silent job.rest

/-- The frame may still be refused. -/
def Offer.Refusable : Offer → Prop
  | .send _ | .queueCount | .queue => True
  | .test | .countDropped | .append => False

/-- Where the loop is in a quiet run, and which backlogs are known to be empty there, or not
to be. -/
def TxPoint.Quiet (silent : Fd) (consumers : List (Consumer Fd)) (io : Fd → ConsumerIO Fd) :
    TxPoint Fd → Prop
  | .whileRunning | .select => True
  | .nextEvent events | .reportDead _ events | .drain _ events | .settle _ events =>
    QuietEvents silent events
  | .recv fd _ events => fd ≠ silent ∧ QuietEvents silent events
  | .unregister fd events | .peek fd events | .drainSend fd _ _ events | .popleft fd _ events =>
    (io fd).outbound ≠ [] ∧ QuietEvents silent events
  | .advance job _ => job.Quiet silent
  | .lookup job _ consumer => job.Quiet silent ∧ consumer ∈ consumers
  | .offer job _ consumer point => job.Quiet silent ∧ consumer ∈ consumers ∧
    (point.Refusable → (io consumer.fd).outbound = [])
  | .readKillSwitch _ | .checkRunning _ | .busSend _ | .ended _ => False

/-- Everything that was read can be sent. -/
def Classic (s : Server Fd) : Prop :=
  ∀ source, ∀ message ∈ s.received source, message.frame.Classic

/-- What every quiet run keeps. -/
structure Calm (silent : Fd) (s : Server Fd) : Prop where
  ledger : s.Ledger
  registry : s.Registry
  classic : s.Classic
  listened : ∀ consumer ∈ s.consumers, s.Listened consumer.fd
  running : s.running = true
  wakeUps : s.wakeUps = 0
  point : s.tx.Quiet silent s.consumers s.io
  shut : ∀ fd, (s.traffic fd).unregistered = true → (s.io fd).outbound ≠ []

variable [DecidableEq Fd] {cfg : Config} {peers : List (Consumer Fd)} {s t : Server Fd}
  {action : Action Fd} {silent fd : Fd}

instance (silent : Fd) (s : Server Fd) : DecidablePred (Quiet silent s)
  | .tx | .txCall _ => isTrue trivial
  | .txSelect events => decidable_of_iff
      (.ready silent true false ∉ events ∧ .ready silent true true ∉ events)
      ⟨fun ⟨without, along⟩ => Bool.rec without along, fun all => ⟨all false, all true⟩⟩
  | .txRecv answer => inferInstanceAs (Decidable (answer.isSome = true))
  | .rx | .rxRecv _ | .rxCall _ | .txBus _ | .listen _ | .listenNext _ | .stop => isFalse id

omit [DecidableEq Fd] in
theorem QuietEvents.tail {event : Event Fd} {rest : List (Event Fd)}
    (quiet : QuietEvents silent (event :: rest)) : QuietEvents silent rest :=
  ⟨fun member => quiet.1 (List.mem_cons_of_mem _ member),
    fun writable member => quiet.2 writable (List.mem_cons_of_mem _ member)⟩

omit [DecidableEq Fd] in
theorem Calm.not_ended (calm : Calm silent s) (why : Ending) : s.tx ≠ .ended why := by
  intro ended
  have point := calm.point
  rw [ended] at point
  exact point

omit [DecidableEq Fd] in
/-- A consumer without a backlog is registered. -/
theorem Calm.registered (calm : Calm silent s) {consumer : Consumer Fd}
    (member : consumer ∈ s.consumers) (empty : (s.io consumer.fd).outbound = []) :
    (s.selector consumer.fd).isSome := by
  rw [calm.registry.selector]
  refine ⟨calm.listened consumer member, ?_⟩
  by_contra unregistered
  exact calm.shut consumer.fd (by simpa using unregistered) empty

omit [DecidableEq Fd] in
/-- The TX loop can pack what it sends. -/
theorem Calm.packed (calm : Calm silent s) {message : Relayed Fd} {progress : Progress}
    (sends : s.sending .tx = some (fd, message, progress)) : message.frame.payload ≠ none := by
  have read := calm.ledger.sending sends
  obtain ⟨bytes, packed, _⟩ := (calm.classic message.source message read).payload_isSome
  rw [packed]
  exact Option.some_ne_none bytes

omit [DecidableEq Fd] in
theorem Selects.quiet (move : Selects s action t) (calm : Calm silent s)
    (quiet : s.Quiet silent action) : t.tx.Quiet silent t.consumers t.io := by
  have point := calm.point
  cases move with
  | running | round => trivial
  | stopped _ stopped => exact absurd calm.running stopped
  | select at_ selection =>
    refine ⟨fun member => ?_, quiet⟩
    have unread : 0 < s.wakeUps := selection.2 _ member
    rw [calm.wakeUps] at unread
    contradiction
  | killSwitch at_ =>
    rw [at_] at point
    exact absurd List.mem_cons_self point.1
  | @readable fd writable rest at_ =>
    rw [at_] at point
    refine ⟨fun same => ?_, point.tail⟩
    subst same
    exact point.2 writable List.mem_cons_self
  | writable at_ | neither at_ =>
    rw [at_] at point
    exact point.tail
  | readKillSwitch at_ | resume at_ | leave at_ =>
    rw [at_] at point
    exact point.elim

theorem GivesUp.quiet (move : GivesUp s action t) (calm : Calm silent s)
    (quiet : s.Quiet silent action) : t.tx.Quiet silent t.consumers t.io := by
  have point := calm.point
  have selected := calm.registry.selected
  cases move with
  | recvError => contradiction
  | unregister at_ | reportDead at_ =>
    rw [at_] at point
    first | exact point | exact point.2
  | unregisterMissing at_ absent =>
    rw [at_] at selected
    exact absurd (selected _ List.mem_cons_self) absent

omit [DecidableEq Fd] in
theorem Job.Quiet.afterRead {job : Job Fd} (quiet : job.Quiet silent)
    (consumers : List (Consumer Fd)) (io : Fd → ConsumerIO Fd) :
    job.afterRead.Quiet silent consumers io := by
  unfold Job.afterRead
  split <;> exact quiet.rest

theorem TxPoint.quiet_afterOffer {job : Job Fd} (index : Nat) {consumer : Consumer Fd}
    {message : Relayed Fd} {point : Offer} {result : OfferResult}
    (offer : Offers cfg s consumer.fd message point t result) (quiet : job.Quiet silent)
    (member : consumer ∈ s.consumers)
    (direct : point.Refusable → (s.io consumer.fd).outbound = [])
    (registered : (s.io consumer.fd).outbound = [] → (s.selector consumer.fd).isSome) :
    (TxPoint.afterOffer job index consumer result).Quiet silent t.consumers t.io := by
  rw [offer.registries.1]
  cases offer with
  | direct empty => exact ⟨quiet, member, fun _ => empty⟩
  | behind | countDropped => exact ⟨quiet, member, False.elim⟩
  | append | queue => exact quiet
  | queueCount =>
    refine ⟨quiet, member, fun _ => ?_⟩
    have empty := direct trivial
    simpa only [noteDroppedFrame_eq, setIo, Function.update_self] using empty
  | queueMissing absent => exact absurd (registered (direct trivial)) absent

theorem TxPoint.quiet_afterSend {job : Job Fd} (index : Nat) {consumer : Consumer Fd}
    {progress : Progress} {outcome : CallOutcome} {answer : Except Ending SendStep}
    (call : Sends s consumer.fd job.message progress outcome t answer)
    (packed : job.message.frame.payload ≠ none) (quiet : job.Quiet silent)
    (member : consumer ∈ s.consumers) (empty : (s.io consumer.fd).outbound = []) :
    (TxPoint.afterSend job index consumer answer).Quiet silent t.consumers t.io := by
  rw [call.io, call.registries.1]
  cases call with
  | unpacked none_packed => exact absurd none_packed packed
  | call =>
    cases sendCall streamSendAttempts progress outcome with
    | more | wouldBlock => exact ⟨quiet, member, fun _ => empty⟩
    | sent | disconnected | failed => exact quiet

theorem TxPoint.quiet_afterDrainSend {head : Relayed Fd} {progress : Progress}
    {outcome : CallOutcome} {answer : Except Ending SendStep} {events : List (Event Fd)}
    (call : Sends s fd head progress outcome t answer) (packed : head.frame.payload ≠ none)
    (nonempty : (s.io fd).outbound ≠ []) (quiet : QuietEvents silent events) :
    (TxPoint.afterDrainSend fd head events answer).Quiet silent t.consumers t.io := by
  rw [call.io, call.registries.1]
  cases call with
  | unpacked none_packed => exact absurd none_packed packed
  | call =>
    cases sendCall streamSendAttempts progress outcome with
    | more | sent | disconnected | failed => exact ⟨nonempty, quiet⟩
    | wouldBlock => exact quiet

theorem TxRelays.quiet (move : TxRelays cfg s action t) (virtual : cfg.virtual = true)
    (calm : Calm silent s) : t.tx.Quiet silent t.consumers t.io := by
  have point := calm.point
  cases move with
  | recv at_ classic =>
    rw [at_] at point
    exact ⟨point.1, point.2⟩
  | @finish job index at_ past =>
    rw [at_] at point
    simp only [virtual, if_true]
    exact Job.Quiet.afterRead point _ _
  | self at_ | skip at_ =>
    rw [at_] at point
    exact point
  | accept at_ next =>
    rw [at_] at point
    exact ⟨point, List.mem_of_getElem? next⟩
  | hand at_ =>
    rw [at_] at point
    exact ⟨point.1, point.2, False.elim⟩
  | handMissing at_ =>
    rw [at_] at point
    exact point.1
  | @offer job index consumer step after result at_ offer =>
    rw [at_] at point
    have goes_on := TxPoint.quiet_afterOffer index offer point.1 point.2.1 point.2.2
      (calm.registered point.2.1)
    exact goes_on
  | @call job index consumer progress outcome after answer at_ call =>
    have packed := calm.packed (by rw [sending, at_])
    rw [at_] at point
    have goes_on := TxPoint.quiet_afterSend index call packed point.1 point.2.1
      (point.2.2 trivial)
    exact goes_on
  | bus at_ | busError at_ =>
    rw [at_] at point
    exact point.elim

theorem Drains.quiet {events : List (Event Fd)} (move : Drains s fd events action t)
    (calm : Calm silent s) : t.tx.Quiet silent t.consumers t.io := by
  have point := calm.point
  have selected := calm.registry.selected
  cases move with
  | drained at_ | settle at_ =>
    rw [at_] at point
    exact point
  | find at_ nonempty =>
    rw [at_] at point
    exact ⟨nonempty, point⟩
  | peek at_ =>
    rw [at_] at point
    exact point
  | peekEmpty at_ empty | popEmpty at_ empty =>
    rw [at_] at point
    exact absurd empty point.1
  | call at_ call =>
    have packed := calm.packed (by rw [sending, at_])
    rw [at_] at point
    have goes_on := TxPoint.quiet_afterDrainSend call packed point.1 point.2
    exact goes_on
  | pop at_ | settleEmpty at_ =>
    rw [at_] at point
    first | exact point.2 | exact point
  | settleMissing at_ empty absent =>
    rw [at_] at selected
    exact absurd (selected _ List.mem_cons_self) absent

/-- A quiet step is one of the TX loop. -/
theorem Moves.quiet_cases (move : Moves cfg s action t) (quiet : s.Quiet silent action) :
    Selects s action t ∨ GivesUp s action t ∨ TxRelays cfg s action t ∨
      ∃ fd events, Drains s fd events action t := by
  cases move with
  | clean | stop => exact quiet.elim
  | listen move => cases move <;> exact quiet.elim
  | rxRelay move => cases move <;> exact quiet.elim
  | select move => exact Or.inl move
  | giveUp move => exact Or.inr (Or.inl move)
  | txRelay move => exact Or.inr (Or.inr (Or.inl move))
  | drain move => exact Or.inr (Or.inr (Or.inr ⟨_, _, move⟩))

/-- What a quiet step does not touch. -/
theorem Moves.quiet_frame (move : Moves cfg s action t) (calm : Calm silent s)
    (quiet : s.Quiet silent action) :
    t.consumers = s.consumers ∧ t.listeners = s.listeners ∧ t.running = s.running ∧
      t.wakeUps = s.wakeUps := by
  rcases move.quiet_cases quiet with move | move | move | ⟨fd, events, move⟩
  · have unread := calm.wakeUps
    cases move with
    | readKillSwitch _ some_unread =>
      rw [unread] at some_unread
      contradiction
    | _ => exact ⟨rfl, rfl, rfl, rfl⟩
  · rw [move.frame]
    exact ⟨rfl, rfl, rfl, rfl⟩
  · rw [move.frame]
    exact ⟨rfl, rfl, rfl, rfl⟩
  · rw [move.frame]
    exact ⟨rfl, rfl, rfl, rfl⟩

theorem Moves.classic (move : Moves cfg s action t) (classic : s.Classic)
    (quiet : s.Quiet silent action) : t.Classic := by
  have kept (same : t.received = s.received) : t.Classic := by
    rw [Server.Classic, same]
    exact classic
  rcases move.quiet_cases quiet with move | move | move | ⟨fd, events, move⟩
  · exact kept (congrArg Server.received move.frame :)
  · exact kept (congrArg Server.received move.frame :)
  · cases move with
    | recv _ read =>
      intro source message member
      rcases mem_receive member with old | new
      · exact classic source message old
      · exact new ▸ read
    | offer _ offer => exact kept offer.received
    | call _ call => exact kept call.received
    | _ => exact classic
  · exact kept (congrArg Server.received move.frame :)

theorem Calm.step (virtual : cfg.virtual = true) (calm : Calm silent s)
    (quiet : s.Quiet silent action) (step : step cfg s action = some t) : Calm silent t := by
  have move := step_moves step
  obtain ⟨consumers, listeners, running, wakeUps⟩ := move.quiet_frame calm quiet
  refine ⟨move.ledger calm.ledger, move.registry calm.registry, move.classic calm.classic quiet,
    ?_, running.trans calm.running, wakeUps.trans calm.wakeUps, ?_, ?_⟩
  · rw [consumers]
    intro consumer member
    rw [Listened, listeners]
    exact calm.listened consumer member
  · rcases move.quiet_cases quiet with move | move | move | ⟨fd, events, move⟩
    · exact move.quiet calm quiet
    · exact move.quiet calm quiet
    · exact move.quiet virtual calm
    · exact move.quiet calm
  · intro fd unregistered
    rcases move.unregistered_cases fd with same | ⟨_, events, at_, _⟩
    · have gone := same.symm.trans unregistered
      exact move.keeps_queued calm.registry ⟨calm.shut fd gone, Or.inr gone⟩
    · have point := calm.point
      rw [at_] at point
      exact move.keeps_queued calm.registry ⟨point.1, Or.inl ⟨events, at_⟩⟩

theorem Calm.start (distinct : (peers.map Consumer.fd).Nodup) (silent : Fd) :
    Calm silent (start cfg peers) where
  ledger := .start cfg peers
  registry := .start distinct
  classic source message member := by simp [Server.start] at member
  listened consumer member := by
    have found : (peers.any fun other => decide (other.fd = consumer.fd)) = true :=
      List.any_eq_true.mpr ⟨consumer, member, by simp⟩
    exact Or.inr (if_pos found)
  running := rfl
  wakeUps := rfl
  point := trivial
  shut fd unregistered := by simp [Server.start, Traffic.quiet] at unregistered

end Sockcan.Server
