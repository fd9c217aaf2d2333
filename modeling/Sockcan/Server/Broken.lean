import Sockcan.Server.Registry
import Sockcan.Server.Stream

/-! What follows a frame that was broken off, on a virtual bus. The drain of the TX loop
gives the consumer up; its dispatch does not. -/
namespace Sockcan.Server
open Protocol Transition
variable {Fd : Type}

/-- The send that the dispatch of the TX loop is in the middle of. -/
def TxPoint.dispatchSend : TxPoint Fd → Option Progress
  | .offer _ _ _ (.send progress) => some progress
  | _ => none

/-- No send of the TX dispatch fails after part of its frame was written. -/
def DispatchIntact (s : Server Fd) (action : Action Fd) : Prop :=
  ∀ call ∈ socketCall action, call.1 = .tx → ∀ progress ∈ s.tx.dispatchSend, 0 < progress.sent →
    sendCall streamSendAttempts progress call.2 ≠ .failed ∧
      sendCall streamSendAttempts progress call.2 ≠ .disconnected

instance (s : Server Fd) (action : Action Fd) : Decidable (s.DispatchIntact action) :=
  inferInstanceAs (Decidable (∀ call ∈ socketCall action, _ → ∀ progress ∈ s.tx.dispatchSend, _))

/-- The dispatch sends where nothing is queued, and the drain where something is. -/
def TxPoint.Backed (io : Fd → ConsumerIO Fd) : TxPoint Fd → Prop
  | .offer _ _ consumer (.send _) => (io consumer.fd).outbound = []
  | .drainSend fd _ _ _ => (io fd).outbound ≠ []
  | _ => True

def Backed (s : Server Fd) : Prop := s.tx.Backed s.io

/-- The consumer is out of reach: something is queued for it, and the TX loop is about to
unregister it or has done so. -/
def Shut (fd : Fd) (s : Server Fd) : Prop :=
  (s.io fd).outbound ≠ [] ∧
    ((∃ events, s.tx = .unregister fd events) ∨ (s.traffic fd).unregistered = true)

variable [DecidableEq Fd] {cfg : Config} {peers : List (Consumer Fd)} {s t : Server Fd}
  {action : Action Fd} {actions : List (Action Fd)} {fd : Fd}

theorem TxRelays.backed (move : TxRelays cfg s action t) (backed : s.Backed) : t.Backed := by
  unfold Backed at backed ⊢
  cases move with
  | offer _ offer =>
    cases offer with
    | direct empty => exact empty
    | _ => trivial
  | @call job index consumer progress outcome after answer at_ call =>
    rw [at_] at backed
    cases answer with
    | error => trivial
    | ok step =>
      cases step with
      | more =>
        simp only [TxPoint.Backed, TxPoint.afterSend, call.io]
        exact backed
      | _ => trivial
  | @finish job =>
    dsimp only [Job.afterRead]
    cases cfg.virtual <;> cases job.writable <;> trivial
  | @bus job =>
    dsimp only [Job.afterRead]
    cases job.writable <;> trivial
  | _ => trivial

theorem Drains.backed {events : List (Event Fd)} (move : Drains s fd events action t)
    (backed : s.Backed) : t.Backed := by
  unfold Backed at backed ⊢
  cases move with
  | peek _ queued =>
    simp only [TxPoint.Backed, queued]
    exact List.cons_ne_nil _ _
  | @call head progress outcome after answer at_ call =>
    rw [at_] at backed
    cases answer with
    | error => trivial
    | ok step =>
      cases step with
      | more =>
        simp only [TxPoint.Backed, TxPoint.afterDrainSend, call.io]
        exact backed
      | _ => trivial
  | _ => trivial

/-- `listen_to` gives a descriptor new IO state, which no drain has in its hands. -/
theorem Listens.backed (move : Listens cfg s action t) (registry : s.Registry)
    (backed : s.Backed) : t.Backed := by
  have selected := registry.selected
  unfold Backed at backed ⊢
  cases move with
  | @publish consumer fresh =>
    have goal : s.tx.Backed (Function.update s.io consumer.fd .empty) := by
      cases at_ : s.tx with
      | offer job index target point =>
        rw [at_] at backed
        cases point with
        | send =>
          by_cases same : target.fd = consumer.fd
          · simp [TxPoint.Backed, ConsumerIO.empty, same]
          · simpa [TxPoint.Backed, same] using backed
        | _ => trivial
      | drainSend fd head progress events =>
        rw [at_] at backed selected
        have held := ((registry.selector fd).mp (selected fd List.mem_cons_self)).1
        have other : fd ≠ consumer.fd := by
          rintro rfl
          exact held.published.1 fresh
        simpa [TxPoint.Backed, other] using backed
      | _ => trivial
    exact goal
  | _ => exact backed

theorem Moves.backed (move : Moves cfg s action t) (registry : s.Registry)
    (rxEnded : s.rx = .ended .returned) (backed : s.Backed) : t.Backed := by
  cases move with
  | clean move => exact absurd rxEnded (move.not_ended .returned)
  | rxRelay move => exact absurd rxEnded (move.not_ended .returned)
  | select move => cases move <;> trivial
  | giveUp move => cases move <;> trivial
  | txRelay move => exact move.backed backed
  | drain move => exact move.backed backed
  | listen move => exact move.backed registry backed
  | stop move =>
    rw [move.frame]
    exact backed

theorem Offers.keeps_queued {consumer : Fd} {message : Relayed Fd} {point : Offer}
    {result : OfferResult} (offer : Offers cfg s consumer message point t result)
    (queued : (s.io fd).outbound ≠ []) : (t.io fd).outbound ≠ [] := by
  have appended : ((s.append cfg consumer message).io fd).outbound ≠ [] := by
    by_cases same : fd = consumer
    · simpa [Server.append, setIo, setTraffic, same] using
        Deque.append_ne_nil cfg.positive _ message
    · simpa [Server.append, setIo, setTraffic, same] using queued
  cases offer with
  | direct | behind => exact queued
  | countDropped | queueCount =>
    rw [noteDroppedFrame_eq]
    by_cases same : fd = consumer
    · subst same
      simpa [setIo] using queued
    · simpa [setIo, same] using queued
  | append | queue | queueMissing => exact appended

omit [DecidableEq Fd] in
/-- What is shut is registered nowhere that the TX loop still has in its hands. -/
theorem Shut.listened (shut : Shut fd s) (registry : s.Registry) : s.Listened fd := by
  rcases shut.2 with ⟨events, at_⟩ | gone
  · have held := registry.selected fd (by rw [at_]; exact List.mem_cons_self)
    exact ((registry.selector fd).mp held).1
  · exact registry.unregistered fd gone

omit [DecidableEq Fd] in
theorem Shut.not_in_hand (shut : Shut fd s) (registry : s.Registry) {rest : List (Option Fd)}
    (in_hand : s.tx.keys = some fd :: rest) : ∃ events, s.tx = .unregister fd events := by
  rcases shut.2 with leaving | gone
  · exact leaving
  · have held := registry.selected fd (by rw [in_hand]; exact List.mem_cons_self)
    rw [registry.selector, gone] at held
    exact absurd held.2 Bool.noConfusion

/-- Nothing but the drain of a consumer empties its backlog, once `listen_to` has it. -/
theorem Moves.outbound_ne_nil (move : Moves cfg s action t) (heard : s.listeners fd ≠ .fresh)
    (not_popped : ∀ head events, s.tx = .popleft fd head events → t.tx = s.tx)
    (queued : (s.io fd).outbound ≠ []) : (t.io fd).outbound ≠ [] := by
  have kept (same : t.io = s.io) : (t.io fd).outbound ≠ [] := by rwa [same]
  cases move with
  | clean move => exact kept (congrArg Server.io move.frame :)
  | rxRelay move =>
    cases move with
    | offer _ offer => exact offer.keeps_queued queued
    | call _ call => exact kept call.io
    | _ => exact queued
  | select move => exact kept (congrArg Server.io move.frame :)
  | giveUp move => exact kept (congrArg Server.io move.frame :)
  | txRelay move =>
    cases move with
    | offer _ offer => exact offer.keeps_queued queued
    | call _ call => exact kept call.io
    | _ => exact queued
  | @drain _ _ other events move =>
    cases move with
    | call _ call => exact kept call.io
    | @pop head _ _ at_ =>
      have different : fd ≠ other := by
        rintro rfl
        cases (not_popped head events at_).trans at_
      simpa [Server.popleft, setIo, setTraffic, different] using queued
    | settleEmpty at_ empty =>
      have different : fd ≠ other := by
        rintro rfl
        exact queued empty
      simpa [setIo, setInterest, different] using queued
    | _ => exact queued
  | listen move =>
    cases move with
    | @publish consumer fresh =>
      have different : fd ≠ consumer.fd := by
        rintro rfl
        exact heard fresh
      simpa [setIo, setConsumerIo, different] using queued
    | _ => exact queued
  | stop move => exact kept (congrArg Server.io move.frame :)

theorem Moves.keeps_queued (move : Moves cfg s action t) (registry : s.Registry)
    (shut : Shut fd s) : (t.io fd).outbound ≠ [] := by
  refine move.outbound_ne_nil (shut.listened registry).published.1 (fun head events at_ => ?_)
    shut.1
  obtain ⟨_, here⟩ := shut.not_in_hand registry (by rw [at_]; rfl)
  rw [at_] at here
  contradiction

/-- What is in the hands of the TX loop to be unregistered stays there until it is. -/
theorem Moves.unregister_cases (move : Moves cfg s action t) (registry : s.Registry)
    {events : List (Event Fd)} (at_ : s.tx = .unregister fd events) :
    t.tx = s.tx ∨ (t.traffic fd).unregistered = true := by
  rcases move.tx_cases with same | selects | givesUp | relays | ⟨_, _, drains⟩
  · exact Or.inl same
  · cases selects with
    | running here | stopped here | select here | round here | killSwitch here | readable here
    | writable here | neither here | readKillSwitch here | resume here | leave here =>
      rw [at_] at here
      contradiction
  · cases givesUp with
    | unregister here =>
      rw [at_] at here
      cases here
      exact Or.inr (by simp [setTraffic])
    | unregisterMissing here absent =>
      rw [at_] at here
      cases here
      have held := registry.selected
      rw [at_] at held
      exact absurd (held fd List.mem_cons_self) absent
    | recvError here | reportDead here =>
      rw [at_] at here
      contradiction
  · cases relays with
    | recv here | finish here | self here | accept here | skip here | hand here
    | handMissing here | offer here | call here | bus here | busError here =>
      rw [at_] at here
      contradiction
  · cases drains with
    | drained here | find here | peek here | peekEmpty here | call here | pop here
    | popEmpty here | settleEmpty here | settleMissing here | settle here =>
      rw [at_] at here
      contradiction

theorem Moves.shut (move : Moves cfg s action t) (registry : s.Registry) (shut : Shut fd s) :
    Shut fd t := by
  refine ⟨move.keeps_queued registry shut, ?_⟩
  rcases shut.2 with ⟨events, at_⟩ | gone
  · rcases move.unregister_cases registry at_ with same | unregistered
    · exact Or.inl ⟨events, same.trans at_⟩
    · exact Or.inr unregistered
  · exact Or.inr (move.stays_unregistered gone)

omit [DecidableEq Fd] in
/-- No loop is sending to a consumer that is shut. -/
theorem Shut.not_sending (shut : Shut fd s) (registry : s.Registry)
    (rxEnded : s.rx = .ended .returned) (backed : s.Backed) (loop : Loop)
    (message : Relayed Fd) (progress : Progress) :
    s.sending loop ≠ some (fd, message, progress) := by
  intro sends
  cases loop with
  | rx => simp [sending, rxEnded] at sends
  | tx =>
    simp only [sending] at sends
    split at sends
    · rename_i at_
      cases sends
      rw [Backed, at_] at backed
      exact shut.1 backed
    · rename_i at_
      cases sends
      obtain ⟨_, here⟩ := shut.not_in_hand registry (by rw [at_]; rfl)
      rw [at_] at here
      contradiction
    · contradiction

/-- A virtual relay, as far as one consumer is concerned. -/
structure Severing (fd : Fd) (s : Server Fd) : Prop where
  ledger : s.Ledger
  short : s.Short
  registry : s.Registry
  rxEnded : s.rx = .ended .returned
  backed : s.Backed
  stream : (s.traffic fd).broken = false → Stream fd s
  cut : (s.traffic fd).broken = true → WellFramed (s.traffic fd).written ∧ Shut fd s

/-- Nothing more is written after a frame was broken off. -/
theorem Severing.frozen (severing : Severing fd s) (move : Moves cfg s action t)
    (broken : (s.traffic fd).broken = true) :
    (t.traffic fd).stream = (s.traffic fd).stream := by
  rcases move.stream_cases with ⟨same, _⟩ |
    ⟨loop, target, message, progress, outcome, _, call, _⟩
  · exact same fd
  · refine (call.elsewhere ?_).1
    rintro rfl
    exact (severing.cut broken).2.not_sending severing.registry severing.rxEnded severing.backed
      loop message progress call.before

theorem Severing.unmixed (severing : Severing fd s) (action : Action Fd) :
    s.Unmixed fd action := by
  have silent : s.sending .rx = none := by simp only [sending, severing.rxEnded]
  intro call writes _
  cases action with
  | rxCall outcome => cases outcome <;> simp [writing, silent] at writes
  | txCall outcome =>
    cases outcome with
    | accepted count =>
      simp only [writing, Option.mem_def, Option.map_eq_some_iff] at writes
      obtain ⟨_, _, rfl⟩ := writes
      simp only [Loop.other, begun, silent]
    | _ => contradiction
  | _ => contradiction

/-- A frame broken off in the drain shuts the consumer. -/
theorem Severing.breaks_off (severing : Severing fd s) (move : Moves cfg s action t)
    (intact : s.DispatchIntact action) (unbroken : (s.traffic fd).broken = false)
    (broken : (t.traffic fd).broken = true) :
    (t.traffic fd).written = (s.traffic fd).written ∧ Shut fd t := by
  have backed := severing.backed
  rcases move.stream_cases with ⟨same, _⟩ |
    ⟨loop, target, message, progress, outcome, rfl, call, _⟩
  · have kept := Traffic.broken_eq (same fd)
    rw [kept.trans unbroken] at broken
    contradiction
  have here : target = fd := by
    by_contra different
    have kept := Traffic.broken_eq (call.elsewhere (Ne.symm different)).1
    rw [kept.trans unbroken] at broken
    contradiction
  subst here
  obtain ⟨some_sent, fails⟩ := call.breaks unbroken broken
  have refused : ∀ count, outcome ≠ .accepted count := by
    rintro count rfl
    simp only [sendCall] at fails
    split at fails <;> simp at fails
  refine ⟨(call.refused refused).1, ?_⟩
  cases loop with
  | rx =>
    have before := call.before
    simp [sending, severing.rxEnded] at before
  | tx =>
    have before := call.before
    cases move with
    | txRelay move =>
      cases move with
      | call at_ =>
        simp only [sending, at_, Option.some.injEq, Prod.mk.injEq] at before
        obtain ⟨_, _, rfl⟩ := before
        obtain ⟨stands, connected⟩ := intact _ (socketCall_call .tx outcome) rfl _
          (by rw [at_]; rfl) some_sent
        rcases fails with failed | disconnected
        · exact absurd failed stands
        · exact absurd disconnected connected
    | @drain _ _ other events move =>
      cases move with
      | call at_ sends =>
        simp only [sending, at_, Option.some.injEq, Prod.mk.injEq] at before
        obtain ⟨rfl, rfl, rfl⟩ := before
        rw [Backed, at_] at backed
        refine ⟨by simpa only [sends.io, TxPoint.Backed] using backed, Or.inl ⟨events, ?_⟩⟩
        cases sends with
        | unpacked =>
          rw [unbroken] at broken
          contradiction
        | call =>
          rcases fails with failed | disconnected
          · simp only [failed, TxPoint.afterDrainSend]
          · simp only [disconnected, TxPoint.afterDrainSend]
    | rxRelay move | select move | giveUp move | listen move => cases move

theorem Severing.step (severing : Severing fd s) (intact : s.DispatchIntact action)
    (step : step cfg s action = some t) : Severing fd t := by
  have move := step_moves step
  have reads : s.ReadsShort action := by
    intro frame read
    cases action with
    | rxRecv answer =>
      simp only [Server.step, Server.rxRecv, severing.rxEnded] at step
      contradiction
    | _ => contradiction
  refine ⟨move.ledger severing.ledger, move.short severing.short reads,
    move.registry severing.registry, move.rx_over severing.rxEnded,
    move.backed severing.registry severing.rxEnded severing.backed, ?_, ?_⟩
  · intro unbroken
    cases before : (s.traffic fd).broken with
    | false =>
      exact move.stream severing.ledger severing.short (severing.stream before)
        (severing.unmixed action) unbroken
    | true =>
      have kept := Traffic.broken_eq (severing.frozen move before)
      rw [kept.trans before] at unbroken
      contradiction
  · intro broken
    cases before : (s.traffic fd).broken with
    | false =>
      obtain ⟨same, shut⟩ := severing.breaks_off move intact before broken
      rw [same]
      exact ⟨(severing.stream before).wellFramed severing.ledger severing.short, shut⟩
    | true =>
      obtain ⟨framed, shut⟩ := severing.cut before
      rw [Traffic.written_eq (severing.frozen move before)]
      exact ⟨framed, move.shut severing.registry shut⟩

theorem Severing.start (virtual : cfg.virtual = true) (distinct : (peers.map Consumer.fd).Nodup)
    (fd : Fd) : Severing fd (start cfg peers) where
  ledger := .start cfg peers
  short source message member := by simp [Server.start] at member
  registry := .start distinct
  rxEnded := if_pos virtual
  backed := trivial
  stream _ := .start cfg peers fd
  cut broken := by simp [Server.start, Traffic.quiet] at broken

/-- On a virtual bus where no send of the dispatch fails in the middle of a frame, a
consumer's wire carries whole frames and at most one unfinished one, at the very end, and
nothing is written after a frame was broken off. -/
theorem broken_off_for_good {before later : List (Action Fd)} (virtual : cfg.virtual = true)
    (distinct : (peers.map Consumer.fd).Nodup)
    (intact : Along (step cfg) DispatchIntact (start cfg peers) (before ++ later))
    (reached : run (step cfg) (start cfg peers) before = some s)
    (path : run (step cfg) s later = some t) :
    WellFramed (t.traffic fd).written ∧
      ((s.traffic fd).broken = true → (t.traffic fd).written = (s.traffic fd).written) := by
  have preserved (s : Server Fd) (action : Action Fd) (t : Server Fd) (severing : Severing fd s)
      (intact : s.DispatchIntact action) (step : Server.step cfg s action = some t) :
      Severing fd t := severing.step intact step
  constructor
  · have severing : Severing fd t := invariant_run preserved (.start virtual distinct fd) intact
      (run_append.mpr ⟨s, reached, path⟩)
    cases broken : (t.traffic fd).broken with
    | false => exact (severing.stream broken).wellFramed severing.ledger severing.short
    | true => exact (severing.cut broken).1
  · intro broken
    have severing : Severing fd s := invariant_run preserved (.start virtual distinct fd)
      intact.before reached
    have frozen : Severing fd t ∧ (t.traffic fd).stream = (s.traffic fd).stream := by
      refine invariant_run (I := fun t => Severing fd t ∧
          (t.traffic fd).stream = (s.traffic fd).stream)
        (fun u action v kept intact step => ?_) ⟨severing, rfl⟩ (intact.append reached) path
      have still : (u.traffic fd).broken = true :=
        (Traffic.broken_eq kept.2).trans broken
      exact ⟨kept.1.step intact step,
        (kept.1.frozen (step_moves step) still).trans kept.2⟩
    exact Traffic.written_eq frozen.2

/-- A frame of consumer 0 for consumer 1, up to the send to it. -/
def forwardedRun : List (Action Nat) :=
  [.tx, .txSelect [.ready 0 true false], .tx, .txRecv (some ⟨0x1FF, [1], false⟩), .tx, .tx, .tx,
    .tx]

/-- The drain sends five bytes of that frame and fails. -/
def drainFailsRun : List (Action Nat) :=
  forwardedRun ++ [.txCall .wouldBlock, .tx, .tx, .tx, .tx, .tx, .txSelect [.ready 1 false true],
    .tx, .tx, .tx, .txCall (.accepted 5), .txCall .failed]

theorem broken_off_for_good_drain :
    ∃ s t, run (step .virtualBus) (start .virtualBus [⟨0, none⟩, ⟨1, none⟩]) drainFailsRun =
        some s ∧
      (s.traffic 1).broken = true ∧
      run (step .virtualBus) s ([.tx, .tx, .tx] ++ forwardedRun) = some t ∧
      (t.traffic 1).written = (s.traffic 1).written := by
  obtain ⟨s, t, reached, broken, path⟩ : ∃ s t, run (step .virtualBus)
      (start .virtualBus [⟨0, none⟩, ⟨1, none⟩]) drainFailsRun = some s ∧
        (s.traffic 1).broken = true ∧
        run (step .virtualBus) s ([.tx, .tx, .tx] ++ forwardedRun) = some t := ⟨_, _, rfl, rfl, rfl⟩
  exact ⟨s, t, reached, broken, path, (broken_off_for_good rfl (by decide) (by decide +kernel)
    reached path).2 broken⟩

/-- The dispatch sends five bytes of that frame, and its attempts run out. -/
def dispatchFailsRun : List (Action Nat) :=
  forwardedRun ++ [.txCall (.accepted 5), .txCall .wouldBlock, .txCall .wouldBlock,
    .txCall .wouldBlock, .txCall .wouldBlock, .txCall .wouldBlock]

theorem written_after_broken :
    ∃ s t, run (step .virtualBus) (start .virtualBus [⟨0, none⟩, ⟨1, none⟩]) dispatchFailsRun =
        some s ∧
      (s.traffic 1).broken = true ∧ (s.traffic 1).written.length = 5 ∧
      run (step .virtualBus) s ([.tx, .tx] ++ forwardedRun ++ [.txCall (.accepted 16)]) = some t ∧
      (t.traffic 1).written.length = 21 ∧ ¬ WellFramed (t.traffic 1).written := by
  refine ⟨_, _, rfl, rfl, rfl, rfl, rfl, fun framed => ?_⟩
  exact absurd (framed.flags (by decide)) (by decide)

end Sockcan.Server
