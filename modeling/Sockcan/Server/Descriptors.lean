import Sockcan.Server.Registry

/-! Which descriptors the relay loops touch in the selector. The TX loop only
modifies and unregisters what it has selected; queueing a refused frame may touch any
consumer, served or not. -/
namespace Sockcan.Server
open Protocol Transition
variable {Fd : Type}

/-- The consumer whose refused frame a statement queues. -/
def queueing (s : Server Fd) : Action Fd → Option Fd
  | .rx => match s.rx with
    | .offer _ _ consumer .queue => some consumer.fd
    | _ => none
  | .tx => match s.tx with
    | .offer _ _ consumer .queue => some consumer.fd
    | _ => none
  | _ => none

/-- The descriptor that a statement of a relay loop modifies or unregisters. -/
def touched (s : Server Fd) : Action Fd → Option Fd
  | .rx => s.queueing .rx
  | .tx => match s.tx with
    | .unregister fd _ => some fd
    | .settle fd _ => if (s.io fd).outbound = [] then some fd else none
    | _ => s.queueing .tx
  | _ => none

def TouchesRegistered (s : Server Fd) (action : Action Fd) : Prop :=
  ∀ fd ∈ s.touched action, (s.selector fd).isSome

instance (s : Server Fd) (action : Action Fd) : Decidable (s.TouchesRegistered action) :=
  match touches : s.touched action with
  | none => isTrue (by simp [TouchesRegistered, touches])
  | some fd => decidable_of_iff ((s.selector fd).isSome = true)
      (by simp [TouchesRegistered, touches])

/-- A refused frame is queued only for a consumer that `listen_to` has registered and
that the TX loop has not unregistered. -/
def QueuesServed (s : Server Fd) (action : Action Fd) : Prop :=
  ∀ fd ∈ s.queueing action, s.Listened fd ∧ (s.traffic fd).unregistered = false

instance [DecidableEq Fd] (s : Server Fd) (fd : Fd) : Decidable (s.Listened fd) :=
  inferInstanceAs (Decidable (_ ∨ _))

instance [DecidableEq Fd] (s : Server Fd) (action : Action Fd) :
    Decidable (s.QueuesServed action) :=
  match queues : s.queueing action with
  | none => isTrue (by simp [QueuesServed, queues])
  | some fd => decidable_of_iff (s.Listened fd ∧ (s.traffic fd).unregistered = false)
      (by simp [QueuesServed, queues])

/-- No relay thread was ended by a `KeyError` of the selector. -/
def NoKeyError (s : Server Fd) : Prop :=
  s.rx ≠ .ended .selectorKeyError ∧ s.tx ≠ .ended .selectorKeyError

variable [DecidableEq Fd] {cfg : Config} {peers : List (Consumer Fd)} {s t : Server Fd}
  {action : Action Fd} {actions : List (Action Fd)} {fd : Fd}

omit [DecidableEq Fd] in
theorem Registry.touches (registry : s.Registry) :
    s.TouchesRegistered action ↔ s.QueuesServed action := by
  have queue {fd : Fd} : (s.selector fd).isSome ↔
      s.Listened fd ∧ (s.traffic fd).unregistered = false := registry.selector fd
  have selected := registry.selected
  cases action with
  | rx =>
    simp only [TouchesRegistered, QueuesServed, touched]
    exact forall₂_congr fun _ _ => queue
  | tx =>
    cases at_ : s.tx with
    | unregister fd events =>
      rw [at_] at selected
      have here := selected fd List.mem_cons_self
      simpa [TouchesRegistered, QueuesServed, touched, queueing, at_] using here
    | settle fd events =>
      rw [at_] at selected
      have here := selected fd List.mem_cons_self
      simp only [TouchesRegistered, QueuesServed, touched, queueing, at_]
      constructor
      · intro _ other member
        contradiction
      · intro _ other member
        split at member
        · cases member
          exact here
        · contradiction
    | _ =>
      simp only [TouchesRegistered, QueuesServed, touched, at_]
      exact forall₂_congr fun _ _ => queue
  | _ =>
    simp only [TouchesRegistered, QueuesServed, touched]
    exact forall₂_congr fun _ _ => queue

theorem Offers.raised {message : Relayed Fd} {point : Offer} {why : Ending}
    (offer : Offers cfg s fd message point t (.raised why)) :
    point = .queue ∧ ¬ (s.selector fd).isSome := by
  cases offer with
  | queueMissing absent => exact ⟨rfl, absent⟩

omit [DecidableEq Fd] in
theorem RxPoint.afterSend_keyError (message : Relayed Fd) (index : Nat) (consumer : Consumer Fd)
    {progress : Progress} {outcome : CallOutcome} {answer : Except Ending SendStep}
    [DecidableEq Fd] (call : Sends s fd message progress outcome t answer) :
    RxPoint.afterSend message index consumer answer ≠ .ended .selectorKeyError := by
  cases call with
  | unpacked => simp [RxPoint.afterSend]
  | call =>
    cases sendCall streamSendAttempts progress outcome <;> simp [RxPoint.afterSend]

theorem TxPoint.afterSend_keyError (job : Job Fd) (index : Nat) (consumer : Consumer Fd)
    {progress : Progress} {outcome : CallOutcome} {answer : Except Ending SendStep}
    (call : Sends s fd job.message progress outcome t answer) :
    TxPoint.afterSend job index consumer answer ≠ .ended .selectorKeyError := by
  cases call with
  | unpacked => simp [TxPoint.afterSend]
  | call =>
    cases sendCall streamSendAttempts progress outcome <;> simp [TxPoint.afterSend]

theorem TxPoint.afterDrainSend_keyError (head : Relayed Fd) (events : List (Event Fd))
    {progress : Progress} {outcome : CallOutcome} {answer : Except Ending SendStep}
    (call : Sends s fd head progress outcome t answer) :
    TxPoint.afterDrainSend fd head events answer ≠ .ended .selectorKeyError := by
  cases call with
  | unpacked => simp [TxPoint.afterDrainSend]
  | call =>
    cases sendCall streamSendAttempts progress outcome <;> simp [TxPoint.afterDrainSend]

theorem RxRelays.no_keyError (move : RxRelays cfg s action t) (registry : s.Registry)
    (served : s.QueuesServed action) : t.rx ≠ .ended .selectorKeyError := by
  cases move with
  | @offer message index consumer point after result at_ offer =>
    cases result with
    | raised why =>
      obtain ⟨rfl, absent⟩ := offer.raised
      have held := (registry.selector consumer.fd).mpr
        (served consumer.fd (by simp [queueing, at_]))
      exact absurd held absent
    | _ => simp [RxPoint.afterOffer]
  | call _ call => exact RxPoint.afterSend_keyError _ _ _ call
  | _ => simp

theorem GivesUp.no_keyError (move : GivesUp s action t) (registry : s.Registry) :
    t.tx ≠ .ended .selectorKeyError := by
  have selected := registry.selected
  cases move with
  | unregisterMissing at_ absent =>
    rw [at_] at selected
    exact absurd (selected _ List.mem_cons_self) absent
  | _ => simp

theorem TxRelays.no_keyError (move : TxRelays cfg s action t) (registry : s.Registry)
    (served : s.QueuesServed action) : t.tx ≠ .ended .selectorKeyError := by
  cases move with
  | @offer job index consumer point after result at_ offer =>
    cases result with
    | raised why =>
      obtain ⟨rfl, absent⟩ := offer.raised
      have held := (registry.selector consumer.fd).mpr
        (served consumer.fd (by simp [queueing, at_]))
      exact absurd held absent
    | _ => simp [TxPoint.afterOffer]
  | call _ call => exact TxPoint.afterSend_keyError _ _ _ call
  | @finish job =>
    dsimp only
    split
    · exact job.afterRead_running _
    · simp
  | @bus job => exact job.afterRead_running _
  | _ => simp

theorem Drains.no_keyError {events : List (Event Fd)} (move : Drains s fd events action t)
    (registry : s.Registry) : t.tx ≠ .ended .selectorKeyError := by
  have selected := registry.selected
  cases move with
  | call _ call => exact TxPoint.afterDrainSend_keyError _ _ call
  | settleMissing at_ _ absent =>
    rw [at_] at selected
    exact absurd (selected _ List.mem_cons_self) absent
  | _ => simp

/-- Where refused frames are queued for served consumers only, no thread ends with a
`KeyError` of the selector: what the TX loop has selected is registered. -/
theorem Moves.no_keyError (move : Moves cfg s action t) (registry : s.Registry)
    (none_before : s.NoKeyError) (served : s.QueuesServed action) : t.NoKeyError := by
  obtain ⟨rx, tx⟩ := none_before
  constructor
  · rcases move.rx_cases with same | ⟨_, cleans⟩ | relays
    · exact same ▸ rx
    · cases cleans <;> simp
    · exact relays.no_keyError registry served
  · rcases move.tx_cases with same | selects | givesUp | relays | ⟨fd, events, drains⟩
    · exact same ▸ tx
    · cases selects <;> simp
    · exact givesUp.no_keyError registry
    · exact relays.no_keyError registry served
    · exact drains.no_keyError registry

theorem step_keyError (step : step cfg s action = some t) (registry : s.Registry)
    (none_after : t.NoKeyError) : s.QueuesServed action := by
  intro fd member
  rw [← registry.selector]
  by_contra absent
  cases action with
  | rx =>
    simp only [queueing] at member
    split at member
    · cases member
      rename_i at_
      simp only [Server.step, rxStep, at_, offerStep, if_neg absent, Option.map_some,
        Option.some.injEq] at step
      subst step
      exact none_after.1 rfl
    · contradiction
  | tx =>
    simp only [queueing] at member
    split at member
    · cases member
      rename_i at_
      simp only [Server.step, txStep, at_, offerStep, if_neg absent, Option.map_some,
        Option.some.injEq] at step
      subst step
      exact none_after.2 rfl
    · contradiction
  | _ => simp [queueing] at member

/-- The relay loops touch registered descriptors only, and no `KeyError` of the
selector ends one of them, exactly when no refused frame is queued for a consumer that
the TX loop has unregistered or that `listen_to` has published and not registered yet. -/
theorem touches_registered_iff (distinct : (peers.map Consumer.fd).Nodup) :
    (Along (step cfg) TouchesRegistered (start cfg peers) actions ↔
      Along (step cfg) QueuesServed (start cfg peers) actions) ∧
    (Throughout (step cfg) NoKeyError (start cfg peers) actions ↔
      Along (step cfg) QueuesServed (start cfg peers) actions) := by
  have preserved (s : Server Fd) (action : Action Fd) (t : Server Fd) (registry : s.Registry)
      (_ : True) (step : step cfg s action = some t) : t.Registry :=
    (step_moves step).registry registry
  have initial : (start cfg peers).NoKeyError := by
    constructor
    · simp only [start]
      split <;> simp
    · simp [start]
  constructor
  · exact along_congr preserved (fun s action registry => registry.touches) (.start distinct)
      along_true
  · refine throughout_iff_along preserved (fun s action t registry _ step none_before => ?_)
      (.start distinct) initial along_true
    exact ⟨step_keyError step registry,
      (step_moves step).no_keyError registry none_before⟩

theorem touches_registered_iff_served :
    Along (step .virtualBus) TouchesRegistered (start .virtualBus [⟨0, none⟩, ⟨1, none⟩])
      [.tx, .txSelect [.ready (0 : Nat) true false], .tx,
        .txRecv (some ⟨0x123, [1], false⟩), .tx, .tx, .tx, .tx, .txCall .wouldBlock, .tx, .tx] :=
  (touches_registered_iff (by decide)).1.mpr (by decide +kernel)

/-- The read of one consumer fails. The frame of the other is then refused by the first,
whose socket still is in `_consumers` and `_consumer_io`. -/
def unservedRun : List (Action Nat) :=
  [.tx, .txSelect [.ready 0 true false], .tx, .txRecv none, .tx, .tx, .tx, .tx,
    .txSelect [.ready 1 true false], .tx, .txRecv (some ⟨0x123, [1], false⟩), .tx, .tx, .tx,
    .txCall .wouldBlock, .tx, .tx]

theorem queues_unregistered :
    ¬ Along (step .virtualBus) TouchesRegistered (start .virtualBus [⟨0, none⟩, ⟨1, none⟩])
        unservedRun ∧
      (run (step .virtualBus) (start .virtualBus [⟨0, none⟩, ⟨1, none⟩]) unservedRun).map
        (fun t => t.tx) = some (.ended .selectorKeyError) := by
  decide +kernel

end Sockcan.Server
