import Sockcan.Server.Descriptors
import Sockcan.Server.Quiet
import Sockcan.Server.Roster

/-! What can end a relay loop while the filters of its consumers can be evaluated and
`set_filters` of the bus returns: a step that does is one of few kinds. -/
namespace Sockcan.Server
open Protocol Transition
variable {Fd : Type}

/-- A loop sends a frame of the bus that has no header. -/
def SendsUnpacked (s : Server Fd) (loop : Loop) : Prop :=
  ∃ fd message progress, s.sending loop = some (fd, message, progress) ∧
    message ∈ s.received none ∧ message.frame.payload = none

/-- The steps that end a loop. -/
def Causes (cfg : Config) (s : Server Fd) (action : Action Fd) : Loop → Ending → Prop
  | .rx, .operationError => action = .rxRecv none
  | .rx, .structError => (∃ outcome, action = .rxCall outcome) ∧ s.SendsUnpacked .rx
  | .rx, .selectorKeyError => action = .rx ∧ ¬ s.QueuesServed action
  | .tx, .returned => action = .tx ∧ s.running = false
  | .tx, .operationError => action = .txBus false ∧ cfg.virtual = false
  | .tx, .structError => (∃ outcome, action = .txCall outcome) ∧ s.SendsUnpacked .tx
  | .tx, .selectorKeyError => action = .tx ∧ ¬ s.QueuesServed action
  | _, _ => False

/-- The consumer whose backlog the drain has found not to be empty. -/
def TxPoint.drawing : TxPoint Fd → Option Fd
  | .peek fd _ | .drainSend fd _ _ _ | .popleft fd _ _ => some fd
  | _ => none

/-- The frames of the consumers are those of a stream, and a virtual bus has none. -/
structure Sources (cfg : Config) (s : Server Fd) : Prop where
  classic : ∀ fd, ∀ message ∈ s.received (some fd), message.frame.Classic
  bus : cfg.virtual = true → s.received none = [] ∧ s.rx = .ended .returned
  sends : ∀ job, s.tx = .busSend job → cfg.virtual = false

structure Healthy (cfg : Config) (s : Server Fd) : Prop where
  registry : s.Registry
  cleaning : s.Cleaning
  roster : s.Roster
  ledger : s.Ledger
  sources : s.Sources cfg
  drawn : ∀ fd ∈ s.tx.drawing, (s.io fd).outbound ≠ []

variable [DecidableEq Fd] {cfg : Config} {peers : List (Consumer Fd)} {s t : Server Fd}
  {action : Action Fd} {actions : List (Action Fd)} {fd : Fd} {message : Relayed Fd}

omit [DecidableEq Fd] in
theorem Job.afterRead_ne_busSend (job other : Job Fd) : job.afterRead ≠ .busSend other := by
  unfold Job.afterRead
  split <;> simp

theorem TxRelays.busSend (move : TxRelays cfg s action t) {job : Job Fd}
    (at_ : t.tx = .busSend job) : cfg.virtual = false := by
  cases move with
  | @finish other =>
    by_cases virtual : cfg.virtual
    · simp only [virtual, if_true] at at_
      exact absurd at_ (other.afterRead_ne_busSend job)
    · simpa using virtual
  | @bus other => exact absurd at_ (other.afterRead_ne_busSend job)
  | @offer _ _ _ _ _ result => cases result <;> contradiction
  | @call _ _ _ _ _ _ answer =>
    cases answer with
    | error => contradiction
    | ok step => cases step <;> contradiction
  | _ => contradiction

/-- A relay takes nothing out of a backlog. -/
theorem TxRelays.not_drawing (move : TxRelays cfg s action t) : t.tx.drawing = none := by
  have afterRead (job : Job Fd) : job.afterRead.drawing = none := by
    unfold Job.afterRead
    split <;> rfl
  cases move with
  | finish =>
    dsimp only
    split
    · exact afterRead _
    · rfl
  | bus => exact afterRead _
  | @offer _ _ _ _ _ result => cases result <;> rfl
  | @call _ _ _ _ _ _ answer =>
    cases answer with
    | error => rfl
    | ok step => cases step <;> rfl
  | _ => rfl

theorem Drains.not_busSend {events : List (Event Fd)} (move : Drains s fd events action t)
    (job : Job Fd) : t.tx ≠ .busSend job := by
  cases move with
  | @call _ _ _ _ answer =>
    cases answer with
    | error => simp [TxPoint.afterDrainSend]
    | ok step => cases step <;> simp [TxPoint.afterDrainSend]
  | _ => simp

theorem Moves.sources (move : Moves cfg s action t) (sources : s.Sources cfg) :
    t.Sources cfg where
  classic fd message member := by
    rcases move.read_cases with same | relays | relays
    · exact sources.classic fd message (same ▸ member)
    · cases relays with
      | recv => exact sources.classic fd message (by simpa [receive, stamp] using member)
      | offer _ offer => exact sources.classic fd message (offer.received ▸ member)
      | call _ call => exact sources.classic fd message (call.received ▸ member)
      | _ => exact sources.classic fd message member
    · cases relays with
      | recv _ classic =>
        rcases mem_receive member with old | new
        · exact sources.classic fd message old
        · exact new ▸ classic
      | offer _ offer => exact sources.classic fd message (offer.received ▸ member)
      | call _ call => exact sources.classic fd message (call.received ▸ member)
      | _ => exact sources.classic fd message member
  bus virtual := by
    obtain ⟨unread, ended⟩ := sources.bus virtual
    refine ⟨?_, move.rx_over ended⟩
    rcases move.read_cases with same | relays | relays
    · rw [same, unread]
    · exact absurd ended (relays.not_ended .returned)
    · cases relays with
      | recv => simpa [receive, stamp] using unread
      | offer _ offer => rw [offer.received, unread]
      | call _ call => rw [call.received, unread]
      | _ => exact unread
  sends job at_ := by
    rcases move.tx_cases with same | selects | givesUp | relays | ⟨_, _, drains⟩
    · exact sources.sends job (same ▸ at_)
    · cases selects <;> contradiction
    · cases givesUp <;> contradiction
    · exact relays.busSend at_
    · exact absurd at_ (drains.not_busSend job)

omit [DecidableEq Fd] in
theorem TxPoint.drawing_mem_keys {point : TxPoint Fd} (draws : point.drawing = some fd) :
    some fd ∈ point.keys := by
  cases point with
  | peek | drainSend | popleft =>
    cases draws
    exact List.mem_cons_self
  | _ => contradiction

omit [DecidableEq Fd] in
theorem Registry.drawing_heard (registry : s.Registry) (draws : s.tx.drawing = some fd) :
    s.listeners fd ≠ .fresh := by
  have selected := registry.selected fd (TxPoint.drawing_mem_keys draws)
  exact ((registry.selector fd).mp selected).1.published.1

theorem Moves.drawn (move : Moves cfg s action t) (registry : s.Registry)
    (drawn : ∀ fd ∈ s.tx.drawing, (s.io fd).outbound ≠ []) :
    ∀ fd ∈ t.tx.drawing, (t.io fd).outbound ≠ [] := by
  intro fd draws
  rcases move.tx_cases with same | selects | givesUp | relays | ⟨other, events, drains⟩
  · have before : s.tx.drawing = some fd := by
      rw [← same]
      exact draws
    exact move.outbound_ne_nil (registry.drawing_heard before) (fun _ _ _ => same)
      (drawn fd before)
  · cases selects <;> cases draws
  · cases givesUp <;> cases draws
  · rw [relays.not_drawing] at draws
    cases draws
  · cases drains with
    | find _ nonempty =>
      cases draws
      exact nonempty
    | peek _ queued =>
      cases draws
      simp [queued]
    | @call head progress _ _ answer at_ call =>
      have before : (s.io fd).outbound ≠ [] := by
        apply drawn
        rw [at_]
        cases answer with
        | error => cases draws
        | ok step =>
          cases step <;> cases draws <;> rfl
      simpa [call.io] using before
    | _ => cases draws

theorem Moves.healthy (move : Moves cfg s action t) (healthy : s.Healthy cfg) :
    t.Healthy cfg where
  registry := move.registry healthy.registry
  cleaning := move.cleaning healthy.registry healthy.cleaning
  roster := move.roster healthy.registry healthy.cleaning healthy.roster
  ledger := move.ledger healthy.ledger
  sources := move.sources healthy.sources
  drawn := move.drawn healthy.registry healthy.drawn

theorem Healthy.start (distinct : (peers.map Consumer.fd).Nodup) :
    (start cfg peers).Healthy cfg where
  registry := .start distinct
  cleaning := .start cfg peers
  roster := .start
  ledger := .start cfg peers
  sources :=
    { classic := fun fd message member => by simp [Server.start] at member
      bus := fun virtual => ⟨rfl, if_pos virtual⟩
      sends := fun job at_ => by cases at_ }
  drawn fd draws := by cases draws

omit [DecidableEq Fd] in
/-- What a loop cannot pack is a frame of the bus: those of the consumers have a header. -/
theorem Healthy.unpacked (healthy : s.Healthy cfg) {loop : Loop} {progress : Progress}
    (sends : s.sending loop = some (fd, message, progress))
    (none_packed : message.frame.payload = none) : s.SendsUnpacked loop := by
  have read := healthy.ledger.sending sends
  cases source : message.source with
  | none =>
    rw [source] at read
    exact ⟨fd, message, progress, sends, read, none_packed⟩
  | some origin =>
    rw [source] at read
    obtain ⟨bytes, packed, _⟩ :=
      (healthy.sources.classic origin message read).payload_isSome
    rw [none_packed] at packed
    contradiction

omit [DecidableEq Fd] in
/-- The drain finds the frame that it has seen at the head. -/
theorem Healthy.draws (healthy : s.Healthy cfg) (draws : s.tx.drawing = some fd)
    (empty : (s.io fd).outbound = []) : False :=
  healthy.drawn fd draws empty

theorem Cleans.not_ends (move : Cleans s t) (healthy : s.Healthy cfg) (why : Ending) :
    t.rx ≠ .ended why := by
  cases move with
  | @removeMissing consumer rest at_ closed absent =>
    have behind := healthy.roster.behind consumer (by rw [closed]; exact List.mem_cons_self)
    rw [at_] at behind
    exact absurd (List.any_eq_true.mpr ⟨consumer, behind, decide_eq_true rfl⟩) absent
  | @deleteMissing consumer at_ absent =>
    obtain ⟨⟨rest, closed⟩, _⟩ := healthy.cleaning.deleting consumer (by rw [at_]; rfl)
    exact absurd (healthy.roster.closedIo consumer (by rw [closed]; exact List.mem_cons_self))
      absent
  | _ => simp

theorem RxRelays.ends (move : RxRelays cfg s action t) (healthy : s.Healthy cfg) {why : Ending}
    (ended : t.rx = .ended why) : s.Causes cfg action .rx why := by
  cases move with
  | recvError =>
    cases ended
    exact rfl
  | @handMissing message index consumer at_ absent =>
    have inHand := healthy.roster.inHand
    rw [at_] at inHand
    have listed := healthy.roster.listed consumer (List.mem_of_getElem? inHand.2)
    rw [at_] at listed
    exact absurd (listed.resolve_right (by simp [RxPoint.removing])) absent
  | @offer message index consumer _ _ _ at_ offer =>
    cases offer with
    | queueMissing absent =>
      cases ended
      refine ⟨rfl, fun served => absent ?_⟩
      exact (healthy.registry.selector _).mpr (served consumer.fd (by simp [queueing, at_]))
    | _ => cases ended
  | @call message index consumer progress outcome _ _ at_ call =>
    cases call with
    | unpacked none_packed =>
      cases ended
      have sends : s.sending .rx = some (consumer.fd, message, progress) := by
        simp [sending, at_]
      exact ⟨⟨outcome, rfl⟩, healthy.unpacked sends none_packed⟩
    | call =>
      cases called : sendCall streamSendAttempts progress outcome <;>
        simp [called, RxPoint.afterSend] at ended
  | _ => cases ended

theorem GivesUp.not_ends (move : GivesUp s action t) (healthy : s.Healthy cfg) (why : Ending) :
    t.tx ≠ .ended why := by
  cases move with
  | unregisterMissing at_ absent =>
    refine absurd (healthy.registry.selected _ ?_) absent
    rw [at_]
    exact List.mem_cons_self
  | _ => simp

theorem TxRelays.ends (move : TxRelays cfg s action t) (healthy : s.Healthy cfg) {why : Ending}
    (ended : t.tx = .ended why) : s.Causes cfg action .tx why := by
  cases move with
  | @finish job =>
    dsimp only at ended
    split at ended
    · exact absurd ended (job.afterRead_running why)
    · cases ended
  | @bus job => exact absurd ended (job.afterRead_running why)
  | @busError job at_ =>
    cases ended
    exact ⟨rfl, healthy.sources.sends job at_⟩
  | @offer job index consumer _ _ _ at_ offer =>
    cases offer with
    | queueMissing absent =>
      cases ended
      refine ⟨rfl, fun served => absent ?_⟩
      exact (healthy.registry.selector _).mpr (served consumer.fd (by simp [queueing, at_]))
    | _ => cases ended
  | @call job index consumer progress outcome _ _ at_ call =>
    cases call with
    | unpacked none_packed =>
      cases ended
      have sends : s.sending .tx = some (consumer.fd, job.message, progress) := by
        simp [sending, at_]
      exact ⟨⟨outcome, rfl⟩, healthy.unpacked sends none_packed⟩
    | call =>
      cases called : sendCall streamSendAttempts progress outcome <;>
        simp [called, TxPoint.afterSend] at ended
  | _ => cases ended

theorem Drains.ends {events : List (Event Fd)} (move : Drains s fd events action t)
    (healthy : s.Healthy cfg) {why : Ending} (ended : t.tx = .ended why) :
    s.Causes cfg action .tx why := by
  cases move with
  | peekEmpty at_ empty | popEmpty at_ empty =>
    exact (healthy.draws (by rw [at_]; rfl) empty).elim
  | settleMissing at_ _ absent =>
    refine absurd (healthy.registry.selected _ ?_) absent
    rw [at_]
    exact List.mem_cons_self
  | @call head progress outcome _ _ at_ call =>
    cases call with
    | unpacked none_packed =>
      cases ended
      have sends : s.sending .tx = some (fd, head, progress) := by
        simp [sending, at_]
      exact ⟨⟨outcome, rfl⟩, healthy.unpacked sends none_packed⟩
    | call =>
      cases called : sendCall streamSendAttempts progress outcome <;>
        simp [called, TxPoint.afterDrainSend] at ended
  | _ => cases ended

/-- A step that ends a loop is one of those that `Causes` tells. -/
theorem Moves.rx_ends (move : Moves cfg s action t) (healthy : s.Healthy cfg) {why : Ending}
    (ended : t.rx = .ended why) : s.rx = .ended why ∨ s.Causes cfg action .rx why := by
  rcases move.rx_cases with same | ⟨_, cleans⟩ | relays
  · exact Or.inl (same ▸ ended)
  · exact absurd ended (cleans.not_ends healthy why)
  · exact Or.inr (relays.ends healthy ended)

theorem Moves.tx_ends (move : Moves cfg s action t) (healthy : s.Healthy cfg) {why : Ending}
    (ended : t.tx = .ended why) : s.tx = .ended why ∨ s.Causes cfg action .tx why := by
  rcases move.tx_cases with same | selects | givesUp | relays | ⟨_, _, drains⟩
  · exact Or.inl (same ▸ ended)
  · cases selects with
    | stopped at_ stopped =>
      cases ended
      exact Or.inr ⟨rfl, by simpa using stopped⟩
    | _ => cases ended
  · exact absurd ended (givesUp.not_ends healthy why)
  · exact Or.inr (relays.ends healthy ended)
  · exact Or.inr (drains.ends healthy ended)

omit [DecidableEq Fd] in
/-- Without a bus no frame lacks a header. -/
theorem Sources.virtual_ending (sources : s.Sources cfg) (virtual : cfg.virtual = true)
    {why : Ending} (causes : s.Causes cfg action .tx why) :
    why = .returned ∨ why = .selectorKeyError := by
  cases why with
  | returned => exact Or.inl rfl
  | selectorKeyError => exact Or.inr rfl
  | structError =>
    obtain ⟨_, _, _, _, _, member, _⟩ := causes
    rw [(sources.bus virtual).1] at member
    contradiction
  | operationError =>
    have real : cfg.virtual = false := causes.2
    rw [virtual] at real
    contradiction
  | _ => exact causes.elim

/-- The bus delivers a frame that no header holds. -/
def unpackedRun : List (Action Nat) :=
  [.rx, .rx, .rx, .rxRecv (some ⟨0x123, List.replicate 256 0, false⟩), .rx, .rx, .rx,
    .rxCall .wouldBlock]

end Sockcan.Server
