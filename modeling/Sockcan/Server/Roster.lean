import Sockcan.Server.Cleanup

/-! The accesses of the RX loop to `_consumers` and `_consumer_io` find what they look
for: every listed consumer has its IO state, and every consumer that is to be removed is
listed, once. -/
namespace Sockcan.Server
open Protocol Transition
variable {Fd : Type}

/-- Where a consumer whose send failed is found until it is removed: among those that the
dispatch has passed, and after the dispatch among all. -/
def RxPoint.Behind (consumers : List (Consumer Fd)) (closed : Consumer Fd) : RxPoint Fd → Prop
  | .removeClosed => closed ∈ consumers
  | .deleteClosed removed => closed = removed ∨ closed ∈ consumers
  | .advance _ index | .wake _ index => closed ∈ consumers.take index
  | .lookup _ index _ | .offer _ index _ _ | .close _ index _ =>
    closed ∈ consumers.take (index - 1)
  | .ended _ => True
  | .takeDead | .popDead _ | .removeDead _ | .refresh | .aggregate _ _ | .install _ | .recv => False

/-- The consumer in hand is the one before the index. -/
def RxPoint.InHand (consumers : List (Consumer Fd)) : RxPoint Fd → Prop
  | .lookup _ index consumer | .offer _ index consumer _ | .close _ index consumer =>
    0 < index ∧ consumers[index - 1]? = some consumer
  | _ => True

structure Roster (s : Server Fd) : Prop where
  listed : ∀ consumer ∈ s.consumers,
    s.consumerIo consumer.fd = true ∨ consumer.fd ∈ s.rx.removing
  appending : ∀ fd consumer, s.listeners fd = .appendConsumer consumer → s.consumerIo fd = true
  distinct : (s.closedConnections.map Consumer.fd).Nodup
  closedIo : ∀ consumer ∈ s.closedConnections, s.consumerIo consumer.fd = true
  behind : ∀ consumer ∈ s.closedConnections, s.rx.Behind s.consumers consumer
  inHand : s.rx.InHand s.consumers

variable {cfg : Config} {peers : List (Consumer Fd)} {s t : Server Fd} {action : Action Fd}
  {fd : Fd} {consumer : Consumer Fd} {consumers : List (Consumer Fd)} {index : Nat}

theorem mem_take_succ (member : consumer ∈ consumers.take index) :
    consumer ∈ consumers.take (index + 1) :=
  (List.take_prefix_take_left (Nat.le_succ index)).subset member

theorem mem_take_of_pred (member : consumer ∈ consumers.take (index - 1)) :
    consumer ∈ consumers.take index :=
  (List.take_prefix_take_left (Nat.sub_le index 1)).subset member

theorem RxPoint.Behind.append {closed new : Consumer Fd} {point : RxPoint Fd}
    (behind : point.Behind consumers closed) : point.Behind (consumers ++ [new]) closed := by
  have grows (count : Nat) : closed ∈ consumers.take count →
      closed ∈ (consumers ++ [new]).take count := by
    intro member
    rw [List.take_append]
    exact List.mem_append_left _ member
  cases point with
  | removeClosed => exact List.mem_append_left _ behind
  | deleteClosed removed => exact behind.imp_right (List.mem_append_left _)
  | advance | wake | lookup | offer | close => exact grows _ behind
  | ended => trivial
  | _ => exact behind.elim

theorem RxPoint.InHand.append {new : Consumer Fd} {point : RxPoint Fd}
    (inHand : point.InHand consumers) : point.InHand (consumers ++ [new]) := by
  cases point with
  | lookup | offer | close =>
    obtain ⟨positive, found⟩ := inHand
    obtain ⟨inside, _⟩ := List.getElem?_eq_some_iff.mp found
    refine ⟨positive, ?_⟩
    rw [List.getElem?_append_left inside]
    exact found
  | _ => trivial

theorem Roster.congr (roster : s.Roster) (rx : t.rx = s.rx) (consumers : t.consumers = s.consumers)
    (consumerIo : t.consumerIo = s.consumerIo) (listeners : t.listeners = s.listeners)
    (closed : t.closedConnections = s.closedConnections) : t.Roster := by
  constructor
  · rw [rx, consumers, consumerIo]
    exact roster.listed
  · rw [listeners, consumerIo]
    exact roster.appending
  · rw [closed]
    exact roster.distinct
  · rw [closed, consumerIo]
    exact roster.closedIo
  · rw [closed, rx, consumers]
    exact roster.behind
  · rw [rx, consumers]
    exact roster.inHand

/-- The RX loop goes on without a removal. -/
theorem Roster.goto (roster : s.Roster) {point : RxPoint Fd} (before : s.rx.removing = none)
    (behind : ∀ consumer, s.rx.Behind s.consumers consumer → point.Behind s.consumers consumer)
    (inHand : point.InHand s.consumers) : ({ s with rx := point } : Server Fd).Roster where
  listed consumer member := by
    rcases roster.listed consumer member with present | removing
    · exact Or.inl present
    · rw [before] at removing
      contradiction
  appending := roster.appending
  distinct := roster.distinct
  closedIo := roster.closedIo
  behind consumer member := behind consumer (roster.behind consumer member)
  inHand := inHand

variable [DecidableEq Fd]

/-- The flag of `fd` in `_consumer_io` is cleared, those of others stay. -/
theorem setConsumerIo_of_ne {other : Fd} (apart : other ≠ fd)
    (present : s.consumerIo other = true) : (s.setConsumerIo fd false).consumerIo other = true := by
  simp only [setConsumerIo]
  rw [Function.update_of_ne apart]
  exact present

/-- The head of the closed connections leaves `_consumers`. -/
theorem Roster.remove (roster : s.Roster) {rest : List (Consumer Fd)} (at_ : s.rx = .removeClosed)
    (closed : s.closedConnections = consumer :: rest) :
    ({ s.removeConsumer consumer.fd with rx := .deleteClosed consumer } : Server Fd).Roster where
  listed other member := by
    have listed := roster.listed other (List.mem_of_mem_eraseP member)
    rw [at_] at listed
    exact listed
  appending := roster.appending
  distinct := roster.distinct
  closedIo := roster.closedIo
  behind other member := by
    have listed := roster.behind other member
    rw [at_] at listed
    by_cases same : other.fd = consumer.fd
    · have head : consumer ∈ s.closedConnections := closed ▸ List.mem_cons_self
      exact Or.inl (List.inj_on_of_nodup_map roster.distinct member head same)
    · exact Or.inr ((List.mem_eraseP_of_neg (by simpa using same)).mpr listed)
  inHand := trivial

/-- Its IO state goes after it. -/
theorem Roster.delete (roster : s.Roster) (registry : s.Registry) (cleaning : s.Cleaning)
    (at_ : s.rx = .deleteClosed consumer) :
    ({ s.setConsumerIo consumer.fd false with
      closedConnections := s.closedConnections.tail
      consumersChanged := true
      rx := .removeClosed } : Server Fd).Roster := by
  obtain ⟨⟨rest, closed⟩, unlisted⟩ := cleaning.deleting consumer (by rw [at_]; rfl)
  have distinct := roster.distinct
  rw [closed] at distinct
  obtain ⟨absent, others⟩ := List.nodup_cons.mp distinct
  have apart {other : Consumer Fd} (member : other ∈ rest) : other.fd ≠ consumer.fd :=
    fun same => absent (same ▸ List.mem_map_of_mem member)
  have head : consumer ∈ s.closedConnections := closed ▸ List.mem_cons_self
  constructor
  · intro other member
    rcases roster.listed other member with present | removing
    · exact Or.inl (setConsumerIo_of_ne (unlisted other member) present)
    · rw [at_] at removing
      contradiction
  · intro fd appended waits
    refine setConsumerIo_of_ne ?_ (roster.appending fd appended waits)
    rintro rfl
    exact (registry.closed consumer head).2 appended waits
  · simpa [closed] using others
  · intro other member
    rw [closed] at member
    exact setConsumerIo_of_ne (apart member)
      (roster.closedIo other (closed ▸ List.mem_cons_of_mem _ member))
  · intro other member
    rw [closed] at member
    have listed := roster.behind other (closed ▸ List.mem_cons_of_mem _ member)
    rw [at_] at listed
    rcases listed with same | listed
    · exact absurd (congrArg Consumer.fd same) (apart member)
    · exact listed
  · trivial

theorem Roster.popDead (roster : s.Roster) (registry : s.Registry) (at_ : s.rx = .popDead fd) :
    ({ s.setConsumerIo fd false with rx := .removeDead fd } : Server Fd).Roster := by
  have none_closed (other : Consumer Fd) (member : other ∈ s.closedConnections) : False := by
    have behind := roster.behind other member
    rwa [at_] at behind
  constructor
  · intro other member
    by_cases same : other.fd = fd
    · exact Or.inr (by rw [same]; rfl)
    · rcases roster.listed other member with present | removing
      · exact Or.inl (setConsumerIo_of_ne same present)
      · rw [at_] at removing
        contradiction
  · intro other appended waits
    refine setConsumerIo_of_ne ?_ (roster.appending other appended waits)
    rintro rfl
    have gone := registry.taken other (by rw [at_]; rfl)
    exact (registry.unregistered other gone).published.2 appended waits
  · exact roster.distinct
  · exact fun other member => (none_closed other member).elim
  · exact fun other member => (none_closed other member).elim
  · trivial

theorem Roster.removeDead (roster : s.Roster) (registry : s.Registry)
    (at_ : s.rx = .removeDead fd) (changed : Bool) :
    ({ s.removeConsumer fd with consumersChanged := changed, rx := .takeDead } :
      Server Fd).Roster where
  listed other member := by
    have apart := not_mem_removeConsumer registry.distinct fd other member
    rcases roster.listed other (List.mem_of_mem_eraseP member) with present | removing
    · exact Or.inl present
    · rw [at_] at removing
      exact absurd (Option.some.inj removing).symm apart
  appending := roster.appending
  distinct := roster.distinct
  closedIo := roster.closedIo
  behind other member := by
    have behind := roster.behind other member
    rwa [at_] at behind
  inHand := trivial

theorem Cleans.roster (move : Cleans s t) (registry : s.Registry) (cleaning : s.Cleaning)
    (roster : s.Roster) : t.Roster := by
  cases move with
  | noneClosed at_ none_left =>
    have listed := roster.listed
    rw [at_] at listed
    exact { roster with
      listed := listed
      behind := by simp [none_left]
      inHand := trivial }
  | remove at_ closed => exact roster.remove at_ closed
  | removeMissing at_ | deleteMissing at_ =>
    exact roster.goto (by rw [at_]; rfl) (fun _ _ => trivial) trivial
  | delete at_ => exact roster.delete registry cleaning at_
  | noneDead at_ | refresh at_ | noRefresh at_ | aggregate at_ | aggregated at_ =>
    exact roster.goto (by rw [at_]; rfl) (fun _ behind => by rwa [at_] at behind) trivial
  | @takeDead fd rest at_ =>
    have goes := roster.goto (by rw [at_]; rfl) (fun _ behind => by rwa [at_] at behind)
      (show (RxPoint.popDead fd).InHand s.consumers from trivial)
    exact { goes with }
  | popDead at_ => exact roster.popDead registry at_
  | removeDead at_ => exact roster.removeDead registry at_ _
  | install at_ =>
    have goes := roster.goto (by rw [at_]; rfl)
      (fun _ behind => by rwa [at_] at behind) (show RxPoint.recv.InHand s.consumers from trivial)
    exact { goes with }

omit [DecidableEq Fd] in
/-- The consumer in hand is not among those before it. -/
theorem not_mem_take_pred (distinct : (consumers.map Consumer.fd).Nodup) {count : Nat}
    (found : consumers[count]? = some consumer) :
    ∀ other ∈ consumers.take count, other.fd ≠ consumer.fd := by
  intro other member same
  obtain ⟨place, before, here⟩ := List.getElem_of_mem member
  obtain ⟨inside, there⟩ := List.getElem?_eq_some_iff.mp found
  rw [List.getElem_take] at here
  have earlier : place < count := (List.length_take_le count consumers).trans_lt' before
  have equal : (consumers.map Consumer.fd).get ⟨place, by simpa using earlier.trans inside⟩ =
      (consumers.map Consumer.fd).get ⟨count, by simpa using inside⟩ := by
    simp only [List.get_eq_getElem, List.getElem_map, here, there, same]
  exact earlier.ne (Fin.val_eq_of_eq (distinct.injective_get equal))

omit [DecidableEq Fd] in
/-- A send of the RX loop to the consumer in hand failed for good. -/
theorem Roster.close (roster : s.Roster) (registry : s.Registry) {message : Relayed Fd}
    (at_ : s.rx = .close message index consumer) :
    ({ s with
      closedConnections := s.closedConnections ++ [consumer]
      rx := .advance message index } : Server Fd).Roster := by
  have inHand := roster.inHand
  rw [at_] at inHand
  obtain ⟨positive, found⟩ := inHand
  have behind {other : Consumer Fd} (member : other ∈ s.closedConnections) :
      other ∈ s.consumers.take (index - 1) := by
    have behind := roster.behind other member
    rwa [at_] at behind
  have listed (other : Consumer Fd) (member : other ∈ s.consumers) :
      s.consumerIo other.fd = true := by
    have listed := roster.listed other member
    rw [at_] at listed
    exact listed.resolve_right (by simp [RxPoint.removing])
  have last : consumer ∈ s.consumers.take index := by
    apply List.mem_take_iff_getElem.mpr
    obtain ⟨inside, here⟩ := List.getElem?_eq_some_iff.mp found
    exact ⟨index - 1, by omega, here⟩
  constructor
  · intro other member
    exact Or.inl (listed other member)
  · exact roster.appending
  · simp only [List.map_append, List.map_cons, List.map_nil]
    apply roster.distinct.append (List.nodup_singleton _)
    intro fd closed same
    obtain ⟨other, member, rfl⟩ := List.mem_map.mp closed
    exact not_mem_take_pred registry.distinct found other (behind member)
      (List.mem_singleton.mp same)
  · intro other member
    rcases List.mem_append.mp member with old | new
    · exact roster.closedIo other old
    · rw [List.mem_singleton.mp new]
      exact listed consumer (List.mem_of_mem_take last)
  · intro other member
    rcases List.mem_append.mp member with old | new
    · exact mem_take_of_pred (behind old)
    · rw [List.mem_singleton.mp new]
      exact last
  · trivial

theorem RxRelays.roster (move : RxRelays cfg s action t) (registry : s.Registry)
    (roster : s.Roster) : t.Roster := by
  have inHand := roster.inHand
  cases move with
  | recvError at_ | handMissing at_ =>
    exact roster.goto (by rw [at_]; rfl) (fun _ _ => trivial) trivial
  | @recv frame at_ =>
    have goes := roster.goto (by rw [at_]; rfl)
      (fun _ behind => by rw [at_] at behind; exact behind.elim)
      (show (RxPoint.advance (s.stamp none frame) 0).InHand s.consumers from trivial)
    exact { goes with }
  | finish at_ past =>
    have goes := roster.goto (by rw [at_]; rfl)
      (fun _ behind => by rw [at_] at behind; exact List.mem_of_mem_take behind)
      (show RxPoint.removeClosed.InHand s.consumers from trivial)
    exact { goes with }
  | accept at_ next =>
    exact roster.goto (by rw [at_]; rfl) (fun _ behind => by rwa [at_] at behind)
      ⟨Nat.succ_pos _, next⟩
  | skip at_ =>
    exact roster.goto (by rw [at_]; rfl)
      (fun _ behind => by rw [at_] at behind; exact mem_take_succ behind) trivial
  | @hand message index consumer at_ present =>
    rw [at_] at inHand
    have goes := roster.goto (by rw [at_]; rfl) (fun _ behind => by rwa [at_] at behind)
      (show (RxPoint.offer message index consumer .test).InHand s.consumers from inHand)
    exact goes.congr rfl rfl rfl rfl rfl
  | @offer message index consumer point after result at_ offer =>
    rw [at_] at inHand
    have goes :
        ({ s with rx := .afterOffer message index consumer result } : Server Fd).Roster := by
      apply roster.goto (by rw [at_]; rfl)
      · intro other behind
        rw [at_] at behind
        cases result with
        | next => exact behind
        | done | queued => exact mem_take_of_pred behind
        | raised => trivial
      · cases result with
        | next => exact inHand
        | _ => trivial
    rw [offer.frame]
    exact goes.congr rfl rfl rfl rfl rfl
  | @call message index consumer progress outcome after result at_ call =>
    rw [at_] at inHand
    have goes : ({ s with rx := .afterSend message index consumer result } : Server Fd).Roster := by
      apply roster.goto (by rw [at_]; rfl)
      · intro other behind
        rw [at_] at behind
        cases result with
        | error => trivial
        | ok step => cases step with
          | sent => exact mem_take_of_pred behind
          | _ => exact behind
      · cases result with
        | error => trivial
        | ok step => cases step with
          | sent => trivial
          | _ => exact inHand
    rw [call.frame]
    exact goes.congr rfl rfl rfl rfl rfl
  | @wake message index at_ =>
    have goes := roster.goto (by rw [at_]; rfl) (fun _ behind => by rwa [at_] at behind)
      (show (RxPoint.advance message index).InHand s.consumers from trivial)
    exact goes.congr rfl rfl rfl rfl rfl
  | close at_ => exact roster.close registry at_

theorem Listens.roster (move : Listens cfg s action t) (registry : s.Registry)
    (roster : s.Roster) : t.Roster := by
  -- `listen_to` goes on without touching the registries of the RX loop.
  have goes (fd : Fd) (point : ListenPoint Fd)
      (past : ∀ consumer, point ≠ .appendConsumer consumer) :
      ({ s with listeners := Function.update s.listeners fd point } : Server Fd).Roster := by
    refine { roster with appending := fun other consumer waits => ?_ }
    by_cases same : other = fd
    · subst same
      exact absurd (by simpa using waits) (past consumer)
    · exact roster.appending other consumer (by simpa [same] using waits)
  cases move with
  | @publish consumer at_ =>
    have grows {fd : Fd} (present : s.consumerIo fd = true) :
        Function.update s.consumerIo consumer.fd true fd = true := by
      simp only [Function.update_apply]
      split
      · rfl
      · exact present
    constructor
    · intro other member
      exact (roster.listed other member).imp_left grows
    · intro fd appended waits
      by_cases same : fd = consumer.fd
      · simp [setConsumerIo, setIo, same]
      · exact grows (roster.appending fd appended (by simpa [same] using waits))
    · exact roster.distinct
    · exact fun other member => grows (roster.closedIo other member)
    · exact roster.behind
    · exact roster.inHand
  | @append fd consumer at_ =>
    have moved := goes fd .refresh (by simp)
    constructor
    · intro other member
      rcases List.mem_append.mp member with old | new
      · exact roster.listed other old
      · rw [List.mem_singleton.mp new, registry.appending fd consumer at_]
        exact Or.inl (roster.appending fd consumer at_)
    · exact moved.appending
    · exact roster.distinct
    · exact roster.closedIo
    · exact fun other member => (roster.behind other member).append
    · exact roster.inHand.append
  | refresh at_ =>
    apply goes
    split <;> simp
  | aggregate at_ | aggregated at_ | registered at_ | noWake at_ => exact goes _ _ (by simp)
  | @install fd filters at_ =>
    exact (goes fd .register (by simp)).congr rfl rfl rfl rfl rfl
  | @register fd at_ =>
    exact (goes fd .wake (by simp)).congr rfl rfl rfl rfl rfl
  | @wake fd at_ =>
    exact (goes fd .returned (by simp)).congr rfl rfl rfl rfl rfl

theorem Moves.roster (move : Moves cfg s action t) (registry : s.Registry) (cleaning : s.Cleaning)
    (roster : s.Roster) : t.Roster := by
  rcases move.sides with ⟨_, move⟩ | move | move | frame
  · exact move.roster registry cleaning roster
  · exact move.roster registry roster
  · exact move.roster registry roster
  · rw [frame]
    exact roster.congr rfl rfl rfl rfl rfl

theorem Roster.start : (start cfg peers).Roster where
  listed consumer member :=
    Or.inl (List.any_eq_true.mpr ⟨consumer, member, decide_eq_true rfl⟩)
  appending fd consumer waits := by
    simp only [Server.start] at waits
    split at waits <;> contradiction
  distinct := List.nodup_nil
  closedIo consumer member := by simp [Server.start] at member
  behind consumer member := by simp [Server.start] at member
  inHand := by
    simp only [Server.start]
    split <;> trivial

/-- A statement that takes a consumer out of `_consumers` or of `_consumer_io`. -/
def Removes (s t : Server Fd) (fd : Fd) : Prop :=
  (∃ consumer ∈ s.consumers, consumer.fd = fd ∧ consumer ∉ t.consumers) ∨
    s.consumerIo fd = true ∧ t.consumerIo fd = false

/-- The TX loop puts the descriptor on `_dead_consumer_fds`. -/
def ReportsDead (fd : Fd) (s : Server Fd) (action : Action Fd) : Prop :=
  action = .tx ∧ ∃ events, s.tx = .reportDead fd events

/-- A send of the RX loop to the consumer fails, other than by blocking. -/
def SendFails (fd : Fd) (s : Server Fd) (action : Action Fd) : Prop :=
  ∃ message index consumer progress outcome,
    s.rx = .offer message index consumer (.send progress) ∧ consumer.fd = fd ∧
      action = .rxCall outcome ∧
      (sendCall streamSendAttempts progress outcome = .disconnected ∨
        sendCall streamSendAttempts progress outcome = .failed)

/-- The RX loop holds it against the consumer that the TX loop has reported it, or that
a send to it failed. -/
def Condemned (s : Server Fd) (fd : Fd) : Prop :=
  fd ∈ s.deadConsumerFds ∨ fd ∈ s.rx.dead ∨ (∃ consumer ∈ s.closedConnections, consumer.fd = fd) ∨
    ∃ message index consumer, s.rx = .close message index consumer ∧ consumer.fd = fd

omit [DecidableEq Fd] in
theorem Condemned.congr (condemned : t.Condemned fd) (dead : t.deadConsumerFds = s.deadConsumerFds)
    (closed : t.closedConnections = s.closedConnections) (rx : t.rx = s.rx) : s.Condemned fd := by
  rwa [Condemned, dead, closed, rx] at condemned

theorem Cleans.condemned (move : Cleans s t) (condemned : t.Condemned fd) : s.Condemned fd := by
  rcases condemned with reported | taken | closed | ⟨message, index, consumer, closing, same⟩
  · cases move with
    | takeDead at_ dead => exact Or.inl (by rw [dead]; exact List.mem_cons_of_mem _ reported)
    | _ => exact Or.inl reported
  · cases move with
    | takeDead at_ dead =>
      cases taken
      exact Or.inl (by rw [dead]; exact List.mem_cons_self)
    | popDead at_ => exact Or.inr (Or.inl (by rw [at_]; exact taken))
    | _ => contradiction
  · cases move with
    | delete at_ =>
      obtain ⟨consumer, member, same⟩ := closed
      exact Or.inr (Or.inr (Or.inl ⟨consumer, List.mem_of_mem_tail member, same⟩))
    | _ => exact Or.inr (Or.inr (Or.inl closed))
  · cases move <;> cases closing

theorem Sends.fails {message : Relayed Fd} {progress : Progress} {outcome : CallOutcome}
    {result : Except Ending SendStep} (call : Sends s fd message progress outcome t result)
    {index other : Nat} {original closing : Relayed Fd} {peer : Consumer Fd}
    (closes : RxPoint.afterSend original index peer result = .close closing other consumer) :
    peer = consumer ∧ (sendCall streamSendAttempts progress outcome = .disconnected ∨
      sendCall streamSendAttempts progress outcome = .failed) := by
  cases call with
  | unpacked => cases closes
  | call packed possible =>
    cases step : sendCall streamSendAttempts progress outcome with
    | disconnected =>
      rw [step] at closes
      cases closes
      exact ⟨rfl, Or.inl rfl⟩
    | failed =>
      rw [step] at closes
      cases closes
      exact ⟨rfl, Or.inr rfl⟩
    | more | sent | wouldBlock =>
      rw [step] at closes
      cases closes

theorem RxRelays.condemned (move : RxRelays cfg s action t) (condemned : t.Condemned fd) :
    s.Condemned fd ∨ SendFails fd s action := by
  rcases condemned with reported | taken | closed | ⟨message, index, consumer, closing, same⟩
  · rw [move.frame] at reported
    exact Or.inl (Or.inl reported)
  · cases move with
    | @offer _ _ _ _ _ result => cases result <;> contradiction
    | @call _ _ _ _ _ _ result =>
      cases result with
      | error => contradiction
      | ok step => cases step <;> contradiction
    | _ => contradiction
  · cases move with
    | @close message index consumer at_ =>
      obtain ⟨peer, member, same⟩ := closed
      rcases List.mem_append.mp member with old | new
      · exact Or.inl (Or.inr (Or.inr (Or.inl ⟨peer, old, same⟩)))
      · cases List.mem_singleton.mp new
        exact Or.inl (Or.inr (Or.inr (Or.inr ⟨message, index, consumer, at_, same⟩)))
    | offer at_ offer =>
      rw [offer.frame] at closed
      exact Or.inl (Or.inr (Or.inr (Or.inl closed)))
    | call at_ call =>
      rw [call.frame] at closed
      exact Or.inl (Or.inr (Or.inr (Or.inl closed)))
    | _ => exact Or.inl (Or.inr (Or.inr (Or.inl closed)))
  · cases move with
    | @offer _ _ _ _ _ result => cases result <;> cases closing
    | @call _ _ peer progress outcome _ _ at_ call =>
      obtain ⟨rfl, fails⟩ := call.fails closing
      exact Or.inr ⟨_, _, peer, progress, outcome, at_, same, rfl, fails⟩
    | _ => cases closing

theorem GivesUp.condemned (move : GivesUp s action t) (condemned : t.Condemned fd) :
    s.Condemned fd ∨ ReportsDead fd s action := by
  cases move with
  | @reportDead other events at_ =>
    rcases condemned with reported | rest
    · rcases List.mem_append.mp reported with old | new
      · exact Or.inl (Or.inl old)
      · cases List.mem_singleton.mp new
        exact Or.inr ⟨rfl, events, at_⟩
    · exact Or.inl (Or.inr rest)
  | _ => exact Or.inl condemned

/-- Only a report of the TX loop or a failed send of the RX loop condemns a consumer. -/
theorem Moves.condemned (move : Moves cfg s action t) (condemned : t.Condemned fd) :
    s.Condemned fd ∨ ReportsDead fd s action ∨ SendFails fd s action := by
  cases move with
  | clean move => exact Or.inl (move.condemned condemned)
  | rxRelay move => exact (move.condemned condemned).imp_right Or.inr
  | giveUp move => exact (move.condemned condemned).imp_right Or.inl
  | select move =>
    rw [move.frame] at condemned
    exact Or.inl (condemned.congr rfl rfl rfl)
  | txRelay move =>
    rw [move.frame] at condemned
    exact Or.inl (condemned.congr rfl rfl rfl)
  | drain move =>
    rw [move.frame] at condemned
    exact Or.inl (condemned.congr rfl rfl rfl)
  | listen move =>
    rw [move.frame] at condemned
    exact Or.inl (condemned.congr rfl rfl rfl)
  | stop move =>
    rw [move.frame] at condemned
    exact Or.inl (condemned.congr rfl rfl rfl)

theorem Cleans.removes (move : Cleans s t) (cleaning : s.Cleaning) (removes : s.Removes t fd) :
    s.Condemned fd := by
  -- Nothing but the consumer of this statement leaves a registry.
  have erased {other : Fd} {consumers : List (Consumer Fd)}
      (gone : ∃ consumer ∈ consumers, consumer.fd = fd ∧
        consumer ∉ consumers.eraseP fun consumer => decide (consumer.fd = other)) : other = fd := by
    obtain ⟨consumer, member, rfl, unlisted⟩ := gone
    by_contra apart
    exact unlisted ((List.mem_eraseP_of_neg (by simpa using Ne.symm apart)).mpr member)
  have unset {other : Fd} (gone : s.consumerIo fd = true ∧
      Function.update s.consumerIo other false fd = false) : other = fd := by
    by_contra apart
    rw [Function.update_of_ne (Ne.symm apart), gone.1] at gone
    cases gone.2
  have keeps (consumers : t.consumers = s.consumers) (consumerIo : t.consumerIo = s.consumerIo) :
      s.Condemned fd := by
    rw [Removes, consumers, consumerIo] at removes
    rcases removes with ⟨consumer, member, _, unlisted⟩ | ⟨present, absent⟩
    · exact absurd member unlisted
    · exact absurd (present.symm.trans absent) (by decide)
  cases move with
  | @remove consumer rest at_ closed =>
    have same : consumer.fd = fd := by
      rcases removes with gone | ⟨present, absent⟩
      · exact erased gone
      · exact absurd (present.symm.trans absent) (by decide)
    exact Or.inr (Or.inr (Or.inl ⟨consumer, by rw [closed]; exact List.mem_cons_self, same⟩))
  | @delete consumer at_ present =>
    obtain ⟨⟨rest, closed⟩, _⟩ := cleaning.deleting consumer (by rw [at_]; rfl)
    have same : consumer.fd = fd := by
      rcases removes with ⟨other, member, _, unlisted⟩ | gone
      · exact absurd member unlisted
      · exact unset gone
    exact Or.inr (Or.inr (Or.inl ⟨consumer, by rw [closed]; exact List.mem_cons_self, same⟩))
  | @popDead dead at_ =>
    have same : dead = fd := by
      rcases removes with ⟨other, member, _, unlisted⟩ | gone
      · exact absurd member unlisted
      · exact unset gone
    exact Or.inr (Or.inl (by rw [at_, ← same]; rfl))
  | @removeDead dead at_ =>
    have same : dead = fd := by
      rcases removes with gone | ⟨present, absent⟩
      · exact erased gone
      · exact absurd (present.symm.trans absent) (by decide)
    exact Or.inr (Or.inl (by rw [at_, ← same]; rfl))
  | _ => exact keeps rfl rfl

/-- Only a condemned consumer is removed. -/
theorem Moves.removes (move : Moves cfg s action t) (cleaning : s.Cleaning)
    (removes : s.Removes t fd) : s.Condemned fd := by
  have stays (consumers : ∀ consumer ∈ s.consumers, consumer ∈ t.consumers)
      (consumerIo : s.consumerIo fd = true → t.consumerIo fd = true) : s.Condemned fd := by
    rcases removes with ⟨consumer, member, _, unlisted⟩ | ⟨present, absent⟩
    · exact absurd (consumers consumer member) unlisted
    · exact absurd ((consumerIo present).symm.trans absent) (by decide)
  rcases move.sides with ⟨_, move⟩ | move | move | frame
  · exact move.removes cleaning removes
  · rw [move.frame] at stays
    exact stays (fun _ member => member) (fun present => present)
  · cases move with
    | publish =>
      apply stays
      · exact fun _ member => member
      · intro present
        simp only [setConsumerIo, setIo, Function.update_apply]
        split
        · rfl
        · exact present
    | append =>
      apply stays
      · exact fun _ member => List.mem_append_left _ member
      · exact fun present => present
    | _ => exact stays (fun _ member => member) (fun present => present)
  · rw [frame] at stays
    exact stays (fun _ member => member) (fun present => present)

/-- The registry accesses of the RX loop find what they look for, and it removes no
consumer that was not reported dead and to which no send failed. -/
theorem rx_accesses (distinct : (peers.map Consumer.fd).Nodup) {actions : List (Action Fd)}
    (path : run (step cfg) (start cfg peers) actions = some s) :
    (∀ message index consumer, s.rx = .lookup message index consumer →
      s.consumerIo consumer.fd = true) ∧
    (∀ consumer rest, s.rx = .removeClosed → s.closedConnections = consumer :: rest →
      consumer ∈ s.consumers) ∧
    (∀ consumer, s.rx = .deleteClosed consumer → s.consumerIo consumer.fd = true) ∧
    ∀ action t fd, step cfg s action = some t → s.Removes t fd →
      Sometime (step cfg) (fun s action => ReportsDead fd s action ∨ SendFails fd s action)
        (start cfg peers) actions := by
  obtain ⟨registry, cleaning, roster⟩ :
      s.Registry ∧ s.Cleaning ∧ s.Roster := by
    refine invariant_run (I := fun s => s.Registry ∧ s.Cleaning ∧ s.Roster)
      (fun s action t kept _ step => ?_)
      ⟨Registry.start distinct, Cleaning.start cfg peers, Roster.start⟩ along_true path
    obtain ⟨registry, cleaning, roster⟩ := kept
    have move := step_moves step
    exact ⟨move.registry registry, move.cleaning registry cleaning,
      move.roster registry cleaning roster⟩
  refine ⟨?_, ?_, ?_, ?_⟩
  · intro message index consumer at_
    have inHand := roster.inHand
    rw [at_] at inHand
    have listed := roster.listed consumer (List.mem_of_getElem? inHand.2)
    rw [at_] at listed
    exact listed.resolve_right (by simp [RxPoint.removing])
  · intro consumer rest at_ closed
    have behind := roster.behind consumer (by rw [closed]; exact List.mem_cons_self)
    rwa [at_] at behind
  · intro consumer at_
    obtain ⟨⟨rest, closed⟩, _⟩ := cleaning.deleting consumer (by rw [at_]; rfl)
    exact roster.closedIo consumer (by rw [closed]; exact List.mem_cons_self)
  · intro action t fd step removes
    have condemned := (step_moves step).removes cleaning removes
    refine sometime_of_origin (P := fun s => s.Condemned fd) (fun s action t step => ?_) ?_
      path condemned
    · exact (step_moves step).condemned
    · rintro (reported | taken | ⟨consumer, member, _⟩ | ⟨message, index, consumer, at_, _⟩)
      · simp [Server.start] at reported
      · simp only [Server.start] at taken
        split at taken <;> simp [RxPoint.dead] at taken
      · simp [Server.start] at member
      · simp only [Server.start] at at_
        split at at_ <;> cases at_

/-- Of two consumers the send to the first one fails, and the second one gets its frame. -/
def failedPeerRun : List (Action Nat) :=
  [.rx, .rx, .rx, .rxRecv (some ⟨0x123, [1], false⟩), .rx, .rx, .rx, .rxCall .failed, .rx,
    .rx, .rx, .rx, .rxCall (.accepted 16), .rx]

theorem rx_accesses_after_failure :
    ∃ s t, run (step .realBus) (start .realBus [⟨0, none⟩, ⟨1, none⟩]) failedPeerRun = some s ∧
      step .realBus s .rx = some t ∧ s.Removes t 0 ∧ ¬ s.Removes t 1 ∧
      Sometime (step .realBus) (fun s action => ReportsDead 0 s action ∨ SendFails 0 s action)
        (start .realBus [⟨0, none⟩, ⟨1, none⟩]) failedPeerRun := by
  have removes : ∀ s t, run (step .realBus) (start .realBus [⟨0, none⟩, ⟨1, none⟩])
      failedPeerRun = some s → step .realBus s .rx = some t → s.Removes t 0 ∧ ¬ s.Removes t 1 := by
    intro s t path step
    cases path
    cases step
    exact ⟨Or.inl ⟨⟨0, none⟩, by decide, rfl, by decide⟩, by unfold Removes; decide⟩
  obtain ⟨removed, kept⟩ := removes _ _ rfl rfl
  exact ⟨_, _, rfl, rfl, removed, kept,
    (rx_accesses (by decide) rfl).2.2.2 .rx _ 0 rfl removed⟩

end Sockcan.Server
