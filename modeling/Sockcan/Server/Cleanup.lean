import Sockcan.Server.Registry
import Sockcan.Transition

/-! The cleanup pass of the RX loop: a consumer that is declared dead before the pass is
in neither `_consumers` nor `_consumer_io` after it. -/
namespace Sockcan.Server
open Protocol Transition
variable {Fd : Type}

/-- The TX loop has reported the consumer, or a send of the RX loop to it failed. -/
def Declared (s : Server Fd) (fd : Fd) : Prop :=
  fd ∈ s.deadConsumerFds ∨ ∃ consumer ∈ s.closedConnections, consumer.fd = fd

/-- What a cleanup pass of the RX loop does for a consumer. -/
def Cleaned (s : Server Fd) (fd : Fd) : Prop :=
  (∀ consumer ∈ s.consumers, consumer.fd ≠ fd) ∧ s.consumerIo fd = false

/-- Declared dead and perhaps being removed, or removed. -/
def Leaving (s : Server Fd) (fd : Fd) : Prop :=
  s.Declared fd ∨ fd ∈ s.rx.dead ∨ s.Cleaned fd

/-- What the rest of a cleanup pass still has to do for a consumer declared before it. -/
def Passing (s : Server Fd) (fd : Fd) : Prop :=
  match s.rx with
  | .removeClosed | .deleteClosed _ => s.Leaving fd
  | .takeDead | .popDead _ | .removeDead _ => s.closedConnections = [] ∧ s.Leaving fd
  | .ended _ => True
  | _ => s.Cleaned fd

/-- The closed consumer that is out of the list already. -/
def RxPoint.deleting : RxPoint Fd → Option (Consumer Fd)
  | .deleteClosed consumer => some consumer
  | _ => none

/-- The dead descriptor whose IO state is gone already. -/
def RxPoint.removing : RxPoint Fd → Option Fd
  | .removeDead fd => some fd
  | _ => none

/-- Between the two statements that remove one consumer. -/
structure Cleaning (s : Server Fd) : Prop where
  deleting : ∀ consumer ∈ s.rx.deleting, (∃ rest, s.closedConnections = consumer :: rest) ∧
    ∀ other ∈ s.consumers, other.fd ≠ consumer.fd
  popped : ∀ fd ∈ s.rx.removing, s.consumerIo fd = false

variable [DecidableEq Fd] {cfg : Config} {peers : List (Consumer Fd)} {s t u : Server Fd}
  {action : Action Fd} {fd : Fd}

omit [DecidableEq Fd] in
theorem Published.congr (published : s.Published fd) (same : t.listeners = s.listeners) :
    t.Published fd := by
  rw [Published, same]
  exact published

theorem Listens.published (move : Listens cfg s action t) (published : s.Published fd) :
    t.Published fd := by
  have goes {point : ListenPoint Fd} {other : Fd}
      (past : point ≠ .fresh ∧ ∀ consumer, point ≠ .appendConsumer consumer) :
      Function.update s.listeners other point fd ≠ .fresh ∧
        ∀ consumer, Function.update s.listeners other point fd ≠ .appendConsumer consumer := by
    by_cases same : fd = other
    · simpa [same] using past
    · simpa [same, Published] using published
  cases move with
  | @publish consumer at_ =>
    have other : fd ≠ consumer.fd := fun same => published.1 (same ▸ at_)
    simpa [Published, other] using published
  | append | aggregate | aggregated | install | register | registered | wake | noWake =>
    exact goes (by simp)
  | refresh =>
    refine goes ?_
    split <;> simp

theorem Moves.published (move : Moves cfg s action t) (published : s.Published fd) :
    t.Published fd := by
  rcases move.sides with ⟨_, move⟩ | move | move | frame
  · exact published.congr (congrArg Server.listeners move.frame :)
  · exact published.congr (congrArg Server.listeners move.frame :)
  · exact move.published published
  · exact published.congr (congrArg Server.listeners frame :)

omit [DecidableEq Fd] in
theorem Cleaned.congr (cleaned : s.Cleaned fd) (consumers : t.consumers = s.consumers)
    (consumerIo : t.consumerIo = s.consumerIo) : t.Cleaned fd := by
  rw [Cleaned, consumers, consumerIo]
  exact cleaned

theorem Cleans.cleaned (move : Cleans s t) (cleaned : s.Cleaned fd) : t.Cleaned fd := by
  obtain ⟨unlisted, closed⟩ := cleaned
  have erased {other : Fd} : ∀ consumer ∈ (s.removeConsumer other).consumers, consumer.fd ≠ fd :=
    fun consumer member => unlisted consumer (List.mem_of_mem_eraseP member)
  have unset {other : Fd} : (s.setConsumerIo other false).consumerIo fd = false := by
    simp only [setConsumerIo, Function.update_apply]
    split <;> simp [closed]
  cases move with
  | remove | removeDead => exact ⟨erased, closed⟩
  | delete | popDead => exact ⟨unlisted, unset⟩
  | _ => exact ⟨unlisted, closed⟩

theorem Listens.cleaned (move : Listens cfg s action t) (registry : s.Registry)
    (published : s.Published fd) (cleaned : s.Cleaned fd) : t.Cleaned fd := by
  obtain ⟨unlisted, closed⟩ := cleaned
  cases move with
  | @publish consumer at_ =>
    have other : fd ≠ consumer.fd := fun same => published.1 (same ▸ at_)
    refine ⟨unlisted, ?_⟩
    simpa [setConsumerIo, setIo, other] using closed
  | @append other consumer at_ =>
    refine ⟨fun peer member => ?_, closed⟩
    rcases List.mem_append.mp member with old | new
    · exact unlisted peer old
    · rw [List.mem_singleton.mp new, registry.appending other consumer at_]
      exact fun same => published.2 consumer (same ▸ at_)
  | _ => exact ⟨unlisted, closed⟩

/-- Nothing brings a consumer back that was published once. -/
theorem Moves.cleaned (move : Moves cfg s action t) (registry : s.Registry)
    (published : s.Published fd) (cleaned : s.Cleaned fd) : t.Cleaned fd := by
  rcases move.sides with ⟨_, move⟩ | move | move | frame
  · exact move.cleaned cleaned
  · exact cleaned.congr (congrArg Server.consumers move.frame :)
      (congrArg Server.consumerIo move.frame :)
  · exact move.cleaned registry published cleaned
  · exact cleaned.congr (congrArg Server.consumers frame :)
      (congrArg Server.consumerIo frame :)

omit [DecidableEq Fd] in
/-- The RX loop is not in the middle of a removal. -/
theorem Cleaning.idle (deleting : s.rx.deleting = none) (removing : s.rx.removing = none) :
    s.Cleaning := ⟨by simp [deleting], by simp [removing]⟩

omit [DecidableEq Fd] in
theorem Cleaning.congr (cleaning : s.Cleaning) (rx : t.rx = s.rx)
    (closed : t.closedConnections = s.closedConnections) (consumers : t.consumers = s.consumers)
    (consumerIo : t.consumerIo = s.consumerIo) : t.Cleaning where
  deleting := by
    rw [rx, closed, consumers]
    exact cleaning.deleting
  popped := by
    rw [rx, consumerIo]
    exact cleaning.popped

theorem Cleans.cleaning (move : Cleans s t) (registry : s.Registry) : t.Cleaning := by
  cases move with
  | @remove consumer rest _ closed =>
    refine ⟨fun other member => ?_, by simp [RxPoint.removing]⟩
    cases member
    exact ⟨⟨rest, closed⟩, not_mem_removeConsumer registry.distinct consumer.fd⟩
  | @popDead fd =>
    refine ⟨by simp [RxPoint.deleting], fun other member => ?_⟩
    cases member
    simp [setConsumerIo]
  | _ => exact .idle rfl rfl

theorem RxRelays.cleaning (move : RxRelays cfg s action t) : t.Cleaning := by
  cases move with
  | @offer _ _ _ _ _ result => cases result <;> exact .idle rfl rfl
  | @call _ _ _ _ _ _ answer =>
    cases answer with
    | error => exact .idle rfl rfl
    | ok step => cases step <;> exact .idle rfl rfl
  | _ => exact .idle rfl rfl

omit [DecidableEq Fd] in
theorem RxPoint.dead_of_removing {point : RxPoint Fd} (removing : fd ∈ point.removing) :
    fd ∈ point.dead := by
  cases point with
  | removeDead => exact removing
  | _ => contradiction

theorem Listens.cleaning (move : Listens cfg s action t) (registry : s.Registry)
    (cleaning : s.Cleaning) : t.Cleaning := by
  obtain ⟨deleting, popped⟩ := cleaning
  cases move with
  | @publish consumer at_ =>
    refine ⟨deleting, fun fd removing => ?_⟩
    have taken := RxPoint.dead_of_removing removing
    have listened := registry.unregistered fd (registry.taken fd taken)
    have other : fd ≠ consumer.fd := fun same => listened.published.1 (same ▸ at_)
    simpa [setConsumerIo, setIo, other] using popped fd removing
  | @append fd consumer at_ =>
    refine ⟨fun other removing => ⟨(deleting other removing).1, fun peer member => ?_⟩, popped⟩
    rcases List.mem_append.mp member with old | new
    · exact (deleting other removing).2 peer old
    · rw [List.mem_singleton.mp new, registry.appending fd consumer at_]
      obtain ⟨⟨rest, closed⟩, _⟩ := deleting other removing
      have published := registry.closed other (by rw [closed]; exact List.mem_cons_self)
      exact fun same => published.2 consumer (same ▸ at_)
  | _ => exact ⟨deleting, popped⟩

theorem Moves.cleaning (move : Moves cfg s action t) (registry : s.Registry)
    (cleaning : s.Cleaning) : t.Cleaning := by
  rcases move.sides with ⟨_, move⟩ | move | move | frame
  · exact move.cleaning registry
  · exact move.cleaning
  · exact move.cleaning registry cleaning
  · rw [frame]
    exact cleaning.congr rfl rfl rfl rfl

theorem Cleaning.start (cfg : Config) (peers : List (Consumer Fd)) :
    (start cfg peers).Cleaning where
  deleting consumer member := by
    simp only [Server.start] at member
    split at member <;> simp [RxPoint.deleting] at member
  popped fd member := by
    simp only [Server.start] at member
    split at member <;> simp [RxPoint.removing] at member

omit [DecidableEq Fd] in
/-- What is declared is kept as long as the RX loop does not clean up. -/
theorem Leaving.mono (leaving : s.Leaving fd) (rx : fd ∈ s.rx.dead → fd ∈ t.rx.dead)
    (dead : s.deadConsumerFds ⊆ t.deadConsumerFds)
    (closed : s.closedConnections ⊆ t.closedConnections)
    (cleaned : s.Cleaned fd → t.Cleaned fd) : t.Leaving fd := by
  rcases leaving with (reported | ⟨consumer, member, here⟩) | taken | gone
  · exact Or.inl (Or.inl (dead reported))
  · exact Or.inl (Or.inr ⟨consumer, closed member, here⟩)
  · exact Or.inr (Or.inl (rx taken))
  · exact Or.inr (Or.inr (cleaned gone))

theorem Cleans.leaving (move : Cleans s t) (registry : s.Registry) (cleaning : s.Cleaning)
    (leaving : s.Leaving fd) : t.Leaving fd := by
  rcases leaving with (dead | ⟨consumer, closed, here⟩) | taken | cleaned
  · cases move with
    | takeDead _ queue =>
      rw [queue] at dead
      rcases List.mem_cons.mp dead with rfl | later
      · exact Or.inr (Or.inl rfl)
      · exact Or.inl (Or.inl later)
    | _ => exact Or.inl (Or.inl dead)
  · cases move with
    | @delete deleted at_ =>
      obtain ⟨⟨rest, split⟩, unlisted⟩ := cleaning.deleting deleted (by rw [at_]; rfl)
      rw [split] at closed
      rcases List.mem_cons.mp closed with rfl | later
      · refine Or.inr (Or.inr ⟨here ▸ unlisted, ?_⟩)
        simp [setConsumerIo, here]
      · exact Or.inl (Or.inr ⟨consumer, by simpa [setConsumerIo, split] using later, here⟩)
    | _ => exact Or.inl (Or.inr ⟨consumer, closed, here⟩)
  · cases move with
    | popDead at_ =>
      rw [at_] at taken
      exact Or.inr (Or.inl taken)
    | removeDead at_ =>
      rw [at_] at taken
      cases taken
      exact Or.inr (Or.inr ⟨not_mem_removeConsumer registry.distinct fd,
        cleaning.popped fd (by rw [at_]; rfl)⟩)
    | noneClosed at_ | remove at_ | removeMissing at_ | delete at_ | deleteMissing at_
    | noneDead at_ | takeDead at_ | refresh at_ | noRefresh at_ | aggregate at_
    | aggregated at_ | install at_ =>
      rw [at_] at taken
      contradiction
  · exact Or.inr (Or.inr (move.cleaned cleaned))

theorem RxRelays.no_dead (move : RxRelays cfg s action t) : s.rx.dead = none := by
  cases move <;> simp only [RxPoint.dead, *]

theorem RxRelays.closed_subset (move : RxRelays cfg s action t) :
    s.closedConnections ⊆ t.closedConnections := by
  cases move with
  | close => exact List.subset_append_left _ _
  | offer _ offer => exact offer.registries.2.2.1 ▸ List.Subset.refl _
  | call _ call => exact call.registries.2.2.2.1 ▸ List.Subset.refl _
  | _ => exact List.Subset.refl _

theorem GivesUp.dead_subset (move : GivesUp s action t) :
    s.deadConsumerFds ⊆ t.deadConsumerFds := by
  cases move with
  | reportDead => exact List.subset_append_left _ _
  | _ => exact List.Subset.refl _

/-- A consumer stays declared until it is cleaned up. -/
theorem Moves.leaving (move : Moves cfg s action t) (registry : s.Registry) (cleaning : s.Cleaning)
    (published : s.Published fd) (leaving : s.Leaving fd) : t.Leaving fd := by
  have cleaned := move.cleaned registry published
  have kept (rx : t.rx = s.rx) (dead : s.deadConsumerFds ⊆ t.deadConsumerFds)
      (closed : t.closedConnections = s.closedConnections) : t.Leaving fd :=
    leaving.mono (by rw [rx]; exact id) dead (closed ▸ List.Subset.refl _) cleaned
  cases move with
  | clean move => exact move.leaving registry cleaning leaving
  | rxRelay move =>
    refine leaving.mono ?_ ?_ move.closed_subset cleaned
    · rw [move.no_dead]
      nofun
    · rw [move.frame]
      exact List.Subset.refl _
  | select move =>
    rw [move.frame] at kept ⊢
    exact kept rfl (List.Subset.refl _) rfl
  | giveUp move =>
    exact kept (congrArg Server.rx move.frame :) move.dead_subset
      (congrArg Server.closedConnections move.frame :)
  | txRelay move =>
    rw [move.frame] at kept ⊢
    exact kept rfl (List.Subset.refl _) rfl
  | drain move =>
    rw [move.frame] at kept ⊢
    exact kept rfl (List.Subset.refl _) rfl
  | listen move =>
    rw [move.frame] at kept ⊢
    exact kept rfl (List.Subset.refl _) rfl
  | stop move =>
    rw [move.frame] at kept ⊢
    exact kept rfl (List.Subset.refl _) rfl

omit [DecidableEq Fd] in
theorem Passing.congr (passing : s.Passing fd) (rx : t.rx = s.rx)
    (closed : t.closedConnections = s.closedConnections) (leaving : s.Leaving fd → t.Leaving fd)
    (cleaned : s.Cleaned fd → t.Cleaned fd) : t.Passing fd := by
  unfold Passing at passing ⊢
  rw [rx]
  cases at_ : s.rx <;> simp only [at_] at passing ⊢
  case removeClosed | deleteClosed => exact leaving passing
  case takeDead | popDead | removeDead => exact ⟨closed ▸ passing.1, leaving passing.2⟩
  case refresh | aggregate | install | recv | advance | lookup | offer | wake | close =>
    exact cleaned passing

theorem Cleans.passing (move : Cleans s t) (registry : s.Registry) (cleaning : s.Cleaning)
    (passing : s.Passing fd) : t.Passing fd := by
  have cleaned (before : s.Cleaned fd) : t.Cleaned fd := move.cleaned before
  have leaving (before : s.Leaving fd) : t.Leaving fd := move.leaving registry cleaning before
  cases move with
  | noneClosed at_ none_left =>
    simp only [Passing, at_] at passing
    exact ⟨none_left, leaving passing⟩
  | remove at_ | delete at_ =>
    simp only [Passing, at_] at passing
    exact leaving passing
  | removeMissing | deleteMissing => trivial
  | takeDead at_ | popDead at_ | removeDead at_ =>
    simp only [Passing, at_] at passing
    exact ⟨passing.1, leaving passing.2⟩
  | noneDead at_ none_left =>
    simp only [Passing, Leaving, Declared, at_, none_left] at passing
    obtain ⟨closed, (dead | ⟨consumer, member, _⟩) | taken | done⟩ := passing
    · contradiction
    · rw [closed] at member
      contradiction
    · contradiction
    · exact cleaned done
  | refresh at_ | noRefresh at_ | aggregate at_ | aggregated at_ | install at_ =>
    simp only [Passing, at_] at passing
    exact cleaned passing

theorem RxRelays.passing (move : RxRelays cfg s action t) (passing : s.Passing fd) :
    t.Passing fd := by
  have cleaned (before : s.Cleaned fd) : t.Cleaned fd :=
    before.congr (congrArg Server.consumers move.frame :) (congrArg Server.consumerIo move.frame :)
  cases move with
  | handMissing | recvError => trivial
  | accept at_ | skip at_ | hand at_ | wake at_ | close at_ | recv at_ =>
    simp only [Passing, at_] at passing
    exact cleaned passing
  | finish at_ =>
    simp only [Passing, at_] at passing
    exact Or.inr (Or.inr (cleaned passing))
  | @offer message index consumer point after result at_ =>
    simp only [Passing, at_] at passing
    cases result with
    | raised => trivial
    | _ => exact cleaned passing
  | @call message index consumer progress outcome after answer at_ =>
    simp only [Passing, at_] at passing
    cases answer with
    | error => trivial
    | ok step => cases step <;> exact cleaned passing

/-- A consumer that was declared before the pass is cleaned up by its end. -/
theorem Moves.passing (move : Moves cfg s action t) (registry : s.Registry) (cleaning : s.Cleaning)
    (published : s.Published fd) (passing : s.Passing fd) : t.Passing fd := by
  have elsewhere (rx : t.rx = s.rx) (closed : t.closedConnections = s.closedConnections) :
      t.Passing fd :=
    passing.congr rx closed (move.leaving registry cleaning published)
      (move.cleaned registry published)
  rcases move.sides with ⟨_, move⟩ | move | move | frame
  · exact move.passing registry cleaning passing
  · exact move.passing passing
  · exact elsewhere (congrArg Server.rx move.frame :)
      (congrArg Server.closedConnections move.frame :)
  · exact elsewhere (congrArg Server.rx frame :) (congrArg Server.closedConnections frame :)

omit [DecidableEq Fd] in
theorem Passing.of_leaving (leaving : s.Leaving fd) (at_ : s.rx = .removeClosed) :
    s.Passing fd := by
  simp only [Passing, at_]
  exact leaving

omit [DecidableEq Fd] in
theorem Registry.declared (registry : s.Registry) (declared : s.Declared fd) :
    s.Published fd := by
  rcases declared with dead | ⟨consumer, closed, rfl⟩
  · exact (registry.unregistered fd (registry.dead fd dead)).published
  · exact registry.closed consumer closed

/-- A cleanup pass of the RX loop that starts after the declaration. -/
theorem cleaned_of_pass (registry : s.Registry) (cleaning : s.Cleaning)
    (declared : s.Declared fd) {before pass : List (Action Fd)}
    (waits : run (step cfg) s before = some u) (starts : u.rx = .removeClosed)
    (passes : run (step cfg) u pass = some t) (ends : t.rx = .recv) : t.Cleaned fd := by
  obtain ⟨atStart, leaving⟩ : (u.Registry ∧ u.Cleaning ∧ u.Published fd) ∧ u.Leaving fd := by
    refine invariant_run (I := fun s => (s.Registry ∧ s.Cleaning ∧ s.Published fd) ∧ s.Leaving fd)
      (fun s action t kept _ step => ?_)
      ⟨⟨registry, cleaning, registry.declared declared⟩, Or.inl declared⟩ along_true waits
    obtain ⟨⟨registry, cleaning, published⟩, leaving⟩ := kept
    have move := step_moves step
    exact ⟨⟨move.registry registry, move.cleaning registry cleaning, move.published published⟩,
      move.leaving registry cleaning published leaving⟩
  obtain ⟨_, passing⟩ : (t.Registry ∧ t.Cleaning ∧ t.Published fd) ∧ t.Passing fd := by
    refine invariant_run (I := fun s => (s.Registry ∧ s.Cleaning ∧ s.Published fd) ∧ s.Passing fd)
      (fun s action t kept _ step => ?_) ⟨atStart, .of_leaving leaving starts⟩ along_true passes
    obtain ⟨⟨registry, cleaning, published⟩, passing⟩ := kept
    have move := step_moves step
    exact ⟨⟨move.registry registry, move.cleaning registry cleaning, move.published published⟩,
      move.passing registry cleaning published passing⟩
  simpa only [Passing, ends] using passing

end Sockcan.Server
