import Sockcan.Server.Cleanup
import Sockcan.Server.Ledger

/-! What becomes of a consumer that was declared dead. Only the RX loop removes it
from `_consumers` and `_consumer_io`, and only the TX loop from the selector. -/
namespace Sockcan.Server
open Protocol Transition
variable {Fd : Type}

def Gone (s : Server Fd) (fd : Fd) : Prop := s.Cleaned fd ∧ s.selector fd = none

/-- The TX loop was one of those that declared the consumer dead: its read or a send of
the drain failed, and `selector.unregister` was called for it. -/
def DeclaredByTx (s : Server Fd) (fd : Fd) : Prop := (s.traffic fd).unregistered = true

variable [DecidableEq Fd] {cfg : Config} {peers : List (Consumer Fd)} {s t u : Server Fd}
  {action : Action Fd} {actions : List (Action Fd)} {fd : Fd}

/-- Neither loop reaches a consumer without an entry in `_consumer_io`. -/
theorem Moves.not_handed (move : Moves cfg s action t) (closed : s.consumerIo fd = false) :
    (t.traffic fd).handed = (s.traffic fd).handed := by
  have apart {other : Fd} (present : s.consumerIo other = true) : fd ≠ other := by
    rintro rfl
    rw [closed] at present
    contradiction
  rcases move.handed_cases with same | ⟨_, _, consumer, _, _, present, rfl⟩ |
    ⟨_, _, consumer, _, _, present, rfl⟩
  · exact same fd
  · exact (hand_handed consumer.fd _ fd).trans (if_neg (apart present))
  · exact (hand_handed consumer.fd _ fd).trans (if_neg (apart present))

theorem TxRelays.not_received (move : TxRelays cfg s action t) (registry : s.Registry)
    (absent : s.selector fd = none) : t.received (some fd) = s.received (some fd) := by
  have selected := registry.selected
  cases move with
  | @recv other writable events frame at_ =>
    rw [at_] at selected
    have different : fd ≠ other := by
      rintro rfl
      have held := selected fd List.mem_cons_self
      rw [absent] at held
      contradiction
    simp [receive, stamp, different]
  | offer _ offer => rw [offer.received]
  | call _ call => rw [call.received]
  | _ => rfl

theorem RxRelays.not_received (move : RxRelays cfg s action t) :
    t.received (some fd) = s.received (some fd) := by
  cases move with
  | recv => simp [receive, stamp]
  | offer _ offer => rw [offer.received]
  | call _ call => rw [call.received]
  | _ => rfl

/-- The TX loop only reads from what it has selected. -/
theorem Moves.not_received (move : Moves cfg s action t) (registry : s.Registry)
    (absent : s.selector fd = none) : t.received (some fd) = s.received (some fd) := by
  rcases move.read_cases with same | move | move
  · rw [same]
  · exact move.not_received
  · exact move.not_received registry absent

/-- A virtual bus keeps every consumer that it ever had. -/
structure Kept (s : Server Fd) : Prop where
  rxEnded : s.rx = .ended .returned
  present : ∀ fd, s.Published fd → ∃ consumer ∈ s.consumers, consumer.fd = fd

theorem Kept.start (virtual : cfg.virtual = true) : (start cfg peers).Kept where
  rxEnded := if_pos virtual
  present fd published := by
    by_contra absent
    apply published.1
    simp only [Server.start, ite_eq_right_iff, reduceCtorEq, imp_false, Bool.not_eq_true]
    apply List.any_eq_false.mpr
    intro consumer member
    simpa using fun same => absent ⟨consumer, member, same⟩

omit [DecidableEq Fd] in
theorem Kept.congr (kept : s.Kept) (rxEnded : t.rx = .ended .returned)
    (consumers : t.consumers = s.consumers)
    (published : ∀ fd, t.Published fd → s.Published fd) : t.Kept where
  rxEnded := rxEnded
  present fd after := by
    rw [consumers]
    exact kept.present fd (published fd after)

theorem Listens.kept (move : Listens cfg s action t) (registry : s.Registry) (kept : s.Kept) :
    t.Kept := by
  have rxEnded := kept.rxEnded
  have goes {other : Fd} {point : ListenPoint Fd} (was : s.Published other) (fd : Fd)
      (published : Function.update s.listeners other point fd ≠ .fresh ∧
        ∀ consumer, Function.update s.listeners other point fd ≠ .appendConsumer consumer) :
      s.Published fd := by
    by_cases same : fd = other
    · exact same ▸ was
    · simpa [same, Published] using published
  cases move with
  | @publish consumer at_ =>
    refine kept.congr rxEnded rfl fun fd published => ?_
    by_cases same : fd = consumer.fd
    · simp [Published, same] at published
    · simpa [Published, same] using published
  | @append other consumer at_ =>
    refine ⟨rxEnded, fun fd published => ?_⟩
    by_cases same : fd = other
    · refine ⟨consumer, List.mem_append_right _ List.mem_cons_self, ?_⟩
      exact same ▸ registry.appending other consumer at_
    · have before : s.Published fd := by simpa [Published, same] using published
      obtain ⟨peer, member, here⟩ := kept.present fd before
      exact ⟨peer, List.mem_append_left _ member, here⟩
  | refresh at_ | aggregate at_ | aggregated at_ | install at_ | register at_ | registered at_
  | wake at_ | noWake at_ =>
    exact kept.congr rxEnded rfl (goes ⟨by simp [at_], by simp [at_]⟩)

theorem Moves.kept (move : Moves cfg s action t) (registry : s.Registry) (kept : s.Kept) :
    t.Kept := by
  rcases move.sides with ⟨_, move⟩ | move | move | frame
  · exact absurd kept.rxEnded (move.not_ended .returned)
  · exact absurd kept.rxEnded (move.not_ended .returned)
  · exact move.kept registry kept
  · rw [frame]
    exact kept.congr kept.rxEnded rfl fun _ published => published

/-- The consumer can come to be in the selector. -/
def Registers (cfg : Config) (s : Server Fd) (fd : Fd) : Prop :=
  ∃ later v, run (step cfg) s later = some v ∧ (v.selector fd).isSome

theorem Registers.next (first : step cfg s action = some t) (registers : t.Registers cfg fd) :
    s.Registers cfg fd := by
  obtain ⟨later, v, path, held⟩ := registers
  exact ⟨action :: later, v, (run_cons first).mpr path, held⟩

theorem registers_of_register (at_ : s.listeners fd = .register) : s.Registers cfg fd := by
  refine ⟨[.listenNext fd], ?_⟩
  simp only [run, step, listenNext, at_, Option.bind_some]
  refine ⟨_, rfl, ?_⟩
  split
  · assumption
  · simp [setInterest]

theorem registers_of_install {filters : Option (List CanFilter)}
    (at_ : s.listeners fd = .install filters) : s.Registers cfg fd := by
  have first : step cfg s (.listenNext fd) = some { s with
      busFilters := filters
      listeners := Function.update s.listeners fd .register } := by
    simp only [step, listenNext, at_]
  exact .next first (registers_of_register (by simp))

/-- The aggregation ends, at the latest when it is past the last consumer. -/
theorem registers_of_aggregate {index : Nat} {aggregated : List CanFilter} (left : Nat)
    (at_ : s.listeners fd = .aggregate index aggregated)
    (enough : s.consumers.length ≤ index + left) : s.Registers cfg fd := by
  induction left generalizing s index aggregated with
  | zero =>
    have past : s.consumers[index]? = none := List.getElem?_eq_none enough
    have first : step cfg s (.listenNext fd) = some { s with
        listeners := Function.update s.listeners fd (.install (some aggregated)) } := by
      simp only [step, listenNext, at_, aggregateNext, past]
    exact .next first (registers_of_install (Function.update_self fd _ s.listeners))
  | succ left ih =>
    cases round : s.aggregateNext index aggregated with
    | inl later =>
      have first : step cfg s (.listenNext fd) = some { s with
          listeners := Function.update s.listeners fd (.aggregate later.1 later.2) } := by
        simp only [step, listenNext, at_, round]
      obtain ⟨consumer, canFilters, _, _, _, rfl⟩ := aggregateNext_more round
      refine .next first (ih (Function.update_self fd _ s.listeners) ?_)
      simp only
      omega
    | inr filters =>
      have first : step cfg s (.listenNext fd) = some { s with
          listeners := Function.update s.listeners fd (.install filters) } := by
        simp only [step, listenNext, at_, round]
      exact .next first (registers_of_install (Function.update_self fd _ s.listeners))

/-- A `listen_to` that has published its consumer is free to register it. -/
theorem registers (cfg : Config) (published : s.Published fd) (unlistened : ¬ s.Listened fd) :
    s.Registers cfg fd := by
  cases at_ : s.listeners fd with
  | fresh => exact absurd at_ published.1
  | appendConsumer consumer => exact absurd at_ (published.2 consumer)
  | wake => exact absurd (Or.inl at_) unlistened
  | returned => exact absurd (Or.inr at_) unlistened
  | register => exact registers_of_register at_
  | install filters => exact registers_of_install at_
  | aggregate index aggregated =>
    exact registers_of_aggregate s.consumers.length at_ (Nat.le_add_left _ _)
  | refresh =>
    have first : step cfg s (.listenNext fd) = some { s with
        listeners := Function.update s.listeners fd
          (if cfg.virtual then .register else .aggregate 0 []) } := by
      simp only [step, listenNext, at_]
    refine .next first ?_
    cases virtual : cfg.virtual with
    | true => exact registers_of_register (Function.update_self fd _ s.listeners)
    | false =>
      have begins : Function.update s.listeners fd (.aggregate 0 []) fd = .aggregate 0 [] :=
        Function.update_self fd _ s.listeners
      exact registers_of_aggregate s.consumers.length begins (Nat.le_add_left _ _)

/-- The consumer is in none of the registries, now and later: no later dispatch gets to
it, and nothing more is read from it. -/
def TornDown (cfg : Config) (t : Server Fd) (fd : Fd) : Prop :=
  ∀ later v, run (step cfg) t later = some v →
    v.Gone fd ∧ (v.traffic fd).handed = (t.traffic fd).handed ∧
      v.received (some fd) = t.received (some fd)

/-- The states after a consumer was unregistered and cleaned up in `t`. -/
structure Afterwards (t : Server Fd) (fd : Fd) (v : Server Fd) : Prop where
  registry : v.Registry
  published : v.Published fd
  cleaned : v.Cleaned fd
  unregistered : v.DeclaredByTx fd
  handed : (v.traffic fd).handed = (t.traffic fd).handed
  received : v.received (some fd) = t.received (some fd)

omit [DecidableEq Fd] in
theorem Registry.selector_none (registry : s.Registry) (gone : s.DeclaredByTx fd) :
    s.selector fd = none := by
  cases registered : s.selector fd with
  | none => rfl
  | some interest =>
    have held := ((registry.selector fd).mp (by rw [registered]; rfl)).2
    rw [DeclaredByTx, held] at gone
    contradiction

theorem Moves.afterwards (move : Moves cfg s action u) (after : Afterwards t fd s) :
    Afterwards t fd u where
  registry := move.registry after.registry
  published := move.published after.published
  cleaned := move.cleaned after.registry after.published after.cleaned
  unregistered := move.stays_unregistered after.unregistered
  handed := (move.not_handed after.cleaned.2).trans after.handed
  received := by
    rw [← after.received]
    exact move.not_received after.registry (after.registry.selector_none after.unregistered)

theorem Afterwards.tornDown (after : Afterwards t fd t) : TornDown cfg t fd := by
  intro later v path
  have kept : Afterwards t fd v :=
    invariant_run (fun _ _ _ kept _ step => (step_moves step).afterwards kept) after along_true path
  exact ⟨⟨kept.cleaned, kept.registry.selector_none kept.unregistered⟩, kept.handed, kept.received⟩

/-- After the next cleanup pass of the RX loop, or at the next `select()` of a virtual
server, a consumer that was declared dead is torn down for good exactly when there is an
RX loop and the TX loop has declared it: the RX loop leaves the selector alone, and a
virtual server has no RX loop to clean up. -/
theorem teardown_complete_iff {before wait pass : List (Action Fd)}
    (distinct : (peers.map Consumer.fd).Nodup)
    (reached : run (step cfg) (start cfg peers) before = some s) (declared : s.Declared fd)
    (waits : run (step cfg) s wait = some u) (passes : run (step cfg) u pass = some t)
    (rxEnded : if cfg.virtual then t.tx = .select else u.rx = .removeClosed ∧ t.rx = .recv) :
    TornDown cfg t fd ↔ cfg.virtual = false ∧ t.DeclaredByTx fd := by
  obtain ⟨registry, cleaning⟩ : s.Registry ∧ s.Cleaning :=
    invariant_run (I := fun s => s.Registry ∧ s.Cleaning)
      (fun s action t kept _ step =>
        ⟨(step_moves step).registry kept.1, (step_moves step).cleaning kept.1 kept.2⟩)
      ⟨.start distinct, .start cfg peers⟩ along_true reached
  obtain ⟨registered, published⟩ : t.Registry ∧ t.Published fd :=
    invariant_run (I := fun s => s.Registry ∧ s.Published fd)
      (fun s action t kept _ step =>
        ⟨(step_moves step).registry kept.1, (step_moves step).published kept.2⟩)
      ⟨registry, registry.declared declared⟩ along_true (run_append.mpr ⟨u, waits, passes⟩)
  constructor
  · intro torn
    have gone := (torn [] t rfl).1
    constructor
    · by_contra virtual
      rw [Bool.not_eq_false] at virtual
      obtain ⟨_, kept⟩ : t.Registry ∧ t.Kept := by
        refine invariant_run (I := fun s => s.Registry ∧ s.Kept)
          (fun s action t kept _ step =>
            ⟨(step_moves step).registry kept.1, (step_moves step).kept kept.1 kept.2⟩)
          ⟨.start distinct, .start virtual⟩ along_true
          (run_append.mpr ⟨s, reached, run_append.mpr ⟨u, waits, passes⟩⟩)
      obtain ⟨consumer, member, here⟩ := kept.present fd published
      exact gone.1.1 consumer member here
    · by_contra never
      have unlistened : ¬ t.Listened fd := by
        intro listened
        have held := (registered.selector fd).mpr ⟨listened, eq_false_of_ne_true never⟩
        rw [gone.2] at held
        contradiction
      obtain ⟨later, v, path, held⟩ := registers cfg published unlistened
      rw [(torn later v path).1.2] at held
      contradiction
  · rintro ⟨real, gone⟩
    simp only [real, Bool.false_eq_true, if_false] at rxEnded
    exact Afterwards.tornDown ⟨registered, published,
      cleaned_of_pass registry cleaning declared waits rxEnded.1 passes rxEnded.2, gone, rfl, rfl⟩

/-- The read of a consumer fails. -/
def failedReadRun : List (Action Nat) :=
  [.tx, .txSelect [.ready 0 true false], .tx, .txRecv none, .tx, .tx]

theorem teardown_complete_iff_read :
    ∃ t, run (step .realBus) (start .realBus [⟨0, none⟩])
        (failedReadRun ++ [.rx, .rx, .rx, .rx, .rx, .rx, .rx, .rx]) = some t ∧
      TornDown .realBus t 0 := by
  obtain ⟨s, reached, declared, starts⟩ : ∃ s, run (step .realBus) (start .realBus [⟨0, none⟩])
      failedReadRun = some s ∧ s.Declared 0 ∧ s.rx = .removeClosed :=
    ⟨_, rfl, Or.inl List.mem_cons_self, rfl⟩
  obtain ⟨t, path, ends, gone⟩ : ∃ t, run (step .realBus) (start .realBus [⟨0, none⟩])
      (failedReadRun ++ [.rx, .rx, .rx, .rx, .rx, .rx, .rx, .rx]) = some t ∧ t.rx = .recv ∧
        t.DeclaredByTx 0 := by
    refine ⟨_, rfl, rfl, ?_⟩
    rfl
  obtain ⟨middle, before, passes⟩ := run_append.mp path
  obtain rfl : middle = s := Option.some.inj (before.symm.trans reached)
  have waits : run (step .realBus) middle [] = some middle := rfl
  exact ⟨t, path, (teardown_complete_iff (by decide) reached declared waits passes
    ⟨starts, ends⟩).mpr ⟨rfl, gone⟩⟩

/-- A send of the RX loop to a consumer fails. -/
def failedSendRun : List (Action Nat) :=
  [.rx, .rx, .rx, .rxRecv (some ⟨0x123, [1], false⟩), .rx, .rx, .rx, .rxCall .failed, .rx]

/-- The cleanup pass leaves the consumer of the failed send in the selector, and a
virtual server leaves that of a failed read in `_consumers` and `_consumer_io`. -/
theorem teardown_incomplete :
    (∃ s u t, run (step .realBus) (start .realBus [⟨0, none⟩]) failedSendRun = some s ∧
      s.Declared 0 ∧ run (step .realBus) s [.rx] = some u ∧ u.rx = .removeClosed ∧
      run (step .realBus) u [.rx, .rx, .rx, .rx, .rx, .rx, .rx] = some t ∧ t.rx = .recv ∧
      ¬ TornDown .realBus t 0) ∧
    ∃ s t, run (step .virtualBus) (start .virtualBus [⟨0, none⟩]) failedReadRun = some s ∧
      s.Declared 0 ∧ run (step .virtualBus) s [.tx, .tx] = some t ∧ t.tx = .select ∧
      ¬ TornDown .virtualBus t 0 := by
  constructor
  · refine ⟨_, _, _, rfl, Or.inr ⟨⟨0, none⟩, List.mem_cons_self, rfl⟩, rfl, rfl, rfl, rfl, ?_⟩
    intro torn
    have gone := (torn [] _ rfl).1.2
    exact absurd gone (by decide)
  · refine ⟨_, _, rfl, Or.inl List.mem_cons_self, rfl, rfl, ?_⟩
    intro torn
    have gone := (torn [] _ rfl).1.1.2
    exact absurd gone (by decide)

end Sockcan.Server
