import Sockcan.Server.ListenTo
import Sockcan.Server.Ledger

/-! A call of `listen_to` among the threads of the server. Where it raises, it is a listener
that has stopped halfway; a socket that none has entered is handed nothing. -/
namespace Sockcan.Server
open Raising Transition
variable {Fd : Type}

/-- The collections of the server, as a call of `listen_to` sees them. -/
structure Agrees (s : Server Fd) (now : Registrations Fd CanFilter) : Prop where
  consumers : s.consumers = now.consumers.map fun consumer => ⟨consumer.fd, consumer.filters⟩
  consumerIo : ∀ fd, s.consumerIo fd = (now.consumerIo fd).isSome
  selector : ∀ fd, s.selector fd = (now.selector fd).map Prod.fst
  wakeUps : s.wakeUps = now.wakeUps

/-- No call has entered the socket, and no loop has it in its hands. -/
structure Unlisted (s : Server Fd) (fd : Fd) : Prop where
  fresh : s.listeners fd = .fresh
  consumers : ∀ consumer ∈ s.consumers, consumer.fd ≠ fd
  appending : ∀ other consumer, s.listeners other = .appendConsumer consumer → consumer.fd ≠ fd
  rx : ∀ message index consumer, s.rx = .lookup message index consumer → consumer.fd ≠ fd
  tx : ∀ job index consumer, s.tx = .lookup job index consumer → consumer.fd ≠ fd

/-- The union that the call asks the bus for is the one of the model of filters. -/
theorem aggregate_eq (filters : List (Option (List CanFilter))) :
    aggregate filters = aggregateFilters filters := by
  induction filters with
  | nil => rfl
  | cons first rest ih =>
    cases first with
    | none => rfl
    | some canFilters =>
      cases canFilters with
      | nil => rfl
      | cons canFilter others => exact congrArg (Option.map (canFilter :: others ++ ·)) ih

section Runs
variable [DecidableEq Fd] {cfg : Config} {s t u : Server Fd} {action : Action Fd} {fd : Fd}

/-- The listener of the socket goes on, and nothing else. -/
def Advances (cfg : Config) (fd : Fd) (s t : Server Fd) : Prop :=
  ∃ count, run (step cfg) s (List.replicate count (.listenNext fd)) = some t

theorem Advances.trans (first : Advances cfg fd s t) (second : Advances cfg fd t u) :
    Advances cfg fd s u := by
  obtain ⟨before, first⟩ := first
  obtain ⟨after, second⟩ := second
  refine ⟨before + after, ?_⟩
  rw [List.replicate_add, run_append]
  exact ⟨t, first, second⟩

theorem Advances.one (next : listenNext cfg s fd = some t) : Advances cfg fd s t := by
  refine ⟨1, ?_⟩
  rw [List.replicate_one, run_cons (show step cfg s (.listenNext fd) = some t from next)]
  rfl

def goto (s : Server Fd) (fd : Fd) (point : ListenPoint Fd) : Server Fd :=
  { s with listeners := Function.update s.listeners fd point }

/-- `_aggregate_filters` comes to its end. -/
theorem aggregates {index : Nat} {aggregated : List CanFilter}
    (at_ : s.listeners fd = .aggregate index aggregated) :
    ∃ filters, Advances cfg fd s (s.goto fd (.install filters)) := by
  induction left : s.consumers.length - index using Nat.strong_induction_on
    generalizing s index aggregated with
  | _ left ih =>
    subst left
    cases next : s.aggregateNext index aggregated with
    | inr filters =>
      refine ⟨filters, Advances.one ?_⟩
      simp only [listenNext, at_, next, goto]
    | inl later =>
      obtain ⟨consumer, canFilters, found, _, _, rfl⟩ := aggregateNext_more next
      have inside : index < s.consumers.length := (List.getElem?_eq_some_iff.mp found).1
      have more : listenNext cfg s fd =
          some (s.goto fd (.aggregate (index + 1) (aggregated ++ canFilters))) := by
        simp only [listenNext, at_, next, goto]
      have after : (s.goto fd (.aggregate (index + 1) (aggregated ++ canFilters))).listeners fd =
          .aggregate (index + 1) (aggregated ++ canFilters) := Function.update_self fd _ _
      have fewer : s.consumers.length - (index + 1) < s.consumers.length - index := by omega
      obtain ⟨filters, rest⟩ := ih _ fewer after rfl
      refine ⟨filters, (Advances.one more).trans ?_⟩
      simpa only [goto, Function.update_idem] using rest

/-- The bus has its filters, where there is one. -/
theorem refreshes (at_ : s.listeners fd = .refresh) :
    ∃ busFilters, Advances cfg fd s { s.goto fd .register with busFilters := busFilters } := by
  have first : listenNext cfg s fd =
      some (s.goto fd (if cfg.virtual then .register else .aggregate 0 [])) := by
    simp only [listenNext, at_, goto]
  by_cases virtual : cfg.virtual = true
  · rw [if_pos virtual] at first
    exact ⟨s.busFilters, Advances.one first⟩
  · rw [if_neg virtual] at first
    obtain ⟨filters, all⟩ : ∃ filters, Advances cfg fd (s.goto fd (.aggregate 0 []))
        ((s.goto fd (.aggregate 0 [])).goto fd (.install filters)) :=
      aggregates (Function.update_self fd _ _)
    have install : listenNext cfg ((s.goto fd (.aggregate 0 [])).goto fd (.install filters)) fd =
        some { s.goto fd .register with busFilters := filters } := by
      simp only [listenNext, goto, Function.update_self, Function.update_idem]
    exact ⟨filters, ((Advances.one first).trans all).trans (Advances.one install)⟩

/-- The server once the call has entered the consumer, before it refreshes the filters. -/
def entered (s : Server Fd) (new : Consumer Fd) : Server Fd :=
  { (s.setConsumerIo new.fd true).setIo new.fd .empty with
    consumers := s.consumers ++ [new]
    listeners := Function.update s.listeners new.fd .refresh }

theorem enters {new : Consumer Fd} (fresh : s.listeners new.fd = .fresh) :
    ∃ middle, step cfg s (.listen new) = some middle ∧
      Advances cfg new.fd middle (s.entered new) := by
  have first : step cfg s (.listen new) =
      some { (s.setConsumerIo new.fd true).setIo new.fd .empty with
        listeners := Function.update s.listeners new.fd (.appendConsumer new) } := by
    simp only [step, listen, fresh]
  refine ⟨_, first, Advances.one ?_⟩
  simp only [listenNext, Function.update_self, Function.update_idem, entered, setIo,
    setConsumerIo]

variable {setting : Setting CanFilter} {now : Registrations Fd CanFilter} {socket : Socket Fd}

theorem Agrees.entered (agrees : Agrees s now) (new : Listener Fd CanFilter) :
    Agrees (s.entered ⟨new.fd, new.filters⟩) (now.entered new) where
  consumers := by
    rw [Server.entered, Registrations.entered, List.map_append, ← agrees.consumers]
    rfl
  consumerIo fd := by
    by_cases same : fd = new.fd
    · simp [Server.entered, Registrations.entered, setConsumerIo, setIo, same]
    · simp [Server.entered, Registrations.entered, setConsumerIo, setIo, same,
        agrees.consumerIo fd]
  selector := agrees.selector
  wakeUps := agrees.wakeUps

omit [DecidableEq Fd] in
theorem Agrees.congr (agrees : Agrees s now) (consumers : t.consumers = s.consumers)
    (consumerIo : t.consumerIo = s.consumerIo) (selector : t.selector = s.selector)
    (wakeUps : t.wakeUps = s.wakeUps) : Agrees t now where
  consumers := consumers.trans agrees.consumers
  consumerIo fd := (congrFun consumerIo fd).trans (agrees.consumerIo fd)
  selector fd := (congrFun selector fd).trans (agrees.selector fd)
  wakeUps := wakeUps.trans agrees.wakeUps

/-- The selector has the socket, and the call goes on. -/
theorem selects (agrees : Agrees s now) (at_ : s.listeners fd = .register) (io : Nat) :
    ∃ t, listenNext cfg s fd = some t ∧ t.listeners fd = .wake ∧ t.running = s.running ∧
      Agrees t (now.registered fd io) := by
  have same := agrees.selector fd
  unfold Registrations.registered
  by_cases present : (now.selector fd).isSome = true
  · have known : (s.selector fd).isSome = true := by
      rw [same, Option.isSome_map]
      exact present
    have next : listenNext cfg s fd = some (s.goto fd .wake) := by
      simp only [listenNext, at_, known, if_true, goto]
    rw [if_pos present]
    exact ⟨_, next, Function.update_self fd _ _, rfl, agrees.congr rfl rfl rfl rfl⟩
  · have unknown : ¬ (s.selector fd).isSome = true := by
      rw [same, Option.isSome_map]
      exact present
    have next : listenNext cfg s fd = some ((s.setInterest fd (some .read)).goto fd .wake) := by
      simp only [listenNext, at_, unknown, goto]
      rfl
    rw [if_neg present]
    refine ⟨_, next, Function.update_self fd _ _, rfl, agrees.consumers, agrees.consumerIo, ?_,
      agrees.wakeUps⟩
    intro other
    by_cases here : other = fd
    · simp [goto, setInterest, here]
    · simp [goto, setInterest, here, agrees.selector other]

theorem wakes (agrees : Agrees s now) (at_ : s.listeners fd = .wake) (running : s.running = true) :
    ∃ t, listenNext cfg s fd = some t ∧ Agrees t now.woken := by
  have next : listenNext cfg s fd = some (s.wakeUp.goto fd .returned) := by
    simp only [listenNext, at_, running, if_true, goto, wakeUp]
  refine ⟨_, next, agrees.consumers, agrees.consumerIo, agrees.selector, ?_⟩
  exact congrArg (· + 1) agrees.wakeUps

/-- The collections are those that a listener of the socket leaves when it stops somewhere,
or has not begun. -/
def Halfway (cfg : Config) (s : Server Fd) (fd : Fd) (left : Registrations Fd CanFilter) : Prop :=
  ∃ t, Agrees t left ∧ (t = s ∨ ∃ normalized middle,
    step cfg s (.listen ⟨fd, normalized⟩) = some middle ∧ Advances cfg fd middle t)

/-- However a call ends, it leaves the collections as some steps of its listener do. -/
theorem listenTo_halfway (agrees : Agrees s now) (fresh : s.listeners socket.fd = .fresh)
    (running : s.running = setting.running) (ofId : Int → CanFilter) (forceStream : Bool)
    (filters : FiltersArgument CanFilter) :
    Halfway cfg s socket.fd (final (listenTo ofId setting socket forceStream filters) now) := by
  have reaches (normalized : Option (List CanFilter)) : ∃ middle registering,
      step cfg s (.listen ⟨socket.fd, normalized⟩) = some middle ∧
      Advances cfg socket.fd middle registering ∧
      registering.listeners socket.fd = .register ∧ registering.running = s.running ∧
      Agrees registering (now.entered ⟨socket.fd, normalized⟩) := by
    obtain ⟨middle, first, entering⟩ : ∃ middle,
        step cfg s (.listen ⟨socket.fd, normalized⟩) = some middle ∧
          Advances cfg socket.fd middle (s.entered ⟨socket.fd, normalized⟩) := enters fresh
    obtain ⟨busFilters, refreshing⟩ : ∃ busFilters,
        Advances cfg socket.fd (s.entered ⟨socket.fd, normalized⟩)
          { (s.entered ⟨socket.fd, normalized⟩).goto socket.fd .register with
            busFilters := busFilters } := refreshes (Function.update_self socket.fd _ _)
    exact ⟨middle, _, first, entering.trans refreshing, Function.update_self socket.fd _ _, rfl,
      (agrees.entered ⟨socket.fd, normalized⟩).congr rfl rfl rfl rfl⟩
  apply final_listenTo ofId filters ⟨s, agrees, Or.inl rfl⟩
  · intro normalized
    obtain ⟨middle, first, entering⟩ : ∃ middle,
        step cfg s (.listen ⟨socket.fd, normalized⟩) = some middle ∧
          Advances cfg socket.fd middle (s.entered ⟨socket.fd, normalized⟩) := enters fresh
    exact ⟨_, agrees.entered ⟨socket.fd, normalized⟩, Or.inr ⟨normalized, middle, first, entering⟩⟩
  · intro normalized
    obtain ⟨middle, registering, first, path, at_, _, same⟩ := reaches normalized
    obtain ⟨t, next, _, _, registered⟩ := selects same at_ now.built
    exact ⟨t, registered, Or.inr ⟨normalized, middle, first, path.trans (Advances.one next)⟩⟩
  · intro normalized waking
    obtain ⟨middle, registering, first, path, at_, kept, same⟩ := reaches normalized
    obtain ⟨t, next, atWake, alive, registered⟩ := selects same at_ now.built
    obtain ⟨u, last, woken⟩ := wakes registered atWake
      (alive.trans (kept.trans (running.trans waking)))
    exact ⟨u, woken, Or.inr ⟨normalized, middle, first,
      (path.trans (Advances.one next)).trans (Advances.one last)⟩⟩

end Runs

section Silence
variable [DecidableEq Fd] {cfg : Config} {s t : Server Fd} {action : Action Fd} {fd : Fd}
  {consumer : Consumer Fd}

theorem Cleans.no_lookup (move : Cleans s t) {message : Relayed Fd} {index : Nat} :
    t.rx ≠ .lookup message index consumer := by
  cases move <;> nofun

/-- The RX loop looks a consumer up that it has found in the list. -/
theorem RxRelays.looks (move : RxRelays cfg s action t) {message : Relayed Fd} {index : Nat}
    (at_ : t.rx = .lookup message index consumer) : consumer ∈ s.consumers := by
  cases move with
  | accept _ next _ =>
    cases at_
    exact List.mem_of_getElem? next
  | @offer _ _ _ _ _ result => cases result <;> contradiction
  | @call _ _ _ _ _ _ result =>
    rcases result with _ | step
    · contradiction
    · cases step <;> contradiction
  | _ => contradiction

theorem Drains.no_lookup {drained : Fd} {events : List (Event Fd)}
    (move : Drains s drained events action t) {job : Job Fd} {index : Nat} :
    t.tx ≠ .lookup job index consumer := by
  cases move with
  | @call _ _ _ _ result =>
    rcases result with _ | step
    · nofun
    · cases step <;> nofun
  | _ => nofun

theorem TxRelays.looks (move : TxRelays cfg s action t) {job : Job Fd} {index : Nat}
    (at_ : t.tx = .lookup job index consumer) : consumer ∈ s.consumers := by
  have afterRead (other : Job Fd) : other.afterRead ≠ .lookup job index consumer := by
    unfold Job.afterRead
    split <;> nofun
  cases move with
  | accept _ next _ _ =>
    cases at_
    exact List.mem_of_getElem? next
  | finish =>
    dsimp only at at_
    split at at_
    · exact absurd at_ (afterRead _)
    · contradiction
  | @offer _ _ _ _ _ result => cases result <;> contradiction
  | @call _ _ _ _ _ _ result =>
    rcases result with _ | step
    · contradiction
    · cases step <;> contradiction
  | bus => exact absurd at_ (afterRead _)
  | _ => contradiction

/-- The step is no call that enters the socket. -/
def Elsewhere (fd : Fd) (action : Action Fd) : Prop :=
  ∀ consumer, action = .listen consumer → consumer.fd ≠ fd

theorem Listens.unlisted (move : Listens cfg s action t) (elsewhere : Elsewhere fd action)
    (unlisted : s.Unlisted fd) : t.Unlisted fd := by
  have fresh {point : ListenPoint Fd} {other : Fd} (apart : other ≠ fd) :
      Function.update s.listeners other point fd = .fresh :=
    (Function.update_of_ne apart.symm _ _).trans unlisted.fresh
  have later {point : ListenPoint Fd} {other : Fd} (busy : s.listeners other ≠ .fresh) :
      Function.update s.listeners other point fd = .fresh :=
    fresh fun same => busy (same ▸ unlisted.fresh)
  have appends {point : ListenPoint Fd} {other : Fd}
      (apart : ∀ new, point = .appendConsumer new → new.fd ≠ fd)
      (listener : Fd) (consumer : Consumer Fd)
      (at_ : Function.update s.listeners other point listener = .appendConsumer consumer) :
      consumer.fd ≠ fd := by
    by_cases same : listener = other
    · rw [same, Function.update_self] at at_
      exact apart consumer at_
    · rw [Function.update_of_ne same] at at_
      exact unlisted.appending listener consumer at_
  cases move with
  | @publish new at_ =>
    have apart : new.fd ≠ fd := elsewhere new rfl
    have appending : ∀ added, ListenPoint.appendConsumer new = .appendConsumer added →
        added.fd ≠ fd := by
      rintro _ ⟨⟩
      exact apart
    exact ⟨fresh apart, unlisted.consumers, appends appending, unlisted.rx, unlisted.tx⟩
  | @append other new at_ =>
    have entered : ∀ consumer ∈ s.consumers ++ [new], consumer.fd ≠ fd := by
      rw [List.forall_mem_append]
      exact ⟨unlisted.consumers, by simpa using unlisted.appending other new at_⟩
    exact ⟨later (by simp [at_]), entered, appends nofun, unlisted.rx, unlisted.tx⟩
  | refresh at_ =>
    refine ⟨later (by simp [at_]), unlisted.consumers, appends ?_, unlisted.rx, unlisted.tx⟩
    split <;> nofun
  | aggregate at_ | aggregated at_ | install at_ | register at_ | registered at_ | wake at_
  | noWake at_ =>
    exact ⟨later (by simp [at_]), unlisted.consumers, appends nofun, unlisted.rx, unlisted.tx⟩

/-- A socket that no call enters is handed nothing. -/
theorem Moves.unlisted (move : Moves cfg s action t) (elsewhere : Elsewhere fd action)
    (unlisted : s.Unlisted fd) :
    t.Unlisted fd ∧ (t.traffic fd).handed = (s.traffic fd).handed := by
  have lists : t.listeners fd = .fresh ∧ (∀ consumer ∈ t.consumers, consumer.fd ≠ fd) ∧
      ∀ other consumer, t.listeners other = .appendConsumer consumer → consumer.fd ≠ fd := by
    have kept (listeners : t.listeners = s.listeners)
        (consumers : t.consumers ⊆ s.consumers) :
        t.listeners fd = .fresh ∧ (∀ consumer ∈ t.consumers, consumer.fd ≠ fd) ∧
          ∀ other consumer, t.listeners other = .appendConsumer consumer → consumer.fd ≠ fd := by
      rw [listeners]
      exact ⟨unlisted.fresh, fun consumer member => unlisted.consumers consumer
        (consumers member), unlisted.appending⟩
    rcases move.sides with ⟨_, move⟩ | move | move | frame
    · exact kept (congrArg Server.listeners move.frame :) move.consumers_subset
    · have same : t.consumers = s.consumers := (congrArg Server.consumers move.frame :)
      exact kept (congrArg Server.listeners move.frame :) fun _ member => same ▸ member
    · have after := move.unlisted elsewhere unlisted
      exact ⟨after.fresh, after.consumers, after.appending⟩
    · have same : t.consumers = s.consumers := (congrArg Server.consumers frame :)
      exact kept (congrArg Server.listeners frame :) fun _ member => same ▸ member
  have rx : ∀ message index consumer, t.rx = .lookup message index consumer →
      consumer.fd ≠ fd := by
    intro message index consumer at_
    rcases move.rx_cases with same | ⟨_, cleans⟩ | relays
    · exact unlisted.rx message index consumer (same ▸ at_)
    · exact absurd at_ cleans.no_lookup
    · exact unlisted.consumers consumer (relays.looks at_)
  have tx : ∀ job index consumer, t.tx = .lookup job index consumer → consumer.fd ≠ fd := by
    intro job index consumer at_
    rcases move.tx_cases with same | selects | givesUp | relays | ⟨_, _, drains⟩
    · exact unlisted.tx job index consumer (same ▸ at_)
    · cases selects <;> contradiction
    · cases givesUp <;> contradiction
    · exact unlisted.consumers consumer (relays.looks at_)
    · exact absurd at_ drains.no_lookup
  refine ⟨⟨lists.1, lists.2.1, lists.2.2, rx, tx⟩, ?_⟩
  rcases move.handed_cases with same | ⟨message, index, consumer, _, at_, _, rfl⟩ |
    ⟨job, index, consumer, _, at_, _, rfl⟩
  · exact same fd
  · have apart : fd ≠ consumer.fd := (unlisted.rx message index consumer at_).symm
    exact (hand_handed consumer.fd message fd).trans (if_neg apart)
  · have apart : fd ≠ consumer.fd := (unlisted.tx job index consumer at_).symm
    exact (hand_handed consumer.fd job.message fd).trans (if_neg apart)

/-- No frame is dispatched to the socket in any run without a call that enters it. -/
theorem Unlisted.not_handed (unlisted : s.Unlisted fd) {actions : List (Action Fd)}
    (elsewhere : ∀ action ∈ actions, Elsewhere fd action)
    (path : run (step cfg) s actions = some t) :
    (t.traffic fd).handed = (s.traffic fd).handed := by
  induction actions generalizing s with
  | nil =>
    cases path
    rfl
  | cons action rest ih =>
    obtain ⟨here, later⟩ := List.forall_mem_cons.mp elsewhere
    cases next : step cfg s action with
    | none => simp [run, next] at path
    | some u =>
      obtain ⟨kept, same⟩ := (step_moves next).unlisted here unlisted
      rw [ih kept later ((run_cons next).mp path), same]

end Silence

end Sockcan.Server
