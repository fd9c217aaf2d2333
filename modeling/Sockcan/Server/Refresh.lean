import Sockcan.Server.Roster
import Sockcan.Versions

/-! The filters on the bus against those of the consumers: `_refresh_bus_filters` reads,
aggregates and installs in separate statements of several threads. -/
namespace Sockcan.Server
open Transition Versions
variable {Fd : Type}

/-- A call of `_refresh_bus_filters` in progress. -/
inductive Refresh where
  | aggregating (index : Nat) (aggregated : List CanFilter)
  | installing (filters : Option (List CanFilter))

def RxPoint.refreshing : RxPoint Fd → Option Refresh
  | .aggregate index aggregated => some (.aggregating index aggregated)
  | .install filters => some (.installing filters)
  | _ => none

def ListenPoint.refreshing : ListenPoint Fd → Option Refresh
  | .aggregate index aggregated => some (.aggregating index aggregated)
  | .install filters => some (.installing filters)
  | _ => none

/-- The refresh of a thread: of the RX loop, or of the `listen_to` call for a socket. -/
def refreshing (s : Server Fd) : Option Fd → Option Refresh
  | none => s.rx.refreshing
  | some fd => (s.listeners fd).refreshing

/-- What the refresh installs will admit the frames that the consumer accepts, if the list
keeps its order. -/
def Refresh.Accounts (consumers : List (Consumer Fd)) (consumer : Consumer Fd) : Refresh → Prop
  | .aggregating index aggregated =>
    (∃ place, index ≤ place ∧ consumers[place]? = some consumer) ∨
      ∃ canFilters, consumer.filters = some canFilters ∧ canFilters ≠ [] ∧ canFilters ⊆ aggregated
  | .installing filters => Admits filters consumer.filters

/-- One round of `_aggregate_filters`. -/
inductive Refresh.Round (s : Server Fd) : Refresh → Refresh → Prop where
  | more {index aggregated later} (more : s.aggregateNext index aggregated = .inl later) :
      Round s (.aggregating index aggregated) (.aggregating later.1 later.2)
  | all {index aggregated filters} (all : s.aggregateNext index aggregated = .inr filters) :
      Round s (.aggregating index aggregated) (.installing filters)

/-- The RX loop has removed a consumer and will refresh before it receives again. -/
def Owes (s : Server Fd) : Prop :=
  match s.rx with
  | .deleteClosed _ => True
  | .removeClosed | .takeDead | .popDead _ | .removeDead _ | .refresh => s.consumersChanged = true
  | _ => False

/-- No refresh is in progress or due: no `listen_to` is between its append and the end of its
refresh, and the RX loop is not between a removal and the end of its own. -/
structure AtRest (s : Server Fd) : Prop where
  listeners : ∀ fd, s.listeners fd ≠ .refresh ∧ (s.listeners fd).refreshing = none
  rx : s.rx.refreshing = none ∧ ¬ s.Owes

/-- The filters on the bus let through what any listed consumer accepts. -/
def Covers (s : Server Fd) : Prop :=
  ∀ consumer ∈ s.consumers, Admits s.busFilters consumer.filters

section Order
variable [DecidableEq Fd]

/-- The thread that begins a refresh with this action. -/
def begins (s : Server Fd) : Action Fd → Option (Option Fd)
  | .rx => if s.rx = .refresh ∧ s.consumersChanged then some none else none
  | .listenNext fd => if s.listeners fd = .refresh then some (some fd) else none
  | _ => none

/-- The thread that installs filters with this action. -/
def installs (s : Server Fd) : Action Fd → Option (Option Fd)
  | .rx => match s.rx with
    | .install _ => some none
    | _ => none
  | .listenNext fd => match s.listeners fd with
    | .install _ => some (some fd)
    | _ => none
  | _ => none

/-- The order of the refreshes, kept beside the server. -/
def order (clock : Clock (Option Fd)) (s : Server Fd) (action : Action Fd) : Clock (Option Fd) :=
  match s.begins action with
  | some thread => clock.begin thread
  | none => match s.installs action with
    | some thread => clock.install thread
    | none => clock

/-- No refresh installs its filters once the one that began last has installed its own. -/
def InOrder (state : Server Fd × Clock (Option Fd)) (action : Action Fd) : Prop :=
  (state.1.installs action).isSome → ¬ state.2.Current

instance (state : Server Fd × Clock (Option Fd)) : DecidablePred (InOrder state) :=
  fun _ => inferInstanceAs (Decidable (_ → _))

/-- What a statement does to the refreshes: nothing, an edit of the consumer list that will
be refreshed, or the beginning, one round or the end of a refresh. -/
inductive Turn (s : Server Fd) (action : Action Fd) (t : Server Fd) : Prop where
  | elsewhere (begins : s.begins action = none) (installs : s.installs action = none)
      (refreshing : ∀ thread, t.refreshing thread = s.refreshing thread)
      (consumers : t.consumers = s.consumers) (busFilters : t.busFilters = s.busFilters)
      (awaiting : ∀ fd, s.listeners fd = .refresh → t.listeners fd = .refresh)
      (owes : s.Owes → t.Owes)
  | remove (begins : s.begins action = none) (installs : s.installs action = none)
      (refreshing : ∀ thread, t.refreshing thread = s.refreshing thread) (owes : t.Owes)
  | append {fd consumer} (begins : s.begins action = none) (installs : s.installs action = none)
      (at_ : s.listeners fd = .appendConsumer consumer)
      (refreshing : ∀ thread, t.refreshing thread = s.refreshing thread)
      (consumers : t.consumers = s.consumers ++ [consumer])
      (busFilters : t.busFilters = s.busFilters)
      (listeners : t.listeners = Function.update s.listeners fd .refresh)
      (owes : s.Owes → t.Owes)
  | begin {thread} (begins : s.begins action = some thread)
      (begun : t.refreshing thread = some (.aggregating 0 []))
  | round {thread now next} (begins : s.begins action = none) (installs : s.installs action = none)
      (before : s.refreshing thread = some now) (after : t.refreshing thread = some next)
      (others : ∀ other, other ≠ thread → t.refreshing other = s.refreshing other)
      (round : Refresh.Round s now next)
      (consumers : t.consumers = s.consumers) (busFilters : t.busFilters = s.busFilters)
      (awaiting : ∀ fd, s.listeners fd = .refresh → t.listeners fd = .refresh)
      (owes : s.Owes → t.Owes)
  | install {thread} (begins : s.begins action = none) (installs : s.installs action = some thread)
      (before : s.refreshing thread = some (.installing t.busFilters))
      (after : t.refreshing thread = none)
      (others : ∀ other, other ≠ thread → t.refreshing other = s.refreshing other)
      (consumers : t.consumers = s.consumers)
      (awaiting : ∀ fd, s.listeners fd = .refresh → t.listeners fd = .refresh)
      (owes : s.Owes → t.Owes)

end Order

/-- The consumer's filters are on the bus, or the refresh that began last accounts for them. -/
def Secured (s : Server Fd) (clock : Clock (Option Fd)) (consumer : Consumer Fd) : Prop :=
  clock.Current ∧ Admits s.busFilters consumer.filters ∨
    ∃ thread refresh, s.refreshing thread = some refresh ∧ clock.Latest thread ∧
      refresh.Accounts s.consumers consumer

structure Refreshed (s : Server Fd) (clock : Clock (Option Fd)) : Prop where
  sound : clock.Sound fun thread => (s.refreshing thread).isSome
  secured : ¬ s.Owes → ∀ consumer ∈ s.consumers, s.listeners consumer.fd ≠ .refresh →
    s.Secured clock consumer

variable {cfg : Config} {peers : List (Consumer Fd)} {s t : Server Fd} {action : Action Fd}
  {clock : Clock (Option Fd)} {fd : Fd} {consumer : Consumer Fd} {consumers : List (Consumer Fd)}
  {thread : Option Fd}

theorem Refresh.Accounts.append {new : Consumer Fd} {refresh : Refresh}
    (accounts : refresh.Accounts consumers consumer) :
    refresh.Accounts (consumers ++ [new]) consumer := by
  cases refresh with
  | aggregating =>
    apply accounts.imp_left
    rintro ⟨place, ahead, found⟩
    obtain ⟨inside, _⟩ := List.getElem?_eq_some_iff.mp found
    exact ⟨place, ahead, (List.getElem?_append_left inside).trans found⟩
  | installing => exact accounts

/-- A refresh that has just begun comes to every consumer. -/
theorem Refresh.accounts_zero (member : consumer ∈ consumers) (aggregated : List CanFilter) :
    (Refresh.aggregating 0 aggregated).Accounts consumers consumer := by
  obtain ⟨place, inside, here⟩ := List.getElem_of_mem member
  exact Or.inl ⟨place, Nat.zero_le place, List.getElem?_eq_some_iff.mpr ⟨inside, here⟩⟩

theorem Refresh.Accounts.round {now next : Refresh} (accounts : now.Accounts s.consumers consumer)
    (round : Refresh.Round s now next) : next.Accounts s.consumers consumer := by
  cases round with
  | more more =>
    obtain ⟨other, canFilters, here, wanted, nonempty, rfl⟩ := aggregateNext_more more
    rcases accounts with ⟨place, ahead, found⟩ | ⟨own, filters, some_own, included⟩
    · rcases Nat.eq_or_lt_of_le ahead with rfl | ahead
      · obtain rfl : other = consumer := Option.some.inj (here.symm.trans found)
        exact Or.inr ⟨canFilters, wanted, nonempty, List.subset_append_right _ _⟩
      · exact Or.inl ⟨place, ahead, found⟩
    · exact Or.inr ⟨own, filters, some_own, List.subset_append_of_subset_left _ included⟩
  | all all =>
    rcases aggregateNext_all all with rfl | ⟨past, rfl⟩
    · exact admits_none _
    · rcases accounts with ⟨place, ahead, found⟩ | ⟨own, filters, some_own, included⟩
      · have beyond := (List.getElem?_eq_none_iff.mp past).trans ahead
        rw [List.getElem?_eq_none beyond] at found
        contradiction
      · simp only [Refresh.Accounts, filters]
        exact admits_of_subset some_own included

section Steps
variable [DecidableEq Fd]

theorem order_of_begins (begins : s.begins action = some thread) :
    order clock s action = clock.begin thread := by
  simp only [order, begins]

theorem order_of_installs (begins : s.begins action = none)
    (installs : s.installs action = some thread) :
    order clock s action = clock.install thread := by
  simp only [order, begins, installs]

theorem order_of_neither (begins : s.begins action = none) (installs : s.installs action = none) :
    order clock s action = clock := by
  simp only [order, begins, installs]

omit [DecidableEq Fd] in
/-- What was secured still is, if no refresh ends or is lost. -/
theorem Secured.mono (secured : s.Secured clock consumer)
    (refreshes : ∀ thread refresh, s.refreshing thread = some refresh →
      refresh.Accounts s.consumers consumer →
        ∃ later, t.refreshing thread = some later ∧ later.Accounts t.consumers consumer)
    (busFilters : t.busFilters = s.busFilters) : t.Secured clock consumer := by
  rcases secured with ⟨current, admits⟩ | ⟨thread, refresh, runs, latest, accounts⟩
  · exact Or.inl ⟨current, by rwa [busFilters]⟩
  · obtain ⟨later, goes_on, accounted⟩ := refreshes thread refresh runs accounts
    exact Or.inr ⟨thread, later, goes_on, latest, accounted⟩

omit [DecidableEq Fd] in
/-- A statement that has nothing to do with the refreshes. -/
theorem Refreshed.congr (refreshed : s.Refreshed clock)
    (refreshing : ∀ thread, t.refreshing thread = s.refreshing thread)
    (consumers : t.consumers = s.consumers) (busFilters : t.busFilters = s.busFilters)
    (awaiting : ∀ fd, s.listeners fd = .refresh → t.listeners fd = .refresh)
    (owes : s.Owes → t.Owes) : t.Refreshed clock where
  sound := refreshed.sound.mono fun thread busy => by rwa [← refreshing]
  secured settled consumer member past := by
    have secured := refreshed.secured (mt owes settled) consumer (consumers ▸ member)
      (mt (awaiting consumer.fd) past)
    simpa only [Secured, refreshing, consumers, busFilters] using secured

/-- A consumer appears at the end of the list; its own refresh is still to come. -/
theorem Refreshed.append (refreshed : s.Refreshed clock) (registry : s.Registry)
    (at_ : s.listeners fd = .appendConsumer consumer)
    (refreshing : ∀ thread, t.refreshing thread = s.refreshing thread)
    (consumers : t.consumers = s.consumers ++ [consumer]) (busFilters : t.busFilters = s.busFilters)
    (listeners : t.listeners = Function.update s.listeners fd .refresh)
    (owes : s.Owes → t.Owes) : t.Refreshed clock where
  sound := refreshed.sound.mono fun thread busy => by rwa [← refreshing]
  secured settled peer member past := by
    have apart : peer.fd ≠ fd := by
      intro same
      exact past (by rw [same, listeners]; exact Function.update_self ..)
    rw [consumers] at member
    rcases List.mem_append.mp member with old | new
    · have still : s.listeners peer.fd ≠ .refresh := by
        rwa [listeners, Function.update_of_ne apart] at past
      apply (refreshed.secured (mt owes settled) peer old still).mono _ busFilters
      intro thread refresh runs accounts
      refine ⟨refresh, (refreshing thread).trans runs, ?_⟩
      rw [consumers]
      exact accounts.append
    · rw [List.mem_singleton.mp new] at apart
      exact absurd (registry.appending fd consumer at_) apart

omit [DecidableEq Fd] in
/-- One more round of a refresh in progress. -/
theorem Refreshed.round (refreshed : s.Refreshed clock) {now next : Refresh}
    (before : s.refreshing thread = some now) (after : t.refreshing thread = some next)
    (others : ∀ other, other ≠ thread → t.refreshing other = s.refreshing other)
    (round : Refresh.Round s now next) (consumers : t.consumers = s.consumers)
    (busFilters : t.busFilters = s.busFilters)
    (awaiting : ∀ fd, s.listeners fd = .refresh → t.listeners fd = .refresh)
    (owes : s.Owes → t.Owes) : t.Refreshed clock where
  sound := by
    apply refreshed.sound.mono
    intro other busy
    by_cases same : other = thread
    · rw [same, before]
      rfl
    · rwa [← others other same]
  secured settled consumer member past := by
    rw [consumers] at member
    apply (refreshed.secured (mt owes settled) consumer member
      (mt (awaiting consumer.fd) past)).mono _ busFilters
    intro other refresh runs accounts
    rw [consumers]
    by_cases same : other = thread
    · subst same
      obtain rfl : refresh = now := Option.some.inj (runs.symm.trans before)
      exact ⟨next, after, accounts.round round⟩
    · exact ⟨refresh, (others other same).trans runs, accounts⟩

/-- A refresh installs what it has aggregated, and the one that began last has not yet. -/
theorem Refreshed.install (refreshed : s.Refreshed clock) (outdated : ¬ clock.Current)
    (before : s.refreshing thread = some (.installing t.busFilters))
    (after : t.refreshing thread = none)
    (others : ∀ other, other ≠ thread → t.refreshing other = s.refreshing other)
    (consumers : t.consumers = s.consumers)
    (awaiting : ∀ fd, s.listeners fd = .refresh → t.listeners fd = .refresh)
    (owes : s.Owes → t.Owes) : t.Refreshed (clock.install thread) where
  sound := by
    apply (refreshed.sound.install thread).mono
    intro other busy
    by_cases same : other = thread
    · rw [same, after] at busy
      contradiction
    · rwa [← others other same]
  secured settled consumer member past := by
    rw [consumers] at member
    rcases refreshed.secured (mt owes settled) consumer member (mt (awaiting consumer.fd) past) with
      ⟨current, _⟩ | ⟨other, refresh, runs, latest, accounted⟩
    · exact absurd current outdated
    · by_cases same : other = thread
      · subst same
        obtain rfl := Option.some.inj (runs.symm.trans before)
        exact Or.inl ⟨latest.install, accounted⟩
      · exact Or.inr ⟨other, refresh, (others other same).trans runs, latest, by rwa [consumers]⟩

theorem Turn.refreshed (turn : Turn s action t) (registry : s.Registry)
    (refreshed : s.Refreshed clock) (ordered : InOrder (s, clock) action) :
    t.Refreshed (order clock s action) := by
  cases turn with
  | elsewhere begins installs refreshing consumers busFilters awaiting owes =>
    rw [order_of_neither begins installs]
    exact refreshed.congr refreshing consumers busFilters awaiting owes
  | remove begins installs refreshing owes =>
    rw [order_of_neither begins installs]
    constructor
    · exact refreshed.sound.mono fun thread busy => by rwa [← refreshing]
    · exact fun settled => absurd owes settled
  | append begins installs at_ refreshing consumers busFilters listeners owes =>
    rw [order_of_neither begins installs]
    exact refreshed.append registry at_ refreshing consumers busFilters listeners owes
  | @begin thread begins begun =>
    rw [order_of_begins begins]
    constructor
    · exact refreshed.sound.begin thread _
    · intro _ consumer member _
      exact Or.inr ⟨thread, _, begun, clock.latest_begin thread, Refresh.accounts_zero member []⟩
  | round begins installs before after others round consumers busFilters awaiting owes =>
    rw [order_of_neither begins installs]
    exact refreshed.round before after others round consumers busFilters awaiting owes
  | install begins installs before after others consumers awaiting owes =>
    have outdated : ¬ clock.Current := ordered (by rw [installs]; rfl)
    rw [order_of_installs begins installs]
    exact refreshed.install outdated before after others consumers awaiting owes

omit [DecidableEq Fd] in
theorem refreshing_rx (listeners : t.listeners = s.listeners)
    (rx : t.rx.refreshing = s.rx.refreshing) (thread : Option Fd) :
    t.refreshing thread = s.refreshing thread := by
  cases thread with
  | none => exact rx
  | some fd => simp only [refreshing, listeners]

omit [DecidableEq Fd] in
theorem refreshing_rx_others (listeners : t.listeners = s.listeners) (other : Option Fd)
    (apart : other ≠ none) : t.refreshing other = s.refreshing other := by
  cases other with
  | none => contradiction
  | some fd => simp only [refreshing, listeners]

theorem removeConsumer_of_not (absent : ¬ s.hasConsumer fd) : s.removeConsumer fd = s := by
  have kept : s.consumers.eraseP (fun consumer => decide (consumer.fd = fd)) = s.consumers := by
    apply List.eraseP_of_forall_not
    simpa [hasConsumer] using absent
  simp only [removeConsumer, kept]

/-- The RX loop begins a refresh where it is about to, and installs where it has one. -/
theorem begins_rx (elsewhere : s.rx ≠ .refresh ∨ ¬ s.consumersChanged) :
    s.begins .rx = none := by
  rcases elsewhere with apart | unchanged
  · simp only [begins, apart, false_and, if_false]
  · simp [begins, unchanged]

omit [DecidableEq Fd] in
theorem installs_rx (elsewhere : ∀ filters, s.rx ≠ .install filters) : s.installs .rx = none := by
  simp only [installs]

/-- A statement of the RX loop that has nothing to do with the refreshes. -/
theorem Turn.rx (begins : s.begins .rx = none) (installs : s.installs .rx = none)
    (refreshing : t.rx.refreshing = s.rx.refreshing) (consumers : t.consumers = s.consumers)
    (busFilters : t.busFilters = s.busFilters) (listeners : t.listeners = s.listeners)
    (owes : s.Owes → t.Owes) : Turn s .rx t :=
  .elsewhere begins installs (refreshing_rx listeners refreshing) consumers busFilters
    (fun fd waits => by rwa [listeners]) owes

theorem Cleans.turn (move : Cleans s t) (cleaning : s.Cleaning) (roster : s.Roster) :
    Turn s .rx t := by
  have begins (apart : s.rx ≠ .refresh) : s.begins .rx = none := begins_rx (Or.inl apart)
  cases move with
  | noneClosed at_ | noneDead at_ | takeDead at_ | popDead at_ =>
    refine .rx (begins (by simp [at_])) (installs_rx (by simp [at_])) (by rw [at_]; rfl) rfl rfl rfl
      ?_
    intro owes
    rw [Owes, at_] at owes
    exact owes
  | remove at_ | delete at_ =>
    exact .remove (begins (by simp [at_])) (installs_rx (by simp [at_]))
      (refreshing_rx rfl (by rw [at_]; rfl)) (by simp [Owes])
  | removeMissing at_ closed absent =>
    have behind := roster.behind _ (by rw [closed]; exact List.mem_cons_self)
    rw [at_] at behind
    exact absurd (List.any_eq_true.mpr ⟨_, behind, decide_eq_true rfl⟩) absent
  | deleteMissing at_ absent =>
    obtain ⟨⟨rest, closed⟩, _⟩ := cleaning.deleting _ (by rw [at_]; rfl)
    exact absurd (roster.closedIo _ (by rw [closed]; exact List.mem_cons_self)) absent
  | @removeDead fd at_ =>
    have installs : s.installs .rx = none := installs_rx (by simp [at_])
    by_cases listed : s.hasConsumer fd
    · exact .remove (begins (by simp [at_])) installs (refreshing_rx rfl (by rw [at_]; rfl))
        (by simp [Owes, listed])
    · rw [removeConsumer_of_not listed]
      refine .rx (begins (by simp [at_])) installs (by rw [at_]; rfl) rfl rfl rfl ?_
      intro owes
      rw [Owes, at_] at owes
      simp only [Owes, Bool.or_eq_true]
      exact Or.inl owes
  | refresh at_ changed =>
    have begins : s.begins .rx = some none := by simp [Server.begins, at_, changed]
    exact .begin begins rfl
  | noRefresh at_ unchanged =>
    refine .rx (begins_rx (Or.inr unchanged)) (installs_rx (by simp [at_])) (by rw [at_]; rfl)
      rfl rfl rfl ?_
    intro owes
    rw [Owes, at_] at owes
    exact absurd owes unchanged
  | aggregate at_ more =>
    have before := congrArg RxPoint.refreshing at_
    refine .round (begins (by simp [at_])) (installs_rx (by simp [at_]))
      (show s.refreshing none = _ from before) rfl (refreshing_rx_others rfl)
      (.more more) rfl rfl (fun _ waits => waits) ?_
    intro owes
    rw [Owes, at_] at owes
    exact owes
  | aggregated at_ all =>
    have before := congrArg RxPoint.refreshing at_
    refine .round (begins (by simp [at_])) (installs_rx (by simp [at_]))
      (show s.refreshing none = _ from before) rfl (refreshing_rx_others rfl)
      (.all all) rfl rfl (fun _ waits => waits) ?_
    intro owes
    rw [Owes, at_] at owes
    exact owes
  | install at_ =>
    have installs : s.installs .rx = some none := by simp [installs, at_]
    refine .install (begins (by simp [at_])) installs (congrArg RxPoint.refreshing at_) rfl
      (refreshing_rx_others rfl) rfl (fun _ waits => waits) ?_
    intro owes
    rw [Owes, at_] at owes
    exact owes

omit [DecidableEq Fd] in
theorem refreshing_listen (rx : t.rx = s.rx)
    (listeners : ∀ other, other ≠ fd → t.listeners other = s.listeners other) (thread : Option Fd)
    (apart : thread ≠ some fd) : t.refreshing thread = s.refreshing thread := by
  cases thread with
  | none => simp only [refreshing, rx]
  | some other =>
    have different : other ≠ fd := fun same => apart (congrArg some same)
    simp only [refreshing, listeners other different]

/-- `listen_to` goes from a point outside its refresh to another one. -/
theorem refreshing_outside {point : ListenPoint Fd} (rx : t.rx = s.rx)
    (listeners : t.listeners = Function.update s.listeners fd point)
    (idle : (s.listeners fd).refreshing = none) (still : point.refreshing = none)
    (thread : Option Fd) : t.refreshing thread = s.refreshing thread := by
  by_cases same : thread = some fd
  · rw [same]
    simp only [refreshing, listeners, Function.update_self, still, idle]
  · apply refreshing_listen rx _ thread same
    intro other apart
    rw [listeners, Function.update_of_ne apart]

theorem awaiting_update {point : ListenPoint Fd} (past : s.listeners fd ≠ .refresh) (other : Fd)
    (waits : s.listeners other = .refresh) :
    Function.update s.listeners fd point other = .refresh := by
  have apart : other ≠ fd := fun same => past (same ▸ waits)
  rw [Function.update_of_ne apart, waits]

/-- A statement of `listen_to` that has nothing to do with its refresh. -/
theorem Turn.listen (begins : s.begins action = none) (installs : s.installs action = none)
    (rx : t.rx = s.rx) (consumersChanged : t.consumersChanged = s.consumersChanged)
    (consumers : t.consumers = s.consumers) (busFilters : t.busFilters = s.busFilters)
    {point : ListenPoint Fd} (listeners : t.listeners = Function.update s.listeners fd point)
    (past : s.listeners fd ≠ .refresh) (idle : (s.listeners fd).refreshing = none)
    (still : point.refreshing = none) : Turn s action t := by
  refine .elsewhere begins installs (refreshing_outside rx listeners idle still) consumers
    busFilters ?_ ?_
  · rw [listeners]
    exact awaiting_update past
  · intro owes
    rwa [Owes, rx, consumersChanged]

theorem Listens.turn (move : Listens cfg s action t) (real : cfg.virtual = false) :
    Turn s action t := by
  have others (fd : Fd) (point : ListenPoint Fd) (other : Fd) (apart : other ≠ fd) :
      Function.update s.listeners fd point other = s.listeners other :=
    Function.update_of_ne apart _ _
  cases move with
  | publish at_ =>
    exact .listen rfl rfl rfl rfl rfl rfl rfl (by simp [at_]) (by rw [at_]; rfl) rfl
  | @append fd consumer at_ =>
    exact .append (by simp [begins, at_]) (by simp [installs, at_]) at_
      (refreshing_outside rfl rfl (by rw [at_]; rfl) rfl) rfl rfl rfl (fun owes => owes)
  | @refresh fd at_ =>
    have begins : s.begins (.listenNext fd) = some (some fd) := by simp [begins, at_]
    apply Turn.begin begins
    simp [refreshing, real, ListenPoint.refreshing]
  | @aggregate fd index aggregated later at_ more =>
    have before := congrArg ListenPoint.refreshing at_
    refine .round (by simp [begins, at_]) (by simp [installs, at_])
      (show s.refreshing (some fd) = _ from before) ?_
      (refreshing_listen rfl (others fd _)) (.more more) rfl rfl
      (awaiting_update (by simp [at_])) (fun owes => owes)
    simp only [refreshing, Function.update_self]
    rfl
  | @aggregated fd index aggregated filters at_ all =>
    have before := congrArg ListenPoint.refreshing at_
    refine .round (by simp [begins, at_]) (by simp [installs, at_])
      (show s.refreshing (some fd) = _ from before) ?_
      (refreshing_listen rfl (others fd _)) (.all all) rfl rfl
      (awaiting_update (by simp [at_])) (fun owes => owes)
    simp only [refreshing, Function.update_self]
    rfl
  | @install fd filters at_ =>
    have installs : s.installs (.listenNext fd) = some (some fd) := by simp [installs, at_]
    refine .install (by simp [begins, at_]) installs (congrArg ListenPoint.refreshing at_) ?_
      (refreshing_listen rfl (others fd _)) rfl (awaiting_update (by simp [at_]))
      (fun owes => owes)
    simp only [refreshing, Function.update_self]
    rfl
  | register at_ | registered at_ | wake at_ | noWake at_ =>
    exact .listen (by simp [begins, at_]) (by simp [installs, at_]) rfl rfl rfl rfl rfl
      (by simp [at_]) (by rw [at_]; rfl) rfl

theorem RxRelays.turn (move : RxRelays cfg s action t) : Turn s action t := by
  have idle : s.rx.refreshing = none := by
    cases move <;> simp [*, RxPoint.refreshing]
  have still : t.rx.refreshing = none := by
    cases move with
    | @offer _ _ _ _ _ result => cases result <;> rfl
    | @call _ _ _ _ _ _ answer =>
      cases answer with
      | error => rfl
      | ok step => cases step <;> rfl
    | _ => rfl
  apply Turn.elsewhere
  · cases move with
    | recvError | recv | call => rfl
    | _ at_ => exact begins_rx (Or.inl (by simp [at_]))
  · cases move with
    | recvError | recv | call => rfl
    | _ at_ => exact installs_rx (by simp [at_])
  · exact refreshing_rx (congrArg Server.listeners move.frame :) (still.trans idle.symm)
  · exact (congrArg Server.consumers move.frame :)
  · exact (congrArg Server.busFilters move.frame :)
  · intro fd waits
    rwa [(congrArg Server.listeners move.frame :)]
  · intro owes
    cases move <;> simp [Owes, *] at owes

/-- A statement of the TX loop or of `stop`. -/
theorem Turn.unrelated (begins : s.begins action = none) (installs : s.installs action = none)
    (rx : t.rx = s.rx) (consumersChanged : t.consumersChanged = s.consumersChanged)
    (consumers : t.consumers = s.consumers) (busFilters : t.busFilters = s.busFilters)
    (listeners : t.listeners = s.listeners) : Turn s action t := by
  apply Turn.elsewhere begins installs
  · exact refreshing_rx listeners (by rw [rx])
  · exact consumers
  · exact busFilters
  · intro fd waits
    rwa [listeners]
  · intro owes
    rwa [Owes, rx, consumersChanged]

theorem Moves.turn (move : Moves cfg s action t) (real : cfg.virtual = false)
    (cleaning : s.Cleaning) (roster : s.Roster) : Turn s action t := by
  cases move with
  | clean move => exact move.turn cleaning roster
  | rxRelay move => exact move.turn
  | listen move => exact move.turn real
  | select move | giveUp move | txRelay move | drain move =>
    rw [move.frame]
    exact .unrelated (by cases move <;> rfl) (by cases move <;> rfl) rfl rfl rfl rfl rfl
  | stop move =>
    rw [move.frame]
    exact .unrelated rfl rfl rfl rfl rfl rfl rfl

theorem Refreshed.start (cfg : Config) (peers : List (Consumer Fd)) :
    (start cfg peers).Refreshed .zero where
  sound := by
    apply Clock.Sound.zero
    rintro (_ | fd)
    · simp only [refreshing, Server.start]
      split <;> simp [RxPoint.refreshing]
    · simp only [refreshing, Server.start]
      split <;> simp [ListenPoint.refreshing]
  secured _ consumer member _ :=
    Or.inl ⟨rfl, aggregateFilters_admits _ (List.mem_map_of_mem member)⟩

omit [DecidableEq Fd] in
theorem Refreshed.covers (refreshed : s.Refreshed clock) (settled : s.AtRest) : s.Covers := by
  intro consumer member
  obtain ⟨listeners, idle, not_owing⟩ := settled
  rcases refreshed.secured not_owing consumer member (listeners consumer.fd).1 with
    ⟨_, admits⟩ | ⟨thread, refresh, runs, _⟩
  · exact admits
  · cases thread with
    | none => exact absurd (runs.symm.trans idle) (by simp)
    | some fd => exact absurd (runs.symm.trans (listeners fd).2) (by simp)

/-- The filters on the bus never go stale as long as no older refresh installs its own after
the refresh that began last. -/
theorem bus_filters_cover (real : cfg.virtual = false) (distinct : (peers.map Consumer.fd).Nodup)
    {actions : List (Action Fd)}
    (ordered : Along (recorded (step cfg) order) InOrder (start cfg peers, .zero) actions) :
    Throughout (step cfg) (fun s => s.AtRest → s.Covers) (start cfg peers) actions := by
  rw [← throughout_recorded (h := Clock.zero)]
  refine throughout_of_invariant
    (I := fun state => (state.1.Registry ∧ state.1.Cleaning ∧ state.1.Roster) ∧
      state.1.Refreshed state.2) ?_ ?_
    ⟨⟨.start distinct, .start cfg peers, .start⟩, .start cfg peers⟩ ordered
  · rintro ⟨s, clock⟩ action ⟨t, next⟩ ⟨⟨registry, cleaning, roster⟩, refreshed⟩ inOrder stepped
    obtain ⟨after, step, same⟩ := Option.map_eq_some_iff.mp stepped
    cases same
    have move := step_moves step
    exact ⟨⟨move.registry registry, move.cleaning registry cleaning,
      move.roster registry cleaning roster⟩,
      (move.turn real cleaning roster).refreshed registry refreshed inOrder⟩
  · rintro ⟨s, clock⟩ ⟨_, refreshed⟩ settled
    exact refreshed.covers settled

end Steps

/-- A client that wants one identifier. -/
def wanting (fd : Bool) (canId : Nat) : Consumer Bool := ⟨fd, some [⟨canId, 0x7FF, none⟩]⟩

/-- Two clients subscribe at the same time, and the refresh that began last installs last. -/
def orderlyRun : List (Action Bool) :=
  [.listen (wanting false 0x100), .listenNext false, .listenNext false, .listenNext false,
    .listenNext false, .listen (wanting true 0x200), .listenNext true, .listenNext true,
    .listenNext false, .listenNext true, .listenNext true, .listenNext true, .listenNext true,
    .listenNext true, .listenNext true, .listenNext false, .listenNext false]

theorem bus_filters_cover_orderly :
    ∃ s, run (step .realBus) (start .realBus []) orderlyRun = some s ∧ s.AtRest ∧
      s.consumers = [wanting false 0x100, wanting true 0x200] ∧ s.Covers := by
  have settled : ∀ s, run (step .realBus) (start .realBus []) orderlyRun = some s → s.AtRest := by
    intro s path
    cases path
    exact ⟨by decide, rfl, Bool.false_ne_true⟩
  have ordered : Along (recorded (step .realBus) order) InOrder (start .realBus [], .zero)
      orderlyRun := by decide
  have covers := bus_filters_cover rfl (by decide) ordered
  exact ⟨_, rfl, settled _ rfl, rfl, covers.last rfl (settled _ rfl)⟩

/-- The first client has aggregated the filters when the second one comes, and installs them
last. -/
def overtakenRun : List (Action Bool) :=
  [.listen (wanting false 0x100), .listenNext false, .listenNext false, .listenNext false,
    .listenNext false, .listen (wanting true 0x200), .listenNext true, .listenNext true,
    .listenNext true, .listenNext true, .listenNext true, .listenNext true, .listenNext true,
    .listenNext true, .listenNext false, .listenNext false, .listenNext false]

theorem bus_filters_stale :
    ¬ Throughout (step .realBus) (fun s => s.AtRest → s.Covers) (start .realBus [])
      overtakenRun := by
  intro all
  have covers := all.last rfl ⟨by decide, rfl, Bool.false_ne_true⟩ (wanting true 0x200)
    (by decide) 0x200 false rfl
  exact absurd covers (by decide)

end Sockcan.Server
