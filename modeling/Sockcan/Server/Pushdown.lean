import Sockcan.Interop.Bus
import Sockcan.Server.Refresh
import Mathlib.Data.Fintype.Option

/-! The filters that subscriptions ask for, pushed down to the bus. As long as one edit of
the consumer list is refreshed before the next one, the two filters that a frame passes let
through what the subscription accepts. -/
namespace Sockcan
open Protocol

/-- The `filters` argument of `listen_to`. A set comes in the order of its iteration. -/
inductive Requested where
  | none
  | list (canFilters : List CanFilter)
  | set (canIds : List Nat) (distinct : canIds.Nodup)

def normalizeFilters : Requested → Option (List CanFilter)
  | .none => .none
  | .list canFilters => some canFilters
  | .set canIds _ => some (canIds.map fun canId => ⟨canId, 0x1FFFFFFF, .none⟩)

namespace Requested
variable {requested : Requested} {frame : Frame}

/-- A set that is asked for has identifiers in it, and no others than a frame can carry. -/
def Proper : Requested → Prop
  | .set canIds _ => canIds ≠ [] ∧ ∀ canId ∈ canIds, canId < 2 ^ 29
  | _ => True

instance : DecidablePred Proper
  | .none | .list _ => isTrue trivial
  | .set _ _ => inferInstanceAs (Decidable (_ ∧ _))

/-- What the subscriber asked for. -/
def Accepts (frame : Frame) : Requested → Prop
  | .none => True
  | .list canFilters => canFilters = [] ∨ ∃ canFilter ∈ canFilters,
    frame.canId &&& canFilter.canMask = canFilter.canId &&& canFilter.canMask ∧
      ∀ flag, canFilter.extended = some flag → frame.isExtended = flag
  | .set canIds _ => frame.canId ∈ canIds

theorem and_full_mask {canId : Nat} (bound : canId < 2 ^ 29) : canId &&& 0x1FFFFFFF = canId :=
  (Nat.and_two_pow_sub_one_eq_mod canId 29).trans (Nat.mod_eq_of_lt bound)

/-- The server keeps a subscription in the form that it normalizes it to. -/
theorem accepts_iff (proper : requested.Proper) (bound : frame.canId < 2 ^ 29) :
    frameMatches (normalizeFilters requested) frame.canId frame.isExtended = true ↔
      requested.Accepts frame := by
  cases requested with
  | none => exact iff_of_true rfl trivial
  | list canFilters =>
    simp only [normalizeFilters, Accepts]
    by_cases unfiltered : canFilters = []
    · subst unfiltered
      exact iff_of_true rfl (Or.inl rfl)
    · rw [frameMatches_cons_iff unfiltered]
      simp only [unfiltered, false_or, CanFilter.matches_iff]
  | set canIds distinct =>
    obtain ⟨nonempty, bounds⟩ := proper
    have filtered : canIds.map (fun canId => CanFilter.mk canId 0x1FFFFFFF .none) ≠ [] := by
      simpa only [ne_eq, List.map_eq_nil_iff] using nonempty
    simp only [normalizeFilters, Accepts]
    rw [frameMatches_cons_iff filtered]
    constructor
    · rintro ⟨canFilter, member, matching⟩
      obtain ⟨canId, among, rfl⟩ := List.mem_map.mp member
      have masked := (CanFilter.matches_iff _ _ _).mp matching |>.1
      rw [and_full_mask bound, and_full_mask (bounds canId among)] at masked
      rwa [masked]
    · intro among
      refine ⟨_, List.mem_map_of_mem among, ?_⟩
      rw [CanFilter.matches_iff]
      exact ⟨rfl, by simp⟩

end Requested

namespace Server
open Transition Interop
variable {Fd : Type}

/-- The thread is between an edit of the consumer list and the end of its refresh. -/
def Pending (s : Server Fd) : Option Fd → Prop
  | none => s.Owes ∨ s.rx.refreshing.isSome
  | some fd => s.listeners fd = .refresh ∨ (s.listeners fd).refreshing.isSome

def RxPoint.owes (consumersChanged : Bool) : RxPoint Fd → Bool
  | .deleteClosed _ => true
  | .removeClosed | .takeDead | .popDead _ | .removeDead _ | .refresh => consumersChanged
  | _ => false

theorem owes_iff {s : Server Fd} : s.rx.owes s.consumersChanged = true ↔ s.Owes := by
  unfold Owes RxPoint.owes
  cases s.rx <;> simp only [Bool.false_eq_true]

instance (s : Server Fd) : Decidable s.Owes := decidable_of_iff _ owes_iff

instance [DecidableEq Fd] (s : Server Fd) : DecidablePred s.Pending
  | none => inferInstanceAs (Decidable (_ ∨ _))
  | some _ => inferInstanceAs (Decidable (_ ∨ _))

/-- Subscriptions and removals do not overlap. -/
def OneAtATime (s : Server Fd) : Prop :=
  ∀ first second, s.Pending first → s.Pending second → first = second

instance [DecidableEq Fd] [Fintype Fd] : DecidablePred (OneAtATime : Server Fd → Prop) :=
  fun _ => inferInstanceAs (Decidable (∀ _ _, _ → _ → _))

/-- What the refresh installs in the end are the filters of all the consumers. -/
def Refresh.Exact (consumers : List (Consumer Fd)) : Refresh → Prop
  | .aggregating index aggregated =>
    aggregateFilters (consumers.map Consumer.filters) =
      (aggregateFilters ((consumers.drop index).map Consumer.filters)).map (aggregated ++ ·)
  | .installing filters => filters = aggregateFilters (consumers.map Consumer.filters)

structure Exact (s : Server Fd) : Prop where
  refreshes : ∀ thread refresh, s.refreshing thread = some refresh → refresh.Exact s.consumers
  installed : (∀ thread, ¬ s.Pending thread) →
    s.busFilters = aggregateFilters (s.consumers.map Consumer.filters)

variable {cfg : Config} {peers : List (Consumer Fd)} {s t : Server Fd} {action : Action Fd}
  {thread : Option Fd} {refresh : Refresh} {consumers : List (Consumer Fd)} {fd : Fd}
  {consumer : Consumer Fd}

theorem pending_of_refreshing (runs : s.refreshing thread = some refresh) : s.Pending thread := by
  cases thread with
  | none => exact Or.inr (by rw [show s.rx.refreshing = _ from runs]; rfl)
  | some fd => exact Or.inr (by rw [show (s.listeners fd).refreshing = _ from runs]; rfl)

theorem atRest_iff_pending : s.AtRest ↔ ∀ thread, ¬ s.Pending thread := by
  constructor
  · rintro ⟨listeners, idle, settled⟩ thread pending
    cases thread with
    | none =>
      rcases pending with owes | runs
      · exact settled owes
      · rw [idle] at runs
        contradiction
    | some fd =>
      rcases pending with waits | runs
      · exact (listeners fd).1 waits
      · rw [(listeners fd).2] at runs
        contradiction
  · intro quiet
    constructor
    · intro fd
      constructor
      · intro waits
        exact quiet (some fd) (Or.inl waits)
      · apply Option.not_isSome_iff_eq_none.mp
        intro runs
        exact quiet (some fd) (Or.inr runs)
    · constructor
      · apply Option.not_isSome_iff_eq_none.mp
        intro runs
        exact quiet none (Or.inr runs)
      · intro owes
        exact quiet none (Or.inl owes)

theorem Refresh.exact_zero (consumers : List (Consumer Fd)) :
    (Refresh.aggregating 0 []).Exact consumers := by
  simp only [Refresh.Exact, List.drop_zero, List.nil_append, Option.map_id']

/-- One round of `_aggregate_filters` moves the filters of one consumer over. -/
theorem Refresh.Exact.round {now next : Refresh} (exact_ : now.Exact s.consumers)
    (round : Refresh.Round s now next) : next.Exact s.consumers := by
  cases round with
  | @more index aggregated later more =>
    obtain ⟨consumer, canFilters, here, wanted, nonempty, rfl⟩ := aggregateNext_more more
    obtain ⟨inside, rfl⟩ := List.getElem?_eq_some_iff.mp here
    simp only [Refresh.Exact] at exact_ ⊢
    rw [exact_, List.drop_eq_getElem_cons inside, List.map_cons, wanted]
    cases canFilters with
    | nil => contradiction
    | cons canFilter canFilters =>
      simp only [aggregateFilters, Option.map_map, Function.comp_def, List.append_assoc]
  | @all index aggregated filters all =>
    simp only [Refresh.Exact] at exact_ ⊢
    rw [exact_]
    unfold aggregateNext at all
    split at all
    · next past =>
      cases all
      rw [List.drop_eq_nil_of_le (List.getElem?_eq_none_iff.mp past)]
      simp only [List.map_nil, aggregateFilters, Option.map_some, List.append_nil]
    · next consumer here =>
      obtain ⟨inside, rfl⟩ := List.getElem?_eq_some_iff.mp here
      rw [List.drop_eq_getElem_cons inside, List.map_cons]
      split at all
      · next unfiltered =>
        cases all
        rw [unfiltered]
        rfl
      · next unfiltered =>
        cases all
        rw [unfiltered]
        rfl
      · contradiction

section Steps
variable [DecidableEq Fd]

omit [DecidableEq Fd] in
/-- The consumer list has been edited, and nothing else is pending. -/
theorem Exact.edited (pending : s.Pending thread) (idle : s.refreshing thread = none)
    (only : s.OneAtATime) : s.Exact where
  refreshes other refresh runs := by
    obtain rfl := only other thread (pending_of_refreshing runs) pending
    rw [idle] at runs
    contradiction
  installed quiet := absurd pending (quiet thread)

omit [DecidableEq Fd] in
/-- One refresh is under way, and nothing else is pending. -/
theorem Exact.underway (runs : s.refreshing thread = some refresh)
    (exact_ : refresh.Exact s.consumers) (only : s.OneAtATime) : s.Exact where
  refreshes other later others := by
    obtain rfl := only other thread (pending_of_refreshing others) (pending_of_refreshing runs)
    cases runs.symm.trans others
    exact exact_
  installed quiet := absurd (pending_of_refreshing runs) (quiet thread)

omit [DecidableEq Fd] in
theorem Owes.idle (owes : s.Owes) : s.rx.refreshing = none := by
  cases at_ : s.rx with
  | aggregate | install => simp [Owes, at_] at owes
  | _ => rfl

/-- With one edit at a time, no refresh misses another one. -/
theorem Exact.turn (exact_ : s.Exact) (turn : Turn s action t) (before : s.OneAtATime)
    (after : t.OneAtATime) : t.Exact := by
  cases turn with
  | elsewhere _ _ refreshing consumers busFilters awaiting owes =>
    constructor
    · intro thread refresh runs
      rw [consumers]
      exact exact_.refreshes thread refresh ((refreshing thread).symm.trans runs)
    · intro quiet
      rw [consumers, busFilters]
      apply exact_.installed
      intro thread pending
      apply quiet thread
      have same := refreshing thread
      cases thread with
      | none =>
        apply pending.imp owes
        rw [show t.rx.refreshing = s.rx.refreshing from same]
        exact id
      | some fd =>
        apply pending.imp (awaiting fd)
        rw [show (t.listeners fd).refreshing = (s.listeners fd).refreshing from same]
        exact id
  | remove _ _ refreshing owes =>
    have pending : t.Pending none := Or.inl owes
    exact .edited pending (Owes.idle owes) after
  | @append fd consumer _ _ at_ refreshing consumers busFilters listeners =>
    have waits : t.listeners fd = .refresh := by rw [listeners, Function.update_self]
    have pending : t.Pending (some fd) := Or.inl waits
    exact .edited pending (congrArg ListenPoint.refreshing waits) after
  | begin _ begun => exact .underway begun (Refresh.exact_zero t.consumers) after
  | @round thread now next _ _ runs later others round consumers =>
    have accounted := (exact_.refreshes thread now runs).round round
    exact .underway later (consumers ▸ accounted) after
  | @install thread _ _ installing done others consumers =>
    constructor
    · intro other refresh runs
      by_cases same : other = thread
      · rw [same, done] at runs
        contradiction
      · rw [others other same] at runs
        have only := before other thread (pending_of_refreshing runs)
          (pending_of_refreshing installing)
        exact absurd only same
    · intro _
      rw [consumers]
      exact exact_.refreshes thread _ installing

/-- The consumers of the list have the filters that were asked for their sockets. -/
structure Asked (requests : Fd → Requested) (s : Server Fd) : Prop where
  listed : ∀ consumer ∈ s.consumers, consumer.filters = normalizeFilters (requests consumer.fd)
  appending : ∀ fd consumer, s.listeners fd = .appendConsumer consumer →
    consumer.filters = normalizeFilters (requests consumer.fd)

/-- A subscription asks for the filters of its socket. -/
def Asks (requests : Fd → Requested) (_ : Server Fd) : Action Fd → Prop
  | .listen consumer => consumer.filters = normalizeFilters (requests consumer.fd)
  | _ => True

instance (requests : Fd → Requested) (s : Server Fd) : DecidablePred (Asks requests s)
  | .listen _ => inferInstanceAs (Decidable (_ = _))
  | .rx | .rxRecv _ | .rxCall _ | .tx | .txSelect _ | .txRecv _ | .txCall _ | .txBus _
  | .listenNext _ | .stop => isTrue trivial

theorem Exact.start (cfg : Config) (peers : List (Consumer Fd)) : (start cfg peers).Exact where
  refreshes := by
    rintro (_ | fd) refresh runs
    · simp only [refreshing, Server.start] at runs
      split at runs <;> contradiction
    · simp only [refreshing, Server.start] at runs
      split at runs <;> contradiction
  installed _ := rfl

omit [DecidableEq Fd] in
theorem Asked.congr {requests : Fd → Requested} (asked : s.Asked requests)
    (consumers : t.consumers ⊆ s.consumers) (listeners : t.listeners = s.listeners) :
    t.Asked requests where
  listed consumer member := asked.listed consumer (consumers member)
  appending := by
    rw [listeners]
    exact asked.appending

theorem Listens.asked {requests : Fd → Requested} (move : Listens cfg s action t)
    (asked : s.Asked requests) (asks : Asks requests s action) : t.Asked requests := by
  -- The listener goes from one statement to the next, and no other does.
  have goto (fd : Fd) (point : ListenPoint Fd)
      (own : ∀ consumer, point = .appendConsumer consumer →
        consumer.filters = normalizeFilters (requests consumer.fd)) (other : Fd)
      (consumer : Consumer Fd)
      (at_ : Function.update s.listeners fd point other = .appendConsumer consumer) :
      consumer.filters = normalizeFilters (requests consumer.fd) := by
    by_cases same : other = fd
    · subst same
      rw [Function.update_self] at at_
      exact own consumer at_
    · rw [Function.update_of_ne same] at at_
      exact asked.appending other consumer at_
  cases move with
  | @publish consumer at_ =>
    refine ⟨asked.listed, goto consumer.fd _ ?_⟩
    intro other same
    cases same
    exact asks
  | @append fd consumer at_ =>
    refine ⟨?_, goto fd _ fun other same => by contradiction⟩
    intro other member
    rcases List.mem_append.mp member with old | new
    · exact asked.listed other old
    · obtain rfl := List.mem_singleton.mp new
      exact asked.appending fd other at_
  | @refresh fd at_ =>
    refine ⟨asked.listed, goto fd _ ?_⟩
    intro consumer same
    split at same <;> contradiction
  | @aggregate fd | @aggregated fd | @install fd | @register fd | @registered fd | @wake fd
  | @noWake fd => exact ⟨asked.listed, goto fd _ fun consumer same => by contradiction⟩

theorem Moves.asked {requests : Fd → Requested} (move : Moves cfg s action t)
    (asked : s.Asked requests) (asks : Asks requests s action) : t.Asked requests := by
  rcases move.sides with ⟨_, move⟩ | move | move | frame
  · exact asked.congr move.consumers_subset (congrArg Server.listeners move.frame :)
  · rw [move.frame]
    exact asked.congr (List.Subset.refl _) rfl
  · exact move.asked asked asks
  · rw [frame]
    exact asked.congr (List.Subset.refl _) rfl

theorem Asked.start {requests : Fd → Requested} (cfg : Config)
    (initial : ∀ consumer ∈ peers, consumer.filters = normalizeFilters (requests consumer.fd)) :
    (start cfg peers).Asked requests where
  listed := initial
  appending fd consumer at_ := by
    simp only [Server.start] at at_
    split at at_ <;> contradiction

/-- After any subscriptions and removals that come one at a time, what the consumers asked
for is what is on the bus. -/
theorem exact_run (real : cfg.virtual = false) (distinct : (peers.map Consumer.fd).Nodup)
    {requests : Fd → Requested} {actions : List (Action Fd)}
    (initial : ∀ consumer ∈ peers, consumer.filters = normalizeFilters (requests consumer.fd))
    (asks : Along (step cfg) (Asks requests) (start cfg peers) actions)
    (oneAtATime : Throughout (step cfg) OneAtATime (start cfg peers) actions)
    (path : run (step cfg) (start cfg peers) actions = some s) : s.Exact ∧ s.Asked requests := by
  have invariant := invariant_run
    (I := fun s => ((s.Registry ∧ s.Cleaning ∧ s.Roster) ∧ s.OneAtATime) ∧
      s.Exact ∧ s.Asked requests)
    (C := fun s action => Asks requests s action ∧
      ∀ t, step cfg s action = some t → t.OneAtATime) ?_
    ⟨⟨⟨.start distinct, .start cfg peers, .start⟩, oneAtATime.head⟩, .start cfg peers,
      .start cfg initial⟩ (asks.and oneAtATime.along_next) path
  · exact invariant.2
  · rintro s action t ⟨⟨⟨registry, cleaning, roster⟩, before⟩, exact_, asked⟩ ⟨asks, after⟩ stepped
    have move := step_moves stepped
    have turn := move.turn real cleaning roster
    exact ⟨⟨⟨move.registry registry, move.cleaning registry cleaning,
      move.roster registry cleaning roster⟩, after t stepped⟩,
      exact_.turn turn before (after t stepped), move.asked asked asks⟩

omit [DecidableEq Fd] in
/-- The filters of a consumer are what was asked for its socket. -/
theorem Asked.accepts_iff {requests : Fd → Requested} {frame : Frame} (asked : s.Asked requests)
    (proper : ∀ fd, (requests fd).Proper) (bound : frame.canId < 2 ^ 29)
    (member : consumer ∈ s.consumers) :
    frameMatches consumer.filters frame.canId frame.isExtended = true ↔
      (requests consumer.fd).Accepts frame := by
  rw [asked.listed consumer member]
  exact Requested.accepts_iff (proper consumer.fd) bound

omit [DecidableEq Fd] in
/-- The filters on the bus are all that was asked for. -/
theorem Exact.passes_iff {requests : Fd → Requested} {frame : Frame} (exact_ : s.Exact)
    (asked : s.Asked requests) (proper : ∀ fd, (requests fd).Proper) (settled : s.AtRest)
    (some_left : s.consumers ≠ []) (bound : frame.canId < 2 ^ 29) :
    frameMatches s.busFilters frame.canId frame.isExtended = true ↔
      ∃ consumer ∈ s.consumers, (requests consumer.fd).Accepts frame := by
  have installed := exact_.installed (atRest_iff_pending.mp settled)
  have filters : s.consumers.map Consumer.filters ≠ [] := by
    simpa only [ne_eq, List.map_eq_nil_iff] using some_left
  rw [installed, frameMatches_aggregateFilters filters]
  constructor
  · rintro ⟨wanted, among, matching⟩
    obtain ⟨consumer, member, rfl⟩ := List.mem_map.mp among
    exact ⟨consumer, member, (asked.accepts_iff proper bound member).mp matching⟩
  · rintro ⟨consumer, member, accepted⟩
    exact ⟨_, List.mem_map_of_mem member, (asked.accepts_iff proper bound member).mpr accepted⟩

/-- `passes` is the filter of the bus, which python-can documents. Of the frames of a real
bus, those go through the two filters of a consumer that its subscription accepts, those come
through the first one that some subscription accepts, and a client that was built with the
same list keeps all that it is sent. -/
theorem pushdown_transparent {passes : Option (List CanFilter) → Frame → Bool}
    (documented : ∀ filters frame,
      passes filters frame = frameMatches filters frame.canId frame.isExtended)
    (real : cfg.virtual = false) (distinct : (peers.map Consumer.fd).Nodup)
    {requests : Fd → Requested} (proper : ∀ fd, (requests fd).Proper)
    {actions : List (Action Fd)}
    (initial : ∀ consumer ∈ peers, consumer.filters = normalizeFilters (requests consumer.fd))
    (asks : Along (step cfg) (Asks requests) (start cfg peers) actions)
    (oneAtATime : Throughout (step cfg) OneAtATime (start cfg peers) actions)
    (path : run (step cfg) (start cfg peers) actions = some s) (settled : s.AtRest)
    (some_left : s.consumers ≠ []) {frame : Frame} (bound : frame.canId < 2 ^ 29)
    (flagged : frame.Flagged) :
    (∀ consumer ∈ s.consumers,
      (passes s.busFilters frame = true ∧
          frameMatches consumer.filters frame.canId frame.isExtended = true ↔
        (requests consumer.fd).Accepts frame) ∧
      ∀ canFilters, requests consumer.fd = .list canFilters →
        frameMatches consumer.filters frame.canId frame.isExtended = true →
        (UserspaceSocketcanBus.init (some canFilters)).accepts frame.onWire = true) ∧
    (passes s.busFilters frame = true ↔
      ∃ consumer ∈ s.consumers, (requests consumer.fd).Accepts frame) := by
  obtain ⟨exact_, asked⟩ := exact_run real distinct initial asks oneAtATime path
  have union := exact_.passes_iff asked proper settled some_left bound
  rw [documented]
  refine ⟨fun consumer member => ⟨?_, ?_⟩, union⟩
  · rw [asked.accepts_iff proper bound member, union]
    constructor
    · exact And.right
    · intro accepted
      exact ⟨⟨consumer, member, accepted⟩, accepted⟩
  · intro canFilters own matching
    rw [asked.listed consumer member, own] at matching
    rw [flagged.onWire]
    exact (matchesFilters_eq canFilters frame.canId frame.isExtended).trans matching

end Steps

/-- Two clients ask for a set of identifiers and for a range of extended ones. -/
def asking : Bool → Requested
  | false => .set [0x100, 0x200] (by decide)
  | true => .list [⟨0x18DA0000, 0x1FFF0000, some true⟩]

def asker (fd : Bool) : Consumer Bool := ⟨fd, normalizeFilters (asking fd)⟩

/-- The second client subscribes, then the first one is removed. -/
def askingRun : List (Action Bool) :=
  [.listen (asker true), .listenNext true, .listenNext true, .listenNext true, .listenNext true,
    .listenNext true, .listenNext true, .listenNext true, .listenNext true,
    .tx, .txSelect [.ready false true false], .tx, .txRecv none, .tx, .tx,
    .rx, .rx, .rx, .rx, .rx, .rx, .rx, .rx, .rx]

theorem pushdown_transparent_removal :
    ∃ s, run (step .realBus) (start .realBus [asker false]) askingRun = some s ∧
      s.consumers = [asker true] ∧
      frameMatches s.busFilters 0x18DAF110 true = true ∧
      frameMatches s.busFilters 0x100 false = false := by
  have settled : ∀ s, run (step .realBus) (start .realBus [asker false]) askingRun = some s →
      s.AtRest := by
    intro s path
    cases path
    exact ⟨by decide, rfl, fun owes => owes⟩
  have asks : Along (step .realBus) (Asks asking) (start .realBus [asker false]) askingRun := by
    decide
  have pushed (frame : Frame) (bound : frame.canId < 2 ^ 29) (flagged : frame.Flagged) :=
    pushdown_transparent (fun _ _ => rfl) rfl (by decide) (by decide) (by decide) asks
      (by decide) rfl (settled _ rfl) (by decide) bound flagged
  refine ⟨_, rfl, rfl, ?_, ?_⟩
  · apply (pushed ⟨0x18DAF110, [], true⟩ (by decide) (by decide)).2.mpr
    refine ⟨asker true, List.mem_singleton_self _, Or.inr ⟨_, List.mem_singleton_self _, rfl, ?_⟩⟩
    rintro flag ⟨⟩
    rfl
  · apply Bool.eq_false_iff.mpr
    intro passed
    obtain ⟨consumer, member, accepted⟩ :=
      (pushed ⟨0x100, [], false⟩ (by decide) (by decide)).2.mp passed
    obtain rfl := List.mem_singleton.mp member
    rcases accepted with unfiltered | ⟨canFilter, among, masked, _⟩
    · exact List.cons_ne_nil _ _ unfiltered
    · obtain rfl := List.mem_singleton.mp among
      exact absurd masked (by decide)

end Server
end Sockcan
