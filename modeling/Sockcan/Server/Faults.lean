import Sockcan.Daemon.Subscribe
import Sockcan.Server.Endings
import Sockcan.Server.Points

/-! A server whose consumers subscribed with whatever a list of filters can hold, on a bus whose
`set_filters` may raise. Every thread that is over, and why. -/
namespace Sockcan.Server
open Protocol Transition
variable {Fd : Type}

/-- What raises in a thread besides what `Ending` tells. -/
inductive Fault where
  | setFilters
  | frameMatches (error : Json.EvalError)
  deriving DecidableEq

/-- The threads that a fault can end. -/
inductive Thread (Fd : Type) where
  | loop (loop : Loop)
  | listener (fd : Fd)
  deriving DecidableEq

/-- The server and the threads that a fault has ended, which stay where they were. -/
structure FaultyServer (Fd : Type) where
  server : Server Fd
  raised : Thread Fd → Option Fault

inductive FaultyAction (Fd : Type) where
  | plain (action : Action Fd)
  | setFilters (thread : Thread Fd)
  | frameMatches (loop : Loop)

def Action.thread : Action Fd → Option (Thread Fd)
  | .listen consumer => some (.listener consumer.fd)
  | .listenNext fd => some (.listener fd)
  | action => action.loop.map .loop

/-- The thread is about to call `set_filters`. -/
def callsSetFilters (s : Server Fd) : Thread Fd → Bool
  | .loop .rx => match s.rx with
    | .install _ => true
    | _ => false
  | .loop .tx => false
  | .listener fd => match s.listeners fd with
    | .install _ => true
    | _ => false

/-- The consumer whose filters the loop evaluates next, and on which frame. -/
def evaluating [DecidableEq Fd] (s : Server Fd) : Loop → Option (Consumer Fd × Relayed Fd)
  | .rx => match s.rx with
    | .advance message index => s.consumers[index]?.map fun consumer => (consumer, message)
    | _ => none
  | .tx => match s.tx with
    | .advance job index => match s.consumers[index]? with
      | some consumer => if consumer.fd = job.fileobj then none else some (consumer, job.message)
      | none => none
    | _ => none

/-- Where the loop evaluates filters, those that were loaded can be evaluated, and the ones of
the consumer say the same. -/
def answers [DecidableEq Fd] (s : Server Fd) (loaded : Fd → Option (List Json)) (loop : Loop) :
    Bool :=
  match s.evaluating loop with
  | none => true
  | some (consumer, message) =>
    match Json.frameMatches (loaded consumer.fd) message.frame.canId message.frame.isExtended with
    | .ok verdict => verdict == consumer.accepts message
    | .error _ => false

/-- What `_frame_matches` raises. -/
def evalError [DecidableEq Fd] (s : Server Fd) (loaded : Fd → Option (List Json)) (loop : Loop) :
    Option Json.EvalError :=
  match s.evaluating loop with
  | none => none
  | some (consumer, message) =>
    match Json.frameMatches (loaded consumer.fd) message.frame.canId message.frame.isExtended with
    | .ok _ => none
    | .error error => some error

/-- Filters of the consumer that say the same as the loaded ones, where those can be evaluated:
one filter for each frame that is accepted, and one for an identifier that is too wide. -/
def reading (loaded : Option (List Json)) : List CanFilter :=
  ⟨2 ^ 29, 2 ^ 29, none⟩ ::
    (List.range (2 ^ 29)).flatMap fun canId => [true, false].filterMap fun isExtended =>
      match Json.frameMatches loaded canId isExtended with
      | .ok true => some ⟨canId, 2 ^ 29 - 1, some isExtended⟩
      | _ => none

theorem mem_reading {loaded : Option (List Json)} {canFilter : CanFilter} :
    canFilter ∈ reading loaded ↔ canFilter = ⟨2 ^ 29, 2 ^ 29, none⟩ ∨
      ∃ canId < 2 ^ 29, ∃ isExtended, Json.frameMatches loaded canId isExtended = .ok true ∧
        canFilter = ⟨canId, 2 ^ 29 - 1, some isExtended⟩ := by
  simp only [reading, List.mem_cons, List.mem_flatMap, List.mem_range, List.mem_filterMap]
  refine or_congr_right (exists_congr fun canId => and_congr_right fun _ => ?_)
  constructor
  · rintro ⟨isExtended, _, made⟩
    split at made
    · next accepted => exact ⟨isExtended, accepted, (Option.some.inj made).symm⟩
    · contradiction
  · rintro ⟨isExtended, accepted, rfl⟩
    exact ⟨isExtended, by cases isExtended <;> simp, by rw [accepted]⟩

/-- Whatever was loaded, there are filters of a consumer that a loop can go on with. -/
theorem frameMatches_reading {loaded : Option (List Json)} {canId : Nat} {isExtended verdict : Bool}
    (bound : canId < 2 ^ 29) (evaluates : Json.frameMatches loaded canId isExtended = .ok verdict) :
    frameMatches (some (reading loaded)) canId isExtended = verdict := by
  have nonempty : reading loaded ≠ [] := List.cons_ne_nil _ _
  rw [Bool.eq_iff_iff, frameMatches_cons_iff nonempty]
  constructor
  · rintro ⟨canFilter, member, accepts⟩
    obtain ⟨same, flags⟩ := (CanFilter.matches_iff _ _ _).mp accepts
    rcases mem_reading.mp member with rfl | ⟨wanted, small, flag, accepted, rfl⟩
    · have wide : canId.testBit 29 = false := Nat.testBit_lt_two_pow bound
      simp only [Nat.and_self, Nat.and_two_pow, wide, Bool.toNat_false, Nat.zero_mul] at same
      exact absurd same.symm (Nat.two_pow_pos 29).ne'
    · simp only [Nat.and_two_pow_sub_one_eq_mod, Nat.mod_eq_of_lt bound,
        Nat.mod_eq_of_lt small] at same
      rw [same, flags flag rfl, accepted] at evaluates
      exact (Except.ok.inj evaluates).symm
  · rintro rfl
    refine ⟨_, mem_reading.mpr (Or.inr ⟨canId, bound, isExtended, evaluates, rfl⟩), ?_⟩
    simp [CanFilter.matches_iff]

theorem evaluating_dispatch [DecidableEq Fd] {s : Server Fd} {loop : Loop}
    {consumer : Consumer Fd} {message : Relayed Fd}
    (evaluates : s.evaluating loop = some (consumer, message)) :
    consumer ∈ s.consumers ∧ ∃ passed, s.dispatch loop = some (message, passed) := by
  cases loop with
  | rx =>
    simp only [evaluating] at evaluates
    split at evaluates
    · next looked index at_ =>
      obtain ⟨found, next, same⟩ := Option.map_eq_some_iff.mp evaluates
      cases same
      exact ⟨List.mem_of_getElem? next, index, by rw [dispatch, at_]; rfl⟩
    · contradiction
  | tx =>
    simp only [evaluating] at evaluates
    split at evaluates
    · next job index at_ =>
      split at evaluates
      · next found next =>
        split at evaluates
        · contradiction
        · cases evaluates
          exact ⟨List.mem_of_getElem? next, index, by rw [dispatch, at_]; rfl⟩
      · contradiction
    · contradiction

/-- A loop that evaluates such filters goes on, or it raises. -/
theorem answers_or_raises [DecidableEq Fd] {s : Server Fd} {loaded : Fd → Option (List Json)}
    {loop : Loop}
    (read : ∀ consumer ∈ s.consumers, consumer.filters = some (reading (loaded consumer.fd)))
    (bound : ∀ message passed, s.dispatch loop = some (message, passed) →
      message.frame.canId < 2 ^ 29) :
    s.answers loaded loop = true ∨ (s.evalError loaded loop).isSome := by
  unfold answers evalError
  cases evaluates : s.evaluating loop with
  | none => exact Or.inl rfl
  | some pair =>
    obtain ⟨consumer, message⟩ := pair
    obtain ⟨member, passed, dispatches⟩ := evaluating_dispatch evaluates
    cases result : Json.frameMatches (loaded consumer.fd) message.frame.canId
        message.frame.isExtended with
    | error error => simp [result]
    | ok verdict =>
      have same := frameMatches_reading (bound message passed dispatches) result
      simp [result, Consumer.accepts, read consumer member, same]

namespace FaultyServer

def start [DecidableEq Fd] (cfg : Config) (peers : List (Consumer Fd)) : FaultyServer Fd :=
  ⟨Server.start cfg peers, fun _ => none⟩

def raise [DecidableEq Fd] (p : FaultyServer Fd) (thread : Thread Fd) (fault : Fault) :
    FaultyServer Fd :=
  { p with raised := Function.update p.raised thread (some fault) }

def step [DecidableEq Fd] (cfg : Config) (loaded : Fd → Option (List Json))
    (p : FaultyServer Fd) : FaultyAction Fd → Option (FaultyServer Fd)
  | .plain action =>
    if (∀ thread ∈ action.thread, p.raised thread = none) ∧
        ∀ loop ∈ action.loop, p.server.answers loaded loop then
      (p.server.step cfg action).map fun server => { p with server }
    else none
  | .setFilters thread =>
    if p.raised thread = none ∧ p.server.callsSetFilters thread then
      some (p.raise thread .setFilters)
    else none
  | .frameMatches loop =>
    if p.raised (.loop loop) = none then
      (p.server.evalError loaded loop).map fun error => p.raise (.loop loop) (.frameMatches error)
    else none

inductive Goes [DecidableEq Fd] (cfg : Config) (loaded : Fd → Option (List Json))
    (p : FaultyServer Fd) : FaultyAction Fd → FaultyServer Fd → Prop where
  | plain {action : Action Fd} {server : Server Fd}
      (up : ∀ thread ∈ action.thread, p.raised thread = none)
      (answers : ∀ loop ∈ action.loop, p.server.answers loaded loop)
      (stepped : p.server.step cfg action = some server) :
    Goes cfg loaded p (.plain action) { p with server }
  | setFilters {thread : Thread Fd} (up : p.raised thread = none)
      (calls : p.server.callsSetFilters thread) :
    Goes cfg loaded p (.setFilters thread) (p.raise thread .setFilters)
  | frameMatches {loop : Loop} {consumer : Consumer Fd} {message : Relayed Fd}
      {error : Json.EvalError} (up : p.raised (.loop loop) = none)
      (evaluates : p.server.evaluating loop = some (consumer, message))
      (raises : Json.frameMatches (loaded consumer.fd) message.frame.canId
        message.frame.isExtended = .error error) :
    Goes cfg loaded p (.frameMatches loop) (p.raise (.loop loop) (.frameMatches error))

/-- What explains that a fault has ended a loop: `set_filters` of the bus raised in the RX loop,
or the filters of a consumer cannot be evaluated on the frame of the dispatch. -/
def Explains [DecidableEq Fd] (cfg : Config) (loaded : Fd → Option (List Json)) (loop : Loop)
    (fault : Fault) (p : FaultyServer Fd) (action : FaultyAction Fd) : Prop :=
  match fault with
  | .setFilters => action = .setFilters (.loop .rx) ∧ loop = .rx ∧ cfg.virtual = false
  | .frameMatches error => action = .frameMatches loop ∧ ∃ consumer message,
      p.server.evaluating loop = some (consumer, message) ∧ consumer ∈ p.server.consumers ∧
        Json.frameMatches (loaded consumer.fd) message.frame.canId message.frame.isExtended =
          .error error ∧
        (loop = .rx → cfg.virtual = false) ∧ (loop = .tx → ¬ Daemon.Evaluable (loaded consumer.fd))

variable [DecidableEq Fd] {cfg : Config} {loaded : Fd → Option (List Json)}
  {peers : List (Consumer Fd)} {p q : FaultyServer Fd} {action : FaultyAction Fd}
  {actions : List (FaultyAction Fd)} {loop : Loop} {fault : Fault}

theorem step_goes (stepped : p.step cfg loaded action = some q) : p.Goes cfg loaded action q := by
  cases action with
  | plain action =>
    simp only [step] at stepped
    split at stepped
    · next ready =>
      obtain ⟨server, taken, rfl⟩ := Option.map_eq_some_iff.mp stepped
      exact .plain ready.1 ready.2 taken
    · contradiction
  | setFilters thread =>
    simp only [step] at stepped
    split at stepped
    · next ready =>
      cases stepped
      exact .setFilters ready.1 ready.2
    · contradiction
  | frameMatches loop =>
    simp only [step] at stepped
    split at stepped
    · next up =>
      obtain ⟨error, raises, rfl⟩ := Option.map_eq_some_iff.mp stepped
      unfold evalError at raises
      split at raises
      · contradiction
      · next consumer message evaluates =>
        split at raises
        · contradiction
        · next failed =>
          cases raises
          exact .frameMatches up evaluates failed
    · contradiction

/-- The server itself takes the steps of a plain one. -/
theorem Goes.healthy (goes : p.Goes cfg loaded action q) (healthy : p.server.Healthy cfg) :
    q.server.Healthy cfg := by
  cases goes with
  | plain _ _ stepped => exact (step_moves stepped).healthy healthy
  | setFilters | frameMatches => exact healthy

/-- A loop of the server that has ended in a step did so in one that `Causes` tells. -/
theorem Goes.rx_ends (goes : p.Goes cfg loaded action q) (healthy : p.server.Healthy cfg)
    {why : Ending} (ended : q.server.rx = .ended why) :
    p.server.rx = .ended why ∨ ∃ taken, action = .plain taken ∧
      p.server.Causes cfg taken .rx why := by
  cases goes with
  | plain _ _ stepped =>
    exact ((step_moves stepped).rx_ends healthy ended).imp_right fun causes => ⟨_, rfl, causes⟩
  | setFilters | frameMatches => exact Or.inl ended

theorem Goes.tx_ends (goes : p.Goes cfg loaded action q) (healthy : p.server.Healthy cfg)
    {why : Ending} (ended : q.server.tx = .ended why) :
    p.server.tx = .ended why ∨ ∃ taken, action = .plain taken ∧
      p.server.Causes cfg taken .tx why := by
  cases goes with
  | plain _ _ stepped =>
    exact ((step_moves stepped).tx_ends healthy ended).imp_right fun causes => ⟨_, rfl, causes⟩
  | setFilters | frameMatches => exact Or.inl ended

theorem raised_of_raise {thread other : Thread Fd} {first : Fault}
    (raised : (p.raise thread first).raised other = some fault) :
    p.raised other = some fault ∨ other = thread ∧ fault = first := by
  by_cases same : other = thread
  · subst same
    simp only [raise, Function.update_self] at raised
    exact Or.inr ⟨rfl, (Option.some.inj raised).symm⟩
  · simp only [raise, Function.update_of_ne same] at raised
    exact Or.inl raised

/-- A fault that a step brings about in a loop explains itself. The frames that the TX loop
dispatches come from consumers, and have identifiers that every good list of filters decides. -/
theorem Goes.faults (goes : p.Goes cfg loaded action q) (healthy : p.server.Healthy cfg)
    (raised : q.raised (.loop loop) = some fault) :
    p.raised (.loop loop) = some fault ∨ p.Explains cfg loaded loop fault action := by
  have real (running : p.server.rx ≠ .ended .returned) : cfg.virtual = false := by
    by_contra virtual
    exact running (healthy.sources.bus (by simpa using virtual)).2
  cases goes with
  | plain => exact Or.inl raised
  | setFilters _ calls =>
    refine (raised_of_raise raised).imp_right ?_
    rintro ⟨rfl, rfl⟩
    cases loop with
    | rx => exact ⟨rfl, rfl, real fun gone => by simp [callsSetFilters, gone] at calls⟩
    | tx => contradiction
  | @frameMatches _ consumer message error _ evaluates raises =>
    refine (raised_of_raise raised).imp_right ?_
    rintro ⟨same, rfl⟩
    cases same
    obtain ⟨member, passed, dispatches⟩ := evaluating_dispatch evaluates
    refine ⟨rfl, consumer, message, evaluates, member, raises, ?_, ?_⟩
    · rintro rfl
      exact real fun gone => by simp [dispatch, gone, RxPoint.dispatch] at dispatches
    · rintro rfl evaluable
      obtain ⟨route, read⟩ := healthy.ledger.routed .tx message passed dispatches
      cases source : message.source with
      | none => simp [Relayed.loop_rx source] at route
      | some origin =>
        have classic := healthy.sources.classic origin message (source ▸ read)
        obtain ⟨verdict, evaluated⟩ :=
          evaluable message.frame.canId classic.1 message.frame.isExtended
        cases raises.symm.trans evaluated

theorem healthy_run (distinct : (peers.map Consumer.fd).Nodup)
    (path : run (step cfg loaded) (start cfg peers) actions = some p) :
    p.server.Healthy cfg :=
  invariant_run (I := fun p : FaultyServer Fd => p.server.Healthy cfg)
    (fun _ _ _ healthy _ stepped => (step_goes stepped).healthy healthy) (.start distinct)
    along_true path

/-- Over a virtual bus a fault ends the TX loop alone, and nothing but the filters of a
consumer is one. -/
def Spared (cfg : Config) (p : FaultyServer Fd) : Prop :=
  cfg.virtual = true →
    (∀ loop fault, p.raised (.loop loop) = some fault →
      loop = .tx ∧ ∃ error, fault = .frameMatches error) ∧
    ∀ why, p.server.tx = .ended why → why = .returned ∨ why = .selectorKeyError

theorem Goes.spared (goes : p.Goes cfg loaded action q) (healthy : p.server.Healthy cfg)
    (spared : p.Spared cfg) : q.Spared cfg := by
  intro virtual
  refine ⟨fun loop fault raised => ?_, fun why ended => ?_⟩
  · rcases goes.faults healthy raised with before | explains
    · exact (spared virtual).1 loop fault before
    · cases fault with
      | setFilters => simp [Explains, virtual] at explains
      | frameMatches error =>
        obtain ⟨_, _, _, _, _, _, real, _⟩ := explains
        cases loop with
        | rx => simp [virtual] at real
        | tx => exact ⟨rfl, error, rfl⟩
  · rcases goes.tx_ends healthy ended with before | ⟨taken, _, causes⟩
    · exact (spared virtual).2 why before
    · exact healthy.sources.virtual_ending virtual causes

/-- Every end of a relay loop goes back to one of its own steps: a failed read of the bus, a bus
send that raised, a frame of the bus that has no header, a refused frame queued for a consumer
that is not registered, `stop`, a `set_filters` of the bus that raised, or filters of a consumer
that cannot be evaluated. No lookup in `_consumers`, `_consumer_io` or in a backlog ends a loop. -/
theorem loops_explained (distinct : (peers.map Consumer.fd).Nodup)
    (path : run (step cfg loaded) (start cfg peers) actions = some p) :
    (∀ why, p.server.rx = .ended why → cfg.virtual = true ∧ why = .returned ∨
      Sometime (step cfg loaded)
        (fun p action => ∃ taken, action = .plain taken ∧ p.server.Causes cfg taken .rx why)
        (start cfg peers) actions) ∧
    (∀ why, p.server.tx = .ended why →
      Sometime (step cfg loaded)
        (fun p action => ∃ taken, action = .plain taken ∧ p.server.Causes cfg taken .tx why)
        (start cfg peers) actions) ∧
    (∀ loop fault, p.raised (.loop loop) = some fault →
      Sometime (step cfg loaded) (Explains cfg loaded loop fault) (start cfg peers) actions) ∧
    p.Spared cfg := by
  have initial : (start cfg peers).server.Healthy cfg := .start distinct
  have preserved (s : FaultyServer Fd) (action : FaultyAction Fd) (t : FaultyServer Fd)
      (healthy : s.server.Healthy cfg) (stepped : step cfg loaded s action = some t) :
      t.server.Healthy cfg := (step_goes stepped).healthy healthy
  refine ⟨fun why ended => ?_, fun why ended => ?_, fun loop fault raised => ?_, ?_⟩
  · by_cases virtual : cfg.virtual = true
    · rw [((healthy_run distinct path).sources.bus virtual).2] at ended
      cases ended
      exact Or.inl ⟨virtual, rfl⟩
    · exact Or.inr (sometime_of_origin_of_invariant
        (P := fun p : FaultyServer Fd => p.server.rx = .ended why) preserved
        (fun _ _ _ healthy stepped => (step_goes stepped).rx_ends healthy) initial
        (by simp [start, Server.start, virtual]) path ended)
  · exact sometime_of_origin_of_invariant
      (P := fun p : FaultyServer Fd => p.server.tx = .ended why) preserved
      (fun _ _ _ healthy stepped => (step_goes stepped).tx_ends healthy) initial
      (by simp [start, Server.start]) path ended
  · exact sometime_of_origin_of_invariant
      (P := fun p : FaultyServer Fd => p.raised (.loop loop) = some fault) preserved
      (fun _ _ _ healthy stepped => (step_goes stepped).faults healthy) initial
      (by simp [start]) path raised
  · have kept : p.server.Healthy cfg ∧ p.Spared cfg := by
      refine invariant_run (I := fun p : FaultyServer Fd => p.server.Healthy cfg ∧ p.Spared cfg)
        (fun s action t kept _ stepped => ?_) ⟨initial, ?_⟩ along_true path
      · have goes := step_goes stepped
        exact ⟨goes.healthy kept.1, goes.spared kept.1 kept.2⟩
      · simp [Spared, start, Server.start]
    exact kept.2

/-- Of two clients of a virtual channel one subscribes with `[1]`, and the other one sends. -/
def unreadableRun : List (FaultyAction Nat) :=
  [.plain .tx, .plain (.txSelect [.ready 0 true false]), .plain .tx,
    .plain (.txRecv (some ⟨0x100, [], false⟩)), .plain .tx, .frameMatches .tx]

theorem loops_explained_unreadable :
    ∃ p, run (step .virtualBus fun fd => if fd = 1 then some [.int 1] else none)
        (start .virtualBus [⟨0, none⟩, ⟨1, none⟩]) unreadableRun = some p ∧
      p.raised (.loop .tx) = some (.frameMatches .typeError) ∧
      Sometime (step .virtualBus fun fd => if fd = 1 then some [.int 1] else none)
        (Explains .virtualBus (fun fd => if fd = 1 then some [.int 1] else none) .tx
          (.frameMatches .typeError)) (start .virtualBus [⟨0, none⟩, ⟨1, none⟩]) unreadableRun ∧
      p.raised (.loop .rx) = none := by
  have ends : (run (step .virtualBus fun fd => if fd = 1 then some [.int 1] else none)
      (start .virtualBus [⟨0, none⟩, ⟨1, none⟩]) unreadableRun).map
        (fun p => p.raised (.loop .tx)) = some (some (.frameMatches .typeError)) := by
    decide +kernel
  obtain ⟨p, path, raised⟩ := Option.map_eq_some_iff.mp ends
  obtain ⟨_, _, explained, spared⟩ := loops_explained (by decide) path
  refine ⟨p, path, raised, explained .tx _ raised, ?_⟩
  cases fault : p.raised (.loop .rx) with
  | none => rfl
  | some fault => cases ((spared rfl).1 .rx _ fault).1

end FaultyServer

end Sockcan.Server
