import Sockcan.Server.Moves

/-! `start` and `stop` of one server, with every loop that it has ever started a thread for.
Each loop has its own locals, and the rest of the server is shared. -/
namespace Sockcan.Server
open Protocol Transition
variable {Fd : Type}

/-- `ServerDirection`. -/
inductive Direction where
  | rxOnly
  | txOnly
  | bidirectional
  deriving DecidableEq

/-- `start`, after its check. -/
inductive StartPoint where
  | ready
  | spawnRx (direction : Direction)
  | spawnTx (direction : Direction)
  deriving DecidableEq

/-- `_run_rx` of one thread, with its locals. -/
structure RxLoop (Fd : Type) where
  point : RxPoint Fd
  closedConnections : List (Consumer Fd)
  consumersChanged : Bool

/-- The server and its loops. Where `server` has the fields of a loop, they are those of the
loop that went on last. -/
structure Fleet (Fd : Type) where
  server : Server Fd
  rxLoops : List (RxLoop Fd)
  txLoops : List (TxPoint Fd)
  starting : StartPoint

/-- A call of `start` and its later statements, and a statement of any other thread; of the
loop with this index if it is one of a loop. -/
inductive FleetAction (Fd : Type) where
  | start (direction : Direction)
  | startNext
  | statement (index : Nat) (action : Action Fd)

/-- The loop that the statement is one of. -/
def Action.loop : Action Fd → Option Loop
  | .rx | .rxRecv _ | .rxCall _ => some .rx
  | .tx | .txSelect _ | .txRecv _ | .txCall _ | .txBus _ => some .tx
  | .listen _ | .listenNext _ | .stop => none

def RxLoop.fresh : RxLoop Fd := ⟨.removeClosed, [], false⟩

def rxLoop (server : Server Fd) : RxLoop Fd :=
  ⟨server.rx, server.closedConnections, server.consumersChanged⟩

def withRxLoop (server : Server Fd) (loop : RxLoop Fd) : Server Fd :=
  { server with
    rx := loop.point
    closedConnections := loop.closedConnections
    consumersChanged := loop.consumersChanged }

def RxPoint.alive : RxPoint Fd → Bool
  | .ended _ => false
  | _ => true

def RxLoop.alive (loop : RxLoop Fd) : Bool := loop.point.alive

def TxPoint.alive : TxPoint Fd → Bool
  | .ended _ => false
  | _ => true

/-- The loop is over, and it has not returned. -/
def RxLoop.raised (loop : RxLoop Fd) : Prop := ∃ why, loop.point = .ended why ∧ why ≠ .returned

def TxPoint.raised (point : TxPoint Fd) : Prop := ∃ why, point = .ended why ∧ why ≠ .returned

theorem TxPoint.alive_eq_false_iff (point : TxPoint Fd) :
    point.alive = false ↔ ∃ why, point = .ended why := by
  cases point <;> simp [alive]

theorem RxLoop.alive_eq_false_iff (loop : RxLoop Fd) (goes : loop.point ≠ .ended .returned) :
    loop.alive = false ↔ loop.raised := by
  unfold alive raised
  cases at_ : loop.point with
  | ended why =>
    rw [at_] at goes
    refine iff_of_true rfl ⟨why, rfl, ?_⟩
    rintro rfl
    exact goes rfl
  | _ => simp [RxPoint.alive]

namespace Fleet

/-- A server that has not been started yet. -/
def fresh (server : Server Fd) : Fleet Fd := ⟨server, [], [], .ready⟩

/-- A server with one loop of each kind. -/
def single (server : Server Fd) : Fleet Fd := ⟨server, [server.rxLoop], [server.tx], .ready⟩

/-- `start`, once it has found the server not running. -/
def start (fleet : Fleet Fd) (direction : Direction) : Option (Fleet Fd) :=
  match fleet.starting with
  | .ready =>
    if fleet.server.running ∨ fleet.server.stopping ≠ .ready then none
    else some { fleet with
      server := { fleet.server with running := true }
      starting := .spawnRx direction }
  | _ => none

/-- The two threads of `start`. -/
def startNext (cfg : Config) (fleet : Fleet Fd) : Option (Fleet Fd) :=
  match fleet.starting with
  | .ready => none
  | .spawnRx direction =>
    if direction ≠ .txOnly ∧ cfg.virtual = false then
      some { fleet with rxLoops := fleet.rxLoops ++ [.fresh], starting := .spawnTx direction }
    else some { fleet with starting := .spawnTx direction }
  | .spawnTx direction =>
    if direction ≠ .rxOnly then
      some { fleet with txLoops := fleet.txLoops ++ [.whileRunning], starting := .ready }
    else some { fleet with starting := .ready }

variable [DecidableEq Fd]

def statement (cfg : Config) (fleet : Fleet Fd) (index : Nat) (action : Action Fd) :
    Option (Fleet Fd) :=
  match action.loop with
  | some .rx => match fleet.rxLoops[index]? with
    | none => none
    | some loop => ((fleet.server.withRxLoop loop).step cfg action).map fun server =>
      { fleet with server, rxLoops := fleet.rxLoops.set index server.rxLoop }
  | some .tx => match fleet.txLoops[index]? with
    | none => none
    | some point => (({ fleet.server with tx := point } : Server Fd).step cfg action).map
      fun server => { fleet with server, txLoops := fleet.txLoops.set index server.tx }
  | none =>
    -- `start` and `stop` are called one after the other.
    if action = .stop ∧ fleet.starting ≠ .ready then none
    else (fleet.server.step cfg action).map fun server => { fleet with server }

def step (cfg : Config) (fleet : Fleet Fd) : FleetAction Fd → Option (Fleet Fd)
  | .start direction => fleet.start direction
  | .startNext => fleet.startNext cfg
  | .statement index action => fleet.statement cfg index action

omit [DecidableEq Fd]

/-- No two loops of one kind are alive. -/
def AtMostOne (fleet : Fleet Fd) : Prop :=
  fleet.rxLoops.countP RxLoop.alive ≤ 1 ∧ fleet.txLoops.countP TxPoint.alive ≤ 1

instance : DecidablePred (AtMostOne : Fleet Fd → Prop) :=
  fun _ => inferInstanceAs (Decidable (_ ∧ _))

/-- A thread that is about to be created is the only one of its kind: the loops that were
created before are over. -/
def SpawnsAlone (cfg : Config) (fleet : Fleet Fd) : FleetAction Fd → Prop
  | .startNext => match fleet.starting with
    | .ready => True
    | .spawnRx direction => direction ≠ .txOnly → cfg.virtual = false →
      ∀ loop ∈ fleet.rxLoops, loop.alive = false
    | .spawnTx direction => direction ≠ .rxOnly → ∀ point ∈ fleet.txLoops, point.alive = false
  | _ => True

end Fleet

section Threads
variable [DecidableEq Fd] {cfg : Config} {s t : Server Fd} {action : Action Fd}

/-- A loop that is over takes no statement. -/
theorem alive_of_step_rx (own : action.loop = some .rx) (stepped : s.step cfg action = some t) :
    s.rx.alive = true := by
  cases at_ : s.rx with
  | ended why =>
    cases action with
    | rx => simp [step, rxStep, at_] at stepped
    | rxRecv => simp [step, rxRecv, at_] at stepped
    | rxCall => simp [step, rxCall, at_] at stepped
    | _ => cases own
  | _ => rfl

theorem alive_of_step_tx (own : action.loop = some .tx) (stepped : s.step cfg action = some t) :
    s.tx.alive = true := by
  cases at_ : s.tx with
  | ended why =>
    cases action with
    | tx => simp [step, txStep, at_] at stepped
    | txSelect => simp [step, txSelect, at_] at stepped
    | txRecv => simp [step, txRecv, at_] at stepped
    | txCall => simp [step, txCall, at_] at stepped
    | txBus => simp [step, txBus, at_] at stepped
    | _ => cases own
  | _ => rfl

/-- What the statements of the other threads leave to a loop of each kind. -/
theorem Moves.tx_of_loop (move : Moves cfg s action t) (other : action.loop ≠ some .tx) :
    t.tx = s.tx := by
  rcases move.tx_cases with same | move | move | move | ⟨fd, events, move⟩
  · exact same
  · cases move <;> exact absurd rfl other
  · cases move <;> exact absurd rfl other
  · cases move <;> exact absurd rfl other
  · cases move <;> exact absurd rfl other

theorem Moves.rxLoop_of_loop (move : Moves cfg s action t) (other : action.loop ≠ some .rx) :
    t.rxLoop = s.rxLoop := by
  rcases move.sides with ⟨rfl, _⟩ | move | move | frame
  · exact absurd rfl other
  · cases move <;> exact absurd rfl other
  · exact (congrArg Server.rxLoop move.frame :)
  · exact (congrArg Server.rxLoop frame :)

/-- The RX loop never returns: it goes on after `stop`, until it raises. -/
theorem Moves.rx_not_returned (move : Moves cfg s action t) (before : s.rx ≠ .ended .returned) :
    t.rx ≠ .ended .returned := by
  rcases move.rx_cases with same | ⟨_, move⟩ | move
  · rwa [same]
  · cases move <;> simp
  · cases move with
    | offer _ offer => cases offer <;> simp [RxPoint.afterOffer]
    | call _ call =>
      cases call with
      | unpacked => simp [RxPoint.afterSend]
      | call => cases sendCall streamSendAttempts _ _ <;> simp [RxPoint.afterSend]
    | _ => simp

theorem TxRelays.not_returned (move : TxRelays cfg s action t) : t.tx ≠ .ended .returned := by
  cases move with
  | @finish job =>
    dsimp only
    split
    · exact job.afterRead_running .returned
    · simp
  | @bus job => exact job.afterRead_running .returned
  | offer _ offer => cases offer <;> simp [TxPoint.afterOffer]
  | call _ call =>
    cases call with
    | unpacked => simp [TxPoint.afterSend]
    | call => cases sendCall streamSendAttempts _ _ <;> simp [TxPoint.afterSend]
  | _ => simp

theorem Drains.not_returned {fd : Fd} {events : List (Event Fd)}
    (move : Drains s fd events action t) : t.tx ≠ .ended .returned := by
  cases move with
  | call _ call =>
    cases call with
    | unpacked => simp [TxPoint.afterDrainSend]
    | call => cases sendCall streamSendAttempts _ _ <;> simp [TxPoint.afterDrainSend]
  | _ => simp

/-- The TX loop returns where it finds the flag cleared at the head of its `while`. -/
theorem Moves.tx_returns (move : Moves cfg s action t) (returned : t.tx = .ended .returned) :
    s.tx = .ended .returned ∨
      action = .tx ∧ s.tx = .whileRunning ∧ s.running = false := by
  rcases move.tx_cases with same | selects | givesUp | relays | ⟨_, _, drains⟩
  · exact Or.inl (same ▸ returned)
  · cases selects with
    | stopped at_ stopped => exact Or.inr ⟨rfl, at_, by simpa using stopped⟩
    | _ => contradiction
  · cases givesUp <;> simp at returned
  · exact absurd returned relays.not_returned
  · exact absurd returned drains.not_returned

/-- Only `stop` clears the flag. -/
theorem Moves.running_of_ne_stop (move : Moves cfg s action t) (other : action ≠ .stop) :
    t.running = s.running := by
  cases move with
  | clean move => exact (congrArg Server.running move.frame :)
  | rxRelay move => exact (congrArg Server.running move.frame :)
  | select move => exact (congrArg Server.running move.frame :)
  | giveUp move => exact (congrArg Server.running move.frame :)
  | txRelay move => exact (congrArg Server.running move.frame :)
  | drain move => exact (congrArg Server.running move.frame :)
  | listen move => exact (congrArg Server.running move.frame :)
  | stop => exact absurd rfl other

end Threads

namespace Fleet
variable [DecidableEq Fd] {cfg : Config} {fleet next : Fleet Fd} {action : FleetAction Fd}

omit [DecidableEq Fd] in
/-- A loop that is alive may end, and the others stay as they are. -/
theorem countP_set_le {α : Type} {alive : α → Bool} {loops : List α} {index : Nat} {loop : α}
    (found : loops[index]? = some loop) (was : alive loop = true) (later : α) :
    (loops.set index later).countP alive ≤ loops.countP alive := by
  obtain ⟨inside, rfl⟩ := List.getElem?_eq_some_iff.mp found
  have counted : 0 < loops.countP alive :=
    List.countP_pos_iff.mpr ⟨_, List.getElem_mem inside, was⟩
  rw [List.countP_set inside, if_pos was]
  split <;> omega

omit [DecidableEq Fd] in
/-- One more loop, which is alive. -/
theorem countP_concat_le_one {α : Type} (alive : α → Bool) (loops : List α) {new : α}
    (starts : alive new = true) :
    (loops ++ [new]).countP alive ≤ 1 ↔ ∀ loop ∈ loops, alive loop = false := by
  rw [List.countP_append, List.countP_singleton, if_pos starts]
  constructor
  · intro bound loop member
    have none_alive : loops.countP alive = 0 := by omega
    exact Bool.eq_false_iff.mpr (List.countP_eq_zero.mp none_alive loop member)
  · intro ended
    have none_alive : loops.countP alive = 0 :=
      List.countP_eq_zero.mpr fun loop member => by simp [ended loop member]
    omega

/-- What a statement can do to the loops. -/
inductive Goes (cfg : Config) (fleet : Fleet Fd) : FleetAction Fd → Fleet Fd → Prop where
  | start {direction} : Goes cfg fleet (.start direction) { fleet with
      server := { fleet.server with running := true }
      starting := .spawnRx direction }
  | rxThread {direction} (at_ : fleet.starting = .spawnRx direction)
      (direct : direction ≠ .txOnly) (real : cfg.virtual = false) :
      Goes cfg fleet .startNext
        { fleet with rxLoops := fleet.rxLoops ++ [.fresh], starting := .spawnTx direction }
  | noRxThread {direction} (at_ : fleet.starting = .spawnRx direction)
      (skips : ¬ (direction ≠ .txOnly ∧ cfg.virtual = false)) :
      Goes cfg fleet .startNext { fleet with starting := .spawnTx direction }
  | txThread {direction} (at_ : fleet.starting = .spawnTx direction)
      (direct : direction ≠ .rxOnly) :
      Goes cfg fleet .startNext
        { fleet with txLoops := fleet.txLoops ++ [.whileRunning], starting := .ready }
  | noTxThread {direction} (at_ : fleet.starting = .spawnTx direction)
      (skips : ¬ direction ≠ .rxOnly) :
      Goes cfg fleet .startNext { fleet with starting := .ready }
  | rx {index action loop server} (own : action.loop = some .rx)
      (found : fleet.rxLoops[index]? = some loop)
      (took : (fleet.server.withRxLoop loop).step cfg action = some server) :
      Goes cfg fleet (.statement index action)
        { fleet with server, rxLoops := fleet.rxLoops.set index server.rxLoop }
  | tx {index action point server} (own : action.loop = some .tx)
      (found : fleet.txLoops[index]? = some point)
      (took : ({ fleet.server with tx := point } : Server Fd).step cfg action = some server) :
      Goes cfg fleet (.statement index action)
        { fleet with server, txLoops := fleet.txLoops.set index server.tx }
  | other {index action server} (stops : action = .stop → fleet.starting = .ready)
      (others : action.loop = none) (took : fleet.server.step cfg action = some server) :
      Goes cfg fleet (.statement index action) { fleet with server }

theorem step_goes (stepped : fleet.step cfg action = some next) : Goes cfg fleet action next := by
  cases action with
  | start direction =>
    simp only [step, Fleet.start] at stepped
    split at stepped
    · split at stepped <;> cases stepped
      exact .start
    · contradiction
  | startNext =>
    simp only [step, Fleet.startNext] at stepped
    split at stepped
    · contradiction
    · split at stepped <;> cases stepped
      · next at_ created => exact .rxThread at_ created.1 created.2
      · exact .noRxThread ‹_› ‹_›
    · split at stepped <;> cases stepped
      · exact .txThread ‹_› ‹_›
      · exact .noTxThread ‹_› ‹_›
  | statement index action =>
    simp only [step, Fleet.statement] at stepped
    split at stepped
    · split at stepped
      · contradiction
      · obtain ⟨server, took, rfl⟩ := Option.map_eq_some_iff.mp stepped
        exact .rx ‹_› ‹_› took
    · split at stepped
      · contradiction
      · obtain ⟨server, took, rfl⟩ := Option.map_eq_some_iff.mp stepped
        exact .tx ‹_› ‹_› took
    · split at stepped
      · contradiction
      · next between =>
        obtain ⟨server, took, rfl⟩ := Option.map_eq_some_iff.mp stepped
        refine .other (fun stops => ?_) ‹_› took
        by_contra starts
        exact between ⟨stops, starts⟩

/-- A statement keeps every loop the only one of its kind, unless it creates a thread beside
one that is alive. -/
theorem Goes.atMostOne (goes : Goes cfg fleet action next) (once : fleet.AtMostOne) :
    next.AtMostOne ↔ SpawnsAlone cfg fleet action := by
  cases goes with
  | start => exact iff_of_true once trivial
  | rxThread at_ direct real =>
    have alone := countP_concat_le_one RxLoop.alive fleet.rxLoops
      (show RxLoop.fresh.alive from rfl)
    simp only [SpawnsAlone, at_]
    constructor
    · rintro ⟨rx, _⟩ _ _
      exact alone.mp rx
    · intro ended
      exact ⟨alone.mpr (ended direct real), once.2⟩
  | noRxThread at_ skips =>
    simp only [SpawnsAlone, at_]
    apply iff_of_true once
    intro direct real
    exact absurd ⟨direct, real⟩ skips
  | txThread at_ direct =>
    have alone := countP_concat_le_one TxPoint.alive fleet.txLoops
      (show TxPoint.whileRunning.alive from rfl)
    simp only [SpawnsAlone, at_]
    constructor
    · rintro ⟨_, tx⟩ _
      exact alone.mp tx
    · intro ended
      exact ⟨once.1, alone.mpr (ended direct)⟩
  | noTxThread at_ skips =>
    simp only [SpawnsAlone, at_]
    apply iff_of_true once
    intro direct
    exact absurd direct skips
  | @rx index action loop server own found took =>
    have was : loop.alive = true := alive_of_step_rx own took
    exact iff_of_true ⟨(countP_set_le found was _).trans once.1, once.2⟩ trivial
  | @tx index action point server own found took =>
    have was : point.alive = true := alive_of_step_tx own took
    exact iff_of_true ⟨once.1, (countP_set_le found was _).trans once.2⟩ trivial
  | other => exact iff_of_true once trivial

/-- No RX loop returns. -/
def NoneReturned (fleet : Fleet Fd) : Prop :=
  ∀ loop ∈ fleet.rxLoops, loop.point ≠ .ended .returned

theorem Goes.noneReturned (goes : Goes cfg fleet action next) (kept : fleet.NoneReturned) :
    next.NoneReturned := by
  cases goes with
  | rxThread =>
    intro loop member
    rcases List.mem_append.mp member with old | new
    · exact kept loop old
    · obtain rfl := List.mem_singleton.mp new
      simp [RxLoop.fresh]
  | @rx index action loop server own found took =>
    intro other member
    rcases List.mem_or_eq_of_mem_set member with old | rfl
    · exact kept other old
    · exact (step_moves took).rx_not_returned (kept loop (List.mem_of_getElem? found))
  | start | noRxThread | txThread | noTxThread | tx | other => exact kept

/-- At no time are two loops of one kind alive, exactly in the runs in which every thread
that `start` creates finds the earlier loops of its kind over. -/
theorem at_most_one_iff (cfg : Config) (server : Server Fd) (actions : List (FleetAction Fd)) :
    Throughout (step cfg) AtMostOne (fresh server) actions ↔
      Along (step cfg) (SpawnsAlone cfg) (fresh server) actions := by
  apply throughout_iff_along (I := fun _ => True) (E := fun _ _ => True)
  · intros
    trivial
  · intro fleet action next _ _ stepped once
    exact (step_goes stepped).atMostOne once
  · trivial
  · exact ⟨Nat.zero_le 1, Nat.zero_le 1⟩
  · exact along_true

/-- The TX loop with this index finds the flag cleared at the head of its `while`, and no call
of `start` is under way. -/
def FindsStopped (index : Nat) (fleet : Fleet Fd) (action : FleetAction Fd) : Prop :=
  action = .statement index .tx ∧ fleet.txLoops[index]? = some .whileRunning ∧
    fleet.server.running = false ∧ fleet.starting = .ready

/-- While a call of `start` is under way the flag is set. -/
def Started (fleet : Fleet Fd) : Prop := fleet.starting ≠ .ready → fleet.server.running = true

theorem Goes.started (goes : Goes cfg fleet action next) (started : fleet.Started) :
    next.Started := by
  cases goes with
  | start => exact fun _ => rfl
  | rxThread at_ | noRxThread at_ => exact fun _ => started (by simp [at_])
  | txThread | noTxThread => exact fun starts => absurd rfl starts
  | rx own _ took =>
    have same := (step_moves took).running_of_ne_stop (by rintro rfl; cases own)
    exact fun starts => same.trans (started starts)
  | tx own _ took =>
    have same := (step_moves took).running_of_ne_stop (by rintro rfl; cases own)
    exact fun starts => same.trans (started starts)
  | @other index action server stops others took =>
    intro starts
    by_cases stop : action = .stop
    · exact absurd (stops stop) starts
    · exact ((step_moves took).running_of_ne_stop stop).trans (started starts)

/-- A TX loop that has returned stays so. -/
theorem Goes.stays_returned (goes : Goes cfg fleet action next) {index : Nat}
    (returned : fleet.txLoops[index]? = some (.ended .returned)) :
    next.txLoops[index]? = some (.ended .returned) := by
  cases goes with
  | txThread => exact List.getElem?_append_left (List.getElem?_eq_some_iff.mp returned).1 ▸ returned
  | @tx other action point server own found took =>
    have apart : other ≠ index := by
      rintro rfl
      cases found.symm.trans returned
      cases alive_of_step_tx own took
    rw [List.getElem?_set_ne apart]
    exact returned
  | _ => exact returned

theorem Goes.returns (goes : Goes cfg fleet action next) (started : fleet.Started) {index : Nat}
    (returned : next.txLoops[index]? = some (.ended .returned)) :
    fleet.txLoops[index]? = some (.ended .returned) ∨ FindsStopped index fleet action := by
  cases goes with
  | txThread =>
    rw [List.getElem?_append] at returned
    split at returned
    · exact Or.inl returned
    · simp [List.getElem?_singleton] at returned
  | @tx other action point server own found took =>
    by_cases same : other = index
    · subst same
      obtain ⟨inside, _⟩ := List.getElem?_eq_some_iff.mp found
      rw [List.getElem?_set_self inside, Option.some.injEq] at returned
      rcases (step_moves took).tx_returns returned with before | ⟨rfl, at_, stopped⟩
      · exact Or.inl (found.trans (congrArg some before))
      · refine Or.inr ⟨rfl, found.trans (congrArg some at_), stopped, ?_⟩
        by_contra starts
        cases stopped.symm.trans (started starts)
    · rw [List.getElem?_set_ne same] at returned
      exact Or.inl returned
  | _ => exact Or.inl returned

theorem FindsStopped.returns {index : Nat} (finds : FindsStopped index fleet action)
    (stepped : fleet.step cfg action = some next) :
    next.txLoops[index]? = some (.ended .returned) := by
  obtain ⟨rfl, at_, stopped, _⟩ := finds
  obtain ⟨inside, _⟩ := List.getElem?_eq_some_iff.mp at_
  simp only [step, Fleet.statement, Action.loop, at_, Server.step, txStep, stopped,
    Bool.false_eq_true, if_false, Option.map_some, Option.some.injEq] at stepped
  rw [← stepped]
  exact List.getElem?_set_self inside

/-- However often the server is stopped, its RX loops go on until they raise. -/
theorem rx_never_returns (cfg : Config) (server : Server Fd) (actions : List (FleetAction Fd)) :
    Throughout (step cfg) NoneReturned (fresh server) actions := by
  apply throughout_of_invariant (C := fun _ _ => True) (I := NoneReturned)
  · intro fleet action next kept _ stepped
    exact (step_goes stepped).noneReturned kept
  · exact fun fleet kept => kept
  · intro loop member
    contradiction
  · exact along_true

/-- When a thread is created it is alone of its kind exactly if every RX loop before it has
raised, and if every TX loop before it has raised, or has found the flag cleared at the head of
its `while` after a `stop` and before the next `start`. -/
theorem spawnsAlone_iff {server : Server Fd} {actions : List (FleetAction Fd)}
    (path : run (step cfg) (fresh server) actions = some fleet) :
    SpawnsAlone cfg fleet .startNext ↔ match fleet.starting with
      | .ready => True
      | .spawnRx direction => direction ≠ .txOnly → cfg.virtual = false →
        ∀ loop ∈ fleet.rxLoops, loop.raised
      | .spawnTx direction => direction ≠ .rxOnly →
        ∀ index point, fleet.txLoops[index]? = some point → point.raised ∨
          Sometime (step cfg) (FindsStopped index) (fresh server) actions := by
  have none_returned := (rx_never_returns cfg server actions).last path
  have initial : (fresh server).Started := fun starts => absurd rfl starts
  have preserved (s : Fleet Fd) (action : FleetAction Fd) (t : Fleet Fd) (started : s.Started)
      (stepped : s.step cfg action = some t) : t.Started := (step_goes stepped).started started
  cases at_ : fleet.starting with
  | ready => simp only [SpawnsAlone, at_]
  | spawnRx direction =>
    simp only [SpawnsAlone, at_]
    refine imp_congr_right fun _ => imp_congr_right fun _ => forall₂_congr fun loop member => ?_
    exact loop.alive_eq_false_iff (none_returned loop member)
  | spawnTx direction =>
    simp only [SpawnsAlone, at_]
    refine imp_congr_right fun _ => ?_
    constructor
    · intro gone index point found
      obtain ⟨why, rfl⟩ := point.alive_eq_false_iff.mp (gone point (List.mem_of_getElem? found))
      by_cases returned : why = .returned
      · subst returned
        exact Or.inr (sometime_of_origin_of_invariant
          (P := fun fleet : Fleet Fd => fleet.txLoops[index]? = some (.ended .returned)) preserved
          (fun _ _ _ started stepped => (step_goes stepped).returns started) initial
          (by simp [fresh]) path found)
      · exact Or.inl ⟨why, rfl, returned⟩
    · intro ended point member
      obtain ⟨index, found⟩ := List.mem_iff_getElem?.mp member
      refine point.alive_eq_false_iff.mpr ?_
      rcases ended index point found with ⟨why, gone, _⟩ | stopped
      · exact ⟨why, gone⟩
      · have returned := last_of_sometime
          (P := fun fleet : Fleet Fd => fleet.txLoops[index]? = some (.ended .returned))
          (I := fun _ => True)
          (fun _ _ _ _ stepped finds => FindsStopped.returns finds stepped)
          (fun _ _ _ stepped => (step_goes stepped).stays_returned)
          (fun _ _ _ _ _ => trivial) trivial path stopped
        exact ⟨.returned, Option.some.inj (found.symm.trans returned)⟩

/-- With one loop of each kind, the fleet is the server as one loop of each sees it. -/
theorem statement_single {s t : Server Fd} {action : Action Fd}
    (stepped : s.step cfg action = some t) :
    (single s).statement cfg 0 action = some (single t) := by
  have move := step_moves stepped
  unfold Fleet.statement
  split
  · next own =>
    have other : t.tx = s.tx := move.tx_of_loop (by simp [own])
    simp [single, withRxLoop, rxLoop, stepped, other]
  · next own =>
    have other : t.rxLoop = s.rxLoop := move.rxLoop_of_loop (by simp [own])
    simp [single, stepped, other]
  · next own =>
    have tx : t.tx = s.tx := move.tx_of_loop (by simp [own])
    have rx : t.rxLoop = s.rxLoop := move.rxLoop_of_loop (by simp [own])
    simp [single, stepped, tx, rx]

theorem run_single {s t : Server Fd} {actions : List (Action Fd)}
    (path : run (Server.step cfg) s actions = some t) :
    run (step cfg) (single s) (actions.map (.statement 0)) = some (single t) := by
  induction actions generalizing s with
  | nil =>
    cases path
    rfl
  | cons action rest ih =>
    cases stepped : s.step cfg action with
    | none => simp [run, stepped] at path
    | some next =>
      have first : step cfg (single s) (.statement 0 action) = some (single next) :=
        statement_single stepped
      exact (run_cons first).mpr (ih ((run_cons stepped).mp path))

/-- The server is stopped while its TX loop waits in `select`, and started again. -/
def restarted : List (FleetAction Bool) :=
  [.start .bidirectional, .startNext, .startNext, .statement 0 .tx, .statement 0 .stop,
    .statement 0 .stop, .start .bidirectional, .startNext, .startNext]

theorem not_at_most_one :
    ¬ Throughout (step .realBus) AtMostOne
      (fresh { Server.start .realBus [] with running := false }) restarted := by
  decide

end Fleet

end Sockcan.Server
