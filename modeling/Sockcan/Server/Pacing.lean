import Sockcan.Releases
import Sockcan.Server.Points

/-! A server with a contention time. The TX loop sleeps before it sends to the bus, so that a
contention time has passed since its last stamp of the clock. -/
namespace Sockcan.Server
open Protocol Transition Releases
variable {Fd : Type}

/-- Where the TX loop is before it sends to the bus. -/
inductive Pace where
  | fresh
  /-- The contention that it has computed, and when. -/
  | waiting (contention asked : Int)
  | awake
  | stamped
  deriving DecidableEq

/-- The server with the clock and the locals of `_run_tx`, in nanoseconds. -/
structure PacedServer (Fd : Type) where
  server : Server Fd
  /-- What the clock has shown last. -/
  clock : Int
  lastSent : Int
  pace : Pace
  /-- The frames that the bus has got, when they were stamped and when they were sent. -/
  sends : List (Relayed Fd × Release)

/-- The clock is read three times and again when the frame is sent. -/
inductive PacedAction (Fd : Type) where
  | plain (action : Action Fd)
  | ask (now : Int)
  | wake (now : Int)
  | stamp (now : Int)
  | send (returned : Bool) (now : Int)

namespace PacedServer

def start [DecidableEq Fd] (cfg : Config) (peers : List (Consumer Fd)) : PacedServer Fd :=
  ⟨Server.start cfg peers, 0, 0, .fresh, []⟩

/-- `contention = last_sent + contention_time_ns - monotonic_time_ns()`, where the contention
time is set and not zero. -/
def ask (contentionTimeNs : Option Int) (paced : PacedServer Fd) (now : Int) :
    Option (PacedServer Fd) :=
  match paced.server.tx, paced.pace, contentionTimeNs with
  | .busSend _, .fresh, some contentionTime =>
    if contentionTime ≠ 0 ∧ paced.clock ≤ now then
      some { paced with
        clock := now
        pace := .waiting (paced.lastSent + contentionTime - now) now }
    else none
  | _, _, _ => none

/-- `if contention > 0: sleep(contention / 1e9)`, which does not return too early. -/
def wake (paced : PacedServer Fd) (now : Int) : Option (PacedServer Fd) :=
  match paced.pace with
  | .waiting contention asked =>
    if paced.clock ≤ now ∧ (0 < contention → asked + contention ≤ now) then
      some { paced with clock := now, pace := .awake }
    else none
  | _ => none

/-- `last_sent = monotonic_time_ns()`. -/
def stamp (paced : PacedServer Fd) (now : Int) : Option (PacedServer Fd) :=
  match paced.pace with
  | .awake =>
    if paced.clock ≤ now then some { paced with clock := now, lastSent := now, pace := .stamped }
    else none
  | _ => none

/-- `bus_send(py_can_msg)`, after the pause or without one. -/
def send (contentionTimeNs : Option Int) (paced : PacedServer Fd) (returned : Bool) (now : Int) :
    Option (PacedServer Fd) :=
  let unpaced := contentionTimeNs = none ∨ contentionTimeNs = some 0
  if paced.clock ≤ now ∧ (paced.pace = .stamped ∨ unpaced) then
    match paced.server.tx with
    | .busSend job => (paced.server.txBus returned).map fun server => { paced with
        server
        clock := now
        pace := .fresh
        sends := if returned then paced.sends ++ [(job.message, ⟨paced.lastSent, now⟩)]
          else paced.sends }
    | _ => none
  else none

def step [DecidableEq Fd] (cfg : Config) (contentionTimeNs : Option Int)
    (paced : PacedServer Fd) : PacedAction Fd → Option (PacedServer Fd)
  | .plain (.txBus _) => none
  | .plain action => (paced.server.step cfg action).map fun server => { paced with server }
  | .ask now => paced.ask contentionTimeNs now
  | .wake now => paced.wake now
  | .stamp now => paced.stamp now
  | .send returned now => paced.send contentionTimeNs returned now

inductive Goes [DecidableEq Fd] (cfg : Config) (contentionTimeNs : Option Int)
    (paced : PacedServer Fd) : PacedAction Fd → PacedServer Fd → Prop where
  | plain {action : Action Fd} {server : Server Fd}
      (unsent : ∀ returned, action ≠ .txBus returned)
      (stepped : paced.server.step cfg action = some server) :
    Goes cfg contentionTimeNs paced (.plain action) { paced with server }
  | ask {contentionTime now : Int} (fresh : paced.pace = .fresh)
      (set : contentionTimeNs = some contentionTime) (later : paced.clock ≤ now) :
    Goes cfg contentionTimeNs paced (.ask now) { paced with
      clock := now
      pace := .waiting (paced.lastSent + contentionTime - now) now }
  | wake {contention asked now : Int} (waiting : paced.pace = .waiting contention asked)
      (later : paced.clock ≤ now) (slept : 0 < contention → asked + contention ≤ now) :
    Goes cfg contentionTimeNs paced (.wake now) { paced with clock := now, pace := .awake }
  | stamp {now : Int} (awake : paced.pace = .awake) (later : paced.clock ≤ now) :
    Goes cfg contentionTimeNs paced (.stamp now)
      { paced with clock := now, lastSent := now, pace := .stamped }
  | send {returned : Bool} {now : Int} {job : Job Fd} {server : Server Fd}
      (at_ : paced.server.tx = .busSend job) (later : paced.clock ≤ now)
      (ready : paced.pace = .stamped ∨ contentionTimeNs = none ∨ contentionTimeNs = some 0)
      (stepped : paced.server.txBus returned = some server) :
    Goes cfg contentionTimeNs paced (.send returned now) { paced with
      server
      clock := now
      pace := .fresh
      sends := if returned then paced.sends ++ [(job.message, ⟨paced.lastSent, now⟩)]
        else paced.sends }

variable [DecidableEq Fd] {cfg : Config} {contentionTimeNs : Option Int}
  {peers : List (Consumer Fd)} {p q : PacedServer Fd} {actions : List (PacedAction Fd)}

theorem step_goes {action : PacedAction Fd}
    (stepped : p.step cfg contentionTimeNs action = some q) :
    p.Goes cfg contentionTimeNs action q := by
  cases action with
  | plain action =>
    cases action with
    | txBus => cases stepped
    | _ =>
      obtain ⟨server, taken, rfl⟩ := Option.map_eq_some_iff.mp stepped
      exact .plain (by simp) taken
  | ask now =>
    simp only [step, ask] at stepped
    split at stepped
    · rename_i fresh
      obtain ⟨⟨_, later⟩, taken⟩ := Option.ite_none_right_eq_some.mp stepped
      cases taken
      exact .ask fresh rfl later
    · cases stepped
  | wake now =>
    simp only [step, wake] at stepped
    split at stepped
    · obtain ⟨⟨later, slept⟩, taken⟩ := Option.ite_none_right_eq_some.mp stepped
      cases taken
      exact .wake ‹_› later slept
    · cases stepped
  | stamp now =>
    simp only [step, stamp] at stepped
    split at stepped
    · obtain ⟨later, taken⟩ := Option.ite_none_right_eq_some.mp stepped
      cases taken
      exact .stamp ‹_› later
    · cases stepped
  | send returned now =>
    simp only [step, send] at stepped
    obtain ⟨⟨later, ready⟩, taken⟩ := Option.ite_none_right_eq_some.mp stepped
    split at taken
    · obtain ⟨server, sent, rfl⟩ := Option.map_eq_some_iff.mp taken
      exact .send ‹_› later ready sent
    · cases taken

/-- What the loop relies on before it sends: the clock has passed the last stamp and the
contention time, and then the new stamp has. -/
def Ready (contentionTime : Int) (paced : PacedServer Fd) : Prop :=
  match paced.pace with
  | .fresh => True
  | .waiting contention asked =>
    contention = paced.lastSent + contentionTime - asked ∧ asked ≤ paced.clock
  | .awake => paced.lastSent + contentionTime ≤ paced.clock
  | .stamped => paced.lastSent ≤ paced.clock ∧ ∀ sent ∈ paced.sends,
    sent.2.Follows contentionTime ⟨paced.lastSent, paced.clock⟩

structure Keeps (contentionTime : Int) (paced : PacedServer Fd) : Prop where
  sends : paced.server.busTraffic = paced.sends.map Prod.fst
  releases : Paced contentionTime (paced.sends.map Prod.snd)
  bound : ∀ sent ∈ paced.sends, sent.2.stamp ≤ paced.lastSent ∧ sent.2.time ≤ paced.clock
  ready : paced.Ready contentionTime

theorem Goes.keeps {contentionTime : Int} {action : PacedAction Fd} (positive : 0 < contentionTime)
    (goes : p.Goes cfg (some contentionTime) action q) (keeps : p.Keeps contentionTime) :
    q.Keeps contentionTime := by
  obtain ⟨sends, releases, bound, ready⟩ := keeps
  cases goes with
  | @plain action server unsent stepped =>
    exact ⟨((step_moves stepped).busTraffic_keeps (unsent true)).trans sends, releases, bound,
      ready⟩
  | ask fresh set later =>
    cases set
    exact ⟨sends, releases, fun sent member => ⟨(bound sent member).1,
      (bound sent member).2.trans later⟩, rfl, le_refl _⟩
  | @wake contention asked now waiting later slept =>
    refine ⟨sends, releases, fun sent member => ⟨(bound sent member).1,
      (bound sent member).2.trans later⟩, ?_⟩
    obtain ⟨rfl, before⟩ : contention = p.lastSent + contentionTime - asked ∧ asked ≤ p.clock := by
      simpa only [Ready, waiting] using ready
    change p.lastSent + contentionTime ≤ now
    by_cases sleeps : 0 < p.lastSent + contentionTime - asked
    · have woken := slept sleeps
      omega
    · omega
  | @stamp now awake later =>
    have passed : p.lastSent + contentionTime ≤ p.clock := by simpa only [Ready, awake] using ready
    refine ⟨sends, releases, fun sent member => ?_, le_refl _, fun sent member => ?_⟩
    · obtain ⟨stamped, happened⟩ := bound sent member
      exact ⟨by change sent.2.stamp ≤ now; omega, happened.trans later⟩
    · obtain ⟨stamped, happened⟩ := bound sent member
      constructor
      · change sent.2.stamp + contentionTime ≤ now
        omega
      · exact happened.trans later
  | @send returned now job server at_ later paced stepped =>
    obtain stamped : p.pace = .stamped := by
      rcases paced with stamped | unset | zero
      · exact stamped
      · cases unset
      · cases zero
        exact absurd positive (lt_irrefl 0)
    obtain ⟨taken, follows⟩ : p.lastSent ≤ p.clock ∧ ∀ sent ∈ p.sends,
        sent.2.Follows contentionTime ⟨p.lastSent, p.clock⟩ := by
      simpa only [Ready, stamped] using ready
    simp only [txBus, at_] at stepped
    cases returned with
    | false =>
      cases stepped
      exact ⟨sends, releases, fun sent member => ⟨(bound sent member).1,
        (bound sent member).2.trans later⟩, trivial⟩
    | true =>
      cases stepped
      refine ⟨by simp [sends], ?_, ?_, trivial⟩
      · simp only [if_true, List.map_append, List.map_cons, List.map_nil]
        refine releases.concat (fun earlier member => ?_) (taken.trans later)
        obtain ⟨sent, before, rfl⟩ := List.mem_map.mp member
        exact follows sent before
      · intro sent member
        rcases List.mem_append.mp member with before | last
        · exact ⟨(bound sent before).1, (bound sent before).2.trans later⟩
        · rw [List.mem_singleton.mp last]
          exact ⟨le_refl _, le_refl _⟩

/-- With a contention time, the stamps of the sends to the bus are that far apart, in every run.
A send may come late after its stamp, and the next one then soon after it; but in no window of
time does the bus get more than two frames beyond those that the contention time admits. -/
theorem paced_rate {contentionTime : Int} (positive : 0 < contentionTime)
    (path : run (step cfg (some contentionTime)) (start cfg peers) actions = some p) :
    p.server.busTraffic = p.sends.map Prod.fst ∧
      (p.sends.map Prod.snd).Pairwise (Release.Follows contentionTime) ∧
      ∀ a b, a ≤ b → ((countIn a b (p.sends.map Prod.snd) : Int) - 2) * contentionTime ≤ b - a := by
  have initial : (start cfg peers).Keeps contentionTime := ⟨rfl, .nil, by simp [start], trivial⟩
  have keeps : p.Keeps contentionTime :=
    invariant_run (fun _ _ _ keeps _ stepped => (step_goes stepped).keeps positive keeps)
      initial along_true path
  exact ⟨keeps.sends, keeps.releases.ordered, fun a b window =>
    keeps.releases.countIn_le positive.le window⟩

/-- Two frames of a consumer. The first is sent long after its stamp, the second as soon as it
may be. -/
def lateSendRun : List (PacedAction Nat) :=
  [.plain .tx, .plain (.txSelect [.ready 0 true false]), .plain .tx,
    .plain (.txRecv (some ⟨0x7, [1], false⟩)), .plain .tx, .plain .tx,
    .ask 100, .wake 1000, .stamp 1000, .send true 1900,
    .plain .tx, .plain .tx, .plain (.txSelect [.ready 0 true false]), .plain .tx,
    .plain (.txRecv (some ⟨0x7, [2], false⟩)), .plain .tx, .plain .tx,
    .ask 1950, .wake 2000, .stamp 2000, .send true 2000]

theorem paced_rate_late :
    ∃ p, run (step .realBus (some 1000)) (start .realBus [⟨0, none⟩]) lateSendRun = some p ∧
      countIn 1900 2000 (p.sends.map Prod.snd) = 2 ∧
      ((countIn 0 2000 (p.sends.map Prod.snd) : Int) - 2) * 1000 ≤ 2000 - 0 := by
  have ends : (run (step .realBus (some 1000)) (start .realBus [⟨0, none⟩]) lateSendRun).map
      (fun p => countIn 1900 2000 (p.sends.map Prod.snd)) = some 2 := by decide +kernel
  obtain ⟨p, path, close⟩ := Option.map_eq_some_iff.mp ends
  exact ⟨p, path, close, (paced_rate (by decide) path).2.2 0 2000 (by decide)⟩

theorem step_plain {action : Action Fd} {server : Server Fd}
    (unsent : ∀ returned, action ≠ .txBus returned)
    (stepped : p.server.step cfg action = some server) :
    p.step cfg contentionTimeNs (.plain action) = some { p with server } := by
  cases action with
  | txBus returned => exact absurd rfl (unsent returned)
  | _ => simp only [step, stepped, Option.map_some]

theorem Goes.server {action : PacedAction Fd} (goes : p.Goes cfg contentionTimeNs action q) :
    q.server = p.server ∨ ∃ action, True ∧ p.server.step cfg action = some q.server := by
  cases goes with
  | plain unsent stepped => exact Or.inr ⟨_, trivial, stepped⟩
  | ask | wake | stamp => exact Or.inl rfl
  | @send returned now job server at_ later ready stepped =>
    exact Or.inr ⟨.txBus returned, trivial, stepped⟩

/-- The loop pauses, if it is to, and sends. -/
theorem send_follows {returned : Bool} {server : Server Fd} (fresh : p.pace = .fresh)
    (stepped : p.server.txBus returned = some server) :
    ∃ actions q, run (step cfg contentionTimeNs) p actions = some q ∧ q.pace = .fresh ∧
      q.server = server := by
  obtain ⟨job, at_⟩ := busSend_of_txBus stepped
  have direct (ready : PacedServer Fd) (same : ready.server = p.server)
      (may : ready.pace = .stamped ∨ contentionTimeNs = none ∨ contentionTimeNs = some 0) :
      ∃ q, step cfg contentionTimeNs ready (.send returned ready.clock) = some q ∧
        q.pace = .fresh ∧ q.server = server := by
    simp only [step, send, same, at_, may, le_refl, true_and, if_true, stepped, Option.map_some]
    exact ⟨_, rfl, rfl, rfl⟩
  by_cases unpaced : contentionTimeNs = none ∨ contentionTimeNs = some 0
  · obtain ⟨q, sends, ends⟩ := direct p rfl (Or.inr unpaced)
    exact ⟨[.send returned p.clock], q, by simp [run, sends], ends⟩
  · obtain ⟨contentionTime, rfl⟩ : ∃ contentionTime, contentionTimeNs = some contentionTime := by
      cases contentionTimeNs with
      | none => exact absurd (Or.inl rfl) unpaced
      | some contentionTime => exact ⟨contentionTime, rfl⟩
    have nonzero : contentionTime ≠ 0 := fun zero => unpaced (Or.inr (congrArg some zero))
    -- It asks at once, and is woken as early as it may be.
    let woken := max p.clock (p.lastSent + contentionTime)
    let ready : PacedServer Fd :=
      { p with clock := woken, lastSent := woken, pace := .stamped }
    obtain ⟨q, sends, ends⟩ := direct ready rfl (Or.inl rfl)
    refine ⟨[.ask p.clock, .wake woken, .stamp woken, .send returned woken], q, ?_, ends⟩
    have asks : p.ask (some contentionTime) p.clock = some { p with
        pace := .waiting (p.lastSent + contentionTime - p.clock) p.clock } := by
      simp [ask, at_, fresh, nonzero]
    have slept : p.clock + (p.lastSent + contentionTime - p.clock) ≤ woken := by
      have later := le_max_right p.clock (p.lastSent + contentionTime)
      omega
    have wakes : ({ p with
        pace := .waiting (p.lastSent + contentionTime - p.clock) p.clock } : PacedServer Fd).wake
          woken = some { p with clock := woken, pace := .awake } :=
      if_pos ⟨le_max_left _ _, fun _ => slept⟩
    have stamps : ({ p with clock := woken, pace := .awake } : PacedServer Fd).stamp woken =
        some ready := if_pos (le_refl _)
    have path : run (step cfg (some contentionTime)) ready [.send returned woken] = some q :=
      (run_cons sends).mpr rfl
    simpa only [run, step, asks, wakes, stamps, Option.bind_some] using path

/-- The contention time delays the frames to the bus, and changes nothing else: whatever it is,
the server comes to the states that it comes to without it, and to no others. -/
theorem paced_transparent (s : Server Fd) :
    (∃ actions p, run (step cfg contentionTimeNs) (start cfg peers) actions = some p ∧
        p.server = s) ↔
      ∃ actions, run (Server.step cfg) (Server.start cfg peers) actions = some s := by
  constructor
  · rintro ⟨actions, p, path, rfl⟩
    have simulates : Simulates (step cfg contentionTimeNs) (Server.step cfg)
        (fun (_ : PacedServer Fd) _ => True) (fun _ _ => True) PacedServer.server :=
      fun p action q _ stepped => (step_goes stepped).server
    obtain ⟨shown, shows, _⟩ := simulates.run along_true path
    exact ⟨shown, shows⟩
  · rintro ⟨actions, path⟩
    have covers : Covers (step cfg contentionTimeNs) (Server.step cfg)
        (fun (p : PacedServer Fd) => p.pace = .fresh) PacedServer.server := by
      intro p action server fresh stepped
      by_cases sends : ∃ returned, action = .txBus returned
      · obtain ⟨returned, rfl⟩ := sends
        exact send_follows fresh stepped
      · have unsent (returned : Bool) : action ≠ .txBus returned := fun same =>
          sends ⟨returned, same⟩
        exact ⟨[.plain action], { p with server }, (run_cons (step_plain unsent stepped)).mpr rfl,
          fresh, rfl⟩
    obtain ⟨shown, p, shows, _, same⟩ := covers.run (s := start cfg peers) rfl path
    exact ⟨shown, p, shows, same⟩

end PacedServer

end Sockcan.Server
