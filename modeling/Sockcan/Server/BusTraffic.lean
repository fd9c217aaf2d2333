import Sockcan.Server.Moves

/-! What the real bus gets of the consumers: every frame that the TX loop has read, in the
order of the reads, whatever the filters and whatever becomes of the consumers. -/
namespace Sockcan.Server
open Protocol Transition
variable {Fd : Type}

/-- The frame that the TX loop is relaying. -/
def TxPoint.relaying : TxPoint Fd → List (Relayed Fd)
  | .advance job _ | .lookup job _ _ | .offer job _ _ _ | .busSend job => [job.message]
  | .whileRunning | .select | .nextEvent _ | .readKillSwitch _ | .checkRunning _ | .recv _ _ _
  | .unregister _ _ | .reportDead _ _ | .drain _ _ | .peek _ _ | .drainSend _ _ _ _
  | .popleft _ _ _ | .settle _ _ | .ended _ => []

/-- The frames read from the consumers so far, kept beside the server. -/
def readings (messages : List (Relayed Fd)) (s : Server Fd) : Action Fd → List (Relayed Fd)
  | .txRecv (some frame) => match s.tx with
    | .recv fd _ _ => messages ++ [s.stamp (some fd) frame]
    | _ => messages
  | _ => messages

/-- All but the frame in hand has gone to the bus; an exception may end the loop with it. -/
def Bused (s : Server Fd) (messages : List (Relayed Fd)) : Prop :=
  ∃ rest, messages = s.busTraffic ++ rest ∧
    (rest = s.tx.relaying ∨ rest.length ≤ 1 ∧ ∃ why, why ≠ .returned ∧ s.tx = .ended why)

variable [DecidableEq Fd] {cfg : Config} {peers : List (Consumer Fd)} {s t : Server Fd}
  {action : Action Fd} {actions : List (Action Fd)} {messages : List (Relayed Fd)}

omit [DecidableEq Fd] in
theorem Job.afterRead_relaying (job : Job Fd) : job.afterRead.relaying = [] := by
  unfold Job.afterRead
  split <;> rfl

omit [DecidableEq Fd] in
theorem Bused.congr (bused : s.Bused messages) (tx : t.tx = s.tx)
    (traffic : t.busTraffic = s.busTraffic) : t.Bused messages := by
  rw [Bused, tx, traffic]
  exact bused

omit [DecidableEq Fd] in
/-- What is in hand while the loop runs. -/
theorem Bused.running (bused : s.Bused messages) (running : ∀ why, s.tx ≠ .ended why) :
    messages = s.busTraffic ++ s.tx.relaying := by
  obtain ⟨rest, read, rfl | ⟨_, why, _, ended⟩⟩ := bused
  · exact read
  · exact absurd ended (running why)

omit [DecidableEq Fd] in
/-- The loop goes on, or ends, with the frame that it has in hand. -/
theorem Bused.goes (bused : s.Bused messages) (running : ∀ why, s.tx ≠ .ended why)
    (traffic : t.busTraffic = s.busTraffic)
    (tx : t.tx.relaying = s.tx.relaying ∨ ∃ why, why ≠ .returned ∧ t.tx = .ended why) :
    t.Bused messages := by
  refine ⟨s.tx.relaying, ?_, ?_⟩
  · rw [traffic]
    exact bused.running running
  · refine tx.imp Eq.symm fun ended => ⟨?_, ended⟩
    cases s.tx <;> simp [TxPoint.relaying]

omit [DecidableEq Fd] in
theorem Selects.bused (move : Selects s action t) (bused : s.Bused messages) :
    t.Bused (readings messages s action) := by
  have unread : readings messages s action = messages := by cases move <;> rfl
  rw [unread]
  refine bused.goes (fun why ended => ?_) (congrArg Server.busTraffic move.frame :) (Or.inl ?_)
  · cases move <;> simp_all
  · cases move <;> simp only [TxPoint.relaying, *]

theorem GivesUp.bused (move : GivesUp s action t) (bused : s.Bused messages) :
    t.Bused (readings messages s action) := by
  have unread : readings messages s action = messages := by cases move <;> rfl
  rw [unread]
  refine bused.goes (fun why ended => ?_) (congrArg Server.busTraffic move.frame :) (Or.inl ?_)
  · cases move <;> simp_all
  · cases move <;> simp only [TxPoint.relaying, *]

theorem Drains.bused {fd : Fd} {events : List (Event Fd)} (move : Drains s fd events action t)
    (bused : s.Bused messages) : t.Bused (readings messages s action) := by
  have unread : readings messages s action = messages := by cases move <;> rfl
  rw [unread]
  refine bused.goes (fun why ended => ?_) (congrArg Server.busTraffic move.frame :) (Or.inl ?_)
  · cases move <;> simp_all
  · cases move with
    | @call _ _ _ _ answer at_ =>
      rw [at_]
      cases answer with
      | error => rfl
      | ok step => cases step <;> rfl
    | _ => simp only [TxPoint.relaying, *]

theorem TxRelays.bused (move : TxRelays cfg s action t) (real : cfg.virtual = false)
    (bused : s.Bused messages) : t.Bused (readings messages s action) := by
  have running (why : Ending) (ended : s.tx = .ended why) : False := by
    cases move <;> simp_all
  have held := bused.running running
  cases move with
  | @recv fd writable events frame at_ =>
    refine ⟨[s.stamp (some fd) frame], ?_, Or.inl rfl⟩
    rw [at_] at held
    simp only [readings, at_, held, TxPoint.relaying, List.append_nil]
    rfl
  | @finish job index at_ =>
    refine bused.goes running rfl (Or.inl ?_)
    rw [at_, real]
    rfl
  | self at_ | accept at_ | skip at_ | hand at_ | handMissing at_ =>
    refine bused.goes running rfl (Or.inl ?_)
    rw [at_]
    rfl
  | @offer job index consumer point after result at_ offer =>
    refine bused.goes running (congrArg Server.busTraffic offer.frame :) ?_
    rw [at_]
    cases offer with
    | queueMissing => exact Or.inr ⟨_, by decide, rfl⟩
    | _ => exact Or.inl rfl
  | @call job index consumer progress outcome after answer at_ call =>
    refine bused.goes running (congrArg Server.busTraffic call.frame :) ?_
    rw [at_]
    cases call with
    | unpacked => exact Or.inr ⟨_, by decide, rfl⟩
    | call =>
      left
      cases sendCall streamSendAttempts progress outcome <;> rfl
  | @bus job at_ =>
    refine ⟨[], ?_, Or.inl job.afterRead_relaying.symm⟩
    rw [at_] at held
    rw [List.append_nil]
    exact held
  | @busError job at_ =>
    refine bused.goes running rfl (Or.inr ⟨_, by decide, rfl⟩)

theorem Moves.bused (move : Moves cfg s action t) (real : cfg.virtual = false)
    (bused : s.Bused messages) : t.Bused (readings messages s action) := by
  cases move with
  | clean move =>
    exact bused.congr (congrArg Server.tx move.frame :) (congrArg Server.busTraffic move.frame :)
  | rxRelay move =>
    have unread : readings messages s action = messages := by cases move <;> rfl
    rw [unread]
    exact bused.congr (congrArg Server.tx move.frame :) (congrArg Server.busTraffic move.frame :)
  | select move => exact move.bused bused
  | giveUp move => exact move.bused bused
  | txRelay move => exact move.bused real bused
  | drain move => exact move.bused bused
  | listen move =>
    have unread : readings messages s action = messages := by cases move <;> rfl
    rw [unread]
    exact bused.congr (congrArg Server.tx move.frame :) (congrArg Server.busTraffic move.frame :)
  | stop move =>
    exact bused.congr (congrArg Server.tx move.frame :) (congrArg Server.busTraffic move.frame :)

/-- In every run, with clients that come, go and fail, the bus gets the frames that were read
from the consumers: all of them, in the order of the reads, each once and whether or not a
consumer wants it. Only the one in hand is not sent yet, or it went down with the loop. -/
theorem bus_gets_readings (real : cfg.virtual = false)
    (path : run (recorded (step cfg) readings) (start cfg peers, []) actions =
      some (s, messages)) :
    ∃ rest, messages = s.busTraffic ++ rest ∧ rest.length ≤ 1 ∧
      ((∀ why, s.tx = .ended why → why = .returned) → rest = s.tx.relaying) := by
  have bused : s.Bused messages := by
    refine invariant_run (I := fun state : Server Fd × List (Relayed Fd) =>
      state.1.Bused state.2) ?_ ⟨[], rfl, Or.inl rfl⟩ along_true path
    rintro ⟨u, before⟩ action ⟨v, after⟩ bused _ stepped
    obtain ⟨next, step, same⟩ := Option.map_eq_some_iff.mp stepped
    cases same
    exact (step_moves step).bused real bused
  obtain ⟨rest, read, rfl | ⟨short, why, raised, ended⟩⟩ := bused
  · refine ⟨_, read, ?_, fun _ => rfl⟩
    cases s.tx <;> simp [TxPoint.relaying]
  · exact ⟨rest, read, short, fun returns => absurd (returns why ended) raised⟩

/-- Two consumers are read in one selection; neither wants what the other sends. -/
def bothReadRun : List (Action Nat) :=
  [.tx, .txSelect [.ready 1 true false, .ready 0 true false],
    .tx, .txRecv (some ⟨0x101, [1], false⟩), .tx, .tx, .tx, .txBus true,
    .tx, .txRecv (some ⟨0x100, [0], false⟩), .tx]

theorem bus_gets_readings_both :
    ∃ s, run (recorded (step .realBus) readings)
        (start .realBus [⟨0, some [⟨0x7, 0x7FF, none⟩]⟩, ⟨1, some [⟨0x7, 0x7FF, none⟩]⟩], [])
        bothReadRun =
          some (s, [⟨some 1, 0, ⟨0x101, [1], false⟩⟩, ⟨some 0, 0, ⟨0x100, [0], false⟩⟩]) ∧
      ∃ rest, [⟨some 1, 0, ⟨0x101, [1], false⟩⟩, ⟨some 0, 0, ⟨0x100, [0], false⟩⟩] =
        s.busTraffic ++ rest ∧ rest.length ≤ 1 := by
  obtain ⟨s, path⟩ : ∃ s, run (recorded (step .realBus) readings)
      (start .realBus [⟨0, some [⟨0x7, 0x7FF, none⟩]⟩, ⟨1, some [⟨0x7, 0x7FF, none⟩]⟩], [])
      bothReadRun =
        some (s, [⟨some 1, 0, ⟨0x101, [1], false⟩⟩, ⟨some 0, 0, ⟨0x100, [0], false⟩⟩]) := ⟨_, rfl⟩
  obtain ⟨rest, read, short, _⟩ := bus_gets_readings rfl path
  exact ⟨s, path, rest, read, short⟩

end Sockcan.Server
