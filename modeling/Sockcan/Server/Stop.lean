import Sockcan.Server.Moves

/-! Whether `stop` can be slept through. It wakes the TX loop before it tells the loop to
end, and the loop reads one wake-up at a time and tests the flag in two places. -/
namespace Sockcan.Server
open Protocol Transition
variable {Fd : Type} [DecidableEq Fd]

/-- `stop` has returned and nothing is left to wake the TX loop with. -/
def SleptThrough (s : Server Fd) : Prop :=
  s.running = false ∧ s.stopping = .ready ∧ s.tx = .select ∧ s.wakeUps = 0

instance (s : Server Fd) : Decidable s.SleptThrough :=
  inferInstanceAs (Decidable (_ ∧ _ ∧ _ ∧ _))

/-- When `stop` clears the flag, the TX loop is awake or a byte will wake it. -/
def StopsAwake (s : Server Fd) (action : Action Fd) : Prop :=
  action = .stop → s.stopping = .clear → s.tx = .select → 0 < s.wakeUps

instance (s : Server Fd) (action : Action Fd) : Decidable (s.StopsAwake action) :=
  inferInstanceAs (Decidable (_ → _ → _ → _))

variable {cfg : Config} {s t : Server Fd} {action : Action Fd} {actions : List (Action Fd)}
  {fd : Fd} {events : List (Event Fd)}

omit [DecidableEq Fd] in
theorem Job.afterRead_awake (job : Job Fd) : job.afterRead ≠ .select := by
  unfold Job.afterRead
  split <;> intro asleep <;> contradiction

theorem GivesUp.awake (move : GivesUp s action t) : t.tx ≠ .select := by
  cases move <;> intro asleep <;> contradiction

theorem TxRelays.awake (move : TxRelays cfg s action t) : t.tx ≠ .select := by
  intro asleep
  cases move with
  | finish =>
    simp only at asleep
    split at asleep
    · exact Job.afterRead_awake _ asleep
    · contradiction
  | offer at_ offer =>
    rename_i result
    cases result <;> contradiction
  | call at_ call => cases call with
    | unpacked => contradiction
    | call =>
      simp only [TxPoint.afterSend] at asleep
      split at asleep <;> contradiction
  | bus => exact Job.afterRead_awake _ asleep
  | _ => contradiction

theorem Drains.awake (move : Drains s fd events action t) : t.tx ≠ .select := by
  intro asleep
  cases move with
  | call at_ call => cases call with
    | unpacked => contradiction
    | call =>
      simp only [TxPoint.afterDrainSend] at asleep
      split at asleep <;> contradiction
  | _ => contradiction

/-- The TX loop goes to sleep only after a test that found the flag set. -/
theorem Moves.falls_asleep (move : Moves cfg s action t) (asleep : t.tx = .select) :
    s.tx = .select ∨ s.running := by
  rcases move.tx_cases with same | selects | givesUp | relays | ⟨fd, events, drains⟩
  · exact Or.inl (same ▸ asleep)
  · cases selects with
    | running _ running => exact Or.inr running
    | _ => contradiction
  · exact absurd asleep givesUp.awake
  · exact absurd asleep relays.awake
  · exact absurd asleep drains.awake

/-- Wake-ups are read only by the TX loop, which then is awake. -/
theorem Moves.keeps_wakeUps (move : Moves cfg s action t) (asleep : t.tx = .select) :
    s.wakeUps ≤ t.wakeUps := by
  cases move with
  | clean move => exact Nat.le_of_eq (congrArg Server.wakeUps move.frame :).symm
  | rxRelay move => cases move with
    | offer at_ offer => exact Nat.le_of_eq (congrArg Server.wakeUps offer.frame :).symm
    | call at_ call => exact Nat.le_of_eq (congrArg Server.wakeUps call.frame :).symm
    | wake => exact Nat.le_succ _
    | _ => exact Nat.le_refl _
  | select move => cases move with
    | readKillSwitch => contradiction
    | _ => exact Nat.le_refl _
  | giveUp move => exact Nat.le_of_eq (congrArg Server.wakeUps move.frame :).symm
  | txRelay move => exact Nat.le_of_eq (congrArg Server.wakeUps move.frame :).symm
  | drain move => exact Nat.le_of_eq (congrArg Server.wakeUps move.frame :).symm
  | listen move => cases move with
    | wake => exact Nat.le_succ _
    | _ => exact Nat.le_refl _
  | stop move => cases move with
    | wake => exact Nat.le_succ _
    | clear => exact Nat.le_refl _

def flags (s : Server Fd) : Bool × StopPoint := (s.running, s.stopping)

theorem Moves.flags (move : Moves cfg s action t) (other : action ≠ .stop) :
    t.flags = s.flags := by
  cases move with
  | clean move => exact (congrArg Server.flags move.frame :)
  | rxRelay move => exact (congrArg Server.flags move.frame :)
  | select move => exact (congrArg Server.flags move.frame :)
  | giveUp move => exact (congrArg Server.flags move.frame :)
  | txRelay move => exact (congrArg Server.flags move.frame :)
  | drain move => exact (congrArg Server.flags move.frame :)
  | listen move => exact (congrArg Server.flags move.frame :)
  | stop => contradiction

/-- Only the second effect of `stop` can leave the loop asleep for good. -/
theorem step_sleptThrough_iff (step : Server.step cfg s action = some t)
    (heard : ¬ s.SleptThrough) : ¬ t.SleptThrough ↔ s.StopsAwake action := by
  have move := step_moves step
  by_cases stops : action = .stop
  · subst stops
    simp only [Server.step, stopStep] at step
    split at step
    · next ready =>
      split at step <;> cases step
      simp [SleptThrough, StopsAwake, ready]
    · next clear =>
      cases step
      simp only [SleptThrough, StopsAwake, clear, true_and, forall_const, not_and,
        Nat.pos_iff_ne_zero]
  · have awake : s.StopsAwake action := fun stop => absurd stop stops
    simp only [awake, iff_true]
    rintro ⟨stopped, ready, asleep, unread⟩
    obtain ⟨running, stopping⟩ := Prod.mk.inj (move.flags stops)
    have flag := running.symm.trans stopped
    have before : s.tx = .select := by
      rcases move.falls_asleep asleep with before | set
      · exact before
      · rw [flag] at set
        contradiction
    have none : s.wakeUps = 0 := by
      have kept := move.keeps_wakeUps asleep
      omega
    exact heard ⟨flag, stopping.symm.trans ready, before, none⟩

/-- `stop` is never slept through exactly when the TX loop is not already waiting with an
empty kill switch as `stop` clears the flag. -/
theorem stop_heard_iff (cfg : Config) (peers : List (Consumer Fd)) (actions : List (Action Fd)) :
    Throughout (step cfg) (fun s => ¬ s.SleptThrough) (start cfg peers) actions ↔
      Along (step cfg) StopsAwake (start cfg peers) actions :=
  throughout_iff_along (I := fun _ => True) (fun _ _ _ _ _ _ => trivial)
    (fun _ _ _ _ _ step heard => step_sleptThrough_iff step heard) trivial
    (fun slept => Bool.noConfusion slept.1) along_true

/-- The TX loop takes the byte of `stop`, finds the flag still set in both places and goes
back to sleep before `stop` clears it. -/
def sleepingRun : List (Action Nat) :=
  [.tx, .stop, .txSelect [.killSwitch], .tx, .tx, .tx, .tx, .tx, .stop]

theorem stop_slept_through :
    ¬ Throughout (step .virtualBus) (fun s => ¬ s.SleptThrough) (start .virtualBus [⟨0, none⟩])
      sleepingRun := by
  decide +kernel

end Sockcan.Server
