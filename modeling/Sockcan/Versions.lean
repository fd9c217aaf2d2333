import Mathlib.Logic.Function.Basic

/-! Attempts of several threads to compute a value from shared data and to publish it.
They are numbered in the order in which they begin, so that it can be told when an older
attempt publishes after the latest one did. -/
namespace Sockcan.Versions
variable {T : Type}

/-- How many attempts have begun, the number of each thread's last one, and that of the
attempt whose value is published. -/
structure Clock (T : Type) where
  begun : Nat
  number : T → Nat
  installed : Nat

def Clock.zero : Clock T := ⟨0, fun _ => 0, 0⟩

def Clock.begin [DecidableEq T] (clock : Clock T) (thread : T) : Clock T :=
  { clock with
    begun := clock.begun + 1
    number := Function.update clock.number thread (clock.begun + 1) }

def Clock.install (clock : Clock T) (thread : T) : Clock T :=
  { clock with installed := clock.number thread }

/-- No attempt began after the last one of this thread. -/
def Clock.Latest (clock : Clock T) (thread : T) : Prop := clock.number thread = clock.begun

/-- The attempt that began last has published. -/
def Clock.Current (clock : Clock T) : Prop := clock.installed = clock.begun

instance (clock : Clock T) : Decidable clock.Current := inferInstanceAs (Decidable (_ = _))

/-- At most one of the attempts in progress is the one that began last. -/
structure Clock.Sound (clock : Clock T) (busy : T → Prop) : Prop where
  bound : ∀ thread, clock.number thread ≤ clock.begun
  sole : ∀ first second, busy first → busy second → clock.Latest first → clock.Latest second →
    first = second

variable {clock : Clock T} {busy busy' : T → Prop} {thread other : T}

theorem Clock.Sound.mono (sound : clock.Sound busy) (fewer : ∀ thread, busy' thread → busy thread) :
    clock.Sound busy' where
  bound := sound.bound
  sole first second at_first at_second :=
    sound.sole first second (fewer first at_first) (fewer second at_second)

theorem Clock.Sound.install (sound : clock.Sound busy) (thread : T) :
    (clock.install thread).Sound busy := ⟨sound.bound, sound.sole⟩

theorem Clock.Latest.install (latest : clock.Latest thread) : (clock.install thread).Current :=
  latest

variable [DecidableEq T]

theorem Clock.latest_begin (clock : Clock T) (thread : T) : (clock.begin thread).Latest thread := by
  simp [Clock.Latest, Clock.begin]

theorem Clock.Sound.latest_begin_iff (sound : clock.Sound busy) :
    (clock.begin thread).Latest other ↔ other = thread := by
  constructor
  · intro latest
    by_contra apart
    have bound := sound.bound other
    simp only [Clock.Latest, Clock.begin, Function.update_of_ne apart] at latest
    omega
  · rintro rfl
    exact clock.latest_begin other

theorem Clock.Sound.begin (sound : clock.Sound busy) (thread : T) (busy' : T → Prop) :
    (clock.begin thread).Sound busy' where
  bound other := by
    have bound := sound.bound other
    simp only [Clock.begin, Function.update_apply]
    split <;> omega
  sole first second _ _ at_first at_second := by
    rw [sound.latest_begin_iff] at at_first at_second
    exact at_first.trans at_second.symm

omit [DecidableEq T] in
theorem Clock.Sound.zero (idle : ∀ thread : T, ¬ busy thread) :
    (Clock.zero : Clock T).Sound busy where
  bound _ := Nat.le_refl 0
  sole first _ at_first := absurd at_first (idle first)

end Sockcan.Versions
