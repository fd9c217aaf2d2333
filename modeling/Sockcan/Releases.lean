import Mathlib.Algebra.Order.Ring.Int
import Mathlib.Tactic.Linarith
import Mathlib.Tactic.Ring

/-! Events that keep their distance. Before each of them a stamp is taken, at least `gap` after
the last stamp and not before the last event happened; the event happens at any time after its
stamp. Two events may then be close to each other, but not three. -/
namespace Sockcan.Releases

structure Release where
  stamp : Int
  time : Int
  deriving DecidableEq

def Release.Follows (gap : Int) (first second : Release) : Prop :=
  first.stamp + gap ≤ second.stamp ∧ first.time ≤ second.stamp

/-- The releases, oldest first. -/
structure Paced (gap : Int) (releases : List Release) : Prop where
  ordered : releases.Pairwise (Release.Follows gap)
  stamped : ∀ release ∈ releases, release.stamp ≤ release.time

variable {gap a b : Int} {releases fewer : List Release} {release : Release}

theorem Paced.nil : Paced gap [] := ⟨List.Pairwise.nil, by simp⟩

theorem Paced.concat (paced : Paced gap releases)
    (follows : ∀ earlier ∈ releases, earlier.Follows gap release)
    (stamped : release.stamp ≤ release.time) : Paced gap (releases ++ [release]) where
  ordered := by
    rw [List.pairwise_append]
    refine ⟨paced.ordered, List.pairwise_singleton _ _, fun earlier member last only => ?_⟩
    rw [List.mem_singleton.mp only]
    exact follows earlier member
  stamped other member := by
    rcases List.mem_append.mp member with before | last
    · exact paced.stamped other before
    · rw [List.mem_singleton.mp last]
      exact stamped

theorem Paced.sublist (paced : Paced gap releases) (sub : fewer.Sublist releases) :
    Paced gap fewer :=
  ⟨paced.ordered.sublist sub, fun release member => paced.stamped release (sub.subset member)⟩

/-- The stamps are apart from the first one to some last one. -/
theorem Paced.exists_last (paced : Paced gap (release :: releases)) :
    ∃ last ∈ release :: releases, release.stamp + releases.length * gap ≤ last.stamp := by
  induction releases generalizing release with
  | nil => exact ⟨release, List.mem_cons_self, by simp⟩
  | cons next rest ih =>
    have later := paced.sublist (List.sublist_cons_self release (next :: rest))
    obtain ⟨last, member, apart⟩ := ih later
    have follows : release.Follows gap next :=
      (List.pairwise_cons.mp paced.ordered).1 next List.mem_cons_self
    refine ⟨last, List.mem_cons_of_mem _ member, ?_⟩
    have first := follows.1
    rw [List.length_cons]
    push_cast
    linarith

/-- All but two of the releases in a window of time use up the gap. -/
theorem Paced.length_le (paced : Paced gap releases) (nonneg : 0 ≤ gap) (window : a ≤ b)
    (inside : ∀ release ∈ releases, a ≤ release.time ∧ release.time ≤ b) :
    ((releases.length : Int) - 2) * gap ≤ b - a := by
  rcases releases with _ | ⟨first, _ | ⟨second, rest⟩⟩
  · simp only [List.length_nil]
    push_cast
    linarith
  · simp only [List.length_singleton]
    push_cast
    linarith
  · have later := paced.sublist (List.sublist_cons_self first (second :: rest))
    obtain ⟨last, member, apart⟩ := later.exists_last
    have follows : first.Follows gap second :=
      (List.pairwise_cons.mp paced.ordered).1 second List.mem_cons_self
    have begins := (inside first List.mem_cons_self).1
    have ends := (inside last (List.mem_cons_of_mem _ member)).2
    have happens := later.stamped last member
    have waits := follows.2
    have length : (((first :: second :: rest).length : Int) - 2) * gap = rest.length * gap := by
      simp only [List.length_cons]
      push_cast
      ring
    rw [length]
    linarith

/-- How many releases happen from `a` to `b`. -/
def countIn (a b : Int) (releases : List Release) : Nat :=
  (releases.filter fun release => decide (a ≤ release.time ∧ release.time ≤ b)).length

theorem Paced.countIn_le (paced : Paced gap releases) (nonneg : 0 ≤ gap) (window : a ≤ b) :
    ((countIn a b releases : Int) - 2) * gap ≤ b - a := by
  refine (paced.sublist List.filter_sublist).length_le nonneg window fun release member => ?_
  exact of_decide_eq_true (List.mem_filter.mp member).2

end Sockcan.Releases
