import Mathlib.Data.Nat.Bitwise

/-! Subscription filters, as the relay loops and the bus apply them. -/
namespace Sockcan

/-- One mask filter of python-can; `extended` is the optional key. -/
structure CanFilter where
  canId : Nat
  canMask : Nat
  extended : Option Bool
  deriving DecidableEq, Repr

def CanFilter.matches (canFilter : CanFilter) (canId : Nat) (isExtended : Bool) : Bool :=
  let idMatches := decide (canId &&& canFilter.canMask = canFilter.canId &&& canFilter.canMask)
  let extendedMatches := match canFilter.extended with
    | none => true
    | some extended => isExtended == extended
  idMatches && extendedMatches

/-- A consumer with no filters, or an empty list of them, accepts every frame. -/
def frameMatches (filters : Option (List CanFilter)) (canId : Nat) (isExtended : Bool) : Bool :=
  match filters with
  | none | some [] => true
  | some canFilters => canFilters.any fun canFilter => canFilter.matches canId isExtended

/-- The union that the bus has to receive: one consumer without filters forces
no filtering at all. -/
def aggregateFilters : List (Option (List CanFilter)) → Option (List CanFilter)
  | [] => some []
  | none :: _ | some [] :: _ => none
  | some canFilters :: rest => (aggregateFilters rest).map (canFilters ++ ·)

/-- Every frame that the filters `wanted` accept passes `filters`. -/
def Admits (filters wanted : Option (List CanFilter)) : Prop :=
  ∀ canId isExtended, frameMatches wanted canId isExtended = true →
    frameMatches filters canId isExtended = true

theorem frameMatches_cons_iff {canFilters : List CanFilter} (nonempty : canFilters ≠ [])
    {canId : Nat} {isExtended : Bool} : frameMatches (some canFilters) canId isExtended = true ↔
      ∃ canFilter ∈ canFilters, canFilter.matches canId isExtended = true := by
  cases canFilters with
  | nil => contradiction
  | cons first rest => simp only [frameMatches, List.any_eq_true]

theorem CanFilter.matches_iff (canFilter : CanFilter) (canId : Nat) (isExtended : Bool) :
    canFilter.matches canId isExtended = true ↔
      canId &&& canFilter.canMask = canFilter.canId &&& canFilter.canMask ∧
        ∀ flag, canFilter.extended = some flag → isExtended = flag := by
  simp only [CanFilter.matches, Bool.and_eq_true, decide_eq_true_iff]
  apply and_congr_right
  intro _
  cases canFilter.extended <;> simp

theorem admits_none (wanted : Option (List CanFilter)) : Admits none wanted :=
  fun _ _ _ => rfl

theorem admits_of_subset {canFilters wanted : List CanFilter} (nonempty : wanted ≠ [])
    (included : wanted ⊆ canFilters) : Admits (some canFilters) (some wanted) := by
  intro canId isExtended accepted
  obtain ⟨canFilter, member, matching⟩ := (frameMatches_cons_iff nonempty).mp accepted
  have found := included member
  exact (frameMatches_cons_iff (List.ne_nil_of_mem found)).mpr ⟨canFilter, found, matching⟩

theorem aggregateFilters_includes {filters : List (Option (List CanFilter))}
    {aggregated : List CanFilter} (all : aggregateFilters filters = some aggregated) :
    ∀ wanted ∈ filters, ∃ canFilters, wanted = some canFilters ∧ canFilters ≠ [] ∧
      canFilters ⊆ aggregated := by
  induction filters generalizing aggregated with
  | nil => simp
  | cons first rest ih =>
    match first with
    | none | some [] => simp [aggregateFilters] at all
    | some (canFilter :: canFilters) =>
      obtain ⟨later, inner, rfl⟩ := Option.map_eq_some_iff.mp all
      intro wanted member
      rcases List.mem_cons.mp member with rfl | member
      · exact ⟨_, rfl, List.cons_ne_nil _ _, List.subset_append_left _ _⟩
      · obtain ⟨found, same, nonempty, included⟩ := ih inner wanted member
        exact ⟨found, same, nonempty, List.subset_append_of_subset_right _ included⟩

/-- The union passes what any consumer accepts. -/
theorem aggregateFilters_admits {filters : List (Option (List CanFilter))} :
    ∀ wanted ∈ filters, Admits (aggregateFilters filters) wanted := by
  intro wanted member
  cases all : aggregateFilters filters with
  | none => exact admits_none wanted
  | some aggregated =>
    obtain ⟨canFilters, rfl, nonempty, included⟩ := aggregateFilters_includes all wanted member
    exact admits_of_subset nonempty included

theorem aggregateFilters_origin {filters : List (Option (List CanFilter))}
    {aggregated : List CanFilter} (all : aggregateFilters filters = some aggregated) :
    ∀ canFilter ∈ aggregated, ∃ canFilters, some canFilters ∈ filters ∧ canFilter ∈ canFilters := by
  induction filters generalizing aggregated with
  | nil =>
    cases all
    simp
  | cons first rest ih =>
    match first with
    | none | some [] => simp [aggregateFilters] at all
    | some (canFilter :: canFilters) =>
      obtain ⟨later, inner, rfl⟩ := Option.map_eq_some_iff.mp all
      intro found member
      rcases List.mem_append.mp member with own | member
      · exact ⟨_, List.mem_cons_self, own⟩
      · obtain ⟨others, among, inside⟩ := ih inner found member
        exact ⟨others, List.mem_cons_of_mem _ among, inside⟩

theorem aggregateFilters_none {filters : List (Option (List CanFilter))}
    (unfiltered : aggregateFilters filters = none) :
    ∃ wanted ∈ filters, wanted = none ∨ wanted = some [] := by
  induction filters with
  | nil => contradiction
  | cons first rest ih =>
    match first with
    | none => exact ⟨none, List.mem_cons_self, Or.inl rfl⟩
    | some [] => exact ⟨some [], List.mem_cons_self, Or.inr rfl⟩
    | some (canFilter :: canFilters) =>
      obtain ⟨wanted, member, without⟩ := ih (Option.map_eq_none_iff.mp unfiltered)
      exact ⟨wanted, List.mem_cons_of_mem _ member, without⟩

/-- The union passes the frames that some consumer accepts, and no others. -/
theorem frameMatches_aggregateFilters {filters : List (Option (List CanFilter))}
    (nonempty : filters ≠ []) (canId : Nat) (isExtended : Bool) :
    frameMatches (aggregateFilters filters) canId isExtended = true ↔
      ∃ wanted ∈ filters, frameMatches wanted canId isExtended = true := by
  constructor
  · intro passed
    cases all : aggregateFilters filters with
    | none =>
      obtain ⟨wanted, member, rfl | rfl⟩ := aggregateFilters_none all
      · exact ⟨_, member, rfl⟩
      · exact ⟨_, member, rfl⟩
    | some aggregated =>
      -- The union of at least one list that is not empty is not empty.
      have among : aggregated ≠ [] := by
        obtain ⟨wanted, member⟩ := List.exists_mem_of_ne_nil filters nonempty
        obtain ⟨canFilters, _, filtered, included⟩ := aggregateFilters_includes all wanted member
        obtain ⟨canFilter, inside⟩ := List.exists_mem_of_ne_nil canFilters filtered
        exact List.ne_nil_of_mem (included inside)
      rw [all, frameMatches_cons_iff among] at passed
      obtain ⟨canFilter, member, matching⟩ := passed
      obtain ⟨canFilters, wanted, inside⟩ := aggregateFilters_origin all canFilter member
      refine ⟨some canFilters, wanted, ?_⟩
      rw [frameMatches_cons_iff (List.ne_nil_of_mem inside)]
      exact ⟨canFilter, inside, matching⟩
  · rintro ⟨wanted, member, matching⟩
    exact aggregateFilters_admits wanted member canId isExtended matching

end Sockcan
