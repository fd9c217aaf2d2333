import Sockcan.Filters
import Sockcan.Tables
import Mathlib.Data.Int.Bitwise
import Mathlib.Data.Rat.Defs

/-! The values that `json.loads` returns, and `_frame_matches` on filters that are such
values: what it reads may be missing or of another type. -/
namespace Sockcan

/-- A float is its value, which NaN and the infinities do not have. A dict is its items. -/
inductive Json where
  | null
  | bool (value : Bool)
  | int (value : Int)
  | float (value : Option Rat)
  | str (value : String)
  | list (elements : List Json)
  | dict (items : List (String × Json))

namespace Json

/-- What an expression raises. -/
inductive EvalError where
  | keyError (key : String)
  | typeError
  deriving DecidableEq, Repr

/-- `value[key]`; only a dict takes a string. -/
def getItem (value : Json) (key : String) : Except EvalError Json :=
  match value with
  | dict items => match items.lookup key with
    | some found => .ok found
    | none => .error (.keyError key)
  | _ => .error .typeError

/-- The integer that the value is; the truth values are integers too. -/
def integer : Json → Option Int
  | bool value => some (if value then 1 else 0)
  | int value => some value
  | _ => none

/-- `left & right`. -/
def bitAnd (left right : Json) : Except EvalError Int :=
  match left.integer, right.integer with
  | some left, some right => .ok (left.land right)
  | _, _ => .error .typeError

/-- `flag == value`. -/
def eqBool (flag : Bool) : Json → Bool
  | bool value => flag == value
  | int value => decide (value = if flag then 1 else 0)
  | float value => decide (value = some (if flag then 1 else 0))
  | _ => false

/-- `"extended" not in can_filter or is_extended == can_filter["extended"]`, of a dict. -/
def extendedMatches (canFilter : Json) (isExtended : Bool) : Bool :=
  match canFilter.getItem "extended" with
  | .ok extended => eqBool isExtended extended
  | .error _ => true

/-- One round of the loop of `_frame_matches`. -/
def matchesFrame (canFilter : Json) (canId : Nat) (isExtended : Bool) : Except EvalError Bool := do
  let filterCanMask ← canFilter.getItem "can_mask"
  let masked ← bitAnd (int canId) filterCanMask
  let filterCanId ← canFilter.getItem "can_id"
  let wanted ← bitAnd filterCanId filterCanMask
  return decide (masked = wanted) && canFilter.extendedMatches isExtended

def anyMatches (canId : Nat) (isExtended : Bool) : List Json → Except EvalError Bool
  | [] => .ok false
  | canFilter :: rest => do
    if ← canFilter.matchesFrame canId isExtended then return true
    else anyMatches canId isExtended rest

/-- `_frame_matches`. -/
def frameMatches (filters : Option (List Json)) (canId : Nat) (isExtended : Bool) :
    Except EvalError Bool :=
  match filters with
  | none | some [] => .ok true
  | some filters => anyMatches canId isExtended filters

/-- A mask filter as it can be read: an object with two integers in it. -/
structure MaskFilter where
  canId : Int
  canMask : Int
  extended : Option Json

/-- The frames that a mask filter is for. -/
def MaskFilter.Accepts (canFilter : MaskFilter) (canId : Nat) (isExtended : Bool) : Prop :=
  Int.land canId canFilter.canMask = Int.land canFilter.canId canFilter.canMask ∧
    ∀ extended, canFilter.extended = some extended → eqBool isExtended extended = true

/-- The value is an object with an integer `can_id` and an integer `can_mask`. -/
def maskFilter : Json → Option MaskFilter
  | dict items => match (items.lookup "can_id").bind integer,
      (items.lookup "can_mask").bind integer with
    | some canId, some canMask => some ⟨canId, canMask, items.lookup "extended"⟩
    | _, _ => none
  | _ => none

/-- The object that a mask filter of python-can is sent as. -/
def ofFilter (canFilter : CanFilter) : Json :=
  let extended := canFilter.extended.map fun flag => ("extended", bool flag)
  dict ([("can_id", int canFilter.canId), ("can_mask", int canFilter.canMask)] ++ extended.toList)

variable {canFilter : Json} {filter : MaskFilter} {elements : List Json} {canId : Nat}
  {isExtended : Bool}

theorem getItem_eq_ok {value found : Json} {key : String} :
    value.getItem key = .ok found ↔
      ∃ items, value = dict items ∧ items.lookup key = some found := by
  cases value with
  | dict items => cases present : items.lookup key <;> simp [getItem, present]
  | _ => simp [getItem]

theorem bitAnd_eq_ok {left right : Json} {result : Int} : bitAnd left right = .ok result ↔
    ∃ first second, left.integer = some first ∧ right.integer = some second ∧
      first.land second = result := by
  cases leftInt : left.integer <;> cases rightInt : right.integer <;>
    simp [bitAnd, leftInt, rightInt]

theorem maskFilter_eq_some : canFilter.maskFilter = some filter ↔
    ∃ items own mask, canFilter = dict items ∧ items.lookup "can_id" = some own ∧
      items.lookup "can_mask" = some mask ∧ own.integer = some filter.canId ∧
      mask.integer = some filter.canMask ∧ items.lookup "extended" = filter.extended := by
  constructor
  · intro reads
    cases canFilter with
    | dict items =>
      simp only [maskFilter] at reads
      split at reads
      · next ownInt maskInt =>
        cases reads
        obtain ⟨own, idFound, idInt⟩ := Option.bind_eq_some_iff.mp ownInt
        obtain ⟨mask, maskFound, maskInt⟩ := Option.bind_eq_some_iff.mp maskInt
        exact ⟨items, own, mask, rfl, idFound, maskFound, idInt, maskInt, rfl⟩
      · contradiction
    | _ => contradiction
  · rintro ⟨items, own, mask, rfl, idFound, maskFound, idInt, maskInt, extended⟩
    simp only [maskFilter, idFound, maskFound, Option.bind_some, idInt, maskInt, extended]

theorem extendedMatches_dict (items : List (String × Json)) (isExtended : Bool) :
    (dict items).extendedMatches isExtended = true ↔
      ∀ extended, items.lookup "extended" = some extended → eqBool isExtended extended = true := by
  cases found : items.lookup "extended" <;> simp [extendedMatches, getItem, found]

/-- A filter that can be read decides every frame, and another one none. -/
theorem matchesFrame_eq_ok {verdict : Bool} :
    canFilter.matchesFrame canId isExtended = .ok verdict ↔
      ∃ filter, canFilter.maskFilter = some filter ∧
        (verdict = true ↔ filter.Accepts canId isExtended) := by
  constructor
  · intro returned
    simp only [matchesFrame, Tables.bind_eq_ok, getItem_eq_ok, bitAnd_eq_ok] at returned
    obtain ⟨mask, ⟨items, rfl, maskFound⟩, _, ⟨_, canMask, ⟨⟩, maskInt, rfl⟩, own,
      ⟨_, ⟨⟩, idFound⟩, _, ⟨ownId, _, idInt, maskAgain, rfl⟩, ⟨⟩⟩ := returned
    obtain rfl := Option.some.inj (maskInt.symm.trans maskAgain)
    refine ⟨⟨ownId, canMask, items.lookup "extended"⟩, ?_, ?_⟩
    · exact maskFilter_eq_some.mpr ⟨items, own, mask, rfl, idFound, maskFound, idInt, maskInt, rfl⟩
    · rw [Bool.and_eq_true, decide_eq_true_iff, extendedMatches_dict]
      rfl
  · rintro ⟨filter, reads, decides⟩
    obtain ⟨items, own, mask, rfl, idFound, maskFound, idInt, maskInt, extended⟩ :=
      maskFilter_eq_some.mp reads
    have same : verdict = (decide (Int.land canId filter.canMask =
        Int.land filter.canId filter.canMask) && (dict items).extendedMatches isExtended) := by
      rw [Bool.eq_iff_iff, decides, Bool.and_eq_true, decide_eq_true_iff, extendedMatches_dict,
        extended]
      rfl
    simp only [matchesFrame, Tables.bind_eq_ok, getItem_eq_ok, bitAnd_eq_ok]
    refine ⟨mask, ⟨items, rfl, maskFound⟩, _, ⟨_, _, rfl, maskInt, rfl⟩, own,
      ⟨items, rfl, idFound⟩, _, ⟨_, _, idInt, maskInt, rfl⟩, ?_⟩
    rw [same]
    rfl

/-- A list of filters raises on a frame at the first one that cannot be read, unless an
earlier one has accepted it. -/
theorem anyMatches_eq_ok : (∃ verdict, anyMatches canId isExtended elements = .ok verdict) ↔
    ∀ before element after, elements = before ++ element :: after →
      element.maskFilter.isSome ∨ ∃ earlier ∈ before, ∃ filter,
        earlier.maskFilter = some filter ∧ filter.Accepts canId isExtended := by
  induction elements with
  | nil =>
    constructor
    · intro _ before element after split
      simp at split
    · intro _
      exact ⟨false, rfl⟩
  | cons first rest ih =>
    simp only [anyMatches, Tables.bind_eq_ok]
    constructor
    · rintro ⟨verdict, decided, judged, goes_on⟩ before element after split
      obtain ⟨filter, reads, decides⟩ := matchesFrame_eq_ok.mp judged
      cases before with
      | nil =>
        obtain ⟨rfl, _⟩ := List.cons.inj split
        exact Or.inl (by rw [reads]; rfl)
      | cons _ before =>
        obtain ⟨rfl, later⟩ := List.cons.inj split
        cases decided with
        | true => exact Or.inr ⟨first, List.mem_cons_self, filter, reads, decides.mp rfl⟩
        | false =>
          apply (ih.mp ⟨verdict, goes_on⟩ before element after later).imp_right
          rintro ⟨earlier, member, accepting⟩
          exact ⟨earlier, List.mem_cons_of_mem _ member, accepting⟩
    · intro readable
      rcases readable [] first rest rfl with reads | ⟨_, none_before, _⟩
      · obtain ⟨filter, reads⟩ := Option.isSome_iff_exists.mp reads
        by_cases accepts : filter.Accepts canId isExtended
        · exact ⟨true, true, matchesFrame_eq_ok.mpr ⟨filter, reads, iff_of_true rfl accepts⟩, rfl⟩
        · have rejected : first.matchesFrame canId isExtended = .ok false :=
            matchesFrame_eq_ok.mpr ⟨filter, reads, iff_of_false Bool.false_ne_true accepts⟩
          have others : ∃ verdict, anyMatches canId isExtended rest = .ok verdict := by
            rw [ih]
            intro before element after split
            apply (readable (first :: before) element after (by rw [split]; rfl)).imp_right
            rintro ⟨earlier, member, found, own, accepting⟩
            rcases List.mem_cons.mp member with rfl | member
            · cases reads.symm.trans own
              exact absurd accepting accepts
            · exact ⟨earlier, member, found, own, accepting⟩
          obtain ⟨verdict, goes_on⟩ := others
          exact ⟨verdict, false, rejected, goes_on⟩
      · contradiction

theorem land_natCast (left right : Nat) :
    Int.land left right = ((left &&& right : Nat) : Int) := rfl

theorem maskFilter_ofFilter (canFilter : CanFilter) : (ofFilter canFilter).maskFilter =
    some ⟨canFilter.canId, canFilter.canMask, canFilter.extended.map bool⟩ := by
  obtain ⟨canId, canMask, extended⟩ := canFilter
  cases extended <;> rfl

/-- The filters that a client of this package sends are decided as the relay decides them. -/
theorem matchesFrame_ofFilter (canFilter : CanFilter) (canId : Nat) (isExtended : Bool) :
    (ofFilter canFilter).matchesFrame canId isExtended =
      .ok (canFilter.matches canId isExtended) := by
  apply matchesFrame_eq_ok.mpr
  refine ⟨_, maskFilter_ofFilter canFilter, ?_⟩
  rw [CanFilter.matches_iff]
  simp only [MaskFilter.Accepts, land_natCast, Nat.cast_inj]
  apply and_congr_right
  intro _
  cases canFilter.extended <;> simp [eqBool]

theorem anyMatches_ofFilters (canFilters : List CanFilter) (canId : Nat) (isExtended : Bool) :
    anyMatches canId isExtended (canFilters.map ofFilter) =
      .ok (canFilters.any fun canFilter => canFilter.matches canId isExtended) := by
  induction canFilters with
  | nil => rfl
  | cons canFilter canFilters ih =>
    rw [List.map_cons, List.any_cons, anyMatches, matchesFrame_ofFilter]
    cases canFilter.matches canId isExtended with
    | true => rfl
    | false => exact ih

theorem frameMatches_ofFilters (filters : Option (List CanFilter)) (canId : Nat)
    (isExtended : Bool) : frameMatches (filters.map (List.map ofFilter)) canId isExtended =
      .ok (Sockcan.frameMatches filters canId isExtended) := by
  match filters with
  | none | some [] => rfl
  | some (canFilter :: canFilters) => exact anyMatches_ofFilters _ canId isExtended

end Json
end Sockcan
