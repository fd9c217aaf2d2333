import Mathlib.Data.Nat.Bitwise
import Mathlib.Data.List.Count
import Mathlib.Data.List.Pairwise

/-! Bit fields of a natural number: a run of ones as the mask, and the number that the
bits under it spell. -/
namespace Sockcan.Bits

/-- `width` ones, the lowest of which is bit `start`. -/
def ones (width start : Nat) : Nat := ((1 <<< width) - 1) <<< start

def bitCount (n : Nat) : Nat := (List.range (n.log2 + 1)).countP n.testBit

/-- The bits of `n` under the mask, moved down by `start`. -/
def field (mask start n : Nat) : Nat := (n &&& mask) >>> start

variable {width start value n m i : Nat}

@[simp] theorem testBit_ones :
    (ones width start).testBit i = (decide (start ≤ i) && decide (i < start + width)) := by
  have inside : start ≤ i → (i - start < width ↔ i < start + width) := by omega
  rw [ones, Nat.one_shiftLeft, Nat.testBit_shiftLeft, Nat.testBit_two_pow_sub_one]
  by_cases above : start ≤ i
  · simp [above, inside above]
  · simp [above]

theorem ones_lt (fits : start + width ≤ m) : ones width start < 2 ^ m := by
  apply Nat.lt_pow_two_of_testBit
  intro i beyond
  rw [testBit_ones]
  simp only [Bool.and_eq_false_iff, decide_eq_false_iff_not]
  omega

/-- The bits from any bound on do not count. -/
theorem bitCount_of_lt (bound : n < 2 ^ m) : bitCount n = (List.range m).countP n.testBit := by
  have clear (top k : Nat) (below : n < 2 ^ top) :
      (List.range (top + k)).countP n.testBit = (List.range top).countP n.testBit := by
    rw [List.range_add, List.countP_append, Nat.add_eq_left, List.countP_eq_zero]
    intro i member
    obtain ⟨j, _, rfl⟩ := List.mem_map.mp member
    have larger : n < 2 ^ (top + j) :=
      Nat.lt_of_lt_of_le below (Nat.pow_le_pow_right (by decide) (Nat.le_add_right top j))
    simp [Nat.testBit_lt_two_pow larger]
  rw [bitCount]
  rcases Nat.le_total (n.log2 + 1) m with shorter | longer
  · obtain ⟨k, rfl⟩ := Nat.exists_eq_add_of_le shorter
    exact (clear _ k Nat.lt_log2_self).symm
  · obtain ⟨k, same⟩ := Nat.exists_eq_add_of_le longer
    rw [same]
    exact clear m k bound

@[simp] theorem bitCount_ones (width start : Nat) : bitCount (ones width start) = width := by
  rw [bitCount_of_lt (ones_lt (Nat.le_refl _)), List.range_add, List.countP_append]
  have below : (List.range start).countP (ones width start).testBit = 0 := by
    rw [List.countP_eq_zero]
    intro i member
    have short := List.mem_range.mp member
    simp only [testBit_ones, Bool.and_eq_true, decide_eq_true_eq]
    omega
  have within : ((List.range width).map (start + ·)).countP (ones width start).testBit = width := by
    have all : ((List.range width).map (start + ·)).countP (ones width start).testBit =
        ((List.range width).map (start + ·)).length := by
      rw [List.countP_eq_length]
      intro i member
      obtain ⟨j, inside, rfl⟩ := List.mem_map.mp member
      have short := List.mem_range.mp inside
      simp only [testBit_ones, Bool.and_eq_true, decide_eq_true_eq]
      omega
    rw [all, List.length_map, List.length_range]
  rw [below, within, Nat.zero_add]

theorem testBit_field :
    (field (ones width start) start n).testBit i =
      (decide (i < width) && n.testBit (start + i)) := by
  rw [field, Nat.testBit_shiftRight, Nat.testBit_and, testBit_ones]
  have inside : start + i < start + width ↔ i < width := by omega
  simp [inside, Bool.and_comm]

/-- A value that fits the field is read back from where it was put. -/
theorem field_place (fits : value < 2 ^ width) :
    field (ones width start) start (value <<< start &&& ones width start) = value := by
  apply Nat.eq_of_testBit_eq
  intro i
  have inside : start + i < start + width ↔ i < width := by omega
  rw [testBit_field, Nat.testBit_and, Nat.testBit_shiftLeft, testBit_ones]
  by_cases short : i < width
  · simp [short]
  · have beyond : value < 2 ^ i :=
      Nat.lt_of_lt_of_le fits (Nat.pow_le_pow_right (by decide) (Nat.le_of_not_lt short))
    simp [short, Nat.testBit_lt_two_pow beyond]

/-- What a field is read as, put back into its place. -/
theorem place_field :
    field (ones width start) start n <<< start &&& ones width start = n &&& ones width start := by
  apply Nat.eq_of_testBit_eq
  intro i
  rw [Nat.testBit_and, Nat.testBit_and, Nat.testBit_shiftLeft, testBit_field, testBit_ones]
  by_cases above : start ≤ i
  · have back : start + (i - start) = i := Nat.add_sub_cancel' above
    have inside : i - start < width ↔ i < start + width := by omega
    simp [above, back, inside, Bool.and_comm]
  · simp [above]

theorem field_lt : field (ones width start) start n < 2 ^ width := by
  apply Nat.lt_pow_two_of_testBit
  intro i beyond
  rw [testBit_field, decide_eq_false (Nat.not_lt.mpr beyond), Bool.false_and]

/-- The union of the numbers that `part` gives for a list. -/
def union {α : Type} (part : α → Nat) (items : List α) : Nat :=
  items.foldr (fun item rest => part item ||| rest) 0

variable {α : Type} {part : α → Nat} {mask : α → Nat} {items : List α} {item : α}

theorem testBit_union :
    (union part items).testBit i = true ↔ ∃ item ∈ items, (part item).testBit i = true := by
  induction items with
  | nil => simp [union]
  | cons first rest ih =>
    have split : union part (first :: rest) = part first ||| union part rest := rfl
    rw [split, Nat.testBit_or, Bool.or_eq_true, ih]
    simp

/-- A loop that adds the parts one by one. -/
theorem foldlM_union {β ε : Type} {step : Nat → β → Except ε Nat} {form : α → β}
    (adds : ∀ item ∈ items, ∀ n, step n (form item) = .ok (n ||| part item)) (n : Nat) :
    (items.map form).foldlM step n = .ok (n ||| union part items) := by
  induction items generalizing n with
  | nil => simp [union, pure, Except.pure]
  | cons item rest ih =>
    have later := ih fun other member => adds other (List.mem_cons_of_mem _ member)
    simp only [List.map_cons, List.foldlM_cons, adds item List.mem_cons_self]
    calc (rest.map form).foldlM step (n ||| part item)
        = .ok (n ||| part item ||| union part rest) := later _
      _ = .ok (n ||| union part (item :: rest)) := by
        rw [Nat.or_assoc]
        rfl

/-- A loop that reads the parts one by one comes to its end when all of them can be read. -/
theorem foldlM_union_iff {ε : Type} {read : α → Except ε Nat} :
    (items.foldlM (fun n item => do let part ← read item; return n ||| part) n = .ok m) ↔
      (∀ item ∈ items, ∃ part, read item = .ok part) ∧
        m = n ||| union (fun item => (read item).toOption.getD 0) items := by
  induction items generalizing n with
  | nil =>
    simp only [List.foldlM_nil, union, List.foldr_nil, Nat.or_zero, List.not_mem_nil,
      false_implies, implies_true, true_and]
    constructor
    · rintro ⟨⟩
      rfl
    · rintro rfl
      rfl
  | cons item rest ih =>
    cases first : read item with
    | error raised =>
      simp only [List.foldlM_cons, first]
      constructor
      · intro folded
        contradiction
      · rintro ⟨reads, _⟩
        obtain ⟨part, read_it⟩ := reads item List.mem_cons_self
        rw [first] at read_it
        contradiction
    | ok part =>
      have step : (List.foldlM (fun n item => do let part ← read item; return n ||| part) n
          (item :: rest) = .ok m) ↔
          (List.foldlM (fun n item => do let part ← read item; return n ||| part) (n ||| part)
            rest = .ok m) := by
        simp only [List.foldlM_cons, first]
        rfl
      have split : union (fun item => (read item).toOption.getD 0) (item :: rest) =
          part ||| union (fun item => (read item).toOption.getD 0) rest := by
        simp only [union, List.foldr_cons, first]
        rfl
      rw [step, ih, split, Nat.or_assoc, List.forall_mem_cons, first]
      constructor
      · rintro ⟨reads, same⟩
        exact ⟨⟨⟨part, rfl⟩, reads⟩, same⟩
      · rintro ⟨⟨_, reads⟩, same⟩
        exact ⟨reads, same⟩

theorem union_map {β : Type} (part : β → Nat) (form : α → β) (items : List α) :
    union part (items.map form) = union (fun item => part (form item)) items :=
  List.foldr_map

theorem union_congr {other : α → Nat} (same : ∀ item ∈ items, part item = other item) :
    union part items = union other items := by
  induction items with
  | nil => rfl
  | cons first rest ih =>
    have later := ih fun item member => same item (List.mem_cons_of_mem _ member)
    have split (f : α → Nat) : union f (first :: rest) = f first ||| union f rest := rfl
    rw [split, split, same first List.mem_cons_self, later]

theorem union_lt (bounds : ∀ item ∈ items, part item < 2 ^ m) : union part items < 2 ^ m := by
  induction items with
  | nil => exact Nat.two_pow_pos m
  | cons first rest ih =>
    apply Nat.or_lt_two_pow (bounds first List.mem_cons_self)
    exact ih fun item member => bounds item (List.mem_cons_of_mem _ member)

/-- Where the parts lie under disjoint masks, the mask of an item selects its own part. -/
theorem union_and_mask (inside : ∀ item ∈ items, part item &&& mask item = part item)
    (disjoint : items.Pairwise fun a b => mask a &&& mask b = 0) (member : item ∈ items) :
    union part items &&& mask item = part item := by
  have symmetric : Std.Symm fun a b => mask a &&& mask b = 0 :=
    ⟨fun _ _ zero => (Nat.and_comm _ _).trans zero⟩
  apply Nat.eq_of_testBit_eq
  intro i
  rw [Bool.eq_iff_iff, Nat.testBit_and, Bool.and_eq_true, testBit_union]
  have masked {other : α} (among : other ∈ items) (set : (part other).testBit i = true) :
      (mask other).testBit i = true := by
    rw [← inside other among, Nat.testBit_and, Bool.and_eq_true] at set
    exact set.2
  constructor
  · rintro ⟨⟨other, among, set⟩, under⟩
    by_cases same : other = item
    · exact same ▸ set
    · have apart : mask other &&& mask item = 0 := disjoint.forall among member same
      have both : (mask other &&& mask item).testBit i = true := by
        rw [Nat.testBit_and, masked among set, under]
        rfl
      rw [apart, Nat.zero_testBit] at both
      contradiction
  · intro set
    exact ⟨⟨item, member, set⟩, masked member set⟩

theorem field_union (mask : α → Nat) (inside : ∀ item ∈ items, part item &&& mask item = part item)
    (disjoint : items.Pairwise fun a b => mask a &&& mask b = 0) (member : item ∈ items)
    (start : Nat) :
    field (mask item) start (union part items) = field (mask item) start (part item) := by
  rw [field, field, union_and_mask inside disjoint member, inside item member]

end Sockcan.Bits
