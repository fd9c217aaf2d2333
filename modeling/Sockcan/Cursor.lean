import Mathlib.Data.List.Nodup

/-! An index that walks along a list while others edit the list. What it has still to
come to is what is left after dropping that many entries. -/
namespace Sockcan.Cursor
variable {α : Type} {xs ys : List α} {c x : α} {i : Nat} {p : α → Bool}

theorem drop_eraseP_of_ahead (ahead : ∀ x ∈ xs.take i, ¬ p x) :
    (xs.eraseP p).drop i = (xs.drop i).eraseP p := by
  by_cases inside : i ≤ xs.length
  · have split : (xs.take i ++ xs.drop i).eraseP p = xs.take i ++ (xs.drop i).eraseP p :=
      List.eraseP_append_right _ ahead
    have length : (xs.take i).length = i := List.length_take_of_le inside
    rw [List.take_append_drop] at split
    rw [split, List.drop_left' length]
  · have beyond : xs.length ≤ i := Nat.le_of_not_le inside
    have shorter : (xs.eraseP p).length ≤ i := Nat.le_trans (List.length_eraseP_le) beyond
    rw [List.drop_eq_nil_of_le shorter, List.drop_eq_nil_of_le beyond]
    rfl

/-- An entry that leaves behind the index pulls the rest of the list towards it. -/
theorem drop_eraseP_of_behind (behind : x ∈ xs.take i) (leaves : p x) :
    (xs.eraseP p).drop i = xs.drop (i + 1) := by
  have split : (xs.take i ++ xs.drop i).eraseP p = (xs.take i).eraseP p ++ xs.drop i :=
    List.eraseP_append_left leaves _ behind
  have shorter : ((xs.take i).eraseP p).length = (xs.take i).length - 1 :=
    List.length_eraseP_of_mem behind leaves
  have some_left : 0 < (xs.take i).length := List.length_pos_of_mem behind
  rw [List.take_append_drop] at split
  rw [split, List.drop_append, List.drop_eq_nil_of_le, List.nil_append, List.drop_drop, shorter]
  · by_cases inside : i ≤ xs.length
    · rw [List.length_take_of_le inside]
      rw [List.length_take_of_le inside] at some_left
      congr 1
      omega
    · rw [List.drop_eq_nil_of_le, List.drop_eq_nil_of_le] <;> omega
  · rw [shorter, List.length_take]
    omega

theorem mem_drop_succ_iff (nodup : xs.Nodup) :
    c ∈ xs.drop (i + 1) ↔ c ∈ xs.drop i ∧ xs[i]? ≠ some c := by
  by_cases inside : i < xs.length
  · have split : xs.drop i = xs[i] :: xs.drop (i + 1) := List.drop_eq_getElem_cons inside
    have apart : xs[i] ∉ xs.drop (i + 1) := by
      have suffix : (xs.drop i).Nodup := nodup.sublist (List.drop_sublist i xs)
      rw [split] at suffix
      exact (List.nodup_cons.mp suffix).1
    rw [split, List.mem_cons, List.getElem?_eq_getElem inside, Ne, Option.some.injEq]
    constructor
    · intro later
      exact ⟨Or.inr later, fun here => apart (here ▸ later)⟩
    · rintro ⟨here | later, other⟩
      · exact absurd here.symm other
      · exact later
  · have beyond : xs.length ≤ i := Nat.le_of_not_lt inside
    rw [List.drop_eq_nil_of_le beyond, List.drop_eq_nil_of_le (Nat.le_succ_of_le beyond)]
    simp

/-- Removing another entry keeps an entry ahead of the index, unless the entry was next
and the other one behind. -/
theorem mem_drop_eraseP_iff (nodup : xs.Nodup) (stays : ¬ p c) :
    c ∈ (xs.eraseP p).drop i ↔ c ∈ xs.drop i ∧ ¬ (xs[i]? = some c ∧ ∃ x ∈ xs.take i, p x) := by
  by_cases behind : ∃ x ∈ xs.take i, p x
  · obtain ⟨x, member, leaves⟩ := behind
    rw [drop_eraseP_of_behind member leaves, mem_drop_succ_iff nodup]
    have removed : ∃ x ∈ xs.take i, p x := ⟨x, member, leaves⟩
    simp only [removed, and_true, Ne]
  · rw [drop_eraseP_of_ahead fun x member leaves => behind ⟨x, member, leaves⟩]
    rw [List.mem_eraseP_of_neg stays]
    simp only [behind, and_false, not_false_iff, and_true]

/-- Removals bring no entry ahead of the index. -/
theorem mem_of_mem_drop_eraseP (member : c ∈ (xs.eraseP p).drop i) : c ∈ xs.drop i := by
  by_cases behind : ∃ x ∈ xs.take i, p x
  · obtain ⟨x, inside, leaves⟩ := behind
    rw [drop_eraseP_of_behind inside leaves] at member
    exact (List.drop_sublist_drop_left xs (Nat.le_succ i)).subset member
  · rw [drop_eraseP_of_ahead fun x inside leaves => behind ⟨x, inside, leaves⟩] at member
    exact List.mem_of_mem_eraseP member

theorem mem_drop_append_iff (absent : c ∉ ys) : c ∈ (xs ++ ys).drop i ↔ c ∈ xs.drop i := by
  rw [List.drop_append, List.mem_append]
  constructor
  · rintro (old | new)
    · exact old
    · exact absurd (List.mem_of_mem_drop new) absent
  · exact Or.inl

end Sockcan.Cursor
