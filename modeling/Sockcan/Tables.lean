import Mathlib.Data.List.AList
import Mathlib.Data.List.Induction

/-! Tables filled entry by entry, by a loop that stops at the first entry it cannot read, and
tables turned around, in which the last of several equal entries stays. -/
namespace Sockcan.Tables

/-- A sequence of two computations that succeeds has the result of the first one. -/
theorem bind_eq_ok {ε α β : Type} {first : Except ε α} {next : α → Except ε β} {result : β} :
    (first >>= next) = .ok result ↔ ∃ value, first = .ok value ∧ next value = .ok result := by
  cases first with
  | error error =>
    constructor
    · intro failed
      contradiction
    · rintro ⟨_, failed, _⟩
      contradiction
  | ok value =>
    constructor
    · exact fun returned => ⟨value, rfl, returned⟩
    · rintro ⟨_, ⟨⟩, returned⟩
      exact returned

section
variable {κ ν : Type} {entries : List (Σ _ : κ, ν)} {x : κ} {y : ν}

/-- The entry is in the list, and none after it has the same second half. -/
def Last (entries : List (Σ _ : κ, ν)) (x : κ) (y : ν) : Prop :=
  ∃ before after, entries = before ++ ⟨x, y⟩ :: after ∧ ∀ entry ∈ after, entry.2 ≠ y

theorem Last.mem (last : Last entries x y) : (⟨x, y⟩ : Σ _ : κ, ν) ∈ entries := by
  obtain ⟨before, after, rfl, _⟩ := last
  exact List.mem_append_right before List.mem_cons_self

theorem last_concat (entry : Σ _ : κ, ν) :
    Last (entries ++ [entry]) x y ↔ entry = ⟨x, y⟩ ∨ Last entries x y ∧ entry.2 ≠ y := by
  constructor
  · rintro ⟨before, after, split, others⟩
    rcases List.eq_nil_or_concat after with rfl | ⟨after, final, rfl⟩
    · left
      exact (List.append_inj' split rfl).2 |> List.cons.inj |>.1
    · right
      rw [List.concat_eq_append, ← List.cons_append, ← List.append_assoc] at split
      obtain ⟨rfl, same⟩ := List.append_inj' split rfl
      obtain rfl := (List.cons.inj same).1
      rw [List.concat_eq_append] at others
      constructor
      · exact ⟨before, after, rfl, fun other member =>
          others other (List.mem_append_left _ member)⟩
      · exact others _ (List.mem_append_right _ List.mem_cons_self)
  · rintro (rfl | ⟨⟨before, after, rfl, others⟩, different⟩)
    · exact ⟨entries, [], rfl, fun _ member => absurd member List.not_mem_nil⟩
    · refine ⟨before, after ++ [entry], by simp, ?_⟩
      intro other member
      rcases List.mem_append.mp member with earlier | final
      · exact others other earlier
      · exact List.mem_singleton.mp final ▸ different

variable [DecidableEq ν]

/-- The entries as a table from their second half to their first. -/
def invert (entries : List (Σ _ : κ, ν)) : AList fun _ : ν => κ :=
  entries.foldl (fun table entry => table.insert entry.2 entry.1) ∅

/-- Turned around, a table gives the last entry for each second half. -/
theorem lookup_invert : (invert entries).lookup y = some x ↔ Last entries x y := by
  induction entries using List.reverseRecOn with
  | nil =>
    constructor
    · intro found
      contradiction
    · rintro ⟨before, after, split, _⟩
      simp at split
  | append_singleton entries entry ih =>
    have table : invert (entries ++ [entry]) = (invert entries).insert entry.2 entry.1 := by
      simp only [invert, List.foldl_append, List.foldl_cons, List.foldl_nil]
    rw [table, last_concat]
    by_cases same : y = entry.2
    · subst same
      rw [AList.lookup_insert]
      constructor
      · intro found
        left
        rw [← Option.some.inj found]
      · rintro (here | ⟨_, different⟩)
        · rw [here]
        · exact absurd rfl different
    · rw [AList.lookup_insert_ne same, ih]
      constructor
      · intro last
        exact Or.inr ⟨last, fun equal => same equal.symm⟩
      · rintro (rfl | ⟨last, _⟩)
        · exact absurd rfl same
        · exact last

section
variable [DecidableEq κ]

/-- Turned around twice, a table keeps an entry where no later one has the same second
half. -/
theorem lookup_invert_invert (table : AList fun _ : κ => ν) :
    (invert (invert table.entries).entries).lookup x = some y ↔ Last table.entries x y := by
  have turned : (invert table.entries).lookup y = some x ↔ Last table.entries x y := lookup_invert
  rw [lookup_invert, ← turned]
  constructor
  · intro last
    exact AList.mem_lookup_iff.mpr last.mem
  · intro found
    obtain ⟨before, after, split⟩ := List.append_of_mem (AList.mem_lookup_iff.mp found)
    refine ⟨before, after, split, ?_⟩
    rintro ⟨label, raw⟩ later rfl
    -- The key has one value in the table, so that both entries would be the same.
    have also : ⟨label, raw⟩ ∈ (invert table.entries).entries :=
      split ▸ List.mem_append_right before (List.mem_cons_of_mem _ later)
    have second := (lookup_invert.mp (AList.mem_lookup_iff.mpr also)).mem
    have first := (turned.mp found).mem
    obtain rfl : label = y := Option.some.inj
      ((AList.mem_lookup_iff.mpr second).symm.trans (AList.mem_lookup_iff.mpr first))
    have nodup : (invert table.entries).entries.Nodup := (invert table.entries).nodupKeys.nodup
    rw [split, List.nodup_append] at nodup
    exact (List.nodup_cons.mp nodup.2.1).1 later

end

end

variable {κ ν ι ε : Type} [DecidableEq κ]

def fill (key : ι → κ) (read : ι → Except ε ν) (items : List ι) (table : AList fun _ : κ => ν) :
    Except ε (AList fun _ : κ => ν) :=
  items.foldlM (fun table item => do
    let value ← read item
    return table.insert (key item) value) table

variable {key : ι → κ} {read : ι → Except ε ν} {items : List ι} {item : ι} {value : ν}
  {table result : AList fun _ : κ => ν}

@[simp] theorem fill_nil : fill key read [] table = .ok table := rfl

theorem fill_cons (first : read item = .ok value) :
    fill key read (item :: items) table =
      fill key read items (table.insert (key item) value) := by
  simp only [fill, List.foldlM_cons, first]
  rfl

theorem fill_cons_error {raised : ε} (first : read item = .error raised) :
    fill key read (item :: items) table = .error raised := by
  simp only [fill, List.foldlM_cons, first]
  rfl

theorem fill_total (reads : ∀ item ∈ items, ∃ value, read item = .ok value)
    (table : AList fun _ : κ => ν) : ∃ result, fill key read items table = .ok result := by
  induction items generalizing table with
  | nil => exact ⟨table, rfl⟩
  | cons item rest ih =>
    obtain ⟨value, first⟩ := reads item List.mem_cons_self
    rw [fill_cons first]
    exact ih (fun other member => reads other (List.mem_cons_of_mem _ member)) _

/-- Under distinct keys every entry that was read is in the table; the rest of the table is as
before. -/
theorem fill_lookup (distinct : (items.map key).Nodup)
    (filled : fill key read items table = .ok result) :
    (∀ item ∈ items, ∃ value, read item = .ok value ∧ result.lookup (key item) = some value) ∧
      ∀ name ∉ items.map key, result.lookup name = table.lookup name := by
  induction items generalizing table with
  | nil =>
    cases filled
    exact ⟨by simp, fun _ _ => rfl⟩
  | cons item rest ih =>
    obtain ⟨absent, nodup⟩ := List.nodup_cons.mp distinct
    cases first : read item with
    | error raised =>
      rw [fill_cons_error first] at filled
      contradiction
    | ok value =>
      rw [fill_cons first] at filled
      obtain ⟨named, others⟩ := ih nodup filled
      constructor
      · intro other member
        rcases List.mem_cons.mp member with rfl | later
        · exact ⟨value, first, by rw [others _ absent, AList.lookup_insert]⟩
        · exact named other later
      · intro name missing
        have different : name ≠ key item := List.ne_of_not_mem_cons missing
        rw [others name (List.not_mem_of_not_mem_cons missing), AList.lookup_insert_ne different]

end Sockcan.Tables
