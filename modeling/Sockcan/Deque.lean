import Mathlib.Data.List.Basic

/-! A double-ended queue of bounded length, oldest item first: appending to a
full one drops its oldest item, and the new item itself where nothing fits. -/
namespace Sockcan.Deque
variable {α : Type}

def append (maxlen : Nat) (queue : List α) (item : α) : List α :=
  if queue.length < maxlen then queue ++ [item] else (queue ++ [item]).tail

/-- The item that `append` drops. -/
def evicted (maxlen : Nat) (queue : List α) (item : α) : Option α :=
  if queue.length < maxlen then none else (queue ++ [item]).head?

theorem append_of_lt {maxlen : Nat} {queue : List α} (item : α) (room : queue.length < maxlen) :
    append maxlen queue item = queue ++ [item] := if_pos room

theorem evicted_of_lt {maxlen : Nat} {queue : List α} (item : α) (room : queue.length < maxlen) :
    evicted maxlen queue item = none := if_pos room

theorem append_full {maxlen : Nat} {head item : α} {rest : List α}
    (full : maxlen ≤ (head :: rest).length) :
    append maxlen (head :: rest) item = rest ++ [item] :=
  if_neg (Nat.not_lt.mpr full)

theorem evicted_full {maxlen : Nat} {head item : α} {rest : List α}
    (full : maxlen ≤ (head :: rest).length) :
    evicted maxlen (head :: rest) item = some head :=
  if_neg (Nat.not_lt.mpr full)

theorem append_length_le {maxlen : Nat} {queue : List α} (item : α)
    (bound : queue.length ≤ maxlen) : (append maxlen queue item).length ≤ maxlen := by
  unfold append
  split
  · simp only [List.length_append, List.length_singleton]
    omega
  · simp only [List.length_tail, List.length_append, List.length_singleton]
    omega

theorem append_ne_nil {maxlen : Nat} (positive : 0 < maxlen) (queue : List α) (item : α) :
    append maxlen queue item ≠ [] := by
  unfold append
  split
  · simp
  · cases queue with
    | nil => simp only [List.length_nil] at *; omega
    | cons head rest => simp

theorem append_sublist (maxlen : Nat) (queue : List α) (item : α) :
    (append maxlen queue item).Sublist (queue ++ [item]) := by
  unfold append
  split
  · exact .refl _
  · exact List.tail_sublist _

/-- An item taken out of the queue, and what was left behind it. -/
structure Removal (α : Type) where
  item : α
  left : List α
  evicted : Bool
  deriving DecidableEq

/-- The history of a queue: all items appended, all removals, and the evictions
since it was last empty. -/
structure Log (α : Type) where
  queued : List α
  removed : List (Removal α)
  overflow : Nat
  deriving DecidableEq

def Log.empty : Log α := ⟨[], [], 0⟩

/-- `overflow` restarts with the empty queue. -/
def Log.remove (log : Log α) (removal : Removal α) : Log α :=
  { log with
    removed := log.removed ++ [removal]
    overflow := if removal.left = [] then 0 else log.overflow + removal.evicted.toNat }

def Log.append (log : Log α) (maxlen : Nat) (queue : List α) (item : α) : Log α :=
  let log := { log with queued := log.queued ++ [item] }
  match evicted maxlen queue item with
  | none => log
  | some head => log.remove ⟨head, Deque.append maxlen queue item, true⟩

@[simp] theorem Log.append_queued (log : Log α) (maxlen : Nat) (queue : List α) (item : α) :
    (log.append maxlen queue item).queued = log.queued ++ [item] := by
  unfold Log.append
  cases evicted maxlen queue item <;> rfl

/-- Every item appended was removed or is still queued, in that order, and all
items that a removal left behind were appended after the removed one. -/
structure Log.Accounts (log : Log α) (queue : List α) : Prop where
  order : log.queued = log.removed.map Removal.item ++ queue
  newer : ∀ i removal, log.removed[i]? = some removal →
    removal.left.length + i + 1 ≤ log.queued.length
  overflow : queue = [] → log.overflow = 0

theorem Log.accounts_empty : (Log.empty : Log α).Accounts [] where
  order := rfl
  newer i removal found := by simp [Log.empty] at found
  overflow _ := rfl

theorem Log.Accounts.remove {log : Log α} {head : α} {rest : List α} (was : Bool)
    (accounts : log.Accounts (head :: rest)) :
    (log.remove ⟨head, rest, was⟩).Accounts rest where
  order := by
    rw [Log.remove, accounts.order]
    simp only [List.map_append, List.map_singleton, List.append_assoc, List.singleton_append]
  newer i removal found := by
    have total := congrArg List.length accounts.order
    simp only [List.length_append, List.length_map, List.length_cons] at total
    rcases Nat.lt_or_ge i log.removed.length with earlier | later
    · refine accounts.newer i removal ?_
      simpa [Log.remove, List.getElem?_append, earlier] using found
    · simp only [Log.remove, List.getElem?_append_right later] at found ⊢
      obtain ⟨last, rfl⟩ := List.getElem?_eq_some_iff.mp found
      simp only [List.length_singleton] at last
      have index : i - log.removed.length = 0 := by omega
      simp only [index, List.getElem_cons_zero]
      omega
  overflow empty := by simp only [Log.remove, empty, if_true]

theorem Log.Accounts.queue {log : Log α} {queue : List α} (item : α)
    (accounts : log.Accounts queue) :
    Log.Accounts { log with queued := log.queued ++ [item] } (queue ++ [item]) where
  order := by simp only [accounts.order, List.append_assoc]
  newer i removal found := by
    have := accounts.newer i removal found
    simp only [List.length_append, List.length_singleton]
    omega
  overflow empty := by simp at empty

theorem Log.Accounts.append {log : Log α} {queue : List α} (maxlen : Nat) (item : α)
    (accounts : log.Accounts queue) :
    (log.append maxlen queue item).Accounts (Deque.append maxlen queue item) := by
  have queued := accounts.queue item
  by_cases room : queue.length < maxlen
  · simpa only [Log.append, evicted_of_lt item room, append_of_lt item room] using queued
  · obtain ⟨head, rest, split⟩ : ∃ head rest, queue ++ [item] = head :: rest := by
      cases queue with
      | nil => exact ⟨item, [], rfl⟩
      | cons head rest => exact ⟨head, rest ++ [item], rfl⟩
    have dropped : evicted maxlen queue item = some head := by
      simp only [evicted, room, if_false, split, List.head?_cons]
    have kept : Deque.append maxlen queue item = rest := by
      simp only [Deque.append, room, if_false, split, List.tail_cons]
    simp only [Log.append, dropped, kept]
    exact (split ▸ queued).remove true

/-- The newest items are queued, or were removed with as many left behind. -/
theorem Log.Accounts.newest {log : Log α} {queue : List α} (accounts : log.Accounts queue)
    {i : Nat} {item : α} (found : log.queued[i]? = some item) :
    item ∈ queue ∨ ∃ removal ∈ log.removed, removal.item = item ∧
      removal.left.length + i < log.queued.length := by
  rw [accounts.order] at found
  rcases Nat.lt_or_ge i (log.removed.map Removal.item).length with earlier | later
  · rw [List.getElem?_append_left earlier, List.getElem?_map, Option.map_eq_some_iff] at found
    obtain ⟨removal, at_i, same⟩ := found
    exact Or.inr ⟨removal, List.mem_of_getElem? at_i, same,
      by have := accounts.newer i removal at_i; omega⟩
  · rw [List.getElem?_append_right later] at found
    exact Or.inl (List.mem_of_getElem? found)

end Sockcan.Deque
