import Sockcan.Outbox.Invariant

/-! The outbox whose drainer is its only producer. No eviction then races a drain,
so the watch, the drop counter and the history are exact. -/
namespace Sockcan.Outbox
variable {P α : Type} {maxlen : Nat} {drainer : P} {owner : α → P} {u v : Outbox P α}
variable [DecidableEq P] [DecidableEq α]

def evictions (u : Outbox P α) : List α :=
  (u.log.removed.filter Deque.Removal.evicted).map Deque.Removal.item

/-- The drops that a producer has counted for an append still to come. -/
def ahead (maxlen : Nat) (p : P) (u : Outbox P α) : Nat :=
  match u.holding p with
  | some (_, .counted) => if u.queue.length = maxlen then 1 else 0
  | _ => 0

/-- What holds in addition while the drainer is the only producer. -/
structure Sole (maxlen : Nat) (drainer : P) (u : Outbox P α) : Prop where
  alone : ∀ p, p ≠ drainer → u.holding p = none
  first : ∀ head, u.draining.head = some head → u.queue.head? = some head
  watching : u.queue ≠ [] → u.watched = true
  resting : u.draining = .idle → u.watched = true → u.queue ≠ []
  clear : ∀ item stage, u.holding drainer = some (item, stage) → stage.Refusable → u.queue = []
  dropped : u.draining = .idle ∨ u.queue ≠ [] → u.dropped = u.log.overflow + u.ahead maxlen drainer
  history : u.delivered ++ u.content ++ u.held drainer =
    u.handed.filter fun item => decide (item ∉ u.evictions)
  older : ∀ removal ∈ u.log.removed, removal.evicted = true →
    (removal.item :: removal.left).Sublist u.handed

theorem Sole.is_drainer (sole : u.Sole maxlen drainer) {p : P} {held : α × Stage}
    (holds : u.holding p = some held) : p = drainer := by
  by_contra other
  simp [sole.alone p other] at holds

omit [DecidableEq P] [DecidableEq α] in
theorem ahead_of_free (free : u.holding drainer = none) : u.ahead maxlen drainer = 0 := by
  simp only [ahead, free]

theorem Inv.free_of_busy (inv : u.Inv maxlen drainer owner) (busy : u.draining ≠ .idle) :
    u.holding drainer = none := by
  by_contra holds
  exact busy (inv.exclusive holds)

theorem Inv.idle_of_holding (inv : u.Inv maxlen drainer owner) {held : α × Stage}
    (holds : u.holding drainer = some held) : u.draining = .idle :=
  inv.exclusive (by rw [holds]; exact Option.some_ne_none _)

theorem Step.first (step : Step maxlen drainer owner u v) (inv : u.Inv maxlen drainer owner)
    (sole : u.Sole maxlen drainer) (alone : ∀ p, p ≠ drainer → v.holding p = none) :
    ∀ head, v.draining.head = some head → v.queue.head? = some head := by
  intro head in_hand
  cases step with
  | hand | goDirect | goBehind | count | send | refuse | recount => exact sole.first head in_hand
  | append holds | enqueue holds =>
    have idle := inv.idle_of_holding (sole.is_drainer holds ▸ holds)
    simp [hold, push, idle, Draining.head] at in_hand
  | startDrain | find | refuseHead | pop | settleEmpty | settle => simp [Draining.head] at in_hand
  | peek found queued =>
    rw [queued]
    exact in_hand
  | sendHead peeked => exact sole.first head (by rw [peeked]; exact in_hand)

theorem Step.watching (step : Step maxlen drainer owner u v) (inv : u.Inv maxlen drainer owner)
    (sole : u.Sole maxlen drainer) : v.queue ≠ [] → v.watched = true := by
  intro nonempty
  cases step with
  | append holds =>
    have mine := sole.is_drainer holds
    exact sole.watching (inv.behind _ .counted (mine ▸ holds) trivial)
  | enqueue => rfl
  | pop sent queued => exact sole.watching (by rw [queued]; exact List.cons_ne_nil _ _)
  | settleEmpty active empty => exact absurd empty nonempty
  | _ => exact sole.watching nonempty

theorem Step.resting (positive : 0 < maxlen) (step : Step maxlen drainer owner u v)
    (sole : u.Sole maxlen drainer) :
    v.draining = .idle → v.watched = true → v.queue ≠ [] := by
  intro idle watched
  cases step with
  | hand | goDirect | goBehind | count | send | refuse | recount => exact sole.resting idle watched
  | append | enqueue => exact Deque.append_ne_nil positive _ _
  | startDrain | find | peek | sendHead | refuseHead | pop => simp at idle
  | settleEmpty => simp at watched
  | settle _ nonempty => exact nonempty

theorem Step.clear (step : Step maxlen drainer owner u v)
    (sole : u.Sole maxlen drainer) :
    ∀ item stage, v.holding drainer = some (item, stage) → stage.Refusable → v.queue = [] := by
  intro item stage holds refusable
  have before : u.queue = [] := by
    rcases step.refusable holds refusable with ⟨earlier, held, before⟩ | empty
    · exact sole.clear item earlier held before
    · exact empty
  cases step with
  | append holding | enqueue holding =>
    simp [holding_hold, ← sole.is_drainer holding] at holds
  | pop _ queued => simp [queued] at before
  | _ => exact before

omit [DecidableEq α] in
@[simp] theorem ahead_hold (held : Option (α × Stage)) :
    (u.hold drainer held).ahead maxlen drainer =
      match held with
      | some (_, .counted) => if u.queue.length = maxlen then 1 else 0
      | _ => 0 := by
  simp only [ahead, hold, Function.update_self]
  rfl

omit [DecidableEq P] [DecidableEq α] in
theorem overflow_push (positive : 0 < maxlen) (item : α) (bound : u.queue.length ≤ maxlen) :
    (u.push maxlen item).log.overflow =
      u.log.overflow + if u.queue.length = maxlen then 1 else 0 := by
  by_cases room : u.queue.length < maxlen
  · simp [push, Deque.Log.append, Deque.evicted_of_lt item room, Nat.ne_of_lt room]
  · have full : u.queue.length = maxlen := by omega
    cases queue : u.queue with
    | nil =>
      rw [queue, List.length_nil] at room
      omega
    | cons head rest =>
      have exceeds : maxlen ≤ (head :: rest).length := by
        rw [← queue]
        exact Nat.le_of_eq full.symm
      have still := Deque.append_ne_nil positive (head :: rest) item
      simp only [push, Deque.Log.append, queue, Deque.evicted_full exceeds, Deque.Log.remove,
        if_neg still]
      rw [← queue, if_pos full]
      rfl

theorem Step.dropped (positive : 0 < maxlen) (step : Step maxlen drainer owner u v)
    (inv : u.Inv maxlen drainer owner) (sole : u.Sole maxlen drainer)
    (alone : ∀ p, p ≠ drainer → v.holding p = none) :
    v.draining = .idle ∨ v.queue ≠ [] → v.dropped = v.log.overflow + v.ahead maxlen drainer := by
  intro settled
  have held {p item stage} (holds : u.holding p = some (item, stage)) :
      p = drainer ∧ u.dropped = u.log.overflow + u.ahead maxlen drainer := by
    obtain rfl := sole.is_drainer holds
    exact ⟨rfl, sole.dropped (Or.inl (inv.idle_of_holding holds))⟩
  cases step with
  | @hand p item free idle =>
    obtain rfl : p = drainer := by
      by_contra other
      simpa [holding_hold] using alone p other
    have before := sole.dropped (Or.inl (idle rfl))
    rw [ahead_of_free free] at before
    rw [ahead_hold]
    exact before
  | goDirect holds | goBehind holds | send holds | refuse holds =>
    obtain ⟨rfl, before⟩ := held holds
    rw [ahead, holds] at before
    rw [ahead_hold]
    exact before
  | count holds =>
    obtain ⟨rfl, before⟩ := held holds
    rw [ahead, holds] at before
    rw [ahead_hold]
    simp only [hold, Outbox.count, before]
    split <;> rfl
  | append holds =>
    obtain ⟨rfl, before⟩ := held holds
    rw [ahead, holds] at before
    rw [ahead_hold]
    exact before.trans (overflow_push positive _ inv.bound).symm
  | @recount p item holds =>
    obtain ⟨rfl, before⟩ := held holds
    rw [ahead, holds] at before
    rw [ahead_hold]
    have empty := sole.clear item .refused holds trivial
    have room : u.queue.length ≠ maxlen := by rw [empty, List.length_nil]; omega
    simpa [hold, Outbox.count, room] using before
  | @enqueue p item holds =>
    obtain ⟨rfl, before⟩ := held holds
    rw [ahead, holds] at before
    rw [ahead_hold]
    have empty := sole.clear item .recounted holds trivial
    have room : u.queue.length ≠ maxlen := by rw [empty, List.length_nil]; omega
    have same := overflow_push positive item inv.bound
    rw [if_neg room] at same
    exact before.trans same.symm
  | startDrain free idle => exact sole.dropped (Or.inl idle)
  | find _ nonempty => exact sole.dropped (Or.inr nonempty)
  | peek _ queued => exact sole.dropped (Or.inr (by rw [queued]; exact List.cons_ne_nil _ _))
  | sendHead | refuseHead => exact sole.dropped (Or.inr (settled.resolve_left (by simp)))
  | @pop head first rest sent queued =>
    have nonempty : rest ≠ [] := settled.resolve_left (by simp)
    have free := inv.free_of_busy (by simp [sent])
    have before := sole.dropped (Or.inr (by rw [queued]; exact List.cons_ne_nil _ _))
    rw [ahead_of_free free] at before
    rw [ahead_of_free (by exact free)]
    simp only [Deque.Log.remove, if_neg nonempty]
    exact before
  | settleEmpty active empty =>
    have free := inv.free_of_busy (by simp [active])
    rw [ahead_of_free (by exact free)]
    exact (inv.accounts.overflow empty).symm
  | settle _ nonempty => exact sole.dropped (Or.inr nonempty)

omit [DecidableEq P] [DecidableEq α] in
theorem evictions_push (item : α) : (u.push maxlen item).evictions =
    u.evictions ++ (Deque.evicted maxlen u.queue item).toList := by
  simp only [evictions, push, Deque.Log.append]
  cases Deque.evicted maxlen u.queue item <;> simp [Deque.Log.remove]

omit [DecidableEq P] in
theorem Sole.evictions_subset (sole : u.Sole maxlen drainer) {item : α}
    (evicted : item ∈ u.evictions) : item ∈ u.handed := by
  obtain ⟨removal, member, rfl⟩ := List.mem_map.mp evicted
  obtain ⟨removed, was⟩ := List.mem_filter.mp member
  exact (sole.older removal removed was).subset List.mem_cons_self

theorem Sole.nodup (inv : u.Inv maxlen drainer owner) (sole : u.Sole maxlen drainer) :
    (u.delivered ++ u.content ++ u.held drainer).Nodup := by
  rw [sole.history]
  exact inv.fresh.filter _

omit [DecidableEq P] in
theorem filter_evict {handed before after evictions : List α} {first : α}
    (nodup : (before ++ first :: after).Nodup)
    (history : before ++ first :: after = handed.filter fun item => decide (item ∉ evictions)) :
    before ++ after = handed.filter fun item => decide (item ∉ evictions ++ [first]) := by
  have split : handed.filter (fun item => decide (item ∉ evictions ++ [first])) =
      (handed.filter fun item => decide (item ∉ evictions)).filter (fun item => item != first) := by
    rw [List.filter_filter]
    apply List.filter_congr
    intro item _
    by_cases same : item = first <;> simp [same]
  have absent : first ∉ before := fun member =>
    (List.disjoint_of_nodup_append nodup) member List.mem_cons_self
  rw [split, ← history, ← nodup.erase_eq_filter, List.erase_append_right _ absent,
    List.erase_cons_head]

/-- What a sole producer holds goes behind the queue, the oldest item making room. -/
theorem Sole.history_push (positive : 0 < maxlen) (inv : u.Inv maxlen drainer owner)
    (sole : u.Sole maxlen drainer) {item : α} {stage : Stage}
    (holds : u.holding drainer = some (item, stage)) :
    u.delivered ++ (u.push maxlen item).queue =
      u.handed.filter fun other => decide (other ∉ (u.push maxlen item).evictions) := by
  have idle := inv.idle_of_holding holds
  have nodup := sole.nodup inv
  have before := sole.history
  rw [content_of_no_head (by rw [idle, Draining.head]), held_of_holding holds] at nodup before
  rw [evictions_push]
  by_cases room : u.queue.length < maxlen
  · simp only [Deque.evicted_of_lt item room, Option.toList_none, List.append_nil, ← before, push,
      Deque.append_of_lt item room, List.append_assoc]
  · cases queue : u.queue with
    | nil =>
      rw [queue, List.length_nil] at room
      omega
    | cons first rest =>
      rw [queue] at room before nodup
      have full : maxlen ≤ (first :: rest).length := Nat.le_of_not_lt room
      simp only [push, queue, Deque.evicted_full full, Option.toList_some, Deque.append_full full]
      simp only [List.append_assoc, List.cons_append] at before nodup
      exact filter_evict nodup before

theorem Step.history (positive : 0 < maxlen) (step : Step maxlen drainer owner u v)
    (inv : u.Inv maxlen drainer owner) (sole : u.Sole maxlen drainer)
    (alone : ∀ p, p ≠ drainer → v.holding p = none) :
    v.delivered ++ v.content ++ v.held drainer =
      v.handed.filter fun item => decide (item ∉ v.evictions) := by
  have before := sole.history
  have no_head {d : Draining α} (draining : u.draining = d) (d_none : d.head = none) :
      u.content = u.queue := content_of_no_head (by rw [draining, d_none])
  have restaged {p item stage} (holds : u.holding p = some (item, stage)) (next : Stage) :
      (u.hold p (some (item, next))).held drainer = u.held drainer := by
    obtain rfl := sole.is_drainer holds
    rw [held_hold, if_pos rfl, held_of_holding holds]
    rfl
  have pushed {p item stage} (holds : u.holding p = some (item, stage)) :
      u.delivered ++ (u.push maxlen item).content ++ (u.hold p none).held drainer =
        u.handed.filter fun other => decide (other ∉ (u.push maxlen item).evictions) := by
    obtain rfl := sole.is_drainer holds
    have idle := inv.idle_of_holding holds
    rw [content_of_no_head (by simp [push, idle, Draining.head]), held_hold, if_pos rfl]
    simpa using sole.history_push positive inv holds
  cases step with
  | @hand p item free idle mine fresh =>
    obtain rfl : p = drainer := by
      by_contra other
      simpa [holding_hold] using alone p other
    have kept : item ∉ u.evictions := fun evicted => fresh (sole.evictions_subset evicted)
    have none_held : u.held p = [] := by simp [held, free]
    rw [none_held, List.append_nil] at before
    have shown : u.delivered ++ u.content ++ [item] =
        (u.handed ++ [item]).filter fun other => decide (other ∉ u.evictions) := by
      simp [before, kept]
    rw [held_hold, if_pos rfl]
    exact shown
  | goDirect holds | goBehind holds | refuse holds =>
    rw [restaged holds]
    exact before
  | count holds | recount holds =>
    exact (congrArg _ (restaged holds _)).trans before
  | append holds | enqueue holds => exact pushed holds
  | @send p item holds =>
    obtain rfl := sole.is_drainer holds
    have empty := inv.content_of_empty (sole.clear item .direct holds trivial)
    rw [empty, held_of_holding holds, List.append_nil] at before
    rw [held_hold, if_pos rfl]
    have shown : u.delivered ++ [item] ++ u.content ++ [] =
        u.handed.filter fun other => decide (other ∉ u.evictions) := by
      simpa [empty] using before
    exact shown
  | startDrain free idle => exact (no_head idle rfl) ▸ before
  | find active | settleEmpty active | settle active => exact (no_head active rfl) ▸ before
  | @peek head rest found queued =>
    have content : ({ u with draining := .peeked head } : Outbox P α).content = u.content := by
      have first : u.queue.head? = some head := by rw [queued, List.head?_cons]
      rw [no_head found rfl, ← erase_head first]
      simp [Outbox.content]
    rw [content]
    exact before
  | @sendHead head peeked =>
    simp only [Outbox.content, peeked] at before
    have shown : u.delivered ++ [head] ++ u.queue.erase head ++ u.held drainer =
        u.handed.filter fun other => decide (other ∉ u.evictions) := by
      simpa using before
    exact shown
  | @refuseHead head peeked =>
    simp only [Outbox.content, peeked] at before
    rw [erase_head (sole.first head (by rw [peeked, Draining.head]))] at before
    exact before
  | @pop head first rest sent queued =>
    have same := sole.first head (by rw [sent, Draining.head])
    rw [queued, List.head?_cons, Option.some.injEq] at same
    simp only [Outbox.content, sent, queued, same, List.erase_cons_head] at before
    have kept : ({ u with log := u.log.remove ⟨first, rest, false⟩ } : Outbox P α).evictions =
        u.evictions := by
      simp [evictions, Deque.Log.remove]
    rw [← kept] at before
    exact before

/-- An eviction takes an item that is older than all that it leaves. -/
theorem Step.older (step : Step maxlen drainer owner u v)
    (inv : u.Inv maxlen drainer owner) (sole : u.Sole maxlen drainer) :
    ∀ removal ∈ v.log.removed, removal.evicted = true →
      (removal.item :: removal.left).Sublist v.handed := by
  intro removal member was
  have pushed {p item stage} (holds : u.holding p = some (item, stage))
      (member : removal ∈ (u.push maxlen item).log.removed) :
      (removal.item :: removal.left).Sublist u.handed := by
    obtain rfl := sole.is_drainer holds
    have idle := inv.idle_of_holding holds
    simp only [push, Deque.Log.append] at member
    split at member
    · exact sole.older removal member was
    · rename_i head evicted
      rcases List.mem_append.mp member with before | new
      · exact sole.older removal before was
      · rw [List.mem_singleton] at new
        subst new
        have queued : head :: Deque.append maxlen u.queue item = u.queue ++ [item] := by
          simp only [Deque.evicted] at evicted
          split at evicted
          · contradiction
          · rw [Deque.append, if_neg ‹_›]
            exact List.cons_head?_tail evicted
        have line : (u.queue ++ [item]).Sublist
            (u.delivered ++ u.content ++ u.held p) := by
          rw [content_of_no_head (by rw [idle, Draining.head]), held_of_holding holds,
            List.append_assoc]
          exact List.sublist_append_right _ _
        rw [queued]
        exact line.trans (sole.history ▸ List.filter_sublist)
  cases step with
  | append holds | enqueue holds => exact pushed holds member
  | pop sent queued =>
    rcases List.mem_append.mp member with before | new
    · exact sole.older removal before was
    · rw [List.mem_singleton] at new
      simp [new] at was
  | hand => exact (sole.older removal member was).trans (List.sublist_append_left _ _)
  | _ => exact sole.older removal member was

/-- A step keeps these too, as long as no other producer gets an item. -/
theorem Step.sole (positive : 0 < maxlen) (step : Step maxlen drainer owner u v)
    (inv : u.Inv maxlen drainer owner) (sole : u.Sole maxlen drainer)
    (alone : ∀ p, p ≠ drainer → v.holding p = none) : v.Sole maxlen drainer where
  alone := alone
  first := step.first inv sole alone
  watching := step.watching inv sole
  resting := step.resting positive sole
  clear := step.clear sole
  dropped := step.dropped positive inv sole alone
  history := step.history positive inv sole alone
  older := step.older inv sole

omit [DecidableEq P] in
theorem Fresh.sole (fresh : u.Fresh) : u.Sole maxlen drainer where
  alone p _ := fresh.holding p
  first head in_hand := by simp [fresh.draining, Draining.head] at in_hand
  watching nonempty := absurd fresh.queue nonempty
  resting _ watched := by simp [fresh.watched] at watched
  clear item stage holds := by simp [fresh.holding] at holds
  dropped _ := by simp [fresh.dropped, fresh.log, Deque.Log.empty, ahead, fresh.holding]
  history := by simp [fresh.delivered, fresh.content, held, fresh.holding, fresh.handed]
  older removal member := by simp [fresh.log, Deque.Log.empty] at member

end Sockcan.Outbox
