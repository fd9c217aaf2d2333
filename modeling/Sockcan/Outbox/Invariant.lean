import Sockcan.Outbox.Basic

/-! The invariant of the bounded outbox, field by field, and the one step that can
leave something queued that nobody is watching for. -/
namespace Sockcan.Outbox
variable {P α : Type} {maxlen : Nat} {drainer : P} {owner : α → P} {u v : Outbox P α}

section Invariant
variable [DecidableEq P] [DecidableEq α]

omit [DecidableEq α] in
theorem holding_hold (p q : P) (held : Option (α × Stage)) :
    (u.hold p held).holding q = if q = p then held else u.holding q := by
  by_cases same : q = p
  · subst same
    simp [hold]
  · simp [hold, same]

omit [DecidableEq α] in
/-- A producer keeps its item while it moves on, and gets a new one only when free. -/
theorem Step.holding (step : Step maxlen drainer owner u v) {p : P} {item : α} {stage : Stage}
    (holds : v.holding p = some (item, stage)) :
    (∃ earlier, u.holding p = some (item, earlier)) ∨
      (u.holding p = none ∧ owner item = p ∧ stage = .arrived) := by
  have moved {w : Outbox P α} {q : P} {other : α} {from_ to_ : Stage}
      (was : u.holding q = some (other, from_)) (same : w.holding = u.holding)
      (holds : (w.hold q (some (other, to_))).holding p = some (item, stage)) :
      ∃ earlier, u.holding p = some (item, earlier) := by
    rw [holding_hold, same] at holds
    split at holds
    · rw [Option.some.injEq, Prod.mk.injEq] at holds
      exact ⟨from_, by rw [‹p = q›, was, holds.1]⟩
    · exact ⟨stage, holds⟩
  have freed {w : Outbox P α} {q : P} (same : w.holding = u.holding)
      (holds : (w.hold q none).holding p = some (item, stage)) :
      ∃ earlier, u.holding p = some (item, earlier) := by
    rw [holding_hold, same] at holds
    split at holds
    · contradiction
    · exact ⟨stage, holds⟩
  cases step with
  | @hand q other free idle mine fresh =>
    rw [holding_hold] at holds
    split at holds
    · rw [Option.some.injEq, Prod.mk.injEq] at holds
      obtain ⟨rfl, rfl⟩ := holds
      exact Or.inr ⟨by rw [‹p = q›, free], by rw [mine, ‹p = q›], rfl⟩
    · exact Or.inl ⟨stage, holds⟩
  | goDirect was | goBehind was | count was | refuse was | recount was =>
    exact Or.inl (moved was rfl holds)
  | append was | send was | enqueue was => exact Or.inl (freed rfl holds)
  | startDrain | find | peek | sendHead | refuseHead | pop | settleEmpty | settle =>
    exact Or.inl ⟨stage, holds⟩

theorem Step.mine (step : Step maxlen drainer owner u v) (inv : u.Inv maxlen drainer owner) :
    ∀ p item stage, v.holding p = some (item, stage) → owner item = p := by
  intro p item stage holds
  rcases step.holding holds with ⟨earlier, held⟩ | ⟨_, mine, _⟩
  · exact inv.mine p item earlier held
  · exact mine

theorem Step.exclusive (step : Step maxlen drainer owner u v) (inv : u.Inv maxlen drainer owner) :
    v.holding drainer ≠ none → v.draining = .idle := by
  intro holds
  obtain ⟨⟨item, stage⟩, holds⟩ := Option.ne_none_iff_exists'.mp holds
  have busy : (∃ earlier, u.holding drainer = some (item, earlier)) → u.draining = .idle := by
    rintro ⟨earlier, held⟩
    exact inv.exclusive (by rw [held]; exact Option.some_ne_none _)
  have idle : u.holding drainer = some (item, stage) → u.draining = .idle :=
    fun held => busy ⟨stage, held⟩
  cases step with
  | @hand q other free drainer_idle mine fresh =>
    rcases Decidable.em (drainer = q) with same | different
    · exact drainer_idle same.symm
    · rw [holding_hold, if_neg different] at holds
      exact idle holds
  | @goDirect q _ was | @goBehind q _ was | @count q _ was | @append q _ was | @send q _ was
  | @refuse q _ was | @recount q _ was | @enqueue q _ was =>
    rcases Decidable.em (drainer = q) with same | different
    · subst same
      exact inv.exclusive (by rw [was]; exact Option.some_ne_none _)
    · rw [holding_hold, if_neg different] at holds
      exact idle holds
  | startDrain free => exact absurd holds (by rw [free]; simp)
  | find active | refuseHead active | pop active => simp [idle holds] at active
  | peek found | sendHead found => simp [idle holds] at found
  | settleEmpty | settle => rfl

theorem Step.occupied (positive : 0 < maxlen) (step : Step maxlen drainer owner u v)
    (inv : u.Inv maxlen drainer owner) :
    v.draining = .found ∨ v.draining.head ≠ none → v.queue ≠ [] := by
  intro busy
  cases step with
  | hand | goDirect | goBehind | count | send | refuse | recount => exact inv.occupied busy
  | append | enqueue => exact Deque.append_ne_nil positive _ _
  | startDrain | refuseHead | pop | settleEmpty | settle => simp [Draining.head] at busy
  | find _ nonempty => exact nonempty
  | peek found queued => exact inv.occupied (Or.inl found)
  | sendHead peeked => exact inv.occupied (Or.inr (by simp [peeked, Draining.head]))

theorem Step.behind (positive : 0 < maxlen) (step : Step maxlen drainer owner u v)
    (inv : u.Inv maxlen drainer owner) :
    ∀ item stage, v.holding drainer = some (item, stage) → stage.Behind → v.queue ≠ [] := by
  intro item stage holds behind
  have kept (earlier : u.holding drainer = some (item, stage)) : u.queue ≠ [] :=
    inv.behind item stage earlier behind
  cases step with
  | @hand q | @goDirect q | @refuse q | @recount q | @send q =>
    rw [holding_hold] at holds
    split at holds
    · cases holds <;> exact behind.elim
    · exact kept holds
  | @goBehind q other was nonempty => exact nonempty
  | @count q other was =>
    rw [holding_hold] at holds
    split at holds
    · exact inv.behind other .behind (by rw [‹drainer = q›, was]) trivial
    · exact kept holds
  | append | enqueue => exact Deque.append_ne_nil positive _ _
  | startDrain free => exact kept holds
  | find _ nonempty | settle _ nonempty => exact nonempty
  | peek | sendHead | refuseHead => exact kept holds
  | pop sent =>
    have idle := inv.exclusive (by
      have was : u.holding drainer = some (item, stage) := holds
      rw [was]
      exact Option.some_ne_none _)
    simp [idle] at sent
  | settleEmpty active empty => exact kept holds

theorem Step.bound (step : Step maxlen drainer owner u v) (inv : u.Inv maxlen drainer owner) :
    v.queue.length ≤ maxlen := by
  cases step with
  | append | enqueue => exact Deque.append_length_le _ inv.bound
  | pop sent queued =>
    have := inv.bound
    rw [queued, List.length_cons] at this
    exact Nat.le_of_succ_le this
  | _ => exact inv.bound

theorem nodup_of_ofOwner {items : List α} (each : ∀ p, (ofOwner owner p items).Nodup) :
    items.Nodup := by
  rw [List.nodup_iff_count_le_one]
  intro item
  have own := List.nodup_iff_count_le_one.mp (each (owner item)) item
  rwa [ofOwner, List.count_filter (by simp)] at own

theorem Inv.line_nodup (inv : u.Inv maxlen drainer owner) (p : P) : (u.line owner p).Nodup :=
  (inv.fresh.filter _).sublist (inv.line p)

theorem Inv.nodup (inv : u.Inv maxlen drainer owner) : (u.delivered ++ u.content).Nodup :=
  nodup_of_ofOwner fun p => (inv.line_nodup p).sublist (List.sublist_append_left _ _)

/-- An item in the hand of a producer has not entered the rest. -/
theorem Inv.held_fresh (inv : u.Inv maxlen drainer owner) {p : P} {item : α} {stage : Stage}
    (holds : u.holding p = some (item, stage)) : item ∉ u.delivered ++ u.content := by
  intro member
  have nodup := inv.line_nodup p
  rw [Outbox.line, held_of_holding holds] at nodup
  have own : item ∈ ofOwner owner p (u.delivered ++ u.content) :=
    List.mem_filter.mpr ⟨member, by simpa using inv.mine p item stage holds⟩
  exact (List.disjoint_of_nodup_append nodup) own (by simp)

theorem Inv.head_mem (inv : u.Inv maxlen drainer owner) {head : α}
    (in_hand : u.draining.head = some head) : head ∈ u.delivered ++ u.content := by
  cases draining : u.draining with
  | peeked other =>
    rw [draining, Draining.head, Option.some.injEq] at in_hand
    simp [content, draining, in_hand]
  | sent other =>
    rw [draining, Draining.head, Option.some.injEq] at in_hand
    exact List.mem_append_left _ (inv.sent head (by rw [draining, in_hand]))
  | idle | active | found => simp [draining, Draining.head] at in_hand

omit [DecidableEq P] [DecidableEq α] in
theorem touched_push {item : α} (full : maxlen ≤ u.queue.length) :
    ¬ (u.push maxlen item).Untouched :=
  fun untouched => absurd (room_of_untouched untouched) (Nat.not_lt.mpr full)

omit [DecidableEq P] [DecidableEq α] in
/-- Appending either keeps the head first or evicts it. -/
theorem head_push (positive : 0 < maxlen) {head : α} (item : α) (different : item ≠ head)
    (before : head ∉ u.queue.tail ∧ (u.queue.head? = some head ∨
      (head ∉ u.queue ∧ maxlen ≤ u.queue.length ∧ ¬ u.Untouched))) :
    let queue := (u.push maxlen item).queue
    head ∉ queue.tail ∧ (queue.head? = some head ∨
      (head ∉ queue ∧ maxlen ≤ queue.length ∧ ¬ (u.push maxlen item).Untouched)) := by
  intro queue
  by_cases room : u.queue.length < maxlen
  · have appended : queue = u.queue ++ [item] := Deque.append_of_lt item room
    obtain ⟨absent, first | ⟨_, full, _⟩⟩ := before
    · cases existing : u.queue with
      | nil => simp [existing] at first
      | cons other rest =>
        rw [existing, List.tail_cons] at absent
        rw [existing, List.head?_cons] at first
        rw [appended, existing]
        exact ⟨by simp [absent, Ne.symm different], Or.inl first⟩
    · omega
  · cases existing : u.queue with
    | nil =>
      rw [existing, List.length_nil] at room
      omega
    | cons other rest =>
      have full : maxlen ≤ (other :: rest).length := by
        rw [← existing]
        omega
      have appended : queue = rest ++ [item] := by
        simp only [queue, push, existing]
        exact Deque.append_full full
      rw [existing] at before
      have absent : head ∉ rest ++ [item] := by
        simpa [Ne.symm different] using before.1
      rw [appended]
      refine ⟨fun member => absent (List.mem_of_mem_tail member), Or.inr ⟨absent, ?_, ?_⟩⟩
      · simpa using full
      · exact touched_push (by rw [existing]; exact full)

theorem Step.head (positive : 0 < maxlen) (step : Step maxlen drainer owner u v)
    (inv : u.Inv maxlen drainer owner) :
    ∀ head, v.draining.head = some head → head ∉ v.queue.tail ∧
      (v.queue.head? = some head ∨
        (head ∉ v.queue ∧ maxlen ≤ v.queue.length ∧ ¬ v.Untouched)) := by
  intro head in_hand
  have pushed {p item stage} (holds : u.holding p = some (item, stage))
      (in_hand : u.draining.head = some head) :=
    head_push positive item (fun same => inv.held_fresh holds (same ▸ inv.head_mem in_hand))
      (inv.head head in_hand)
  cases step with
  | hand | goDirect | goBehind | count | send | refuse | recount => exact inv.head head in_hand
  | append holds | enqueue holds => exact pushed holds in_hand
  | startDrain | find | refuseHead | pop | settleEmpty | settle => simp [Draining.head] at in_hand
  | @peek first rest found queued =>
    rw [Draining.head, Option.some.injEq] at in_hand
    subst in_hand
    have nodup := (List.nodup_append.mp inv.nodup).2.1
    rw [content_of_no_head (by rw [found, Draining.head]), queued] at nodup
    simp only [queued, List.tail_cons, List.head?_cons]
    exact ⟨(List.nodup_cons.mp nodup).1, Or.inl trivial⟩
  | @sendHead first peeked =>
    exact inv.head head (by rw [peeked]; exact in_hand)

/-- Nothing enters the rest but the item that a producer puts down. -/
theorem Step.content (step : Step maxlen drainer owner u v) (inv : u.Inv maxlen drainer owner) :
    ∀ other ∈ v.content, other ∈ u.content ∨
      ∃ p stage, u.holding p = some (other, stage) ∧ v.holding p = none := by
  intro other member
  have pushed {p item stage} (holds : u.holding p = some (item, stage)) (free : v.holding p = none)
      (member : other ∈ (u.push maxlen item).content) :
      other ∈ u.content ∨ ∃ p stage, u.holding p = some (other, stage) ∧ v.holding p = none := by
    rcases List.mem_append.mp ((content_push_sublist item).subset member) with old | new
    · exact Or.inl old
    · rw [List.mem_singleton] at new
      exact Or.inr ⟨p, stage, new ▸ holds, free⟩
  have no_head {d : Draining α} (draining : u.draining = d) (d_none : d.head = none) :
      u.content = u.queue := content_of_no_head (by rw [draining, d_none])
  cases step with
  | hand | goDirect | goBehind | count | send | refuse | recount => exact Or.inl member
  | append holds | enqueue holds => exact pushed holds (by simp [holding_hold]) member
  | startDrain free idle => exact Or.inl (no_head idle rfl ▸ member)
  | find active | settleEmpty active | settle active => exact Or.inl (no_head active rfl ▸ member)
  | @peek head rest found queued =>
    have same : head :: u.queue.erase head = u.queue :=
      erase_head (by rw [queued, List.head?_cons])
    have shown : other ∈ head :: u.queue.erase head := member
    rw [same] at shown
    exact Or.inl (no_head found rfl ▸ shown)
  | @sendHead head peeked =>
    have shown : other ∈ u.queue.erase head := member
    exact Or.inl (by simpa [Outbox.content, peeked] using Or.inr shown)
  | @refuseHead head peeked =>
    have shown : other ∈ u.queue := member
    left
    rw [Outbox.content, peeked]
    by_cases same : other = head
    · exact List.mem_cons.mpr (Or.inl same)
    · exact List.mem_cons_of_mem _ ((List.mem_erase_of_ne same).mpr shown)
  | @pop head first rest sent queued =>
    have shown : other ∈ rest := member
    left
    rw [Outbox.content, sent]
    have absent := inv.head head (by rw [sent, Draining.head])
    rw [queued, List.tail_cons] at absent
    have different : other ≠ head := fun same => absent.1 (same ▸ shown)
    exact (List.mem_erase_of_ne different).mpr (queued ▸ List.mem_cons_of_mem _ shown)

omit [DecidableEq α] in
/-- A producer becomes able to send directly only while the outbox is empty. -/
theorem Step.refusable (step : Step maxlen drainer owner u v) {p : P} {item : α} {stage : Stage}
    (holds : v.holding p = some (item, stage)) (refusable : stage.Refusable) :
    (∃ earlier, u.holding p = some (item, earlier) ∧ earlier.Refusable) ∨ u.queue = [] := by
  have other {w : Outbox P α} {q : P} {next : Option (α × Stage)} (different : p ≠ q)
      (same : w.holding = u.holding) (holds : (w.hold q next).holding p = some (item, stage)) :
      ∃ earlier, u.holding p = some (item, earlier) ∧ earlier.Refusable := by
    rw [holding_hold, if_neg different, same] at holds
    exact ⟨stage, holds, refusable⟩
  cases step with
  | @hand q | @goBehind q | @count q | @append q | @send q | @enqueue q =>
    by_cases same : p = q
    · rw [holding_hold, if_pos same] at holds
      cases holds <;> exact refusable.elim
    · exact Or.inl (other same rfl holds)
  | @goDirect q new was empty => exact Or.inr empty
  | @refuse q new was =>
    by_cases same : p = q
    · rw [holding_hold, if_pos same, Option.some.injEq, Prod.mk.injEq] at holds
      exact Or.inl ⟨.direct, by rw [same, was, holds.1], trivial⟩
    · exact Or.inl (other same rfl holds)
  | @recount q new was =>
    by_cases same : p = q
    · rw [holding_hold, if_pos same, Option.some.injEq, Prod.mk.injEq] at holds
      exact Or.inl ⟨.refused, by rw [same, was, holds.1], trivial⟩
    · exact Or.inl (other same rfl holds)
  | startDrain | find | peek | sendHead | refuseHead | pop | settleEmpty | settle =>
    exact Or.inl ⟨stage, holds, refusable⟩

theorem Inv.content_of_empty (inv : u.Inv maxlen drainer owner) (empty : u.queue = []) :
    u.content = [] := by
  rw [content_of_no_head, empty]
  by_contra busy
  exact inv.occupied (Or.inr busy) empty

theorem Step.apart (step : Step maxlen drainer owner u v) (inv : u.Inv maxlen drainer owner) :
    ∀ p item stage, v.holding p = some (item, stage) → stage.Refusable →
      ∀ other ∈ v.content, owner other ≠ p := by
  intro p item stage holds refusable other member
  rcases step.content inv other member with old | ⟨q, earlier, held, free⟩
  · rcases step.refusable holds refusable with ⟨earlier, held, before⟩ | empty
    · exact inv.apart p item earlier held before other old
    · rw [inv.content_of_empty empty] at old
      contradiction
  · rw [inv.mine q other earlier held]
    rintro rfl
    rw [free] at holds
    contradiction

omit [DecidableEq α] in
theorem Step.delivered (step : Step maxlen drainer owner u v) : u.delivered ⊆ v.delivered := by
  cases step with
  | send | sendHead => exact List.subset_append_left _ _
  | _ => exact List.Subset.refl _

theorem Step.accounts (step : Step maxlen drainer owner u v) (inv : u.Inv maxlen drainer owner) :
    v.log.Accounts v.queue := by
  cases step with
  | append | enqueue => exact inv.accounts.append maxlen _
  | pop sent queued => exact (queued ▸ inv.accounts).remove false
  | _ => exact inv.accounts

/-- An item is lost only with a full queue behind it. -/
theorem Step.sacrificed (step : Step maxlen drainer owner u v) (inv : u.Inv maxlen drainer owner) :
    ∀ removal ∈ v.log.removed,
      removal.item ∈ v.delivered ∨ maxlen ≤ removal.left.length + 1 := by
  intro removal member
  have old (member : removal ∈ u.log.removed) :
      removal.item ∈ v.delivered ∨ maxlen ≤ removal.left.length + 1 :=
    (inv.sacrificed removal member).imp_left fun sent => step.delivered sent
  have pushed {item} (member : removal ∈ (u.push maxlen item).log.removed) :
      removal.item ∈ v.delivered ∨ maxlen ≤ removal.left.length + 1 := by
    simp only [push, Deque.Log.append] at member
    split at member
    · exact old member
    · rename_i head evicted
      rcases List.mem_append.mp member with before | new
      · exact old before
      · rw [List.mem_singleton] at new
        right
        rw [new]
        simp only [Deque.evicted] at evicted
        split at evicted
        · contradiction
        · simp only [Deque.append, ‹¬ _›, if_false, List.length_tail, List.length_append,
            List.length_singleton]
          omega
  cases step with
  | append | enqueue => exact pushed member
  | @pop head first rest sent queued =>
    rcases List.mem_append.mp member with before | new
    · exact old before
    · rw [List.mem_singleton] at new
      subst new
      have in_hand := (inv.head head (by rw [sent, Draining.head])).2
      rw [queued] at in_hand
      rcases in_hand with same | ⟨_, full, _⟩
      · rw [List.head?_cons, Option.some.injEq] at same
        left
        rw [same]
        exact inv.sent head sent
      · exact Or.inr full
  | _ => exact old member

theorem Step.sent (step : Step maxlen drainer owner u v) (inv : u.Inv maxlen drainer owner) :
    ∀ head, v.draining = .sent head → head ∈ v.delivered := by
  intro head draining
  cases step with
  | hand | goDirect | goBehind | count | append | refuse | recount | enqueue =>
    exact inv.sent head draining
  | send => exact List.mem_append_left _ (inv.sent head draining)
  | startDrain | find | peek | refuseHead | pop | settleEmpty | settle => simp at draining
  | sendHead =>
    cases draining
    simp

/-- Every step of every interleaving keeps the invariant. -/
theorem Step.inv (positive : 0 < maxlen) (step : Step maxlen drainer owner u v)
    (inv : u.Inv maxlen drainer owner) : v.Inv maxlen drainer owner := by
  obtain ⟨arrived, continues⟩ := step.continues inv
  have untouched (later : v.Untouched) : u.Untouched := by
    refine later.of_log fun removal member => ?_
    cases step with
    | append | enqueue => exact removed_push _ removal member
    | pop => exact List.mem_append_left _ member
    | _ => exact member
  exact {
    fresh := continues.fresh inv.fresh
    mine := step.mine inv
    exclusive := step.exclusive inv
    occupied := step.occupied positive inv
    behind := step.behind positive inv
    bound := step.bound inv
    head := step.head positive inv
    apart := step.apart inv
    line := fun p => by
      rw [continues.handed, ofOwner_append]
      exact (continues.line p).trans ((inv.line p).append_right _)
    exact := fun later p => by
      rw [continues.exact later p, inv.exact (untouched later) p, continues.handed, ofOwner_append]
    accounts := step.accounts inv
    sacrificed := step.sacrificed inv
    sent := step.sent inv }

/-- What is queued and not delivered yet: all of the queue but a head sent and still
to be popped. -/
def waiting (u : Outbox P α) : List α := u.queue.filter fun item => decide (item ∉ u.delivered)

theorem Inv.waiting_sublist (inv : u.Inv maxlen drainer owner) :
    u.waiting.Sublist u.content := by
  have queued : u.waiting.Sublist u.queue := List.filter_sublist
  cases draining : u.draining with
  | idle | active | found =>
    rw [content_of_no_head (by rw [draining, Draining.head])]
    exact queued
  | peeked head =>
    rw [content_peeked draining]
    refine queued.trans ?_
    rcases (inv.head head (by rw [draining, Draining.head])).2 with first | ⟨absent, _⟩
    · rw [erase_head first]
    · rw [List.erase_of_not_mem absent]
      exact List.sublist_cons_self _ _
  | sent head =>
    rw [content_sent draining]
    rcases (inv.head head (by rw [draining, Draining.head])).2 with first | ⟨absent, _⟩
    · have dropped : u.waiting =
          (u.queue.erase head).filter fun item => decide (item ∉ u.delivered) := by
        rw [waiting, ← erase_head first, List.filter_cons, List.erase_cons_head]
        simp [inv.sent head draining]
      rw [dropped]
      exact List.filter_sublist
    · rwa [List.erase_of_not_mem absent]

theorem Inv.waiting_eq (inv : u.Inv maxlen drainer owner) (untouched : u.Untouched) :
    u.waiting = u.content := by
  have first {head : α} (in_hand : u.draining.head = some head) : u.queue.head? = some head := by
    rcases (inv.head head in_hand).2 with first | ⟨_, _, touched⟩
    · exact first
    · exact absurd untouched touched
  have all (rest : List α) (apart : ∀ item ∈ rest, item ∉ u.delivered) :
      rest.filter (fun item => decide (item ∉ u.delivered)) = rest :=
    List.filter_eq_self.mpr fun item member => decide_eq_true (apart item member)
  have apart : ∀ item ∈ u.content, item ∉ u.delivered := fun item later before =>
    (List.disjoint_of_nodup_append inv.nodup) before later
  cases draining : u.draining with
  | idle | active | found =>
    rw [content_of_no_head (by rw [draining, Draining.head])] at apart ⊢
    exact all u.queue apart
  | peeked head =>
    rw [content_peeked draining] at apart ⊢
    rw [erase_head (first (by rw [draining, Draining.head]))] at apart ⊢
    exact all u.queue apart
  | sent head =>
    rw [content_sent draining] at apart ⊢
    have queue := erase_head (first (by rw [draining, Draining.head]))
    rw [waiting, ← queue, List.filter_cons, List.erase_cons_head]
    simpa [inv.sent head draining] using apart

omit [DecidableEq α] in
/-- No eviction without a full queue. -/
theorem Step.untouched (step : Step maxlen drainer owner u v) (room : u.queue.length < maxlen)
    (untouched : u.Untouched) : v.Untouched := by
  have pushed {item} : (u.push maxlen item).Untouched := by
    intro removal member
    simp only [push, Deque.Log.append, Deque.evicted_of_lt item room] at member
    exact untouched removal member
  cases step with
  | append | enqueue => exact pushed
  | pop sent queued =>
    intro removal member
    rcases List.mem_append.mp member with before | new
    · exact untouched removal before
    · rw [List.mem_singleton.mp new]
  | _ => exact untouched

/-- Nothing was handed over yet. -/
structure Fresh (u : Outbox P α) : Prop where
  queue : u.queue = []
  log : u.log = .empty
  dropped : u.dropped = 0
  watched : u.watched = false
  handed : u.handed = []
  delivered : u.delivered = []
  holding : ∀ p, u.holding p = none
  draining : u.draining = .idle

omit [DecidableEq P] in
theorem Fresh.content (fresh : u.Fresh) : u.content = [] := by
  rw [content_of_no_head (by rw [fresh.draining, Draining.head]), fresh.queue]

theorem Fresh.line (fresh : u.Fresh) (p : P) : u.line owner p = [] := by
  simp [Outbox.line, fresh.content, fresh.delivered, held, fresh.holding, ofOwner]

theorem Fresh.inv (fresh : u.Fresh) : u.Inv maxlen drainer owner where
  fresh := by simp [fresh.handed]
  mine p item stage holds := by simp [fresh.holding] at holds
  exclusive _ := fresh.draining
  occupied busy := by simp [fresh.draining, Draining.head] at busy
  behind item stage holds := by simp [fresh.holding] at holds
  bound := by simp [fresh.queue]
  head head in_hand := by simp [fresh.draining, Draining.head] at in_hand
  apart p item stage holds := by simp [fresh.holding] at holds
  line p := by rw [fresh.line]; exact List.nil_sublist _
  exact _ p := by simp [fresh.line, fresh.handed, ofOwner]
  accounts := by rw [fresh.queue, fresh.log]; exact Deque.Log.accounts_empty
  sacrificed removal member := by simp [fresh.log, Deque.Log.empty] at member
  sent head sent := by simp [fresh.draining] at sent

end Invariant

section Watching
variable [DecidableEq P]

/-- Something is queued and nobody waits for the receiver to take it. -/
def Stranded (u : Outbox P α) : Prop := u.queue ≠ [] ∧ u.watched = false

/-- The only step that strands a queue: a producer other than the drainer appends
to what it found non-empty, after the drainer has emptied it and stopped watching. -/
theorem Step.stranded (step : Step maxlen drainer owner u v)
    (stranded : v.Stranded) : u.Stranded ∨
      ∃ p item, u.holding p = some (item, .counted) ∧ v.holding p = none ∧ u.watched = false := by
  cases step with
  | @append p item holds =>
    exact Or.inr ⟨p, item, holds, by simp [holding_hold], stranded.2⟩
  | enqueue => exact absurd stranded.2 (by simp [hold])
  | settleEmpty _ empty => exact absurd empty stranded.1
  | pop sent queued =>
    refine Or.inl ⟨by rw [queued]; simp, stranded.2⟩
  | _ => exact Or.inl stranded

end Watching

end Sockcan.Outbox
