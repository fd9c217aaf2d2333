import Sockcan.Outbox.Invariant

/-! An outbox whose sends may fail. An item that is given up is taken back from what was
handed over, and what is left is an outbox as before: its invariant says of the items that
were not given up what it says of all where no send fails. -/
namespace Sockcan.Outbox
variable {P α : Type} [DecidableEq P] {maxlen : Nat} {drainer : P} {owner : α → P}
  {u v : Outbox P α}

section Steps

/-- Whatever was handed over so far, a step that hands nothing over is the same step. -/
theorem Step.rehanded (step : Step maxlen drainer owner u v) (same : v.handed = u.handed)
    (handed : List α) :
    Step maxlen drainer owner { u with handed := handed } { v with handed := handed } := by
  cases step with
  | hand => exact absurd (congrArg List.length same) (by simp [hold])
  | goDirect held empty => exact .goDirect (u := { u with handed := handed }) held empty
  | goBehind held nonempty => exact .goBehind (u := { u with handed := handed }) held nonempty
  | count held => exact .count (u := { u with handed := handed }) held
  | append held => exact .append (u := { u with handed := handed }) held
  | send held => exact .send (u := { u with handed := handed }) held
  | refuse held => exact .refuse (u := { u with handed := handed }) held
  | recount held => exact .recount (u := { u with handed := handed }) held
  | enqueue held => exact .enqueue (u := { u with handed := handed }) held
  | startDrain free idle => exact .startDrain (u := { u with handed := handed }) free idle
  | find active nonempty => exact .find (u := { u with handed := handed }) active nonempty
  | peek found queued => exact .peek (u := { u with handed := handed }) found queued
  | sendHead peeked => exact .sendHead (u := { u with handed := handed }) peeked
  | refuseHead peeked => exact .refuseHead (u := { u with handed := handed }) peeked
  | pop sent queued => exact .pop (u := { u with handed := handed }) sent queued
  | settleEmpty active empty =>
    exact .settleEmpty (u := { u with handed := handed }) active empty
  | settle active nonempty => exact .settle (u := { u with handed := handed }) active nonempty

end Steps

variable [DecidableEq α] {p : P} {item : α} {stage : Stage}

/-- All items but this one, which is given up. -/
def without (item : α) (items : List α) : List α := items.filter fun other => decide (other ≠ item)

omit [DecidableEq P] in
theorem without_of_not_mem {items : List α} (absent : item ∉ items) : without item items = items :=
  List.filter_eq_self.mpr fun _ member => decide_eq_true fun same => absent (same ▸ member)

/-- A producer gives its item up. -/
def abandon (u : Outbox P α) (p : P) (item : α) : Outbox P α :=
  { u with handed := without item u.handed }.hold p none

/-- The item leaves its line, which ends with it, and the other lines do not have it. -/
theorem Inv.line_abandon (inv : u.Inv maxlen drainer owner)
    (holds : u.holding p = some (item, stage)) (q : P) :
    (u.abandon p item).line owner q = without item (u.line owner q) := by
  have fresh := inv.held_fresh holds
  have rest : item ∉ ofOwner owner q (u.delivered ++ u.content) :=
    fun member => fresh (List.mem_filter.mp member).1
  have content : (u.abandon p item).content = u.content := rfl
  rw [Outbox.line, Outbox.line, content, without, List.filter_append]
  refine congrArg₂ _ (without_of_not_mem rest).symm ?_
  rw [abandon, held_hold]
  by_cases same : q = p
  · subst same
    rw [if_pos rfl, held_of_holding holds]
    simp
  · rw [if_neg same]
    have absent : item ∉ u.held q := by
      intro member
      simp only [held, Option.mem_toList, Option.map_eq_some_iff] at member
      obtain ⟨⟨other, later⟩, held, rfl⟩ := member
      exact same ((inv.mine q other later held).symm.trans (inv.mine p other stage holds))
    exact (without_of_not_mem absent).symm

theorem ofOwner_without (q : P) (items : List α) :
    ofOwner owner q (without item items) = without item (ofOwner owner q items) :=
  List.filter_comm _ _ _

theorem Inv.abandon (inv : u.Inv maxlen drainer owner) (holds : u.holding p = some (item, stage)) :
    (u.abandon p item).Inv maxlen drainer owner := by
  have still {q : P} {other : α} {later : Stage}
      (held : (u.abandon p item).holding q = some (other, later)) :
      u.holding q = some (other, later) := by
    rw [Outbox.abandon, holding_hold] at held
    split at held
    · contradiction
    · exact held
  exact {
    fresh := inv.fresh.filter _
    mine := fun q other later held => inv.mine q other later (still held)
    exclusive := fun held => by
      obtain ⟨⟨other, later⟩, held⟩ := Option.ne_none_iff_exists'.mp held
      exact inv.exclusive (by rw [still held]; exact Option.some_ne_none _)
    occupied := inv.occupied
    behind := fun other later held => inv.behind other later (still held)
    bound := inv.bound
    head := inv.head
    apart := fun q other later held => inv.apart q other later (still held)
    line := fun q => by
      have handed : (u.abandon p item).handed = without item u.handed := rfl
      rw [inv.line_abandon holds, handed, ofOwner_without]
      exact (inv.line q).filter _
    exact := fun untouched q => by
      have handed : (u.abandon p item).handed = without item u.handed := rfl
      rw [inv.line_abandon holds, handed, ofOwner_without, inv.exact untouched q]
    accounts := inv.accounts
    sacrificed := inv.sacrificed
    sent := inv.sent }

/-- The drain goes away between two items. -/
theorem Inv.rest (inv : u.Inv maxlen drainer owner)
    (between : u.draining = .active ∨ u.draining = .found) :
    ({ u with draining := .idle } : Outbox P α).Inv maxlen drainer owner := by
  have content : ({ u with draining := .idle } : Outbox P α).content = u.content := by
    rcases between with draining | draining <;> simp only [Outbox.content, draining]
  have line (q : P) : ({ u with draining := .idle } : Outbox P α).line owner q =
      u.line owner q := by
    rw [Outbox.line, Outbox.line, content]
    rfl
  exact {
    fresh := inv.fresh
    mine := inv.mine
    exclusive := fun _ => rfl
    occupied := fun busy => by simp [Draining.head] at busy
    behind := inv.behind
    bound := inv.bound
    head := fun head in_hand => by simp [Draining.head] at in_hand
    apart := fun q other later held => by
      rw [content]
      exact inv.apart q other later held
    line := fun q => by
      rw [line]
      exact inv.line q
    exact := fun untouched q => by
      rw [line]
      exact inv.exact untouched q
    accounts := inv.accounts
    sacrificed := inv.sacrificed
    sent := fun head sent => by contradiction }

/-- Whether anyone waits for the receiver, and what was counted, is of no importance here. -/
theorem Inv.watch (inv : u.Inv maxlen drainer owner) (watched : Bool) (dropped : Nat) :
    ({ u with watched := watched, dropped := dropped } : Outbox P α).Inv maxlen drainer owner :=
  ⟨inv.fresh, inv.mine, inv.exclusive, inv.occupied, inv.behind, inv.bound, inv.head, inv.apart,
    inv.line, inv.exact, inv.accounts, inv.sacrificed, inv.sent⟩

theorem Inv.mem_handed (inv : u.Inv maxlen drainer owner)
    (member : item ∈ u.delivered ++ u.content) : item ∈ u.handed := by
  have own : item ∈ u.line owner (owner item) :=
    List.mem_append_left _ (List.mem_filter.mpr ⟨member, by simp⟩)
  exact (List.mem_filter.mp ((inv.line (owner item)).subset own)).1

/-- What is queued was handed over. -/
theorem Inv.queued_handed (inv : u.Inv maxlen drainer owner) (queued : item ∈ u.queue) :
    item ∈ u.handed := by
  cases draining : u.draining with
  | idle | active | found =>
    refine inv.mem_handed (List.mem_append_right _ ?_)
    rwa [content_of_no_head (by rw [draining, Draining.head])]
  | peeked head | sent head =>
    by_cases here : item = head
    · subst here
      exact inv.mem_handed (inv.head_mem (by rw [draining, Draining.head]))
    · have left : item ∈ u.queue.erase head := (List.mem_erase_of_ne here).mpr queued
      refine inv.mem_handed (List.mem_append_right _ ?_)
      simp [Outbox.content, draining, left]

end Sockcan.Outbox
