import Sockcan.Deque
import Mathlib.Data.List.Basic
import Mathlib.Data.List.Nodup

/-! A bounded outbox in front of one receiver. Several producers send to the
receiver directly while the queue is empty and append behind it otherwise; what
is refused is queued. One of them also drains: it peeks at the head, sends it, and
only then pops. All of them interleave freely between these steps, so the head may
be evicted under a drain, and the queue may empty between a test and an append. -/
namespace Sockcan

/-- How far a producer is with its item: not tested yet, behind a queue that it
found non-empty (the overflow not counted yet, or counted), sending directly, or
refused and to be queued (again with the count before the append). -/
inductive Outbox.Stage where
  | arrived
  | behind
  | counted
  | direct
  | refused
  | recounted
  deriving DecidableEq

/-- The drain: not running, between two items, having found the queue non-empty,
and with a head before and after its send. -/
inductive Outbox.Draining (α : Type) where
  | idle
  | active
  | found
  | peeked (head : α)
  | sent (head : α)
  deriving DecidableEq

structure Outbox (P α : Type) where
  queue : List α
  log : Deque.Log α
  dropped : Nat
  watched : Bool
  handed : List α
  delivered : List α
  holding : P → Option (α × Outbox.Stage)
  draining : Outbox.Draining α

namespace Outbox
variable {P α : Type}

def hold [DecidableEq P] (u : Outbox P α) (p : P) (held : Option (α × Stage)) : Outbox P α :=
  { u with holding := Function.update u.holding p held }

def push (maxlen : Nat) (u : Outbox P α) (item : α) : Outbox P α :=
  { u with
    queue := Deque.append maxlen u.queue item
    log := u.log.append maxlen u.queue item }

def count (maxlen : Nat) (u : Outbox P α) : Outbox P α :=
  { u with dropped := if u.queue.length = maxlen then u.dropped + 1 else u.dropped }

inductive Step [DecidableEq P] (maxlen : Nat) (drainer : P) (owner : α → P) :
    Outbox P α → Outbox P α → Prop where
  | hand {u p item} (free : u.holding p = none) (idle : p = drainer → u.draining = .idle)
      (mine : owner item = p) (fresh : item ∉ u.handed) :
      Step maxlen drainer owner u
        ({ u with handed := u.handed ++ [item] }.hold p (some (item, .arrived)))
  | goDirect {u p item} (held : u.holding p = some (item, .arrived)) (empty : u.queue = []) :
      Step maxlen drainer owner u (u.hold p (some (item, .direct)))
  | goBehind {u p item} (held : u.holding p = some (item, .arrived)) (nonempty : u.queue ≠ []) :
      Step maxlen drainer owner u (u.hold p (some (item, .behind)))
  | count {u p item} (held : u.holding p = some (item, .behind)) :
      Step maxlen drainer owner u ((u.count maxlen).hold p (some (item, .counted)))
  | append {u p item} (held : u.holding p = some (item, .counted)) :
      Step maxlen drainer owner u ((u.push maxlen item).hold p none)
  | send {u p item} (held : u.holding p = some (item, .direct)) :
      Step maxlen drainer owner u
        ({ u with delivered := u.delivered ++ [item] }.hold p none)
  | refuse {u p item} (held : u.holding p = some (item, .direct)) :
      Step maxlen drainer owner u (u.hold p (some (item, .refused)))
  | recount {u p item} (held : u.holding p = some (item, .refused)) :
      Step maxlen drainer owner u ((u.count maxlen).hold p (some (item, .recounted)))
  | enqueue {u p item} (held : u.holding p = some (item, .recounted)) :
      Step maxlen drainer owner u ({ u.push maxlen item with watched := true }.hold p none)
  | startDrain {u} (free : u.holding drainer = none) (idle : u.draining = .idle) :
      Step maxlen drainer owner u { u with draining := .active }
  | find {u} (active : u.draining = .active) (nonempty : u.queue ≠ []) :
      Step maxlen drainer owner u { u with draining := .found }
  | peek {u head rest} (found : u.draining = .found) (queued : u.queue = head :: rest) :
      Step maxlen drainer owner u { u with draining := .peeked head }
  | sendHead {u head} (peeked : u.draining = .peeked head) :
      Step maxlen drainer owner u
        { u with draining := .sent head, delivered := u.delivered ++ [head] }
  | refuseHead {u head} (peeked : u.draining = .peeked head) :
      Step maxlen drainer owner u { u with draining := .active }
  | pop {u head first rest} (sent : u.draining = .sent head) (queued : u.queue = first :: rest) :
      Step maxlen drainer owner u
        { u with
          queue := rest
          log := u.log.remove ⟨first, rest, false⟩
          draining := .active }
  | settleEmpty {u} (active : u.draining = .active) (empty : u.queue = []) :
      Step maxlen drainer owner u { u with draining := .idle, watched := false, dropped := 0 }
  | settle {u} (active : u.draining = .active) (nonempty : u.queue ≠ []) :
      Step maxlen drainer owner u { u with draining := .idle }

/-- The head that a drain has in hand. -/
def Draining.head : Draining α → Option α
  | .peeked head | .sent head => some head
  | .idle | .active | .found => none

/-- What is still to be delivered, next item first. A head that the drain has
peeked at is to be delivered even when it is evicted meanwhile, and one that is
sent is not, though it may still be queued. -/
def content [DecidableEq α] (u : Outbox P α) : List α :=
  match u.draining with
  | .peeked head => head :: u.queue.erase head
  | .sent head => u.queue.erase head
  | .idle | .active | .found => u.queue

def held (u : Outbox P α) (p : P) : List α := ((u.holding p).map Prod.fst).toList

/-- The items of one producer among these. -/
def ofOwner [DecidableEq P] (owner : α → P) (p : P) (items : List α) : List α :=
  items.filter fun item => decide (owner item = p)

/-- The items of one producer, in the order in which the receiver gets them. -/
def line [DecidableEq P] [DecidableEq α] (owner : α → P) (u : Outbox P α) (p : P) : List α :=
  ofOwner owner p (u.delivered ++ u.content) ++ u.held p

/-- No item was evicted so far. -/
def Untouched (u : Outbox P α) : Prop := ∀ removal ∈ u.log.removed, removal.evicted = false

def Stage.Refusable : Stage → Prop
  | .direct | .refused | .recounted => True
  | .arrived | .behind | .counted => False

def Stage.Behind : Stage → Prop
  | .behind | .counted => True
  | .arrived | .direct | .refused | .recounted => False

/-- What every interleaving keeps. -/
structure Inv [DecidableEq P] [DecidableEq α] (maxlen : Nat) (drainer : P) (owner : α → P)
    (u : Outbox P α) : Prop where
  fresh : u.handed.Nodup
  mine : ∀ p item stage, u.holding p = some (item, stage) → owner item = p
  exclusive : u.holding drainer ≠ none → u.draining = .idle
  occupied : u.draining = .found ∨ u.draining.head ≠ none → u.queue ≠ []
  /-- Only the drainer shortens the queue, so it stays behind what it found. -/
  behind : ∀ item stage, u.holding drainer = some (item, stage) → stage.Behind → u.queue ≠ []
  bound : u.queue.length ≤ maxlen
  /-- The head in hand is queued first, or was evicted from a queue still full. -/
  head : ∀ head, u.draining.head = some head → head ∉ u.queue.tail ∧
    (u.queue.head? = some head ∨
      (head ∉ u.queue ∧ maxlen ≤ u.queue.length ∧ ¬ u.Untouched))
  /-- A producer that may still send directly has nothing left in the outbox. -/
  apart : ∀ p item stage, u.holding p = some (item, stage) → stage.Refusable →
    ∀ other ∈ u.content, owner other ≠ p
  line : ∀ p, (u.line owner p).Sublist (ofOwner owner p u.handed)
  exact : u.Untouched → ∀ p, u.line owner p = ofOwner owner p u.handed
  accounts : u.log.Accounts u.queue
  sacrificed : ∀ removal ∈ u.log.removed,
    removal.item ∈ u.delivered ∨ maxlen ≤ removal.left.length + 1
  sent : ∀ head, u.draining = .sent head → head ∈ u.delivered

variable {maxlen : Nat} {drainer : P} {owner : α → P} {u v : Outbox P α}

section Content
variable [DecidableEq α]

theorem content_of_no_head (no_head : u.draining.head = none) : u.content = u.queue := by
  unfold content
  cases h : u.draining <;> simp_all [Draining.head]

theorem content_peeked {head : α} (peeked : u.draining = .peeked head) :
    u.content = head :: u.queue.erase head := by
  rw [content, peeked]

theorem content_sent {head : α} (sent : u.draining = .sent head) :
    u.content = u.queue.erase head := by
  rw [content, sent]

@[simp] theorem content_hold [DecidableEq P] (p : P) (held : Option (α × Stage)) :
    (u.hold p held).content = u.content := rfl

@[simp] theorem content_count : (u.count maxlen).content = u.content := rfl

theorem erase_concat_sublist (queue : List α) (item head : α) :
    ((queue ++ [item]).erase head).Sublist (queue.erase head ++ [item]) := by
  by_cases member : head ∈ queue
  · rw [List.erase_append_left _ member]
  · rw [List.erase_append_right _ member, List.erase_of_not_mem member]
    exact List.erase_sublist.append_left _

theorem append_erase_sublist (queue : List α) (item head : α) :
    ((Deque.append maxlen queue item).erase head).Sublist (queue.erase head ++ [item]) := by
  by_cases room : queue.length < maxlen
  · rw [Deque.append_of_lt item room]
    exact erase_concat_sublist queue item head
  · cases queue with
    | nil =>
      have none_left : Deque.append maxlen [] item = [] := if_neg room
      simp [none_left]
    | cons first rest =>
      rw [Deque.append_full (Nat.le_of_not_lt room)]
      by_cases same : first = head
      · subst same
        rw [List.erase_cons_head]
        exact List.erase_sublist
      · rw [List.erase_cons_tail (by simpa using same), List.cons_append]
        exact (erase_concat_sublist rest item head).cons _

theorem content_push_sublist (item : α) :
    (u.push maxlen item).content.Sublist (u.content ++ [item]) := by
  unfold content
  cases h : u.draining with
  | peeked head =>
    simp only [push, h, List.cons_append]
    exact (append_erase_sublist _ _ _).cons_cons _
  | sent head =>
    simp only [push, h]
    exact append_erase_sublist _ _ _
  | idle | active | found =>
    simp only [push, h]
    exact Deque.append_sublist _ _ _

theorem content_push_room {item : α} (room : u.queue.length < maxlen)
    (queued : ∀ head, u.draining.head = some head → head ∈ u.queue) :
    (u.push maxlen item).content = u.content ++ [item] := by
  unfold content
  cases h : u.draining with
  | peeked head =>
    have member := queued head (by rw [h, Draining.head])
    simp only [push, h, Deque.append_of_lt item room, List.cons_append,
      List.erase_append_left _ member]
  | sent head =>
    have member := queued head (by rw [h, Draining.head])
    simp only [push, h, Deque.append_of_lt item room, List.erase_append_left _ member]
  | idle | active | found => simp only [push, h, Deque.append_of_lt item room]

end Content

section Lines

theorem held_hold [DecidableEq P] (p q : P) (held : Option (α × Stage)) :
    (u.hold p held).held q = if q = p then (held.map Prod.fst).toList else u.held q := by
  by_cases same : q = p
  · subst same
    simp [Outbox.held, hold]
  · simp [Outbox.held, hold, same]

theorem held_of_holding {p : P} {item : α} {stage : Stage}
    (holding : u.holding p = some (item, stage)) : u.held p = [item] := by
  simp [Outbox.held, holding]

theorem Untouched.of_log (suffix : ∀ removal ∈ u.log.removed, removal ∈ v.log.removed)
    (untouched : v.Untouched) : u.Untouched :=
  fun removal member => untouched removal (suffix removal member)

theorem removed_push (item : α) :
    ∀ removal ∈ u.log.removed, removal ∈ (u.push maxlen item).log.removed := by
  intro removal member
  simp only [push, Deque.Log.append]
  split
  · exact member
  · exact List.mem_append_left _ member

theorem room_of_untouched {item : α} (untouched : (u.push maxlen item).Untouched) :
    u.queue.length < maxlen := by
  by_contra full
  obtain ⟨head, dropped⟩ : ∃ head, Deque.evicted maxlen u.queue item = some head := by
    simp only [Deque.evicted, full, if_false]
    cases u.queue <;> exact ⟨_, rfl⟩
  have := untouched ⟨head, Deque.append maxlen u.queue item, true⟩
    (by simp only [push, Deque.Log.append, dropped, Deque.Log.remove]; simp)
  contradiction

end Lines

section Order
variable [DecidableEq P]

theorem ofOwner_append (p : P) (xs ys : List α) :
    ofOwner owner p (xs ++ ys) = ofOwner owner p xs ++ ofOwner owner p ys :=
  List.filter_append _ _

theorem ofOwner_mine {p : P} {item : α} (mine : owner item = p) :
    ofOwner owner p [item] = [item] := by
  simp [ofOwner, mine]

theorem ofOwner_other {p : P} {item : α} (other : owner item ≠ p) :
    ofOwner owner p [item] = [] := by
  simp [ofOwner, other]

theorem ofOwner_apart {p : P} {items : List α} (apart : ∀ item ∈ items, owner item ≠ p) :
    ofOwner owner p items = [] := by
  simpa [ofOwner, List.filter_eq_nil_iff] using apart

variable [DecidableEq α]

theorem line_restage {p : P} {item : α} {stage : Stage}
    (holding : u.holding p = some (item, stage)) (next : Stage) (q : P) :
    (u.hold p (some (item, next))).line owner q = u.line owner q := by
  have same : (u.hold p (some (item, next))).held q = u.held q := by
    rw [held_hold]
    split
    · rw [‹q = p›, held_of_holding holding]
      rfl
    · rfl
  rw [line, line, same, content_hold]
  rfl

theorem line_hand {p : P} {item : α} (free : u.holding p = none) (mine : owner item = p) (q : P) :
    ({ u with handed := u.handed ++ [item] }.hold p (some (item, .arrived))).line owner q =
      u.line owner q ++ ofOwner owner q [item] := by
  have none_held : u.held p = [] := by simp [held, free]
  simp only [line, content_hold, held_hold]
  by_cases same : q = p
  · subst same
    rw [if_pos rfl, none_held, ofOwner_mine mine, List.append_nil]
    rfl
  · rw [if_neg same, ofOwner_other (by rw [mine]; exact Ne.symm same), List.append_nil]
    rfl

/-- Putting the item of a producer down: it leaves the hand and enters the rest. -/
theorem line_put {p : P} {item : α} {stage : Stage} {rest : List α}
    (holding : u.holding p = some (item, stage)) (mine : owner item = p)
    (enters : (v.delivered ++ v.content).Sublist (rest ++ [item]))
    (before : rest = u.delivered ++ u.content)
    (after : v.holding = (u.hold p none).holding) (q : P) :
    (v.line owner q).Sublist (u.line owner q) ∧
      (v.delivered ++ v.content = rest ++ [item] → v.line owner q = u.line owner q) := by
  have whole : ofOwner owner q (rest ++ [item]) ++ v.held q = u.line owner q := by
    have free : v.held q = (u.hold p none).held q := by simp only [held, after]
    rw [line, free, held_hold, ofOwner_append, before]
    by_cases same : q = p
    · subst same
      rw [if_pos rfl, ofOwner_mine mine, held_of_holding holding]
      simp
    · rw [if_neg same, ofOwner_other (by rw [mine]; exact Ne.symm same), List.append_nil]
  constructor
  · rw [← whole, line]
    exact (enters.filter _).append_right _
  · intro same
    rw [← whole, line, same]

/-- A direct send does not overtake: nothing of the same producer is left. -/
theorem line_send {p : P} {item : α} {stage : Stage}
    (holding : u.holding p = some (item, stage)) (mine : owner item = p)
    (apart : ∀ other ∈ u.content, owner other ≠ p) (q : P) :
    ({ u with delivered := u.delivered ++ [item] }.hold p none).line owner q =
      u.line owner q := by
  have content : ({ u with delivered := u.delivered ++ [item] }.hold p none).content = u.content :=
    rfl
  have free : ({ u with delivered := u.delivered ++ [item] }.hold p none).held q =
      (u.hold p none).held q := rfl
  rw [line, line, content, free, held_hold]
  simp only [hold, ofOwner_append]
  by_cases same : q = p
  · subst same
    rw [if_pos rfl, ofOwner_mine mine, held_of_holding holding, ofOwner_apart apart]
    simp
  · rw [if_neg same, ofOwner_other (by rw [mine]; exact Ne.symm same), List.append_nil]

theorem line_congr (same : v.delivered ++ v.content = u.delivered ++ u.content)
    (holding : v.holding = u.holding) (p : P) : v.line owner p = u.line owner p := by
  rw [line, line, same, held, held, holding]

theorem line_drop (fewer : (v.delivered ++ v.content).Sublist (u.delivered ++ u.content))
    (holding : v.holding = u.holding) (p : P) : (v.line owner p).Sublist (u.line owner p) := by
  rw [line, line, held, held, holding]
  exact (fewer.filter _).append_right _

omit [DecidableEq P] in
/-- The head in hand, if it is still queued, is what erasing it removes. -/
theorem erase_head {head : α} (first : u.queue.head? = some head) :
    head :: u.queue.erase head = u.queue := by
  cases queue : u.queue with
  | nil => simp [queue] at first
  | cons other rest =>
    rw [queue, List.head?_cons, Option.some.injEq] at first
    rw [first, List.erase_cons_head]

/-- `v` continues the lines of `u` with the items that arrived. Only an item that
was evicted, or popped in the place of an evicted one, leaves its line. -/
structure Continues (owner : α → P) (u v : Outbox P α) (arrived : List α) : Prop where
  handed : v.handed = u.handed ++ arrived
  fresh : (u.handed.Nodup → v.handed.Nodup)
  line : ∀ p, (v.line owner p).Sublist (u.line owner p ++ ofOwner owner p arrived)
  exact : v.Untouched → ∀ p, v.line owner p = u.line owner p ++ ofOwner owner p arrived

theorem Continues.of_eq (handed : v.handed = u.handed)
    (same : ∀ p, v.line owner p = u.line owner p) : Continues owner u v [] where
  handed := by rw [handed, List.append_nil]
  fresh := by rw [handed]; exact id
  line p := by simp [same, ofOwner]
  exact _ p := by simp [same, ofOwner]

theorem Continues.of_fewer (handed : v.handed = u.handed)
    (fewer : ∀ p, (v.line owner p).Sublist (u.line owner p))
    (exact : v.Untouched → ∀ p, v.line owner p = u.line owner p) : Continues owner u v [] where
  handed := by rw [handed, List.append_nil]
  fresh := by rw [handed]; exact id
  line p := by simpa [ofOwner] using fewer p
  exact untouched p := by simpa [ofOwner] using exact untouched p

theorem continues_push {p : P} {item : α} {stage : Stage} (inv : u.Inv maxlen drainer owner)
    (holding : u.holding p = some (item, stage)) (watched : Bool) :
    Continues owner u ({ u.push maxlen item with watched := watched }.hold p none) [] := by
  have content : ({ u.push maxlen item with watched := watched }.hold p none).content =
      (u.push maxlen item).content := rfl
  have put := line_put (v := { u.push maxlen item with watched := watched }.hold p none)
    holding (inv.mine p item stage holding)
    (by rw [content, List.append_assoc]; exact (content_push_sublist item).append_left _) rfl rfl
  refine .of_fewer rfl (fun q => (put q).1) fun untouched q => (put q).2 ?_
  have room : u.queue.length < maxlen := room_of_untouched untouched
  have before : u.Untouched := untouched.of_log (removed_push item)
  rw [content, content_push_room room, List.append_assoc]
  · rfl
  intro head in_hand
  rcases (inv.head head in_hand).2 with first | ⟨_, _, touched⟩
  · exact List.mem_of_mem_head? first
  · exact absurd before touched

theorem Step.continues (step : Step maxlen drainer owner u v) (inv : u.Inv maxlen drainer owner) :
    ∃ arrived, Continues owner u v arrived := by
  have no_head {d : Draining α} (draining : u.draining = d) (d_none : d.head = none) :
      u.content = u.queue := content_of_no_head (by rw [draining, d_none])
  cases step with
  | @hand p item free idle mine fresh =>
    refine ⟨[item], rfl, fun nodup => ?_, fun q => ?_, fun _ q => line_hand free mine q⟩
    · exact List.nodup_append.mpr ⟨nodup, by simp, by
        intro a member b single
        rw [List.mem_singleton] at single
        exact fun same => fresh (single ▸ same ▸ member)⟩
    · rw [line_hand free mine q]
  | goDirect holding empty => exact ⟨[], .of_eq rfl (line_restage holding _)⟩
  | goBehind holding nonempty => exact ⟨[], .of_eq rfl (line_restage holding _)⟩
  | count holding => exact ⟨[], .of_eq rfl (line_restage (u := u.count maxlen) holding _)⟩
  | append holding => exact ⟨[], continues_push inv holding u.watched⟩
  | @send p item holding =>
    have mine := inv.mine p item .direct holding
    exact ⟨[], .of_eq rfl (line_send holding mine (inv.apart p item _ holding trivial))⟩
  | refuse holding => exact ⟨[], .of_eq rfl (line_restage holding _)⟩
  | recount holding => exact ⟨[], .of_eq rfl (line_restage (u := u.count maxlen) holding _)⟩
  | enqueue holding => exact ⟨[], continues_push inv holding true⟩
  | startDrain free idle => exact ⟨[], .of_eq rfl (line_congr (by rw [no_head idle rfl]; rfl) rfl)⟩
  | find active nonempty =>
    exact ⟨[], .of_eq rfl (line_congr (by rw [no_head active rfl]; rfl) rfl)⟩
  | @peek head rest found queued =>
    have content : ({ u with draining := .peeked head } : Outbox P α).content =
        head :: u.queue.erase head := rfl
    refine ⟨[], .of_eq rfl (line_congr ?_ rfl)⟩
    rw [content, no_head found rfl, erase_head (by rw [queued, List.head?_cons])]
  | @sendHead head peeked => exact ⟨[], .of_eq rfl (line_congr (by simp [content, peeked]) rfl)⟩
  | @refuseHead head peeked =>
    have before := content_peeked peeked
    have after : ({ u with draining := .active } : Outbox P α).content = u.queue := rfl
    rcases (inv.head head (by rw [peeked, Draining.head])).2 with first | ⟨absent, _, touched⟩
    · exact ⟨[], .of_eq rfl (line_congr (by rw [after, before, erase_head first]) rfl)⟩
    · refine ⟨[], .of_fewer rfl (line_drop ?_ rfl) fun untouched => absurd untouched touched⟩
      rw [after, before, List.erase_of_not_mem absent]
      exact (List.sublist_cons_self _ _).append_left _
  | @pop head first rest sent queued =>
    have before := content_sent sent
    have in_hand := (inv.head head (by rw [sent, Draining.head])).2
    rw [queued] at before in_hand
    rcases in_hand with same | ⟨absent, _, touched⟩
    · rw [List.head?_cons, Option.some.injEq] at same
      refine ⟨[], .of_eq rfl (line_congr ?_ rfl)⟩
      rw [before, same, List.erase_cons_head]
      rfl
    · rw [List.erase_of_not_mem absent] at before
      refine ⟨[], .of_fewer rfl (line_drop ?_ rfl) fun untouched => absurd ?_ touched⟩
      · rw [before]
        exact (List.sublist_cons_self _ _).append_left _
      · exact untouched.of_log fun removal member => List.mem_append_left _ member
  | settleEmpty active empty =>
    exact ⟨[], .of_eq rfl (line_congr (by rw [no_head active rfl]; rfl) rfl)⟩
  | settle active nonempty =>
    exact ⟨[], .of_eq rfl (line_congr (by rw [no_head active rfl]; rfl) rfl)⟩

end Order

end Outbox
end Sockcan
