import Sockcan.Filters
import Sockcan.Protocol.Link

/-! `UserspaceSocketcanBus`, the client that python-can opens on a userspace channel. It
subscribes with the filters that it is built with, and filters once more what it receives. -/
namespace Sockcan.Interop
open Protocol

/-- `_matches_filters`. -/
def matchesFilters (filters : List CanFilter) (canId : Nat) (isExtended : Bool) : Bool :=
  filters.isEmpty || filters.any fun canFilter => canFilter.matches canId isExtended

/-- `list(filters) if filters else None`, which `_get_socket` subscribes with. -/
def subscription : Option (List CanFilter) → Option (List CanFilter)
  | none | some [] => none
  | some filters => some filters

/-- What the bus was subscribed with, and the filters that it applies itself. -/
structure UserspaceSocketcanBus where
  subscribed : Option (List CanFilter)
  canFilters : List CanFilter
  deriving DecidableEq, Repr

namespace UserspaceSocketcanBus

def init (canFilters : Option (List CanFilter)) : UserspaceSocketcanBus :=
  ⟨subscription canFilters, canFilters.getD []⟩

/-- `set_filters`: the socket, and with it the subscription, stays. -/
def setFilters (bus : UserspaceSocketcanBus) (filters : Option (List CanFilter)) :
    UserspaceSocketcanBus := { bus with canFilters := filters.getD [] }

/-- The bus after these calls of `set_filters`. -/
def configured (initial : Option (List CanFilter)) (calls : List (Option (List CanFilter))) :
    UserspaceSocketcanBus := calls.foldl setFilters (init initial)

def accepts (bus : UserspaceSocketcanBus) (frame : Frame) : Bool :=
  matchesFilters bus.canFilters frame.canId frame.isExtended

/-- The loop of `_recv`. Each of its rounds reads a byte or raises, so that the unread bytes
bound their number. -/
def recvLoop (bus : UserspaceSocketcanBus) (network : Nat → RecvCall) :
    (rounds : Nat) → Inbound → Except RecvError (Frame × Inbound)
  | 0, inbound => socketcanRecvStream network inbound
  | rounds + 1, inbound =>
    match socketcanRecvStream network inbound with
    | .error error => .error error
    | .ok (message, next) =>
      if bus.accepts message then .ok (message, next) else bus.recvLoop network rounds next

def recv (bus : UserspaceSocketcanBus) (network : Nat → RecvCall) (inbound : Inbound) :
    Except RecvError (Frame × Inbound) := bus.recvLoop network inbound.unread.length inbound

/-- What `calls` successive calls of `recv` return before the first one that raises. -/
def recvUpTo (bus : UserspaceSocketcanBus) (network : Nat → RecvCall) :
    (calls : Nat) → Inbound → List Frame
  | 0, _ => []
  | calls + 1, inbound => match bus.recv network inbound with
    | .error _ => []
    | .ok (frame, next) => frame :: bus.recvUpTo network calls next

/-- All that `recv` ever returns. -/
def recvAll (bus : UserspaceSocketcanBus) (network : Nat → RecvCall) (inbound : Inbound) :
    List Frame := bus.recvUpTo network inbound.unread.length inbound

end UserspaceSocketcanBus

variable {bus : UserspaceSocketcanBus} {frames : List Frame}

/-- The two ends match a frame in the same way. -/
theorem matchesFilters_eq (filters : List CanFilter) (canId : Nat) (isExtended : Bool) :
    matchesFilters filters canId isExtended = frameMatches (some filters) canId isExtended := by
  cases filters <;> rfl

/-- The subscription outlives every change of the filters. -/
theorem configured_subscribed (initial : Option (List CanFilter))
    (calls : List (Option (List CanFilter))) :
    (UserspaceSocketcanBus.configured initial calls).subscribed = subscription initial := by
  have kept : ∀ bus : UserspaceSocketcanBus,
      (calls.foldl UserspaceSocketcanBus.setFilters bus).subscribed = bus.subscribed := by
    induction calls with
    | nil => exact fun _ => rfl
    | cons filters calls ih => exact fun bus => ih (bus.setFilters filters)
  exact kept _

section Receiving
variable (sizes : Nat → Nat) {part : List UInt8}

/-- One `recv` skips the frames that do not match, however the reads cut them. -/
theorem recvLoop_wireOf (classic : ∀ frame ∈ frames, frame.Classic) (short : part.length < msgSize)
    {rounds : Nat} (enough : frames.length ≤ rounds) (calls : Nat) :
    ((frames.map Frame.onWire).filter bus.accepts = [] ∧
      ∃ error, bus.recvLoop (chunks sizes) rounds ⟨wireOf frames ++ part, calls⟩ = .error error) ∨
    ∃ frame rest last, (∀ frame ∈ rest, frame.Classic) ∧ rest.length < frames.length ∧
      (frames.map Frame.onWire).filter bus.accepts =
        frame :: (rest.map Frame.onWire).filter bus.accepts ∧
      bus.recvLoop (chunks sizes) rounds ⟨wireOf frames ++ part, calls⟩ =
        .ok (frame, ⟨wireOf rest ++ part, last⟩) := by
  induction frames generalizing rounds calls with
  | nil =>
    obtain ⟨error, raised⟩ := socketcanRecvStream_short sizes calls short
    refine Or.inl ⟨rfl, error, ?_⟩
    cases rounds with
    | zero => exact raised
    | succ rounds =>
      change socketcanRecvStream (chunks sizes) ⟨wireOf [] ++ part, calls⟩ = _ at raised
      simp only [UserspaceSocketcanBus.recvLoop, raised]
  | cons frame frames ih =>
    have first := classic frame List.mem_cons_self
    have others := fun frame member => classic frame (List.mem_cons_of_mem _ member)
    obtain ⟨rounds, rfl⟩ : ∃ fewer, rounds = fewer + 1 :=
      Nat.exists_eq_succ_of_ne_zero (Nat.ne_of_gt (Nat.lt_of_lt_of_le (Nat.succ_pos _) enough))
    obtain ⟨cf, packed, whole⟩ := first.payload_isSome
    obtain ⟨next, received⟩ := socketcanRecvStream_whole sizes calls (wireOf frames ++ part) whole
    rw [first.decode_payload packed] at received
    by_cases accepted : bus.accepts frame.onWire = true
    · refine Or.inr ⟨frame.onWire, frames, next, others, Nat.lt_succ_self _, ?_, ?_⟩
      · rw [List.map_cons, List.filter_cons_of_pos accepted]
      · rw [wireOf_cons packed, List.append_assoc]
        simp only [UserspaceSocketcanBus.recvLoop, received, accepted, if_true]
    · have step : bus.recvLoop (chunks sizes) (rounds + 1)
            ⟨wireOf (frame :: frames) ++ part, calls⟩ =
          bus.recvLoop (chunks sizes) rounds ⟨wireOf frames ++ part, next⟩ := by
        rw [wireOf_cons packed, List.append_assoc]
        simp only [UserspaceSocketcanBus.recvLoop, received, accepted]
        rfl
      rw [List.map_cons, List.filter_cons_of_neg accepted, step]
      rcases ih others (Nat.le_of_succ_le_succ enough) next with
        ⟨none_left, raised⟩ | ⟨found, rest, last, well, fewer, split, returned⟩
      · exact Or.inl ⟨none_left, raised⟩
      · exact Or.inr ⟨found, rest, last, well, Nat.lt_succ_of_lt fewer, split, returned⟩

theorem length_le_wireOf (classic : ∀ frame ∈ frames, frame.Classic) :
    frames.length ≤ (wireOf frames).length := by
  induction frames with
  | nil => exact Nat.le_refl 0
  | cons frame frames ih =>
    obtain ⟨cf, packed, whole⟩ := (classic frame List.mem_cons_self).payload_isSome
    have rest := ih fun frame member => classic frame (List.mem_cons_of_mem _ member)
    rw [wireOf_cons packed, List.length_append, List.length_cons, whole, msgSize]
    omega

theorem recvUpTo_wireOf (classic : ∀ frame ∈ frames, frame.Classic)
    (short : part.length < msgSize) {bound : Nat} (enough : frames.length ≤ bound) (calls : Nat) :
    bus.recvUpTo (chunks sizes) bound ⟨wireOf frames ++ part, calls⟩ =
      (frames.map Frame.onWire).filter bus.accepts := by
  induction bound generalizing frames calls with
  | zero =>
    obtain rfl := List.length_eq_zero_iff.mp (Nat.le_zero.mp enough)
    rfl
  | succ bound ih =>
    have rounds : frames.length ≤ (wireOf frames ++ part).length := by
      rw [List.length_append]
      exact Nat.le_add_right_of_le (length_le_wireOf classic)
    rcases recvLoop_wireOf sizes classic short rounds calls with
      ⟨none_left, error, raised⟩ | ⟨frame, rest, last, well, fewer, split, returned⟩
    · rw [none_left]
      simp only [UserspaceSocketcanBus.recvUpTo, UserspaceSocketcanBus.recv, raised]
    · rw [split, ← ih well (Nat.le_of_lt_succ (Nat.lt_of_lt_of_le fewer enough)) last]
      simp only [UserspaceSocketcanBus.recvUpTo, UserspaceSocketcanBus.recv, returned]

/-- The beginning of a frame at the end of the stream returns nothing. -/
theorem recvAll_wireOf_part (classic : ∀ frame ∈ frames, frame.Classic)
    (short : part.length < msgSize) (calls : Nat) :
    bus.recvAll (chunks sizes) ⟨wireOf frames ++ part, calls⟩ =
      (frames.map Frame.onWire).filter bus.accepts := by
  refine recvUpTo_wireOf sizes classic short ?_ calls
  rw [List.length_append]
  exact Nat.le_add_right_of_le (length_le_wireOf classic)

/-- Of the frames that come in, `recv` returns those that match the filters, in order. -/
theorem recvAll_wireOf (classic : ∀ frame ∈ frames, frame.Classic) (calls : Nat) :
    bus.recvAll (chunks sizes) ⟨wireOf frames, calls⟩ =
      (frames.map Frame.onWire).filter bus.accepts := by
  have whole : bus.recvAll (chunks sizes) ⟨wireOf frames ++ [], calls⟩ = _ :=
    recvAll_wireOf_part sizes classic (by decide) calls
  rwa [List.append_nil] at whole

end Receiving

end Sockcan.Interop
