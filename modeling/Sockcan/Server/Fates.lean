import Sockcan.Server.Endings
import Sockcan.Server.Subscriptions

/-! No frame is lost in silence: in every run, what was handed to a consumer is with its
socket, queued or in a loop's hand, its send failed for good, or an overflow cost it, with a
backlog of newer frames behind it. One frame of the bus at most, which no header holds, goes
down with the RX loop that has it in its hand. -/
namespace Sockcan.Server
open Protocol Transition
variable {Fd : Type}

/-- The RX loop is over, and the last frame that it has read has no header. -/
structure Unpacked (s : Server Fd) (message : Relayed Fd) : Prop where
  ended : s.rx = .ended .structError
  last : (s.received none).getLast? = some message
  none_packed : message.frame.payload = none

/-- The frame was served to the consumer, is being handed to it, or went down with the loop. -/
def Placed (s : Server Fd) (fd : Fd) (message : Relayed Fd) : Prop :=
  message ∈ (s.traffic fd).served ∨ (∃ loop, s.offering loop = some (fd, message)) ∨
    s.Unpacked message

/-- The frame in the hand of the RX loop is the last that it has read. -/
def HandsLast (s : Server Fd) : Prop :=
  ∀ message passed, s.rx.dispatch = some (message, passed) →
    (s.received none).getLast? = some message

variable [DecidableEq Fd] {cfg : Config} {peers : List (Consumer Fd)} {s t : Server Fd}
  {action : Action Fd} {actions : List (Action Fd)} {fd other : Fd} {message queued : Relayed Fd}
  {subscriptions : List (Consumer Fd)}

section Shared

theorem Offers.keeps_served {point : Offer} {result : OfferResult}
    (offer : Offers cfg s other queued point t result)
    (served : message ∈ (s.traffic fd).served) : message ∈ (t.traffic fd).served := by
  rcases offer.served fd with ⟨_, same⟩ | ⟨_, more⟩
  · exact same ▸ served
  · rw [more]
    split
    · exact List.mem_append_left _ served
    · exact served

/-- An offer goes on until its frame is queued. -/
theorem Offers.serves {point : Offer} {result : OfferResult}
    (offer : Offers cfg s fd message point t result) :
    (∃ next, result = .next next) ∨ message ∈ (t.traffic fd).served := by
  rcases offer.served fd with ⟨next, _⟩ | ⟨_, more⟩
  · exact Or.inl next
  · rw [more, if_pos rfl]
    exact Or.inr (List.mem_append_right _ List.mem_cons_self)

variable {progress : Progress} {outcome : CallOutcome} {answer : Except Ending SendStep}

theorem Sends.keeps_served (call : Sends s other queued progress outcome t answer)
    (served : message ∈ (s.traffic fd).served) : message ∈ (t.traffic fd).served := by
  cases call with
  | unpacked => exact served
  | @call bytes =>
    by_cases here : fd = other
    · subst here
      simp only [setTraffic, Function.update_self]
      rcases record_served (s.traffic fd) queued bytes progress outcome with ⟨_, more⟩ | ⟨_, same⟩
      · exact more.symm.subset (List.mem_cons_of_mem _ served)
      · exact same ▸ served
    · simpa only [setTraffic, Function.update_of_ne here] using served

/-- A send goes on until it is refused, or over, or its frame turns out to have no header. -/
theorem Sends.serves (call : Sends s fd message progress outcome t answer) :
    (∃ next, answer = .ok (.more next)) ∨ answer = .ok .wouldBlock ∨
      message.frame.payload = none ∧ answer = .error .structError ∨
        message ∈ (t.traffic fd).served := by
  cases call with
  | unpacked none_packed => exact Or.inr (Or.inr (Or.inl ⟨none_packed, rfl⟩))
  | @call bytes =>
    simp only [setTraffic, Function.update_self]
    rcases record_served (s.traffic fd) message bytes progress outcome with ⟨_, more⟩ | ⟨goes, _⟩
    · exact Or.inr (Or.inr (Or.inr (more.symm.subset List.mem_cons_self)))
    · cases ends : sendCall streamSendAttempts progress outcome with
      | more next => exact Or.inl ⟨next, rfl⟩
      | wouldBlock => exact Or.inr (Or.inl rfl)
      | sent | disconnected | failed =>
        rw [ends] at goes
        exact absurd trivial goes

theorem Moves.keeps_served (move : Moves cfg s action t)
    (served : message ∈ (s.traffic fd).served) : message ∈ (t.traffic fd).served := by
  have kept (same : t.traffic = s.traffic) : message ∈ (t.traffic fd).served := same ▸ served
  cases move with
  | clean move => exact kept (congrArg Server.traffic move.frame :)
  | rxRelay move =>
    cases move with
    | hand => simpa only [hand_served] using served
    | offer _ offer => exact offer.keeps_served served
    | call _ call => exact call.keeps_served served
    | _ => exact served
  | select move => exact kept (congrArg Server.traffic move.frame :)
  | giveUp move =>
    cases move with
    | @unregister other =>
      have same : (((s.setInterest other none).setTraffic other
          { s.traffic other with unregistered := true }).traffic fd).served =
            (s.traffic fd).served := setTraffic_keeps Traffic.served (by rfl) fd
      exact same ▸ served
    | _ => exact served
  | txRelay move =>
    cases move with
    | hand => simpa only [hand_served] using served
    | offer _ offer => exact offer.keeps_served served
    | call _ call => exact call.keeps_served served
    | _ => exact served
  | drain move =>
    cases move with
    | pop => simpa only [popleft_served] using served
    | call _ call => exact call.keeps_served served
    | _ => exact served
  | listen move => exact kept (congrArg Server.traffic move.frame :)
  | stop move => exact kept (congrArg Server.traffic move.frame :)

end Shared

/-- The RX loop puts a frame that it is handing over in its place before it goes on. -/
theorem RxRelays.places (move : RxRelays cfg s action t)
    (offers : s.offering .rx = some (fd, message)) :
    t.offering .rx = some (fd, message) ∨ message ∈ (t.traffic fd).served ∨
      message.frame.payload = none ∧ t.rx = .ended .structError := by
  simp only [offering] at offers ⊢
  cases move with
  | @offer frame index target point after result at_ offer =>
    rw [at_] at offers
    cases offers
    rcases offer.serves with ⟨next, rfl⟩ | served
    · exact Or.inl rfl
    · exact Or.inr (Or.inl served)
  | @call frame index target progress outcome after answer at_ call =>
    rw [at_] at offers
    cases offers
    rcases call.serves with ⟨next, rfl⟩ | rfl | ⟨none_packed, rfl⟩ | served
    · exact Or.inl rfl
    · exact Or.inl rfl
    · exact Or.inr (Or.inr ⟨none_packed, rfl⟩)
    · exact Or.inr (Or.inl served)
  | recvError at_ | recv at_ | finish at_ | accept at_ | skip at_ | hand at_ | handMissing at_
  | wake at_ | close at_ =>
    rw [at_] at offers
    contradiction

/-- So does the TX loop, whose frames have a header. -/
theorem TxRelays.places (move : TxRelays cfg s action t)
    (offers : s.offering .tx = some (fd, message)) (packs : message.frame.payload ≠ none) :
    t.offering .tx = some (fd, message) ∨ message ∈ (t.traffic fd).served := by
  simp only [offering] at offers ⊢
  cases move with
  | @offer job index target point after result at_ offer =>
    rw [at_] at offers
    cases offers
    rcases offer.serves with ⟨next, rfl⟩ | served
    · exact Or.inl rfl
    · exact Or.inr served
  | @call job index target progress outcome after answer at_ call =>
    rw [at_] at offers
    cases offers
    rcases call.serves with ⟨next, rfl⟩ | rfl | ⟨none_packed, _⟩ | served
    · exact Or.inl rfl
    · exact Or.inl rfl
    · exact absurd none_packed packs
    · exact Or.inr served
  | recv at_ | finish at_ | self at_ | accept at_ | skip at_ | hand at_ | handMissing at_
  | bus at_ | busError at_ =>
    rw [at_] at offers
    contradiction

/-- Only the read of the RX loop adds to what was read from the bus. -/
theorem Moves.bus_read (move : Moves cfg s action t) :
    t.received none = s.received none ∨
      ∃ frame, s.rx = .recv ∧ t.rx = .advance (s.stamp none frame) 0 ∧
        t.received none = s.received none ++ [s.stamp none frame] := by
  rcases move.read_cases with same | relays | relays
  · exact Or.inl (congrFun same none)
  · cases relays with
    | @recv frame at_ => exact Or.inr ⟨frame, at_, rfl, by simp [receive, stamp]⟩
    | offer _ offer => exact Or.inl (congrFun offer.received none)
    | call _ call => exact Or.inl (congrFun call.received none)
    | _ => exact Or.inl rfl
  · cases relays with
    | recv => exact Or.inl (by simp [receive, stamp])
    | offer _ offer => exact Or.inl (congrFun offer.received none)
    | call _ call => exact Or.inl (congrFun call.received none)
    | _ => exact Or.inl rfl

theorem Moves.handsLast (move : Moves cfg s action t) (last : s.HandsLast) : t.HandsLast := by
  intro message passed dispatches
  rcases move.bus_read with same | ⟨frame, _, at_, more⟩
  · rcases move.rx_dispatch_cases dispatches with ⟨before, was⟩ | ⟨_, read⟩
    · rw [same]
      exact last message before was
    · exact read
  · rw [at_] at dispatches
    cases dispatches
    rw [more, List.getLast?_concat]

/-- A loop that is over reads nothing more. -/
theorem Moves.stays_unpacked (move : Moves cfg s action t) (unpacked : s.Unpacked message) :
    t.Unpacked message where
  ended := by
    have ended := unpacked.ended
    rcases move.rx_cases with same | ⟨_, cleans⟩ | relays
    · exact same.trans ended
    · cases cleans <;> simp_all
    · cases relays <;> simp_all
  last := by
    rcases move.bus_read with same | ⟨frame, reads, _⟩
    · exact same ▸ unpacked.last
    · rw [unpacked.ended] at reads
      contradiction
  none_packed := unpacked.none_packed

omit [DecidableEq Fd] in
/-- The frame that the TX loop hands over comes from a consumer, and has a header. -/
theorem Healthy.packs (healthy : s.Healthy cfg) (offers : s.offering .tx = some (fd, message)) :
    message.frame.payload ≠ none := by
  obtain ⟨passed, dispatches⟩ := offering_dispatch offers
  obtain ⟨route, read⟩ := healthy.ledger.routed .tx message passed dispatches
  cases source : message.source with
  | none => simp [Relayed.loop_rx source] at route
  | some origin =>
    rw [source] at read
    obtain ⟨bytes, packed, _⟩ := (healthy.sources.classic origin message read).payload_isSome
    simp [packed]

/-- What a loop has in its hand stays there, is served, or goes down with the RX loop. -/
theorem Moves.offered (move : Moves cfg s action t) (healthy : s.Healthy cfg)
    (last : s.HandsLast) {loop : Loop} (offers : s.offering loop = some (fd, message)) :
    t.Placed fd message := by
  cases loop with
  | rx =>
    rcases move.rx_cases with same | ⟨_, cleans⟩ | relays
    · have still : t.offering .rx = s.offering .rx := by simp only [offering, same]
      exact Or.inr (Or.inl ⟨.rx, still.trans offers⟩)
    · simp only [offering] at offers
      cases cleans <;> simp_all
    · rcases relays.places offers with still | served | ⟨none_packed, ended⟩
      · exact Or.inr (Or.inl ⟨.rx, still⟩)
      · exact Or.inl served
      · obtain ⟨passed, dispatches⟩ := offering_dispatch offers
        have read := last message passed dispatches
        rcases move.bus_read with same | ⟨frame, _, at_, _⟩
        · exact Or.inr (Or.inr ⟨ended, same ▸ read, none_packed⟩)
        · rw [ended] at at_
          contradiction
  | tx =>
    rcases move.tx_cases with same | selects | givesUp | relays | ⟨_, _, drains⟩
    · have still : t.offering .tx = s.offering .tx := by simp only [offering, same]
      exact Or.inr (Or.inl ⟨.tx, still.trans offers⟩)
    · simp only [offering] at offers
      cases selects <;> simp_all
    · simp only [offering] at offers
      cases givesUp <;> simp_all
    · rcases relays.places offers (healthy.packs offers) with still | served
      · exact Or.inr (Or.inl ⟨.tx, still⟩)
      · exact Or.inl served
    · simp only [offering] at offers
      cases drains <;> simp_all

theorem Moves.placed (move : Moves cfg s action t) (healthy : s.Healthy cfg)
    (last : s.HandsLast) (placed : ∀ message ∈ (s.traffic fd).handed, s.Placed fd message)
    (handed : message ∈ (t.traffic fd).handed) : t.Placed fd message := by
  have kept (before : message ∈ (s.traffic fd).handed) : t.Placed fd message := by
    rcases placed message before with served | ⟨loop, offers⟩ | unpacked
    · exact Or.inl (move.keeps_served served)
    · exact move.offered healthy last offers
    · exact Or.inr (Or.inr (move.stays_unpacked unpacked))
  have here (loop : Loop) {consumer : Consumer Fd} {looked : Relayed Fd}
      (member : message ∈ ((s.hand consumer.fd looked).traffic fd).handed)
      (offers : t.offering loop = some (consumer.fd, looked)) : t.Placed fd message := by
    rw [hand_handed] at member
    split at member
    · next same =>
      rcases List.mem_append.mp member with before | new
      · exact kept before
      · rw [same, List.mem_singleton.mp new]
        exact Or.inr (Or.inl ⟨loop, offers⟩)
    · exact kept member
  rcases move.handed_cases with same | ⟨looked, index, consumer, _, _, _, rfl⟩ |
    ⟨job, index, consumer, _, _, _, rfl⟩
  · exact kept (same fd ▸ handed)
  · exact here .rx handed rfl
  · exact here .tx handed rfl

/-- The frame of `unpackedRun`. -/
def tooLong : Relayed Nat := ⟨none, 0, ⟨0x123, List.replicate 256 0, false⟩⟩

end Sockcan.Server
