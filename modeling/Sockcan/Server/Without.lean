import Sockcan.Channels
import Sockcan.Server.Quiet
import Mathlib.Tactic.NthRewrite

/-! The server as it would be without one of its consumers. The steps that the TX loop takes
for that consumer do not change it, and every other step is one that it takes itself. -/
namespace Sockcan.Server
open Protocol Transition
variable {Fd : Type} [DecidableEq Fd]

def others (silent : Fd) (consumers : List (Consumer Fd)) : List (Consumer Fd) :=
  consumers.filter fun consumer => decide (consumer.fd ≠ silent)

/-- How many of the other consumers the index has passed. -/
def rank (silent : Fd) (consumers : List (Consumer Fd)) (index : Nat) : Nat :=
  (others silent (consumers.take index)).length

def Job.alone (job : Job Fd) : Job Fd := { job with rest := [] }

/-- Where the loop would be: between two events, or at the event in hand, whatever else was
selected with it. -/
def TxPoint.without (silent : Fd) (consumers : List (Consumer Fd)) : TxPoint Fd → TxPoint Fd
  | .whileRunning | .select | .nextEvent _ | .readKillSwitch _ | .checkRunning _ => .select
  | .recv fd writable _ => .recv fd writable []
  | .unregister fd _ => if fd = silent then .select else .unregister fd []
  | .reportDead fd _ => if fd = silent then .select else .reportDead fd []
  | .advance job index => .advance job.alone (rank silent consumers index)
  | .lookup job index consumer =>
    if consumer.fd = silent then .advance job.alone (rank silent consumers index)
    else .lookup job.alone (rank silent consumers index) consumer
  | .offer job index consumer point =>
    if consumer.fd = silent then .advance job.alone (rank silent consumers index)
    else .offer job.alone (rank silent consumers index) consumer point
  | .busSend job => .busSend job.alone
  | .drain fd _ => if fd = silent then .select else .drain fd []
  | .peek fd _ => if fd = silent then .select else .peek fd []
  | .drainSend fd head progress _ => if fd = silent then .select else .drainSend fd head progress []
  | .popleft fd head _ => if fd = silent then .select else .popleft fd head []
  | .settle fd _ => if fd = silent then .select else .settle fd []
  | .ended why => .ended why

def without (silent : Fd) (s : Server Fd) : Server Fd :=
  { s with
    consumers := others silent s.consumers
    io := Function.update s.io silent .empty
    selector := Function.update s.selector silent none
    deadConsumerFds := s.deadConsumerFds.filter fun fd => decide (fd ≠ silent)
    tx := s.tx.without silent s.consumers
    traffic := Function.update s.traffic silent .quiet }

def TxPoint.rest : TxPoint Fd → TxPoint Fd
  | .whileRunning | .nextEvent _ => .select
  | point => point

/-- A step of the TX loop where each selection is of one event, which is handled at once. -/
def serve (cfg : Config) (s : Server Fd) (action : Action Fd) : Option (Server Fd) :=
  let next := match action with
    | .txSelect events => txStep cfg { s with tx := .nextEvent events }
    | action => step cfg s action
  next.map fun t => { t with tx := t.tx.rest }

/-- The consumer that the next step of the TX loop is for. -/
def turn (s : Server Fd) : Option Fd := match s.tx with
  | .nextEvent (.ready fd _ _ :: _) => some fd
  | .recv fd _ _ | .unregister fd _ | .reportDead fd _ | .drain fd _ | .peek fd _
  | .drainSend fd _ _ _ | .popleft fd _ _ | .settle fd _ => some fd
  | .advance job index => match s.consumers[index]? with
    | none => some job.fileobj
    | some consumer => some consumer.fd
  | .lookup _ _ consumer | .offer _ _ consumer _ => some consumer.fd
  | .whileRunning | .select | .nextEvent _ | .readKillSwitch _ | .checkRunning _ | .busSend _
  | .ended _ => none

/-- The step of the server without the consumer. -/
def seen (silent : Fd) (s : Server Fd) (action : Action Fd) : Option (Action Fd) :=
  if s.turn = none ∨ s.turn = some silent then none
  else match s.tx with
    | .nextEvent (event :: _) => some (.txSelect [event])
    | _ => some action

variable {cfg : Config} {s t : Server Fd} {action : Action Fd} {silent fd : Fd}
  {consumers : List (Consumer Fd)} {consumer : Consumer Fd} {index : Nat} {point : TxPoint Fd}

section Rank

theorem rank_succ_self (next : consumers[index]? = some consumer) (same : consumer.fd = silent) :
    rank silent consumers (index + 1) = rank silent consumers index := by
  simp [rank, others, List.take_add_one, next, same]

theorem rank_succ (next : consumers[index]? = some consumer) (other : consumer.fd ≠ silent) :
    rank silent consumers (index + 1) = rank silent consumers index + 1 := by
  simp [rank, others, List.take_add_one, next, other]

theorem others_rank (next : consumers[index]? = some consumer) (other : consumer.fd ≠ silent) :
    (others silent consumers)[rank silent consumers index]? = some consumer := by
  obtain ⟨inside, here⟩ := List.getElem?_eq_some_iff.mp next
  have split : consumers = consumers.take index ++ consumer :: consumers.drop (index + 1) := by
    rw [← here, List.cons_getElem_drop_succ, List.take_append_drop]
  have parts : others silent consumers = others silent (consumers.take index) ++
      consumer :: others silent (consumers.drop (index + 1)) := by
    nth_rewrite 1 [split]
    simp [others, other]
  rw [parts, rank, List.getElem?_append_right (Nat.le_refl _), Nat.sub_self]
  rfl

theorem others_rank_past (past : consumers[index]? = none) :
    (others silent consumers)[rank silent consumers index]? = none := by
  have beyond : consumers.length ≤ index := List.getElem?_eq_none_iff.mp past
  rw [rank, List.take_of_length_le beyond]
  exact List.getElem?_eq_none (Nat.le_refl _)

end Rank

section Masked
variable {message : Relayed Fd} {point : Offer} {result : OfferResult} {progress : Progress}
  {outcome : CallOutcome} {answer : Except Ending SendStep}

@[simp] theorem without_io (other : fd ≠ silent) : (s.without silent).io fd = s.io fd :=
  Function.update_of_ne other _ _

@[simp] theorem without_selector (other : fd ≠ silent) :
    (s.without silent).selector fd = s.selector fd := Function.update_of_ne other _ _

@[simp] theorem without_traffic (other : fd ≠ silent) :
    (s.without silent).traffic fd = s.traffic fd := Function.update_of_ne other _ _

theorem setIo_without (other : fd ≠ silent) (io : ConsumerIO Fd) :
    (s.setIo fd io).without silent = (s.without silent).setIo fd io := by
  simp only [setIo, without, Function.update_comm other]

theorem setTraffic_without (other : fd ≠ silent) (traffic : Traffic Fd) :
    (s.setTraffic fd traffic).without silent = (s.without silent).setTraffic fd traffic := by
  simp only [setTraffic, without, Function.update_comm other]

theorem setInterest_without (other : fd ≠ silent) (interest : Option Interest) :
    (s.setInterest fd interest).without silent = (s.without silent).setInterest fd interest := by
  simp only [setInterest, without, Function.update_comm other]

theorem setIo_masked (io : ConsumerIO Fd) :
    (s.setIo silent io).without silent = s.without silent := by
  simp only [setIo, without, Function.update_idem]

theorem setTraffic_masked (traffic : Traffic Fd) :
    (s.setTraffic silent traffic).without silent = s.without silent := by
  simp only [setTraffic, without, Function.update_idem]

theorem setInterest_masked (interest : Option Interest) :
    (s.setInterest silent interest).without silent = s.without silent := by
  simp only [setInterest, without, Function.update_idem]

theorem append_without (cfg : Config) (other : fd ≠ silent) (message : Relayed Fd) :
    (s.append cfg fd message).without silent = (s.without silent).append cfg fd message := by
  simp only [Server.append, setTraffic_without other, setIo_without other, without_io other,
    without_traffic other]

theorem append_masked (cfg : Config) (message : Relayed Fd) :
    (s.append cfg silent message).without silent = s.without silent := by
  simp only [Server.append, setTraffic_masked, setIo_masked]

theorem noteDroppedFrame_without (cfg : Config) (other : fd ≠ silent) :
    (s.noteDroppedFrame cfg fd).without silent = (s.without silent).noteDroppedFrame cfg fd := by
  rw [noteDroppedFrame_eq, noteDroppedFrame_eq, setIo_without other, without_io other]

theorem noteDroppedFrame_masked (cfg : Config) :
    (s.noteDroppedFrame cfg silent).without silent = s.without silent := by
  rw [noteDroppedFrame_eq, setIo_masked]

theorem popleft_without (other : fd ≠ silent) (head : Relayed Fd) (rest : List (Relayed Fd)) :
    (s.popleft fd head rest).without silent = (s.without silent).popleft fd head rest := by
  simp only [Server.popleft, setTraffic_without other, setIo_without other, without_io other,
    without_traffic other]

theorem popleft_masked (head : Relayed Fd) (rest : List (Relayed Fd)) :
    (s.popleft silent head rest).without silent = s.without silent := by
  simp only [Server.popleft, setTraffic_masked, setIo_masked]

theorem hand_without (other : fd ≠ silent) (message : Relayed Fd) :
    (s.hand fd message).without silent = (s.without silent).hand fd message := by
  simp only [Server.hand, setTraffic_without other, without_traffic other]

theorem Offers.without (offer : Offers cfg s fd message point t result) (other : fd ≠ silent) :
    offerStep cfg (s.without silent) fd message point = some (t.without silent, result) := by
  cases offer with
  | direct empty => simp only [offerStep, without_io other, if_pos empty]
  | behind nonempty => simp only [offerStep, without_io other, if_neg nonempty]
  | countDropped | queueCount => simp only [offerStep, noteDroppedFrame_without cfg other]
  | append => simp only [offerStep, append_without cfg other]
  | queue registered =>
    simp only [offerStep, without_selector other, if_pos registered, setInterest_without other,
      append_without cfg other]
  | queueMissing absent =>
    simp only [offerStep, without_selector other, if_neg absent, append_without cfg other]

theorem Offers.masked (offer : Offers cfg s silent message point t result) :
    t.without silent = s.without silent := by
  cases offer with
  | direct | behind => rfl
  | countDropped | queueCount => exact noteDroppedFrame_masked cfg
  | append | queueMissing => exact append_masked cfg message
  | queue => rw [setInterest_masked, append_masked]

theorem Sends.without (call : Sends s fd message progress outcome t answer)
    (other : fd ≠ silent) :
    (s.without silent).socketSend fd message progress outcome =
      some (t.without silent, answer) := by
  cases call with
  | unpacked none_packed => simp only [socketSend, none_packed]
  | call packed possible =>
    simp only [socketSend, packed, if_pos possible, without_traffic other,
      setTraffic_without other]

theorem Sends.masked (call : Sends s silent message progress outcome t answer) :
    t.without silent = s.without silent := by
  cases call with
  | unpacked => rfl
  | call => exact setTraffic_masked _

/-- A step that only moves the loop on, as far as the others can tell. -/
theorem without_congr {after : Server Fd} {point : TxPoint Fd}
    (same : after.without silent = s.without silent)
    (stays : point.without silent after.consumers = s.tx.without silent s.consumers) :
    { after with tx := point }.without silent = s.without silent := by
  calc { after with tx := point }.without silent
      = { after.without silent with tx := point.without silent after.consumers } := rfl
    _ = { s.without silent with tx := s.tx.without silent s.consumers } := by rw [same, stays]
    _ = s.without silent := rfl

end Masked

section Steps

/-- The server without the consumer takes the step too, or does not change. -/
def Mirrored (cfg : Config) (silent : Fd) (s : Server Fd) (action : Action Fd) (t : Server Fd) :
    Prop :=
  match s.seen silent action with
  | none => t.without silent = s.without silent
  | some input => serve cfg (s.without silent) input = some (t.without silent)

theorem Mirrored.hidden (turn : s.turn = none ∨ s.turn = some silent)
    (same : t.without silent = s.without silent) : Mirrored cfg silent s action t := by
  rw [Mirrored, seen, if_pos turn]
  exact same

theorem seen_action (turn : s.turn = some fd) (other : fd ≠ silent)
    (taken : ∀ events, s.tx ≠ .nextEvent events) : s.seen silent action = some action := by
  rw [seen, if_neg (by simp [turn, other])]
  split
  · exact absurd ‹_› (taken _)
  · rfl

theorem seen_event {event : Event Fd} {rest : List (Event Fd)} (turn : s.turn = some fd)
    (other : fd ≠ silent) (at_ : s.tx = .nextEvent (event :: rest)) :
    s.seen silent action = some (.txSelect [event]) := by
  rw [seen, if_neg (by simp [turn, other]), at_]

theorem Mirrored.shown (turn : s.turn = some fd) (other : fd ≠ silent)
    (taken : ∀ events, s.tx ≠ .nextEvent events)
    (served : serve cfg (s.without silent) action = some (t.without silent)) :
    Mirrored cfg silent s action t := by
  rw [Mirrored, seen_action turn other taken]
  exact served

theorem hidden_or_shown (silent : Fd) (s : Server Fd) :
    (s.turn = none ∨ s.turn = some silent) ∨ ∃ fd, s.turn = some fd ∧ fd ≠ silent := by
  cases s.turn with
  | none => exact Or.inl (Or.inl rfl)
  | some fd =>
    by_cases same : fd = silent
    · exact Or.inl (Or.inr (congrArg some same))
    · exact Or.inr ⟨fd, rfl, same⟩

/-- A step for a consumer changes only what that consumer has. -/
theorem Mirrored.of_turn (taken : ∀ events, s.tx ≠ .nextEvent events)
    (masked : s.turn = none ∨ s.turn = some silent → t.without silent = s.without silent)
    (served : ∀ fd, s.turn = some fd → fd ≠ silent →
      serve cfg (s.without silent) action = some (t.without silent)) :
    Mirrored cfg silent s action t := by
  rcases hidden_or_shown silent s with hidden | ⟨fd, turn, other⟩
  · exact .hidden hidden (masked hidden)
  · exact .shown turn other taken (served fd turn other)

theorem Mirrored.selected {event : Event Fd} {rest : List (Event Fd)} (turn : s.turn = some fd)
    (other : fd ≠ silent) (at_ : s.tx = .nextEvent (event :: rest))
    (served : serve cfg (s.without silent) (.txSelect [event]) = some (t.without silent)) :
    Mirrored cfg silent s action t := by
  rw [Mirrored, seen_event turn other at_]
  exact served

theorem without_at (silent : Fd) (after : Server Fd) (point : TxPoint Fd) :
    { after with tx := point }.without silent =
      { after.without silent with tx := point.without silent after.consumers } := rfl

theorem without_after {after : Server Fd} {own : TxPoint Fd}
    (kept : after.consumers = s.consumers) (same : own = point.without silent s.consumers) :
    some { after.without silent with tx := own } =
      some ({ after with tx := point }.without silent) := by
  rw [same, ← kept]
  rfl

theorem without_tx (at_ : s.tx = point) :
    (s.without silent).tx = point.without silent s.consumers :=
  congrArg (TxPoint.without silent s.consumers) at_

theorem without_advance {job : Job Fd} (at_ : s.tx = .advance job index)
    (next : s.consumers[index]? = some consumer) (other : consumer.fd ≠ silent) :
    (s.without silent).tx = .advance job.alone (rank silent s.consumers index) ∧
      (s.without silent).consumers[rank silent s.consumers index]? = some consumer :=
  ⟨without_tx at_, others_rank next other⟩

theorem Selects.mirrored (move : Selects s action t) (calm : Calm silent s) :
    Mirrored cfg silent s action t := by
  have point := calm.point
  cases move with
  | running at_ | round at_ | select at_ =>
    refine .hidden (Or.inl ?_) (without_congr rfl ?_)
    · rw [turn, at_]
    · rw [at_]
      rfl
  | stopped at_ stopped => exact absurd calm.running stopped
  | killSwitch at_ =>
    rw [at_] at point
    exact absurd List.mem_cons_self point.1
  | @readable fd writable rest at_ =>
    have other : fd ≠ silent := by
      rintro rfl
      rw [at_] at point
      exact point.2 writable List.mem_cons_self
    exact .selected (by rw [turn, at_]) other at_ rfl
  | @writable fd rest at_ =>
    by_cases other : fd = silent
    · refine .hidden (Or.inr ?_) (without_congr rfl ?_)
      · rw [turn, at_, other]
      · rw [at_]
        exact if_pos other
    · refine .selected (by rw [turn, at_]) other at_ ?_
      simp [serve, txStep, without, TxPoint.without, TxPoint.rest, other]
  | @neither fd rest at_ =>
    by_cases other : fd = silent
    · refine .hidden (Or.inr ?_) (without_congr rfl ?_)
      · rw [turn, at_, other]
      · rw [at_]
        rfl
    · exact .selected (by rw [turn, at_]) other at_ rfl
  | readKillSwitch at_ | resume at_ | leave at_ =>
    rw [at_] at point
    exact point.elim

theorem GivesUp.masked (move : GivesUp s action t) (calm : Calm silent s)
    (quiet : s.Quiet silent action) (hidden : s.turn = none ∨ s.turn = some silent) :
    t.without silent = s.without silent := by
  cases move with
  | recvError => contradiction
  | @unregister fd events at_ =>
    obtain rfl : fd = silent := by simpa [turn, at_] using hidden
    refine without_congr ?_ ?_
    · rw [setTraffic_masked, setInterest_masked]
    · rw [at_]
      simp only [TxPoint.without, if_true]
  | unregisterMissing at_ absent =>
    have selected := calm.registry.selected
    rw [at_] at selected
    exact absurd (selected _ List.mem_cons_self) absent
  | @reportDead fd events at_ =>
    have same : fd = silent := by simpa [turn, at_] using hidden
    have masked : ({ s with deadConsumerFds := s.deadConsumerFds ++ [fd] }).without silent =
        s.without silent := by
      simp [without, same]
    refine without_congr masked ?_
    rw [at_]
    exact (if_pos same).symm

theorem GivesUp.served (move : GivesUp s action t) (calm : Calm silent s)
    (quiet : s.Quiet silent action) (shown : s.turn = some fd) (other : fd ≠ silent) :
    serve cfg (s.without silent) action = some (t.without silent) := by
  cases move with
  | recvError => contradiction
  | @unregister fileobj events at_ registered =>
    obtain rfl : fileobj = fd := by simpa [turn, at_] using shown
    have here : (s.without silent).tx = .unregister fileobj [] :=
      (without_tx at_).trans (if_neg other)
    simp only [serve, step, txStep, here, without_selector other, if_pos registered,
      without_at, setTraffic_without other, setInterest_without other, without_traffic other,
      TxPoint.without, if_neg other]
    rfl
  | unregisterMissing at_ absent =>
    have selected := calm.registry.selected
    rw [at_] at selected
    exact absurd (selected _ List.mem_cons_self) absent
  | @reportDead fileobj events at_ =>
    obtain rfl : fileobj = fd := by simpa [turn, at_] using shown
    have here : (s.without silent).tx = .reportDead fileobj [] :=
      (without_tx at_).trans (if_neg other)
    simp only [serve, step, txStep, here]
    simp [without, TxPoint.without, TxPoint.rest, other]

omit [DecidableEq Fd] in
theorem Job.alone_message (job : Job Fd) : job.alone.message = job.message := rfl

theorem Job.afterRead_without {job : Job Fd} (other : job.fileobj ≠ silent)
    (consumers : List (Consumer Fd)) :
    job.alone.afterRead.rest = job.afterRead.without silent consumers := by
  cases writable : job.writable <;>
    simp [afterRead, alone, TxPoint.rest, TxPoint.without, writable, other]

theorem TxPoint.afterOffer_without (job : Job Fd) (other : consumer.fd ≠ silent)
    (result : OfferResult) :
    (TxPoint.afterOffer job.alone (rank silent consumers index) consumer result).rest =
      (TxPoint.afterOffer job index consumer result).without silent consumers := by
  cases result <;>
    simp only [TxPoint.afterOffer, TxPoint.rest, TxPoint.without, if_neg other]

theorem TxPoint.afterOffer_masked (job : Job Fd) (same : consumer.fd = silent)
    {result : OfferResult} (goes_on : ∀ why, result ≠ .raised why) :
    (TxPoint.afterOffer job index consumer result).without silent consumers =
      .advance job.alone (rank silent consumers index) := by
  cases result with
  | raised why => exact absurd rfl (goes_on why)
  | _ => simp only [TxPoint.afterOffer, TxPoint.without, if_pos same]

theorem TxPoint.afterSend_without (job : Job Fd) (other : consumer.fd ≠ silent)
    (answer : Except Ending SendStep) :
    (TxPoint.afterSend job.alone (rank silent consumers index) consumer answer).rest =
      (TxPoint.afterSend job index consumer answer).without silent consumers := by
  cases answer with
  | error => rfl
  | ok step =>
    cases step <;>
      simp only [TxPoint.afterSend, TxPoint.rest, TxPoint.without, if_neg other]

theorem TxPoint.afterSend_masked (job : Job Fd) (same : consumer.fd = silent) (step : SendStep) :
    (TxPoint.afterSend job index consumer (.ok step)).without silent consumers =
      .advance job.alone (rank silent consumers index) := by
  cases step <;> simp only [TxPoint.afterSend, TxPoint.without, if_pos same]

theorem TxPoint.afterDrainSend_without (head : Relayed Fd) (other : fd ≠ silent)
    (events : List (Event Fd)) (answer : Except Ending SendStep) :
    (TxPoint.afterDrainSend fd head [] answer).rest =
      (TxPoint.afterDrainSend fd head events answer).without silent consumers := by
  cases answer with
  | error => rfl
  | ok step =>
    cases step <;>
      simp only [TxPoint.afterDrainSend, TxPoint.rest, TxPoint.without, if_neg other]

theorem TxPoint.afterDrainSend_masked (head : Relayed Fd) (events : List (Event Fd))
    (step : SendStep) :
    (TxPoint.afterDrainSend silent head events (.ok step)).without silent consumers = .select := by
  cases step <;> simp only [TxPoint.afterDrainSend, TxPoint.without, if_true]

theorem Sends.goes_on {message : Relayed Fd} {progress : Progress} {outcome : CallOutcome}
    {answer : Except Ending SendStep} (call : Sends s fd message progress outcome t answer)
    (packed : message.frame.payload ≠ none) : ∃ step, answer = .ok step := by
  cases call with
  | unpacked none_packed => exact absurd none_packed packed
  | call => exact ⟨_, rfl⟩

theorem TxRelays.masked (move : TxRelays cfg s action t) (calm : Calm silent s)
    (hidden : s.turn = none ∨ s.turn = some silent) : t.without silent = s.without silent := by
  have point := calm.point
  cases move with
  | @recv fd writable events frame at_ =>
    have same : fd = silent := by simpa [turn, at_] using hidden
    rw [at_] at point
    exact absurd same point.1
  | @finish job index at_ past =>
    have same : job.fileobj = silent := by simpa [turn, at_, past] using hidden
    rw [at_] at point
    exact absurd same point.other
  | @self job index consumer at_ next own =>
    have same : job.fileobj = silent := by simpa [turn, at_, next, own] using hidden
    rw [at_] at point
    exact absurd same point.other
  | @accept job index consumer at_ next =>
    have same : consumer.fd = silent := by simpa [turn, at_, next] using hidden
    refine without_congr rfl ?_
    rw [at_]
    simp only [TxPoint.without, if_pos same, rank_succ_self next same]
  | @skip job index consumer at_ next =>
    have same : consumer.fd = silent := by simpa [turn, at_, next] using hidden
    refine without_congr rfl ?_
    rw [at_]
    simp only [TxPoint.without, rank_succ_self next same]
  | @hand job index consumer at_ =>
    have same : consumer.fd = silent := by simpa [turn, at_] using hidden
    refine without_congr ?_ ?_
    · rw [same]
      exact setTraffic_masked _
    · rw [at_]
      simp only [TxPoint.without, if_pos same]
      rfl
  | @handMissing job index consumer at_ =>
    have same : consumer.fd = silent := by simpa [turn, at_] using hidden
    refine without_congr rfl ?_
    rw [at_]
    simp only [TxPoint.without, if_pos same]
  | @offer job index consumer step after result at_ offer =>
    have same : consumer.fd = silent := by simpa [turn, at_] using hidden
    rw [at_] at point
    have goes_on : ∀ why, result ≠ .raised why := by
      rintro why rfl
      cases offer with
      | queueMissing absent => exact absent (calm.registered point.2.1 (point.2.2 trivial))
    refine without_congr ?_ ?_
    · rw [same] at offer
      exact offer.masked
    · rw [at_, TxPoint.afterOffer_masked job same goes_on, offer.registries.1]
      exact (if_pos same).symm
  | @call job index consumer progress outcome after answer at_ call =>
    have same : consumer.fd = silent := by simpa [turn, at_] using hidden
    obtain ⟨step, rfl⟩ := call.goes_on (calm.packed (by rw [sending, at_]))
    refine without_congr ?_ ?_
    · rw [same] at call
      exact call.masked
    · rw [at_, TxPoint.afterSend_masked job same, call.registries.1]
      exact (if_pos same).symm
  | bus at_ | busError at_ =>
    rw [at_] at point
    exact point.elim

theorem TxRelays.served (move : TxRelays cfg s action t) (virtual : cfg.virtual = true)
    (calm : Calm silent s) (shown : s.turn = some fd) (other : fd ≠ silent) :
    serve cfg (s.without silent) action = some (t.without silent) := by
  have point := calm.point
  cases move with
  | @recv fileobj writable events frame at_ classic =>
    have here : (s.without silent).tx = .recv fileobj writable [] := without_tx at_
    simp only [serve, step, txRecv, here, if_pos classic]
    rfl
  | @finish job index at_ past =>
    rw [at_] at point
    have here : (s.without silent).tx = .advance job.alone (rank silent s.consumers index) :=
      without_tx at_
    have beyond : (s.without silent).consumers[rank silent s.consumers index]? = none :=
      others_rank_past past
    simp only [serve, step, txStep, here, beyond, virtual, if_true, without_at]
    rw [← Job.afterRead_without point.other]
    rfl
  | @self job index consumer at_ next own =>
    obtain rfl : consumer.fd = fd := by simpa [turn, at_, next] using shown
    obtain ⟨here, found⟩ := without_advance at_ next other
    have fileobj : consumer.fd = job.alone.fileobj := own
    simp only [serve, step, txStep, here, found, if_pos fileobj, without_at, TxPoint.without,
      rank_succ next other]
    rfl
  | @accept job index consumer at_ next fileobj accepts =>
    obtain rfl : consumer.fd = fd := by simpa [turn, at_, next] using shown
    obtain ⟨here, found⟩ := without_advance at_ next other
    have another : ¬ consumer.fd = job.alone.fileobj := fileobj
    have wanted : consumer.accepts job.alone.message = true := accepts
    simp only [serve, step, txStep, here, found, if_neg another, if_pos wanted, without_at,
      TxPoint.without, if_neg other, rank_succ next other]
    rfl
  | @skip job index consumer at_ next fileobj rejects =>
    obtain rfl : consumer.fd = fd := by simpa [turn, at_, next] using shown
    obtain ⟨here, found⟩ := without_advance at_ next other
    have another : ¬ consumer.fd = job.alone.fileobj := fileobj
    have unwanted : ¬ consumer.accepts job.alone.message = true := rejects
    simp only [serve, step, txStep, here, found, if_neg another, if_neg unwanted, without_at,
      TxPoint.without, rank_succ next other]
    rfl
  | @hand job index consumer at_ present =>
    obtain rfl : consumer.fd = fd := by simpa [turn, at_] using shown
    have here : (s.without silent).tx =
        .lookup job.alone (rank silent s.consumers index) consumer :=
      (without_tx at_).trans (if_neg other)
    have listed : (s.without silent).consumerIo consumer.fd = true := present
    simp only [serve, step, txStep, here, if_pos listed, without_at, TxPoint.without,
      if_neg other, hand_without other]
    rfl
  | @handMissing job index consumer at_ absent =>
    obtain rfl : consumer.fd = fd := by simpa [turn, at_] using shown
    have here : (s.without silent).tx =
        .lookup job.alone (rank silent s.consumers index) consumer :=
      (without_tx at_).trans (if_neg other)
    have unlisted : ¬ (s.without silent).consumerIo consumer.fd = true := absent
    simp only [serve, step, txStep, here, if_neg unlisted, without_at, TxPoint.without]
    rfl
  | @offer job index consumer step after result at_ offer =>
    obtain rfl : consumer.fd = fd := by simpa [turn, at_] using shown
    have here : (s.without silent).tx =
        .offer job.alone (rank silent s.consumers index) consumer step :=
      (without_tx at_).trans (if_neg other)
    simp only [serve, Server.step, txStep, here, Job.alone_message, offer.without other,
      Option.map_some]
    exact without_after offer.registries.1 (TxPoint.afterOffer_without job other result)
  | @call job index consumer progress outcome after answer at_ call =>
    obtain rfl : consumer.fd = fd := by simpa [turn, at_] using shown
    have here : (s.without silent).tx =
        .offer job.alone (rank silent s.consumers index) consumer (.send progress) :=
      (without_tx at_).trans (if_neg other)
    simp only [serve, step, txCall, here, Job.alone_message, call.without other,
      Option.map_some]
    exact without_after call.registries.1 (TxPoint.afterSend_without job other answer)
  | bus at_ | busError at_ =>
    rw [at_] at point
    exact point.elim

theorem Drains.masked {events : List (Event Fd)} (move : Drains s fd events action t)
    (calm : Calm silent s) (hidden : s.turn = none ∨ s.turn = some silent) :
    t.without silent = s.without silent := by
  have point := calm.point
  obtain rfl : fd = silent := by
    cases move <;> simpa [turn, *] using hidden
  cases move with
  | drained at_ | find at_ | peek at_ | settle at_ =>
    refine without_congr rfl ?_
    rw [at_]
    simp only [TxPoint.without, if_true]
  | peekEmpty at_ empty | popEmpty at_ empty =>
    rw [at_] at point
    exact absurd empty point.1
  | call at_ call =>
    obtain ⟨step, rfl⟩ := call.goes_on (calm.packed (by rw [sending, at_]))
    refine without_congr call.masked ?_
    rw [at_, TxPoint.afterDrainSend_masked]
    exact (if_pos rfl).symm
  | pop at_ =>
    refine without_congr (popleft_masked _ _) ?_
    rw [at_]
    simp only [TxPoint.without, if_true]
  | settleEmpty at_ =>
    refine without_congr ?_ ?_
    · rw [setIo_masked, setInterest_masked]
    · rw [at_]
      simp only [TxPoint.without, if_true]
  | settleMissing at_ empty absent =>
    have selected := calm.registry.selected
    rw [at_] at selected
    exact absurd (selected _ List.mem_cons_self) absent

theorem Drains.served {events : List (Event Fd)} (move : Drains s fd events action t)
    (calm : Calm silent s) (other : fd ≠ silent) :
    serve cfg (s.without silent) action = some (t.without silent) := by
  have point := calm.point
  cases move with
  | drained at_ empty =>
    have here : (s.without silent).tx = .drain fd [] := (without_tx at_).trans (if_neg other)
    simp only [serve, step, txStep, here, without_io other, if_pos empty, without_at,
      TxPoint.without, if_neg other]
    rfl
  | find at_ nonempty =>
    have here : (s.without silent).tx = .drain fd [] := (without_tx at_).trans (if_neg other)
    simp only [serve, step, txStep, here, without_io other, if_neg nonempty, without_at,
      TxPoint.without, if_neg other]
    rfl
  | peek at_ queued =>
    have here : (s.without silent).tx = .peek fd [] := (without_tx at_).trans (if_neg other)
    simp only [serve, step, txStep, here, without_io other, queued, without_at,
      TxPoint.without, if_neg other]
    rfl
  | peekEmpty at_ empty | popEmpty at_ empty =>
    rw [at_] at point
    exact absurd empty point.1
  | @call head progress outcome after answer at_ call =>
    have here : (s.without silent).tx = .drainSend fd head progress [] :=
      (without_tx at_).trans (if_neg other)
    simp only [serve, step, txCall, here, call.without other, Option.map_some]
    exact without_after call.registries.1
      (TxPoint.afterDrainSend_without head other events answer)
  | @pop head first rest at_ queued =>
    have here : (s.without silent).tx = .popleft fd head [] :=
      (without_tx at_).trans (if_neg other)
    simp only [serve, step, txStep, here, without_io other, queued, without_at,
      popleft_without other, TxPoint.without, if_neg other]
    rfl
  | settleEmpty at_ empty registered =>
    have here : (s.without silent).tx = .settle fd [] := (without_tx at_).trans (if_neg other)
    simp only [serve, step, txStep, here, without_io other, if_pos empty,
      without_selector other, if_pos registered, without_at, setIo_without other,
      setInterest_without other, TxPoint.without]
    rfl
  | settleMissing at_ empty absent =>
    have selected := calm.registry.selected
    rw [at_] at selected
    exact absurd (selected _ List.mem_cons_self) absent
  | settle at_ nonempty =>
    have here : (s.without silent).tx = .settle fd [] := (without_tx at_).trans (if_neg other)
    simp only [serve, step, txStep, here, without_io other, if_neg nonempty, without_at,
      TxPoint.without]
    rfl

theorem Moves.mirrored (move : Moves cfg s action t) (virtual : cfg.virtual = true)
    (calm : Calm silent s) (quiet : s.Quiet silent action) : Mirrored cfg silent s action t := by
  rcases move.quiet_cases quiet with move | move | move | ⟨fd, events, move⟩
  · exact move.mirrored calm
  · refine .of_turn ?_ (move.masked calm quiet) fun fd => move.served calm quiet
    cases move <;> simp [*]
  · refine .of_turn ?_ (move.masked calm) fun fd => move.served virtual calm
    cases move <;> simp [*]
  · refine .of_turn ?_ (move.masked calm) fun other shown => ?_
    · cases move <;> simp [*]
    · obtain rfl : fd = other := by
        cases move <;> simpa [turn, *] using shown
      exact move.served calm

end Steps

end Sockcan.Server
