import Sockcan.Outbox.Lossy
import Sockcan.Server.Fifo
import Sockcan.Server.Rising

/-! Order and subscriptions in every run: clients come, go and fail, sends take several calls
or fail, backlogs overflow and the server is stopped. What a consumer gets of a source is in
the order of the source and at most once, and it is what the consumer subscribed to. -/
namespace Sockcan.Server
open Protocol Transition
variable {Fd : Type} [DecidableEq Fd]

/-- What a producer holds after a call of its direct send. -/
def heldAfter (message : Relayed Fd) :
    Except Ending SendStep → Option (Relayed Fd × Outbox.Stage)
  | .ok (.more _) => some (message, .direct)
  | .ok .wouldBlock => some (message, .refused)
  | .ok .sent | .ok .disconnected | .ok .failed | .error _ => none

def deliveredAfter (message : Relayed Fd) (delivered : List (Relayed Fd)) :
    Except Ending SendStep → List (Relayed Fd)
  | .ok .sent => delivered ++ [message]
  | _ => delivered

/-- The frames handed to the consumer that no loop gave up make an outbox. -/
def Orderly (cfg : Config) (fd : Fd) (s : Server Fd) : Prop :=
  ∃ kept, kept.Sublist (s.traffic fd).handed ∧
    ({ s.lane fd with handed := kept } : Outbox Loop (Relayed Fd)).Inv cfg.backlogSize .tx
      Relayed.loop

variable {cfg : Config} {peers : List (Consumer Fd)} {s t : Server Fd} {action : Action Fd}
  {actions : List (Action Fd)} {fd : Fd} {message : Relayed Fd} {consumer : Consumer Fd}

theorem Orderly.congr (orderly : s.Orderly cfg fd) (lane : t.lane fd = s.lane fd) :
    t.Orderly cfg fd := by
  obtain ⟨kept, fewer, inv⟩ := orderly
  have handed : (t.traffic fd).handed = (s.traffic fd).handed := congrArg Outbox.handed lane
  refine ⟨kept, ?_, ?_⟩
  · rw [handed]
    exact fewer
  · rw [lane]
    exact inv

/-- Who is watched, and what was counted, does not matter. -/
theorem Orderly.watch (orderly : s.Orderly cfg fd) (watched : Bool) (dropped : Nat)
    (shared : ∀ holding draining, t.outbox fd holding draining =
      { s.outbox fd holding draining with watched := watched, dropped := dropped })
    (rx : t.rx.holding fd = s.rx.holding fd) (tx : t.tx.holding fd = s.tx.holding fd)
    (draining : t.tx.draining fd = s.tx.draining fd) : t.Orderly cfg fd := by
  obtain ⟨kept, fewer, inv⟩ := orderly
  have lane : t.lane fd = { s.lane fd with watched := watched, dropped := dropped } := by
    rw [lane, shared, holding_congr rx tx, draining]
    rfl
  have handed : (t.traffic fd).handed = (s.traffic fd).handed := congrArg Outbox.handed lane
  refine ⟨kept, ?_, ?_⟩
  · rw [handed]
    exact fewer
  · rw [lane]
    exact inv.watch watched dropped

theorem Orderly.step (orderly : s.Orderly cfg fd)
    (step : Outbox.Step cfg.backlogSize .tx Relayed.loop (s.lane fd) (t.lane fd))
    (handed : (t.traffic fd).handed = (s.traffic fd).handed) : t.Orderly cfg fd := by
  obtain ⟨kept, fewer, inv⟩ := orderly
  refine ⟨kept, ?_, (step.rehanded handed kept).inv cfg.positive inv⟩
  rw [handed]
  exact fewer

theorem Orderly.follows (orderly : s.Orderly cfg fd) (follows : Follows cfg fd s t)
    (handed : (t.traffic fd).handed = (s.traffic fd).handed) : t.Orderly cfg fd := by
  rcases follows with same | step
  · exact orderly.congr same
  · exact orderly.step step handed

section Shared
variable {holding : Loop → Option (Relayed Fd × Outbox.Stage)} {kept : List (Relayed Fd)}
  {draining : Outbox.Draining (Relayed Fd)} {loop : Loop}

omit [DecidableEq Fd] in
theorem record_backlog (traffic : Traffic Fd) (bytes : List UInt8) (progress : Progress)
    (outcome : CallOutcome) :
    (traffic.record message bytes progress outcome).backlog = traffic.backlog := by
  unfold Traffic.record
  cases outcome <;> dsimp only <;> split <;> rfl

omit [DecidableEq Fd] in
theorem record_delivers (traffic : Traffic Fd) (bytes : List UInt8) (progress : Progress)
    (outcome : CallOutcome) :
    (traffic.record message bytes progress outcome).delivered =
      deliveredAfter message traffic.delivered
        (.ok (sendCall streamSendAttempts progress outcome)) := by
  unfold Traffic.record
  cases outcome <;> dsimp only <;> split <;> simp [deliveredAfter, *]

theorem Sends.outbox {progress : Progress} {outcome : CallOutcome}
    {answer : Except Ending SendStep} (call : Sends s fd message progress outcome t answer) :
    t.outbox fd holding draining = { s.outbox fd holding draining with
      delivered := deliveredAfter message (s.traffic fd).delivered answer } := by
  cases call with
  | unpacked => rfl
  | @call bytes =>
    simp only [Server.outbox, setTraffic, Function.update_self, record_handed, record_backlog,
      record_delivers]

/-- A call of a direct send goes on with it, delivers the frame, is refused or gives it up. -/
theorem Sends.keeps {progress : Progress} {outcome : CallOutcome}
    {answer : Except Ending SendStep} (call : Sends s fd message progress outcome t answer)
    (held : holding loop = some (message, .direct))
    (inv : ({ s.outbox fd holding draining with handed := kept } : Outbox _ _).Inv
      cfg.backlogSize .tx Relayed.loop) :
    ∃ left, left.Sublist kept ∧
      ({ t.outbox fd (Function.update holding loop (heldAfter message answer)) draining with
        handed := left } : Outbox _ _).Inv cfg.backlogSize .tx Relayed.loop := by
  have given : ∃ left, left.Sublist kept ∧
      ({ s.outbox fd (Function.update holding loop none) draining with
        handed := left } : Outbox _ _).Inv cfg.backlogSize .tx Relayed.loop :=
    ⟨_, List.filter_sublist, inv.abandon held⟩
  rw [call.outbox]
  cases answer with
  | error => exact given
  | ok step =>
    cases step with
    | disconnected | failed => exact given
    | more next =>
      have same : Function.update holding loop (some (message, .direct)) = holding := by
        rw [← held, Function.update_eq_self]
      refine ⟨kept, List.Sublist.refl _, ?_⟩
      simp only [heldAfter, same]
      exact inv
    | sent =>
      have step : Outbox.Step cfg.backlogSize .tx Relayed.loop _ _ :=
        .send (u := { s.outbox fd holding draining with handed := kept }) held
      exact ⟨kept, List.Sublist.refl _, step.inv cfg.positive inv⟩
    | wouldBlock =>
      have step : Outbox.Step cfg.backlogSize .tx Relayed.loop _ _ :=
        .refuse (u := { s.outbox fd holding draining with handed := kept }) held
      exact ⟨kept, List.Sublist.refl _, step.inv cfg.positive inv⟩

/-- A statement of an offer, one that raises included. -/
theorem Offers.keeps {point : Offer} {result : OfferResult}
    (offer : Offers cfg s fd message point t result)
    (held : holding loop = some (message, point.stage))
    (inv : ({ s.outbox fd holding draining with handed := kept } : Outbox _ _).Inv
      cfg.backlogSize .tx Relayed.loop) :
    ({ t.outbox fd (Function.update holding loop (result.holding message)) draining with
      handed := kept } : Outbox _ _).Inv cfg.backlogSize .tx Relayed.loop := by
  by_cases raises : ∃ why, result = .raised why
  · obtain ⟨why, rfl⟩ := raises
    cases offer with
    | queueMissing =>
      have step : Outbox.Step cfg.backlogSize .tx Relayed.loop _ _ :=
        .enqueue (u := { s.outbox fd holding draining with handed := kept }) held
      rw [outbox_append]
      exact (step.inv cfg.positive inv).watch _ _
  · have step : Outbox.Step cfg.backlogSize .tx Relayed.loop (s.outbox fd holding draining)
        (t.outbox fd (Function.update holding loop (result.holding message)) draining) :=
      offer.outbox_step (fun why is => raises ⟨why, is⟩) held
    exact (step.rehanded (offer.handed fd) kept).inv cfg.positive inv

end Shared

section Moves

/-- A frame that is handed over is new to its consumer. -/
theorem Orderly.hand (orderly : s.Orderly cfg consumer.fd) (ledger : s.Ledger) (rising : s.Rising)
    {loop : Loop} {index : Nat} (found : s.lookedUp loop = some (message, index, consumer))
    (free : s.holding consumer.fd loop = none)
    (idle : loop = .tx → s.tx.draining consumer.fd = .idle)
    (lane : t.lane consumer.fd = (s.hand consumer.fd message).outbox consumer.fd
      (Function.update (s.holding consumer.fd) loop (some (message, .arrived)))
      (s.tx.draining consumer.fd)) : t.Orderly cfg consumer.fd := by
  obtain ⟨kept, fewer, inv⟩ := orderly
  rw [outbox_hand] at lane
  have new : message ∉ kept := fun member =>
    Nat.lt_irrefl _ ((rising.looked loop message index consumer found).1 message
      (fewer.subset member) rfl)
  have mine : message.loop = loop := (ledger.routed loop message _ (lookedUp_dispatch found)).1
  have step : Outbox.Step cfg.backlogSize .tx Relayed.loop _ _ :=
    .hand (u := { s.lane consumer.fd with handed := kept }) free idle mine new
  have handed : (t.traffic consumer.fd).handed = (s.traffic consumer.fd).handed ++ [message] :=
    congrArg Outbox.handed lane
  refine ⟨kept ++ [message], ?_, ?_⟩
  · rw [handed]
    exact fewer.append_right _
  · rw [lane]
    exact step.inv cfg.positive inv

theorem RxRelays.orderly (move : RxRelays cfg s action t) (ledger : s.Ledger) (rising : s.Rising)
    (orderly : s.Orderly cfg fd) : t.Orderly cfg fd := by
  cases move with
  | recvError at_ | recv at_ | finish at_ | accept at_ | skip at_ | handMissing at_ | wake at_
  | close at_ => exact orderly.congr (lane_congr (fun _ _ => rfl) (by rw [at_]; rfl) rfl rfl)
  | @hand message index target at_ =>
    by_cases here : target.fd = fd
    · subst here
      have new : (RxPoint.offer message index target .test).holding target.fd =
          some (message, .arrived) := if_pos rfl
      have found : s.lookedUp .rx = some (message, index, target) := by
        simp only [lookedUp, at_, RxPoint.lookedUp]
      refine orderly.hand ledger rising found ?_ (fun tx => by contradiction) ?_
      · simp only [Server.holding, at_, RxPoint.holding]
      · have same_tx : (s.hand target.fd message).tx = s.tx := rfl
        rw [lane_rx _ same_tx, new]
    · refine orderly.congr (lane_congr (fun _ _ => ?_) ?_ rfl rfl)
      · exact outbox_congr rfl (by simp [Server.hand, setTraffic, Ne.symm here]) rfl
      · rw [at_]
        exact if_neg here
  | @offer message index target point after result at_ offer =>
    by_cases here : target.fd = fd
    · subst here
      obtain ⟨kept, fewer, inv⟩ := orderly
      have held : s.holding target.fd .rx = some (message, point.stage) := by
        simp [Server.holding, RxPoint.holding, at_]
      have next : (RxPoint.afterOffer message index target result).holding target.fd =
          result.holding message := by
        cases result <;> simp [RxPoint.afterOffer, RxPoint.holding, OfferResult.holding]
      refine ⟨kept, ?_, ?_⟩
      · rw [offer.handed]
        exact fewer
      · rw [lane_rx _ offer.tx, next]
        exact offer.keeps held inv
    · refine orderly.congr (lane_congr (fun _ _ => offer.outbox_other (Ne.symm here)) ?_
        (congrArg _ offer.tx) (congrArg _ offer.tx))
      rw [at_]
      cases result <;> simp [RxPoint.afterOffer, RxPoint.holding, here]
  | @call message index target progress outcome after answer at_ call =>
    by_cases here : target.fd = fd
    · subst here
      obtain ⟨kept, fewer, inv⟩ := orderly
      have held : s.holding target.fd .rx = some (message, .direct) := by
        simp [Server.holding, RxPoint.holding, at_, Offer.stage]
      have next : (RxPoint.afterSend message index target answer).holding target.fd =
          heldAfter message answer := by
        cases answer with
        | error => rfl
        | ok step =>
          cases step <;> simp [RxPoint.afterSend, RxPoint.holding, heldAfter, Offer.stage]
      obtain ⟨left, less, kept_inv⟩ := call.keeps held inv
      refine ⟨left, ?_, ?_⟩
      · rw [call.handed]
        exact less.trans fewer
      · rw [lane_rx _ call.tx, next]
        exact kept_inv
    · refine orderly.congr (lane_congr (fun _ _ => call.outbox_other (Ne.symm here)) ?_
        (congrArg _ call.tx) (congrArg _ call.tx))
      rw [at_]
      cases answer with
      | error => simp [RxPoint.afterSend, RxPoint.holding, here]
      | ok step => cases step <;> simp [RxPoint.afterSend, RxPoint.holding, here]

theorem TxRelays.orderly (move : TxRelays cfg s action t) (ledger : s.Ledger) (rising : s.Rising)
    (orderly : s.Orderly cfg fd) : t.Orderly cfg fd := by
  cases move with
  | recv at_ | self at_ | accept at_ | skip at_ | handMissing at_ | busError at_ =>
    exact orderly.congr (lane_congr (fun _ _ => rfl) rfl (by rw [at_]; rfl) (by rw [at_]; rfl))
  | @finish job index at_ =>
    by_cases virtual : cfg.virtual
    · simp only [virtual, if_true]
      exact orderly.follows (follows_afterRead job rfl (fun _ _ => rfl) (by rw [at_]; rfl)
        (by rw [at_]; rfl)) rfl
    · simp only [virtual]
      exact orderly.congr (lane_congr (fun _ _ => rfl) rfl (by rw [at_]; rfl) (by rw [at_]; rfl))
  | bus at_ =>
    exact orderly.follows (follows_afterRead _ rfl (fun _ _ => rfl) (by rw [at_]; rfl)
      (by rw [at_]; rfl)) rfl
  | @hand job index target at_ =>
    have idle (fd : Fd) : s.tx.draining fd = .idle := by rw [at_]; rfl
    by_cases here : target.fd = fd
    · subst here
      have new : (TxPoint.offer job index target .test).holding target.fd =
          some (job.message, .arrived) := if_pos rfl
      have rests : (TxPoint.offer job index target .test).draining target.fd =
          s.tx.draining target.fd := (idle _).symm
      have found : s.lookedUp .tx = some (job.message, index, target) := by
        simp only [lookedUp, at_, TxPoint.lookedUp]
      refine orderly.hand ledger rising found ?_ (fun _ => idle _) ?_
      · simp only [Server.holding, at_, TxPoint.holding]
      · have same_rx : (s.hand target.fd job.message).rx = s.rx := rfl
        rw [lane_tx _ same_rx, new, rests]
    · refine orderly.congr (lane_congr (fun _ _ => ?_) rfl ?_ (idle _).symm)
      · exact outbox_congr rfl (by simp [Server.hand, setTraffic, Ne.symm here]) rfl
      · rw [at_]
        exact if_neg here
  | @offer job index target point after result at_ offer =>
    have rests : (TxPoint.afterOffer job index target result).draining fd = s.tx.draining fd := by
      rw [at_]
      cases result <;> rfl
    by_cases here : target.fd = fd
    · subst here
      obtain ⟨kept, fewer, inv⟩ := orderly
      have held : s.holding target.fd .tx = some (job.message, point.stage) := by
        simp [Server.holding, TxPoint.holding, at_]
      have next : (TxPoint.afterOffer job index target result).holding target.fd =
          result.holding job.message := by
        cases result <;> simp [TxPoint.afterOffer, TxPoint.holding, OfferResult.holding]
      refine ⟨kept, ?_, ?_⟩
      · rw [offer.handed]
        exact fewer
      · rw [lane_tx _ offer.rx, next, rests]
        exact offer.keeps held inv
    · refine orderly.congr (lane_congr (fun _ _ => offer.outbox_other (Ne.symm here))
        (congrArg _ offer.rx) ?_ rests)
      rw [at_]
      cases result <;> simp [TxPoint.afterOffer, TxPoint.holding, here]
  | @call job index target progress outcome after answer at_ call =>
    have rests : (TxPoint.afterSend job index target answer).draining fd = s.tx.draining fd := by
      rw [at_]
      cases answer with
      | error => rfl
      | ok step => cases step <;> rfl
    by_cases here : target.fd = fd
    · subst here
      obtain ⟨kept, fewer, inv⟩ := orderly
      have held : s.holding target.fd .tx = some (job.message, .direct) := by
        simp [Server.holding, TxPoint.holding, at_, Offer.stage]
      have next : (TxPoint.afterSend job index target answer).holding target.fd =
          heldAfter job.message answer := by
        cases answer with
        | error => rfl
        | ok step =>
          cases step <;> simp [TxPoint.afterSend, TxPoint.holding, heldAfter, Offer.stage]
      obtain ⟨left, less, kept_inv⟩ := call.keeps held inv
      refine ⟨left, ?_, ?_⟩
      · rw [call.handed]
        exact less.trans fewer
      · rw [lane_tx _ call.rx, next, rests]
        exact kept_inv
    · refine orderly.congr (lane_congr (fun _ _ => call.outbox_other (Ne.symm here))
        (congrArg _ call.rx) ?_ rests)
      rw [at_]
      cases answer with
      | error => simp [TxPoint.afterSend, TxPoint.holding, here]
      | ok step => cases step <;> simp [TxPoint.afterSend, TxPoint.holding, here]

/-- The drain stops between two frames, with the loop or to give the consumer up. -/
theorem Orderly.rest (orderly : s.Orderly cfg fd)
    (between : s.tx.draining fd = .active ∨ s.tx.draining fd = .found)
    (lane : t.lane fd = { s.lane fd with draining := .idle }) : t.Orderly cfg fd := by
  obtain ⟨kept, fewer, inv⟩ := orderly
  have handed : (t.traffic fd).handed = (s.traffic fd).handed := congrArg Outbox.handed lane
  refine ⟨kept, ?_, ?_⟩
  · rw [handed]
    exact fewer
  · rw [lane]
    exact inv.rest between

/-- The head that could not be sent stays queued, and the drain stops. -/
theorem Orderly.giveUp (orderly : s.Orderly cfg fd) {head : Relayed Fd}
    (peeked : s.tx.draining fd = .peeked head)
    (lane : t.lane fd = { s.lane fd with draining := .idle }) : t.Orderly cfg fd := by
  obtain ⟨kept, fewer, inv⟩ := orderly
  have handed : (t.traffic fd).handed = (s.traffic fd).handed := congrArg Outbox.handed lane
  have refuses : Outbox.Step cfg.backlogSize .tx Relayed.loop _ _ :=
    .refuseHead (u := { s.lane fd with handed := kept }) peeked
  refine ⟨kept, ?_, ?_⟩
  · rw [handed]
    exact fewer
  · rw [lane]
    exact (refuses.inv cfg.positive inv).rest (Or.inl rfl)

theorem Drains.orderly {other : Fd} {events : List (Event Fd)}
    (move : Drains s other events action t) (orderly : s.Orderly cfg fd) : t.Orderly cfg fd := by
  by_cases here : other = fd
  · subst here
    obtain ⟨kept, fewer, inv⟩ := id orderly
    have drained : (s.lane other).draining = s.tx.draining other := rfl
    cases move with
    | drained at_ =>
      exact orderly.congr (lane_congr (fun _ _ => rfl) rfl (by rw [at_]; rfl) (by rw [at_]; rfl))
    | find at_ nonempty =>
      exact orderly.follows (follows_drain rfl (by rw [at_]; rfl) rfl (if_pos rfl)
        (.find (by rw [drained, at_]; exact if_pos rfl) nonempty)) rfl
    | peek at_ queued =>
      exact orderly.follows (follows_drain rfl (by rw [at_]; rfl) rfl (if_pos rfl)
        (.peek (by rw [drained, at_]; exact if_pos rfl) queued)) rfl
    | peekEmpty at_ empty =>
      have found : s.tx.draining other = .found := by
        rw [at_]
        exact if_pos rfl
      exact absurd empty (inv.occupied (Or.inl found))
    | @call head progress outcome after answer at_ call =>
      have peeked : s.tx.draining other = .peeked head := by
        rw [at_]
        exact if_pos rfl
      have free : s.tx.holding other = none := by rw [at_]; rfl
      have lane (point : TxPoint Fd) (still : point.holding other = none) :
          ({ after with tx := point } : Server Fd).lane other =
            { s.outbox other (s.holding other) (point.draining other) with
              delivered := deliveredAfter head (s.traffic other).delivered answer } := by
        have same : Function.update (s.holding other) .tx (point.holding other) =
            s.holding other :=
          (congrArg _ (still.trans free.symm)).trans (Function.update_eq_self _ _)
        rw [lane_tx point call.rx, same, call.outbox]
      cases answer with
      | error => exact orderly.giveUp peeked (lane _ rfl)
      | ok step =>
        cases step with
        | disconnected | failed => exact orderly.giveUp peeked (lane _ rfl)
        | more next =>
          have again : (TxPoint.drainSend other head next events).draining other =
              s.tx.draining other := (if_pos rfl).trans peeked.symm
          refine orderly.congr ((lane _ rfl).trans ?_)
          simp only [TxPoint.afterDrainSend, again]
          rfl
        | sent =>
          have popping : (TxPoint.popleft other head events).draining other = .sent head :=
            if_pos rfl
          refine orderly.step ?_ (call.handed other)
          rw [TxPoint.afterDrainSend, lane _ rfl, popping]
          exact .sendHead peeked
        | wouldBlock =>
          have settling : (TxPoint.settle other events).draining other = .active := if_pos rfl
          refine orderly.step ?_ (call.handed other)
          rw [TxPoint.afterDrainSend, lane _ rfl, settling]
          exact .refuseHead peeked
    | pop at_ queued =>
      refine orderly.follows (follows_drain rfl (by rw [at_]; rfl) rfl (if_pos rfl) ?_) ?_
      · rw [outbox_popleft]
        exact .pop (by rw [drained, at_]; exact if_pos rfl) queued
      · exact setTraffic_keeps Traffic.handed (by rfl) other
    | @popEmpty head at_ empty =>
      have sent : (s.lane other).draining = .sent head := by
        rw [drained, at_]
        exact if_pos rfl
      have in_hand : (s.lane other).draining.head ≠ none := by
        simp [sent, Outbox.Draining.head]
      exact absurd empty (inv.occupied (Or.inr in_hand))
    | settleEmpty at_ empty =>
      refine orderly.follows (follows_drain rfl (by rw [at_]; rfl) rfl rfl ?_) rfl
      rw [outbox_settle]
      exact .settleEmpty (by rw [drained, at_]; exact if_pos rfl) empty
    | settleMissing at_ =>
      have active : s.tx.draining other = .active := by
        rw [at_]
        exact if_pos rfl
      have free : s.tx.holding other = none := by rw [at_]; rfl
      refine orderly.rest (Or.inl active) ?_
      rw [lane_tx _ rfl]
      have same : Function.update (s.holding other) .tx none = s.holding other :=
        (congrArg _ free.symm).trans (Function.update_eq_self _ _)
      exact congrArg (fun holding => s.outbox other holding .idle) same
    | settle at_ nonempty =>
      exact orderly.follows (follows_drain rfl (by rw [at_]; rfl) rfl rfl
        (.settle (by rw [drained, at_]; exact if_pos rfl) nonempty)) rfl
  · exact orderly.congr (move.lane_other here)

theorem GivesUp.orderly (move : GivesUp s action t) (orderly : s.Orderly cfg fd) :
    t.Orderly cfg fd := by
  cases move with
  | recvError at_ | unregisterMissing at_ | reportDead at_ =>
    exact orderly.congr (lane_congr (fun _ _ => rfl) rfl (by rw [at_]; rfl) (by rw [at_]; rfl))
  | @unregister other events at_ =>
    by_cases here : other = fd
    · subst here
      refine orderly.watch false (s.io other).dropped (fun _ _ => ?_) rfl (by rw [at_]; rfl)
        (by rw [at_]; rfl)
      simp [outbox, setInterest, setTraffic]
    · refine orderly.congr (lane_congr (fun _ _ => ?_) rfl (by rw [at_]; rfl) (by rw [at_]; rfl))
      apply outbox_congr <;> simp [setInterest, setTraffic, Ne.symm here]

/-- A descriptor that `listen_to` has not published yet was handed nothing, so that the fresh
`_ConsumerIO` object has nothing to lose. -/
theorem Listens.orderly (move : Listens cfg s action t) (rising : s.Rising)
    (orderly : s.Orderly cfg fd) : t.Orderly cfg fd := by
  cases move with
  | @publish consumer at_ =>
    by_cases here : consumer.fd = fd
    · subst here
      have unhanded := rising.unpublished consumer.fd fun known => known.1 at_
      obtain ⟨kept, fewer, inv⟩ := id orderly
      rw [unhanded, List.sublist_nil] at fewer
      have empty : (s.io consumer.fd).outbound = [] :=
        List.eq_nil_iff_forall_not_mem.mpr fun message queued =>
          List.not_mem_nil (fewer ▸ inv.queued_handed queued)
      refine orderly.watch (s.selector consumer.fd == some .readWrite) 0 (fun _ _ => ?_) rfl rfl rfl
      simp [outbox, setIo, setConsumerIo, ConsumerIO.empty, empty]
    · refine orderly.congr (lane_congr (fun _ _ => ?_) rfl rfl rfl)
      apply outbox_congr <;> simp [setIo, setConsumerIo, Ne.symm here]
  | @register other at_ absent =>
    by_cases here : other = fd
    · subst here
      refine orderly.watch false (s.io other).dropped (fun _ _ => ?_) rfl rfl rfl
      simp [outbox, setInterest]
    · refine orderly.congr (lane_congr (fun _ _ => ?_) rfl rfl rfl)
      apply outbox_congr <;> simp [setInterest, Ne.symm here]
  | _ => exact orderly.congr (lane_congr (fun _ _ => rfl) rfl rfl rfl)

theorem Moves.orderly (move : Moves cfg s action t) (ledger : s.Ledger) (rising : s.Rising)
    (orderly : s.Orderly cfg fd) : t.Orderly cfg fd := by
  cases move with
  | clean move => exact orderly.congr (move.lane fd)
  | rxRelay move => exact move.orderly ledger rising orderly
  | select move =>
    exact orderly.follows (move.follows fd) (congrArg (fun t => (t.traffic fd).handed) move.frame :)
  | giveUp move => exact move.orderly orderly
  | txRelay move => exact move.orderly ledger rising orderly
  | drain move => exact move.orderly orderly
  | listen move => exact move.orderly rising orderly
  | stop move =>
    refine orderly.congr ?_
    rw [move.frame]
    rfl

end Moves

end Sockcan.Server
