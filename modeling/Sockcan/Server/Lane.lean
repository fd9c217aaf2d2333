import Sockcan.Outbox.Sole
import Sockcan.Server.Handing

/-! The traffic to one connected consumer as an outbox: the two loops are its
producers, and the TX loop drains it. Every step of the server is a step of each
outbox or leaves it as it is. -/
namespace Sockcan.Server
open Protocol
variable {Fd : Type}

def Offer.stage : Offer → Outbox.Stage
  | .test => .arrived
  | .countDropped => .behind
  | .append => .counted
  | .send _ => .direct
  | .queueCount => .refused
  | .queue => .recounted

def OfferResult.holding (message : Relayed Fd) : OfferResult → Option (Relayed Fd × Outbox.Stage)
  | .next point => some (message, point.stage)
  | .done | .queued | .raised _ => none

variable [DecidableEq Fd]

def RxPoint.holding (fd : Fd) : RxPoint Fd → Option (Relayed Fd × Outbox.Stage)
  | .offer message _ consumer point =>
    if consumer.fd = fd then some (message, point.stage) else none
  | _ => none

def TxPoint.holding (fd : Fd) : TxPoint Fd → Option (Relayed Fd × Outbox.Stage)
  | .offer job _ consumer point =>
    if consumer.fd = fd then some (job.message, point.stage) else none
  | _ => none

def TxPoint.draining (fd : Fd) : TxPoint Fd → Outbox.Draining (Relayed Fd)
  | .drain fileobj _ | .settle fileobj _ => if fileobj = fd then .active else .idle
  | .peek fileobj _ => if fileobj = fd then .found else .idle
  | .drainSend fileobj head _ _ => if fileobj = fd then .peeked head else .idle
  | .popleft fileobj head _ => if fileobj = fd then .sent head else .idle
  | _ => .idle

def holding (s : Server Fd) (fd : Fd) : Loop → Option (Relayed Fd × Outbox.Stage)
  | .rx => s.rx.holding fd
  | .tx => s.tx.holding fd

/-- The shared state of a consumer, with what the loops are doing to it. -/
def outbox (s : Server Fd) (fd : Fd) (holding : Loop → Option (Relayed Fd × Outbox.Stage))
    (draining : Outbox.Draining (Relayed Fd)) : Outbox Loop (Relayed Fd) where
  queue := (s.io fd).outbound
  log := (s.traffic fd).backlog
  dropped := (s.io fd).dropped
  watched := s.selector fd == some .readWrite
  handed := (s.traffic fd).handed
  delivered := (s.traffic fd).delivered
  holding := holding
  draining := draining

def lane (s : Server Fd) (fd : Fd) : Outbox Loop (Relayed Fd) :=
  s.outbox fd (s.holding fd) (s.tx.draining fd)

variable {cfg : Config} {s t after : Server Fd} {action : Action Fd} {peers : List (Consumer Fd)}
variable {consumer : Consumer Fd} {place : Nat} {fd : Fd} {message : Relayed Fd}

theorem holding_congr (rx : t.rx.holding fd = s.rx.holding fd)
    (tx : t.tx.holding fd = s.tx.holding fd) : t.holding fd = s.holding fd := by
  funext loop
  cases loop with
  | rx => exact rx
  | tx => exact tx

/-- A statement of the RX loop changes what that loop holds. -/
theorem lane_rx (point : RxPoint Fd) (tx : after.tx = s.tx) :
    ({ after with rx := point } : Server Fd).lane fd =
      after.outbox fd (Function.update (s.holding fd) .rx (point.holding fd))
        (s.tx.draining fd) := by
  have same : ({ after with rx := point } : Server Fd).holding fd =
      Function.update (s.holding fd) .rx (point.holding fd) := by
    funext loop
    cases loop <;> simp [Server.holding, tx]
  rw [lane, same, tx]
  rfl

/-- A statement of the TX loop changes what that loop holds, and its drain. -/
theorem lane_tx (point : TxPoint Fd) (rx : after.rx = s.rx) :
    ({ after with tx := point } : Server Fd).lane fd =
      after.outbox fd (Function.update (s.holding fd) .tx (point.holding fd))
        (point.draining fd) := by
  have same : ({ after with tx := point } : Server Fd).holding fd =
      Function.update (s.holding fd) .tx (point.holding fd) := by
    funext loop
    cases loop <;> simp [Server.holding, rx]
  rw [lane, same]
  rfl

theorem lane_congr (shared : ∀ holding draining, t.outbox fd holding draining =
      s.outbox fd holding draining) (rx : t.rx.holding fd = s.rx.holding fd)
    (tx : t.tx.holding fd = s.tx.holding fd) (draining : t.tx.draining fd = s.tx.draining fd) :
    t.lane fd = s.lane fd := by
  rw [lane, shared, holding_congr rx tx, draining]
  rfl

section Shared
variable {holding : Loop → Option (Relayed Fd × Outbox.Stage)}
  {draining : Outbox.Draining (Relayed Fd)}

theorem outbox_append (fd : Fd) (message : Relayed Fd) :
    (s.append cfg fd message).outbox fd holding draining =
      (s.outbox fd holding draining).push cfg.backlogSize message := by
  simp [outbox, Server.append, Outbox.push, setIo, setTraffic]

theorem outbox_noteDroppedFrame (fd : Fd) :
    (s.noteDroppedFrame cfg fd).outbox fd holding draining =
      (s.outbox fd holding draining).count cfg.backlogSize := by
  rw [noteDroppedFrame_eq]
  simp only [outbox, Outbox.count, setIo, Function.update_self]
  rfl

theorem outbox_setInterest (fd : Fd) (interest : Option Interest) :
    (s.setInterest fd interest).outbox fd holding draining =
      { s.outbox fd holding draining with
        watched := interest == some .readWrite } := by
  simp [outbox, Server.setInterest]

theorem outbox_hand (fd : Fd) (message : Relayed Fd) :
    (s.hand fd message).outbox fd holding draining =
      { s.outbox fd holding draining with
        handed := (s.outbox fd holding draining).handed ++ [message] } := by
  simp [outbox, hand, setTraffic]

theorem outbox_delivered (fd : Fd) (written : List UInt8) (delivered : List (Relayed Fd)) :
    (s.setTraffic fd { s.traffic fd with
      written := written, delivered := delivered }).outbox fd holding draining =
        { s.outbox fd holding draining with delivered := delivered } := by
  simp [outbox, setTraffic]

theorem outbox_popleft (fd : Fd) (first : Relayed Fd) (rest : List (Relayed Fd)) :
    (s.popleft fd first rest).outbox fd holding draining =
      { s.outbox fd holding draining with
        queue := rest
        log := (s.outbox fd holding draining).log.remove ⟨first, rest, false⟩ } := by
  simp [outbox, Server.popleft, setIo, setTraffic]

theorem outbox_settle (fd : Fd) :
    ((s.setInterest fd (some .read)).setIo fd { s.io fd with dropped := 0 }).outbox fd
        holding draining =
      { s.outbox fd holding draining with watched := false, dropped := 0 } := by
  simp [outbox, Server.setInterest, setIo]

omit [DecidableEq Fd] in
theorem outbox_congr (io : t.io fd = s.io fd) (traffic : t.traffic fd = s.traffic fd)
    (selector : t.selector fd = s.selector fd) :
    t.outbox fd holding draining = s.outbox fd holding draining := by
  simp only [outbox, io, traffic, selector]

/-- A statement of an offer is a step of the outbox of its consumer. -/
theorem Offers.outbox_step {point : Offer} {result : OfferResult} {loop : Loop}
    (offer : Offers cfg s fd message point t result) (returns : ∀ why, result ≠ .raised why)
    (held : holding loop = some (message, point.stage)) :
    Outbox.Step cfg.backlogSize .tx Relayed.loop (s.outbox fd holding draining)
      (t.outbox fd (Function.update holding loop (result.holding message)) draining) := by
  cases offer with
  | direct empty => exact .goDirect held empty
  | behind nonempty => exact .goBehind held nonempty
  | countDropped =>
    rw [outbox_noteDroppedFrame]
    exact .count held
  | append =>
    rw [outbox_append]
    exact .append held
  | queueCount =>
    rw [outbox_noteDroppedFrame]
    exact .recount held
  | queue =>
    rw [outbox_setInterest, outbox_append]
    exact .enqueue held
  | queueMissing => exact absurd rfl (returns _)

theorem Offers.outbox_other {point : Offer} {result : OfferResult} {other : Fd}
    (offer : Offers cfg s fd message point t result) (different : other ≠ fd) :
    t.outbox other holding draining = s.outbox other holding draining := by
  cases offer with
  | direct | behind => rfl
  | countDropped | queueCount =>
    rw [noteDroppedFrame_eq]
    exact outbox_congr (by simp [setIo, different]) rfl rfl
  | append | queueMissing | queue =>
    apply outbox_congr <;>
      simp [Server.append, Server.setInterest, setIo, setTraffic, different]

end Shared

/-- A whole call on the connection of another consumer leaves this one alone. -/
theorem Sends.outbox_other {progress : Progress} {outcome : CallOutcome}
    {result : Except Ending SendStep} {other : Fd}
    {holding : Loop → Option (Relayed Fd × Outbox.Stage)}
    {draining : Outbox.Draining (Relayed Fd)}
    (call : Sends s fd message progress outcome t result) (different : other ≠ fd) :
    t.outbox other holding draining = s.outbox other holding draining := by
  cases call with
  | unpacked => rfl
  | call => exact outbox_congr rfl (by simp [setTraffic, different]) rfl

/-- The outbox of a consumer makes a step, or stays as it is. -/
def Follows (cfg : Config) (fd : Fd) (s t : Server Fd) : Prop :=
  t.lane fd = s.lane fd ∨
    Outbox.Step cfg.backlogSize .tx Relayed.loop (s.lane fd) (t.lane fd)

theorem follows_rx (point : RxPoint Fd) (same_tx : after.tx = s.tx)
    (step : Outbox.Step cfg.backlogSize .tx Relayed.loop (s.lane fd)
      (after.outbox fd (Function.update (s.holding fd) .rx (point.holding fd))
        (s.tx.draining fd))) :
    Follows cfg fd s { after with rx := point } :=
  Or.inr ((congrArg _ (lane_rx point same_tx)).mpr step)

theorem follows_tx (point : TxPoint Fd) (same_rx : after.rx = s.rx)
    (step : Outbox.Step cfg.backlogSize .tx Relayed.loop (s.lane fd)
      (after.outbox fd (Function.update (s.holding fd) .tx (point.holding fd))
        (point.draining fd))) :
    Follows cfg fd s { after with tx := point } :=
  Or.inr ((congrArg _ (lane_tx point same_rx)).mpr step)

/-- A step of the drain, which holds no frame. -/
theorem follows_drain {point : TxPoint Fd} {draining : Outbox.Draining (Relayed Fd)}
    (same_rx : after.rx = s.rx) (free : s.tx.holding fd = none) (still : point.holding fd = none)
    (next : point.draining fd = draining)
    (step : Outbox.Step cfg.backlogSize .tx Relayed.loop (s.lane fd)
      (after.outbox fd (s.holding fd) draining)) :
    Follows cfg fd s { after with tx := point } := by
  refine follows_tx point same_rx ?_
  have same : Function.update (s.holding fd) .tx (point.holding fd) = s.holding fd :=
    (congrArg _ (still.trans free.symm)).trans (Function.update_eq_self _ _)
  rw [same, next]
  exact step

/-- A drain begins. -/
theorem follows_start {fileobj : Fd} (events : List (Event Fd)) (same_rx : after.rx = s.rx)
    (shared : ∀ holding draining, after.outbox fd holding draining =
      s.outbox fd holding draining)
    (free : s.tx.holding fd = none) (idle : s.tx.draining fd = .idle) :
    Follows cfg fd s { after with tx := .drain fileobj events } := by
  by_cases here : fileobj = fd
  · have active : (TxPoint.drain fileobj events).draining fd = .active := if_pos here
    refine follows_drain same_rx free rfl active ?_
    rw [shared]
    exact .startDrain free idle
  · have idles : (TxPoint.drain fileobj events).draining fd = .idle := if_neg here
    exact Or.inl (lane_congr shared (congrArg _ same_rx) free.symm (idles.trans idle.symm))

theorem follows_afterRead (job : Job Fd) (same_rx : after.rx = s.rx)
    (shared : ∀ holding draining, after.outbox fd holding draining =
      s.outbox fd holding draining)
    (free : s.tx.holding fd = none) (idle : s.tx.draining fd = .idle) :
    Follows cfg fd s { after with tx := job.afterRead } := by
  unfold Job.afterRead
  split
  · exact follows_start _ same_rx shared free idle
  · exact Or.inl (lane_congr shared (congrArg _ same_rx) free.symm idle.symm)

section Moves

theorem Cleans.lane (move : Cleans s t) (fd : Fd) : t.lane fd = s.lane fd := by
  cases move <;> exact lane_congr (fun _ _ => rfl) (by simp [*, RxPoint.holding]) rfl rfl

theorem Selects.follows (move : Selects s action t) (fd : Fd) : Follows cfg fd s t := by
  cases move with
  | writable at_ =>
    exact follows_start _ rfl (fun _ _ => rfl) (by rw [at_]; rfl) (by rw [at_]; rfl)
  | _ =>
    exact Or.inl (lane_congr (fun _ _ => rfl) rfl (by simp [*, TxPoint.holding])
      (by simp [*, TxPoint.draining]))

section Relays
variable (connected : Connected peers s) (distinct : (peers.map Consumer.fd).Nodup)
  (numbered : s.Numbered) (at_place : peers[place]? = some consumer)
  (handing : Handing consumer place s)

include connected distinct numbered at_place handing

theorem RxRelays.follows (move : RxRelays cfg s action t) (steady : s.Steady action) :
    Follows cfg consumer.fd s t := by
  have rx := connected.rx
  cases move with
  | recvError at_ | recv at_ | finish at_ | accept at_ | skip at_ | wake at_ | close at_ =>
    exact Or.inl (lane_congr (fun _ _ => rfl) (by rw [at_]; rfl) rfl rfl)
  | @hand message index target at_ =>
    rw [at_] at rx
    obtain ⟨source, k, rfl, found, accepts⟩ := rx
    by_cases here : target.fd = consumer.fd
    · obtain ⟨rfl, rfl⟩ := place_unique distinct found at_place here
      have reached : s.dispatch message.loop = some (message, k) := by
        rw [Relayed.loop_rx source, Server.dispatch, at_]
        rfl
      have new : (RxPoint.offer message (k + 1) target .test).holding target.fd =
          some (message, .arrived) := if_pos rfl
      refine follows_rx _ rfl ?_
      rw [outbox_hand, new]
      exact .hand (by simp [Server.lane, outbox, Server.holding, RxPoint.holding, at_])
        (by simp) (Relayed.loop_rx source)
        (handing.fresh numbered reached accepts (by simp [source]))
    · left
      apply lane_congr
      · exact fun _ _ => outbox_congr rfl (by simp [Server.hand, setTraffic, Ne.symm here]) rfl
      · rw [at_]
        exact if_neg here
      · rfl
      · rfl
  | handMissing at_ absent =>
    rw [at_] at rx
    exact absurd (connected.io _ rx.2.mem) absent
  | @offer message index target point after result at_ offer =>
    rw [at_] at rx
    obtain ⟨source, chosen, _⟩ := rx
    have returns := offer.not_raised connected ⟨_, chosen.mem, rfl⟩
    by_cases here : target.fd = consumer.fd
    · have held : s.holding consumer.fd .rx = some (message, point.stage) := by
        simp [Server.holding, RxPoint.holding, at_, here]
      have next : (RxPoint.afterOffer message index target result).holding consumer.fd =
          result.holding message := by
        cases result <;> simp [RxPoint.afterOffer, RxPoint.holding, OfferResult.holding, here]
      refine follows_rx _ offer.tx ?_
      rw [next]
      exact (here ▸ offer).outbox_step returns held
    · left
      apply lane_congr
      · exact fun _ _ => offer.outbox_other (Ne.symm here)
      · rw [at_]
        cases result <;> simp [RxPoint.afterOffer, RxPoint.holding, here]
      · exact congrArg _ offer.tx
      · exact congrArg _ offer.tx
  | @call message index target progress outcome after result at_ call =>
    rw [at_] at rx
    obtain ⟨_, _, start⟩ := rx
    subst start
    by_cases here : target.fd = consumer.fd
    · have held : s.holding consumer.fd .rx = some (message, .direct) := by
        simp [Server.holding, RxPoint.holding, at_, here, Offer.stage]
      refine follows_rx _ call.tx ?_
      rcases call.whole (steady.rx at_) with ⟨rfl, rfl⟩ | ⟨rfl, bytes, _, rfl⟩
      · have next : (RxPoint.afterSend message index target (.ok .wouldBlock)).holding consumer.fd =
            some (message, .refused) := if_pos here
        rw [next]
        exact .refuse held
      · rw [here, outbox_delivered]
        exact .send held
    · left
      apply lane_congr
      · exact fun _ _ => call.outbox_other (Ne.symm here)
      · rw [at_]
        rcases call.whole (steady.rx at_) with ⟨rfl, _⟩ | ⟨rfl, _⟩ <;>
          simp [RxPoint.afterSend, RxPoint.holding, here]
      · exact congrArg _ call.tx
      · exact congrArg _ call.tx

theorem TxRelays.follows (move : TxRelays cfg s action t) (steady : s.Steady action) :
    Follows cfg consumer.fd s t := by
  have tx := connected.tx
  cases move with
  | recv at_ | self at_ | accept at_ | skip at_ | handMissing at_ | busError at_ =>
    exact Or.inl (lane_congr (fun _ _ => rfl) rfl (by rw [at_]; rfl) (by rw [at_]; rfl))
  | @finish job index at_ =>
    by_cases virtual : cfg.virtual
    · simp only [virtual, if_true]
      exact follows_afterRead job rfl (fun _ _ => rfl) (by rw [at_]; rfl) (by rw [at_]; rfl)
    · simp only [virtual]
      exact Or.inl (lane_congr (fun _ _ => rfl) rfl (by rw [at_]; rfl) (by rw [at_]; rfl))
  | bus at_ =>
    exact follows_afterRead _ rfl (fun _ _ => rfl) (by rw [at_]; rfl) (by rw [at_]; rfl)
  | @hand job index target at_ =>
    rw [at_] at tx
    obtain ⟨job_steady, other, k, rfl, found, accepts⟩ := tx
    by_cases here : target.fd = consumer.fd
    · obtain ⟨rfl, rfl⟩ := place_unique distinct found at_place here
      have reached : s.dispatch job.message.loop = some (job.message, k) := by
        rw [Relayed.loop_tx job_steady.source, Server.dispatch, at_]
        rfl
      have new : (TxPoint.offer job (k + 1) target .test).holding target.fd =
          some (job.message, .arrived) := if_pos rfl
      have foreign : job.message.source ≠ some target.fd := by
        rw [job_steady.source, Ne, Option.some.injEq]
        exact Ne.symm other
      have idle : (s.lane target.fd).draining = .idle := by
        simp [Server.lane, outbox, TxPoint.draining, at_]
      have same : (TxPoint.offer job (k + 1) target .test).draining target.fd =
          (s.lane target.fd).draining := idle.symm
      refine follows_tx _ rfl ?_
      rw [outbox_hand, new, same]
      exact .hand (by simp [Server.lane, outbox, Server.holding, TxPoint.holding, at_])
        (fun _ => idle) (Relayed.loop_tx job_steady.source)
        (handing.fresh numbered reached accepts foreign)
    · left
      apply lane_congr
      · exact fun _ _ => outbox_congr rfl (by simp [Server.hand, setTraffic, Ne.symm here]) rfl
      · rfl
      · rw [at_]
        exact if_neg here
      · rw [at_]
        rfl
  | @offer job index target point after result at_ offer =>
    rw [at_] at tx
    obtain ⟨_, _, chosen, _⟩ := tx
    have returns := offer.not_raised connected ⟨_, chosen.mem, rfl⟩
    have idle : (TxPoint.afterOffer job index target result).draining consumer.fd =
        s.tx.draining consumer.fd := by
      rw [at_]
      cases result <;> rfl
    by_cases here : target.fd = consumer.fd
    · have held : s.holding consumer.fd .tx = some (job.message, point.stage) := by
        simp [Server.holding, TxPoint.holding, at_, here]
      have next : (TxPoint.afterOffer job index target result).holding consumer.fd =
          result.holding job.message := by
        cases result <;> simp [TxPoint.afterOffer, TxPoint.holding, OfferResult.holding, here]
      refine follows_tx _ offer.rx ?_
      rw [next, idle]
      exact (here ▸ offer).outbox_step returns held
    · left
      apply lane_congr
      · exact fun _ _ => offer.outbox_other (Ne.symm here)
      · exact congrArg _ offer.rx
      · rw [at_]
        cases result <;> simp [TxPoint.afterOffer, TxPoint.holding, here]
      · exact idle
  | @call job index target progress outcome after result at_ call =>
    rw [at_] at tx
    obtain ⟨_, _, _, start⟩ := tx
    subst start
    have idle : (TxPoint.afterSend job index target result).draining consumer.fd =
        s.tx.draining consumer.fd := by
      rw [at_]
      rcases call.whole (steady.tx at_) with ⟨rfl, _⟩ | ⟨rfl, _⟩ <;> rfl
    by_cases here : target.fd = consumer.fd
    · have held : s.holding consumer.fd .tx = some (job.message, .direct) := by
        simp [Server.holding, TxPoint.holding, at_, here, Offer.stage]
      refine follows_tx _ call.rx ?_
      rw [idle]
      rcases call.whole (steady.tx at_) with ⟨rfl, rfl⟩ | ⟨rfl, bytes, _, rfl⟩
      · have next : (TxPoint.afterSend job index target (.ok .wouldBlock)).holding consumer.fd =
            some (job.message, .refused) := if_pos here
        rw [next]
        exact .refuse held
      · rw [here, outbox_delivered]
        exact .send held
    · left
      apply lane_congr
      · exact fun _ _ => call.outbox_other (Ne.symm here)
      · exact congrArg _ call.rx
      · rw [at_]
        rcases call.whole (steady.tx at_) with ⟨rfl, _⟩ | ⟨rfl, _⟩ <;>
          simp [TxPoint.afterSend, TxPoint.holding, here]
      · exact idle

end Relays

section Drain
variable {events : List (Event Fd)}

/-- A drain of another consumer. -/
theorem Drains.lane_other {other : Fd} (move : Drains s other events action t)
    (different : other ≠ fd) : t.lane fd = s.lane fd := by
  have apart := Ne.symm different
  cases move with
  | @call head progress outcome after answer at_ call =>
    have rests : (TxPoint.afterDrainSend other head events answer).holding fd = none ∧
        (TxPoint.afterDrainSend other head events answer).draining fd = .idle := by
      cases answer with
      | error => exact ⟨rfl, rfl⟩
      | ok step =>
        cases step <;> simp [TxPoint.afterDrainSend, TxPoint.holding, TxPoint.draining, different]
    apply lane_congr
    · exact fun _ _ => call.outbox_other apart
    · exact congrArg _ call.rx
    · rw [at_]
      exact rests.1
    · rw [at_]
      exact rests.2.trans (if_neg different).symm
  | pop at_ =>
    apply lane_congr
    · intro _ _
      apply outbox_congr <;> simp [Server.popleft, setIo, setTraffic, apart]
    · rfl
    · rw [at_]
      rfl
    · simp [at_, TxPoint.draining, different]
  | settleEmpty at_ =>
    apply lane_congr
    · intro _ _
      apply outbox_congr <;> simp [Server.setInterest, setIo, apart]
    · rfl
    · rw [at_]
      rfl
    · simp [at_, TxPoint.draining, different]
  | _ =>
    exact lane_congr (fun _ _ => rfl) rfl (by simp [*, TxPoint.holding])
      (by simp [*, TxPoint.draining])

theorem Drains.follows {other : Fd} (move : Drains s other events action t)
    (steady : s.Steady action) (connected : Connected peers s)
    (inv : (s.lane fd).Inv cfg.backlogSize .tx Relayed.loop) : Follows cfg fd s t := by
  by_cases here : other = fd
  · subst here
    have drained : (s.lane other).draining = s.tx.draining other := rfl
    have tx := connected.tx
    cases move with
    | drained at_ =>
      exact Or.inl (lane_congr (fun _ _ => rfl) rfl (by rw [at_]; rfl) (by rw [at_]; rfl))
    | find at_ nonempty =>
      exact follows_drain rfl (by rw [at_]; rfl) rfl (if_pos rfl)
        (.find (by rw [drained, at_]; exact if_pos rfl) nonempty)
    | peek at_ queued =>
      exact follows_drain rfl (by rw [at_]; rfl) rfl (if_pos rfl)
        (.peek (by rw [drained, at_]; exact if_pos rfl) queued)
    | peekEmpty at_ empty =>
      have found : (s.lane other).draining = .found := by
        rw [drained, at_]
        exact if_pos rfl
      exact absurd empty (inv.occupied (Or.inl found))
    | @call head _ _ _ _ at_ call =>
      rw [at_] at tx
      obtain ⟨_, _, start⟩ := tx
      subst start
      have peeked : (s.lane other).draining = .peeked head := by
        rw [drained, at_]
        exact if_pos rfl
      rcases call.whole (steady.drain at_) with ⟨rfl, rfl⟩ | ⟨rfl, bytes, _, rfl⟩
      · exact follows_drain rfl (by rw [at_]; rfl) rfl (if_pos rfl) (.refuseHead peeked)
      · refine follows_drain rfl (by rw [at_]; rfl) rfl (if_pos rfl) ?_
        rw [outbox_delivered]
        exact .sendHead peeked
    | pop at_ queued =>
      refine follows_drain rfl (by rw [at_]; rfl) rfl (if_pos rfl) ?_
      rw [outbox_popleft]
      exact .pop (by rw [drained, at_]; exact if_pos rfl) queued
    | @popEmpty head at_ empty =>
      have sent : (s.lane other).draining = .sent head := by
        rw [drained, at_]
        exact if_pos rfl
      exact absurd empty (inv.occupied (Or.inr (by simp [sent, Outbox.Draining.head])))
    | settleEmpty at_ empty =>
      refine follows_drain rfl (by rw [at_]; rfl) rfl rfl ?_
      rw [outbox_settle]
      exact .settleEmpty (by rw [drained, at_]; exact if_pos rfl) empty
    | settleMissing at_ _ absent =>
      rw [at_] at tx
      exact absurd ((connected.selector _).mpr tx.1) absent
    | settle at_ nonempty =>
      exact follows_drain rfl (by rw [at_]; rfl) rfl rfl
        (.settle (by rw [drained, at_]; exact if_pos rfl) nonempty)
  · exact Or.inl (move.lane_other here)

end Drain

end Moves

/-- A step of the server is a step of the outbox of each consumer, or none. -/
theorem Moves.lane (move : Moves cfg s action t) (steady : s.Steady action)
    (connected : Connected peers s) (distinct : (peers.map Consumer.fd).Nodup)
    (numbered : s.Numbered) (at_place : peers[place]? = some consumer)
    (handing : Handing consumer place s)
    (inv : (s.lane consumer.fd).Inv cfg.backlogSize .tx Relayed.loop) :
    Follows cfg consumer.fd s t := by
  cases move with
  | clean move => exact Or.inl (move.lane consumer.fd)
  | rxRelay move => exact move.follows connected distinct numbered at_place handing steady
  | select move => exact move.follows consumer.fd
  | giveUp move => exact (move.not_steady steady connected).elim
  | txRelay move => exact move.follows connected distinct numbered at_place handing steady
  | drain move => exact move.follows steady connected inv
  | listen move => exact (move.not_steady steady connected).elim
  | stop move =>
    rw [move.frame]
    exact Or.inl rfl

end Sockcan.Server
