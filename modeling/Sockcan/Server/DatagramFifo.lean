import Sockcan.Server.Calls
import Sockcan.Server.Datagram
import Sockcan.Server.Fifo

/-! The relay in datagram mode. While nobody is given up, each step is one of the stream
mode in which sockets take whole frames, but for the bytes that are written and for the
frames that an absent peer makes the server give up. -/
namespace Sockcan.DatagramServer
open Protocol Server Transition
variable {Fd : Type} [DecidableEq Fd]

/-- The socket takes the datagram, or its peer is full or absent: the consumer stays. -/
def Keeps : SendAnswer → Prop
  | .accepted | .wouldBlock | .absent => True
  | .disconnected | .failed => False

instance : DecidablePred Keeps
  | .accepted | .wouldBlock | .absent => isTrue trivial
  | .disconnected | .failed => isFalse id

/-- The frame that a loop is about to send has a header. -/
def Packs (d : DatagramServer Fd) (loop : Loop) : Prop :=
  match d.server.sending loop with
  | none => True
  | some (_, message, _) => message.frame.payload.isSome

instance (d : DatagramServer Fd) (loop : Loop) : Decidable (d.Packs loop) := by
  unfold Packs
  cases d.server.sending loop <;> infer_instance

/-- The consumers stay connected and none is added. -/
def Steady (ancillaryDataSize : Nat) (d : DatagramServer Fd) : Action Fd → Prop
  | .rxCall answer => Keeps answer ∧ d.Packs .rx
  | .txCall answer => Keeps answer ∧ d.Packs .tx
  | .txRecv answer => (socketcanRecv ancillaryDataSize answer).isOk
  | .listen _ => False
  | _ => True

instance (ancillaryDataSize : Nat) (d : DatagramServer Fd) :
    DecidablePred (d.Steady ancillaryDataSize)
  | .rxCall _ | .txCall _ => inferInstanceAs (Decidable (_ ∧ _))
  | .txRecv _ => inferInstanceAs (Decidable (_ = true))
  | .listen _ => isFalse id
  | .rx | .rxRecv _ | .tx | .txSelect _ | .txBus _ | .listenNext _ | .stop => isTrue trivial

/-- The two servers differ in bytes and in failed sends only. -/
structure Alike (s t : Server Fd) : Prop where
  rest : t = { s with traffic := t.traffic }
  handed : ∀ fd, (t.traffic fd).handed = (s.traffic fd).handed
  delivered : ∀ fd, (t.traffic fd).delivered = (s.traffic fd).delivered
  backlog : ∀ fd, (t.traffic fd).backlog = (s.traffic fd).backlog

variable {cfg : Config} {peers : List (Consumer Fd)} {s t : Server Fd}
  {d e : DatagramServer Fd} {ancillaryDataSize : Nat} {action : Action Fd}
  {actions : List (Action Fd)} {consumer : Consumer Fd} {message : Relayed Fd}

omit [DecidableEq Fd] in
theorem Alike.refl (s : Server Fd) : Alike s s where
  rest := rfl
  handed _ := rfl
  delivered _ := rfl
  backlog _ := rfl

theorem Alike.lane (alike : Alike s t) (fd : Fd) : t.lane fd = s.lane fd := by
  have parts : t.io = s.io ∧ t.selector = s.selector ∧ t.rx = s.rx ∧ t.tx = s.tx := by
    rw [alike.rest]
    exact ⟨rfl, rfl, rfl, rfl⟩
  refine lane_congr (fun holding draining => ?_) (by rw [parts.2.2.1]) (by rw [parts.2.2.2])
    (by rw [parts.2.2.2])
  simp only [outbox, parts.1, parts.2.1, alike.handed, alike.delivered, alike.backlog]

theorem Alike.relay (alike : Alike s t) (relay : Relay cfg peers s) : Relay cfg peers t where
  connected := by
    rw [alike.rest]
    exact { relay.connected with }
  numbered := relay.numbered.of_eq (by rw [alike.rest])
  handing place consumer at_place := by
    refine (relay.handing place consumer at_place).keep (by rw [alike.rest])
      (alike.handed consumer.fd) fun source _ => ?_
    rw [alike.rest]
    rfl
  lanes consumer member := by
    rw [alike.lane consumer.fd]
    exact relay.lanes consumer member

section Calls
variable {fd : Fd} {bytes : List UInt8}

omit [DecidableEq Fd] in
theorem Packs.payload {loop : Loop} {progress : Progress} (packs : d.Packs loop)
    (sending : d.server.sending loop = some (fd, message, progress)) :
    ∃ bytes, message.frame.payload = some bytes := by
  simp only [Packs, sending] at packs
  exact Option.isSome_iff_exists.mp packs

/-- A field that two records share is the same in the servers that hold them. -/
theorem setTraffic_congr {α : Type} (field : Traffic Fd → α) {first second : Traffic Fd}
    (same : field second = field first) (other : Fd) :
    field ((s.setTraffic fd second).traffic other) =
      field ((s.setTraffic fd first).traffic other) := by
  by_cases here : other = fd
  · subst here
    simpa only [Server.setTraffic, Function.update_self] using same
  · simp only [Server.setTraffic, Function.update_of_ne here]

/-- A frame that is dealt with is delivered, as far as the stream mode can tell. -/
theorem alike_deal (written : List UInt8) (delivered : List (Relayed Fd)) : Alike
    (s.setTraffic fd { s.traffic fd with written := written, delivered := delivered })
    (s.setTraffic fd { s.traffic fd with delivered := delivered }) where
  rest := rfl
  handed := setTraffic_congr Traffic.handed rfl
  delivered := setTraffic_congr Traffic.delivered rfl
  backlog := setTraffic_congr Traffic.backlog rfl

omit [DecidableEq Fd] in
theorem Alike.rx (alike : Alike s t) (point : RxPoint Fd) :
    Alike { s with rx := point } { t with rx := point } :=
  { alike with rest := congrArg (fun u => { u with rx := point }) alike.rest }

omit [DecidableEq Fd] in
theorem Alike.tx (alike : Alike s t) (point : TxPoint Fd) :
    Alike { s with tx := point } { t with tx := point } :=
  { alike with rest := congrArg (fun u => { u with tx := point }) alike.rest }

end Calls

/-- A step that the server in stream mode can make as well. -/
def Simulated (cfg : Config) (d e : DatagramServer Fd) : Prop :=
  ∃ action t, d.server.Steady action ∧ Server.step cfg d.server action = some t ∧
    Alike t e.server

theorem Simulated.of_deal_rx {index : Nat} {bytes : List UInt8} (datagram : Option (List UInt8))
    (at_ : d.server.rx = .offer message index consumer (.send (.start streamSendAttempts)))
    (packed : message.frame.payload = some bytes) :
    Simulated cfg d
      ((d.deal consumer.fd message datagram).gotoRx (some (.advance message index))) := by
  refine ⟨.rxCall (.accepted bytes.length), _, ?_, ?_,
    (alike_deal ((d.server.traffic consumer.fd).written ++ bytes) _).rx _⟩
  · simp [Server.Steady, WholeCall, Server.sending, at_, Whole, packed]
  · simp only [Server.step, Server.rxCall, at_, socketSend_whole packed, Option.map_some]
    rfl

theorem rxCall_simulated {answer : SendAnswer} (connected : Connected peers d.server)
    (keeps : Keeps answer) (packs : d.Packs .rx) (step : d.rxCall answer = some e) :
    Simulated cfg d e := by
  have rx := connected.rx
  unfold rxCall at step
  cases at_ : d.server.rx <;> simp only [at_] at step <;> try contradiction
  case offer message index consumer point =>
  cases point <;> simp only at step <;> try contradiction
  case send progress =>
  rw [at_] at rx
  obtain ⟨_, _, start⟩ := rx
  subst start
  have sending : d.server.sending .rx =
      some (consumer.fd, message, .start streamSendAttempts) := by
    simp only [Server.sending, at_]
  obtain ⟨bytes, packed⟩ := packs.payload sending
  split at step
  · contradiction
  simp only [packed] at step
  cases answer with
  | accepted =>
    cases step
    exact .of_deal_rx (some bytes) at_ packed
  | absent =>
    cases step
    exact .of_deal_rx none at_ packed
  | wouldBlock =>
    cases step
    refine ⟨.rxCall .wouldBlock, _, ?_, ?_, .refl _⟩
    · simp [Server.Steady, WholeCall, Server.sending, at_, Whole, packed]
    · simp only [Server.step, Server.rxCall, at_, socketSend_refused packed, Option.map_some]
      rfl
  | disconnected | failed => exact keeps.elim

theorem Simulated.of_deal_tx {job : Job Fd} {index : Nat} {bytes : List UInt8}
    (datagram : Option (List UInt8))
    (at_ : d.server.tx = .offer job index consumer (.send (.start streamSendAttempts)))
    (packed : job.message.frame.payload = some bytes) :
    Simulated cfg d
      ((d.deal consumer.fd job.message datagram).gotoTx (some (.advance job index))) := by
  refine ⟨.txCall (.accepted bytes.length), _, ?_, ?_,
    (alike_deal ((d.server.traffic consumer.fd).written ++ bytes) _).tx _⟩
  · simp [Server.Steady, WholeCall, Server.sending, at_, Whole, packed]
  · simp only [Server.step, Server.txCall, at_, socketSend_whole packed, Option.map_some]
    rfl

theorem Simulated.of_deal_drain {fd : Fd} {head : Relayed Fd} {events : List (Event Fd)}
    {bytes : List UInt8} (datagram : Option (List UInt8))
    (at_ : d.server.tx = .drainSend fd head (.start streamSendAttempts) events)
    (packed : head.frame.payload = some bytes) :
    Simulated cfg d ((d.deal fd head datagram).gotoTx (some (.popleft fd head events))) := by
  refine ⟨.txCall (.accepted bytes.length), _, ?_, ?_,
    (alike_deal ((d.server.traffic fd).written ++ bytes) _).tx _⟩
  · simp [Server.Steady, WholeCall, Server.sending, at_, Whole, packed]
  · simp only [Server.step, Server.txCall, at_, socketSend_whole packed, Option.map_some]
    rfl

theorem txCall_simulated {answer : SendAnswer} (connected : Connected peers d.server)
    (keeps : Keeps answer) (packs : d.Packs .tx) (step : d.txCall answer = some e) :
    Simulated cfg d e := by
  have tx := connected.tx
  unfold txCall at step
  cases at_ : d.server.tx <;> simp only [at_] at step <;> try contradiction
  case offer job index consumer point =>
    cases point <;> simp only at step <;> try contradiction
    case send progress =>
    rw [at_] at tx
    obtain ⟨_, _, _, start⟩ := tx
    subst start
    have sending : d.server.sending .tx =
        some (consumer.fd, job.message, .start streamSendAttempts) := by
      simp only [Server.sending, at_]
    obtain ⟨bytes, packed⟩ := packs.payload sending
    split at step
    · contradiction
    simp only [packed] at step
    cases answer with
    | accepted =>
      cases step
      exact .of_deal_tx (some bytes) at_ packed
    | absent =>
      cases step
      exact .of_deal_tx none at_ packed
    | wouldBlock =>
      cases step
      refine ⟨.txCall .wouldBlock, _, ?_, ?_, .refl _⟩
      · simp [Server.Steady, WholeCall, Server.sending, at_, Whole, packed]
      · simp only [Server.step, Server.txCall, at_, socketSend_refused packed, Option.map_some]
        rfl
    | disconnected | failed => exact keeps.elim
  case drainSend fd head progress events =>
    rw [at_] at tx
    obtain ⟨_, _, start⟩ := tx
    subst start
    have sending : d.server.sending .tx = some (fd, head, .start streamSendAttempts) := by
      simp only [Server.sending, at_]
    obtain ⟨bytes, packed⟩ := packs.payload sending
    split at step
    · contradiction
    simp only [packed] at step
    cases answer with
    | accepted =>
      cases step
      exact .of_deal_drain (some bytes) at_ packed
    | absent =>
      cases step
      exact .of_deal_drain none at_ packed
    | wouldBlock =>
      cases step
      refine ⟨.txCall .wouldBlock, _, ?_, ?_, .refl _⟩
      · simp [Server.Steady, WholeCall, Server.sending, at_, Whole, packed]
      · simp only [Server.step, Server.txCall, at_, socketSend_refused packed, Option.map_some]
        rfl
    | disconnected | failed => exact keeps.elim

theorem shared_simulated {action : Server.Action Fd} (steady : d.server.Steady action)
    (step : d.shared cfg action = some e) : Simulated cfg d e := by
  obtain ⟨after, made, rfl⟩ := Option.map_eq_some_iff.mp step
  exact ⟨action, after, steady, made, .refl _⟩

/-- The outboxes of the consumers, across a step. -/
structure Relays (cfg : Config) (peers : List (Consumer Fd)) (s t : Server Fd) : Prop where
  relay : Relay cfg peers t
  follows : ∀ consumer ∈ peers, Follows cfg consumer.fd s t

theorem Simulated.relays (simulated : Simulated cfg d e)
    (distinct : (peers.map Consumer.fd).Nodup) (relay : Relay cfg peers d.server) :
    Relays cfg peers d.server e.server := by
  obtain ⟨action, t, steady, step, alike⟩ := simulated
  refine ⟨alike.relay (relay.step distinct steady step), fun consumer member => ?_⟩
  have follows := relay.lane_step distinct steady step member
  rwa [Follows, alike.lane]

/-- A datagram may hold a frame that a stream cannot, so a read is no step of the stream
mode. -/
theorem relays_received {fd : Fd} {writable : Bool} {events : List (Event Fd)} (frame : Frame)
    (at_ : s.tx = .recv fd writable events) (relay : Relay cfg peers s)
    (after : t = { s.receive (s.stamp (some fd) frame) with
      tx := .advance ⟨fd, s.stamp (some fd) frame, writable, events⟩ 0 }) :
    Relays cfg peers s t := by
  have lanes (other : Fd) : t.lane other = s.lane other := by
    rw [after]
    exact lane_congr (fun _ _ => rfl) rfl (by rw [at_]; rfl) (by rw [at_]; rfl)
  have tx := relay.connected.tx
  rw [at_] at tx
  refine ⟨⟨?_, ?_, fun place consumer at_place => ?_, fun consumer member => ?_⟩,
    fun consumer _ => Or.inl (lanes consumer.fd)⟩
  · rw [after]
    exact { relay.connected with tx := ⟨rfl, tx.1, tx.2⟩ }
  · exact (relay.numbered.receive (some fd) frame).of_eq (by rw [after])
  · rw [after]
    refine (relay.handing place consumer at_place).receive (some fd) ?_ rfl
      (fun loop other => ?_) rfl rfl
    · rw [loopOf, Server.dispatch, at_]
      rfl
    · cases loop with
      | rx => rfl
      | tx => exact absurd rfl other
  · rw [lanes]
    exact relay.lanes consumer member

theorem txRecv_relays {answer : Except String Datagram} (relay : Relay cfg peers d.server)
    (received : (socketcanRecv ancillaryDataSize answer).isOk)
    (step : d.txRecv ancillaryDataSize answer = some e) :
    Relays cfg peers d.server e.server := by
  unfold txRecv at step
  cases at_ : d.server.tx <;> simp only [at_] at step <;> try contradiction
  case recv fd writable events =>
  split at step
  · contradiction
  cases read : socketcanRecv ancillaryDataSize answer with
  | error => simp [read, Except.isOk, Except.toBool] at received
  | ok stamped =>
    simp only [read, Option.some.injEq] at step
    subst step
    exact relays_received stamped.frame at_ relay rfl

theorem step_relays (distinct : (peers.map Consumer.fd).Nodup)
    (relay : Relay cfg peers d.server) (steady : d.Steady ancillaryDataSize action)
    (step : d.step cfg ancillaryDataSize action = some e) :
    Relays cfg peers d.server e.server := by
  cases action with
  | rx | rxRecv | tx | txSelect | txBus | listenNext | stop =>
    have simulated : Simulated cfg d e := shared_simulated (by trivial) step
    exact simulated.relays distinct relay
  | listen => exact steady.elim
  | rxCall answer =>
    exact (rxCall_simulated relay.connected steady.1 steady.2 step).relays distinct relay
  | txCall answer =>
    exact (txCall_simulated relay.connected steady.1 steady.2 step).relays distinct relay
  | txRecv answer => exact txRecv_relays relay steady step

/-- What the stream mode counts as delivered is what this mode has dealt with, and a
datagram is the whole frame that it is of. -/
structure Dealt (d : DatagramServer Fd) : Prop where
  delivered : ∀ fd, (d.server.traffic fd).delivered = (d.dealt fd).map Prod.fst
  whole : ∀ fd, ∀ entry ∈ d.dealt fd, ∀ datagram, entry.2 = some datagram →
    entry.1.frame.payload = some datagram

theorem Dealt.shared {action : Server.Action Fd} (dealt : d.Dealt)
    (none_sent : ∀ loop outcome, action ≠ Loop.call loop outcome)
    (step : d.shared cfg action = some e) : e.Dealt := by
  obtain ⟨after, made, rfl⟩ := Option.map_eq_some_iff.mp step
  rcases (step_moves made).stream_cases with ⟨same, _⟩ | ⟨loop, _, _, _, outcome, calls, _⟩
  · refine ⟨fun fd => ?_, dealt.whole⟩
    have delivered := congrArg (fun stream => stream.2.1) (same fd)
    exact delivered.trans (dealt.delivered fd)
  · exact absurd calls (none_sent loop outcome)

theorem Dealt.deal (dealt : d.Dealt) (fd : Fd) {datagram : Option (List UInt8)}
    (whole : ∀ payload, datagram = some payload → message.frame.payload = some payload) :
    (d.deal fd message datagram).Dealt where
  delivered other := by
    by_cases here : other = fd
    · subst here
      simp [DatagramServer.deal, DatagramServer.setTraffic, Server.setTraffic,
        dealt.delivered other]
    · simp [DatagramServer.deal, DatagramServer.setTraffic, Server.setTraffic, here,
        dealt.delivered other]
  whole other entry member payload taken := by
    by_cases here : other = fd
    · subst here
      simp only [DatagramServer.deal, Function.update_self, List.mem_append,
        List.mem_singleton] at member
      rcases member with old | rfl
      · exact dealt.whole other entry old payload taken
      · exact whole payload taken
    · simp only [DatagramServer.deal, Function.update_of_ne here] at member
      exact dealt.whole other entry member payload taken

theorem Dealt.record {payload : List UInt8} (dealt : d.Dealt) (fd : Fd)
    (packed : message.frame.payload = some payload) (answer : SendAnswer) :
    (d.record fd message payload answer).Dealt := by
  cases answer with
  | accepted => exact dealt.deal fd fun _ same => same ▸ packed
  | absent => exact dealt.deal fd fun _ same => by contradiction
  | wouldBlock => exact dealt
  | disconnected | failed =>
    refine ⟨fun other => ?_, dealt.whole⟩
    exact (setTraffic_keeps Traffic.delivered (by rfl) other).trans (dealt.delivered other)

omit [DecidableEq Fd] in
theorem Dealt.gotoRx (dealt : d.Dealt) (point : Option (RxPoint Fd)) :
    (d.gotoRx point).Dealt := by
  cases point <;> exact ⟨dealt.delivered, dealt.whole⟩

omit [DecidableEq Fd] in
theorem Dealt.gotoTx (dealt : d.Dealt) (point : Option (TxPoint Fd)) :
    (d.gotoTx point).Dealt := by
  cases point <;> exact ⟨dealt.delivered, dealt.whole⟩

theorem Dealt.rxCall {answer : SendAnswer} (dealt : d.Dealt)
    (step : d.rxCall answer = some e) : e.Dealt := by
  unfold DatagramServer.rxCall at step
  split at step
  · split at step
    · contradiction
    · split at step <;> cases step
      · exact dealt.gotoRx _
      · exact (dealt.record _ ‹_› _).gotoRx _
  · contradiction

theorem Dealt.txCall {answer : SendAnswer} (dealt : d.Dealt)
    (step : d.txCall answer = some e) : e.Dealt := by
  unfold DatagramServer.txCall at step
  split at step
  · split at step
    · contradiction
    · split at step <;> cases step
      · exact dealt.gotoTx _
      · exact (dealt.record _ ‹_› _).gotoTx _
  · split at step
    · contradiction
    · split at step <;> cases step
      · exact dealt.gotoTx _
      · exact (dealt.record _ ‹_› _).gotoTx _
  · contradiction

theorem Dealt.txRecv {answer : Except String Datagram} (dealt : d.Dealt)
    (step : d.txRecv ancillaryDataSize answer = some e) : e.Dealt := by
  unfold DatagramServer.txRecv at step
  split at step
  · split at step
    · contradiction
    · split at step <;> cases step
      · exact ⟨dealt.delivered, dealt.whole⟩
      · exact dealt.gotoTx _
      · exact dealt.gotoTx _
  · contradiction

theorem Dealt.step (dealt : d.Dealt) (step : d.step cfg ancillaryDataSize action = some e) :
    e.Dealt := by
  cases action with
  | rx | rxRecv | tx | txSelect | txBus | listen | listenNext | stop =>
    refine dealt.shared (fun loop outcome calls => ?_) step
    cases loop <;> contradiction
  | rxCall answer => exact dealt.rxCall step
  | txCall answer => exact dealt.txCall step
  | txRecv answer => exact dealt.txRecv step

theorem Dealt.start (cfg : Config) (peers : List (Consumer Fd)) : (start cfg peers).Dealt where
  delivered _ := rfl
  whole _ _ member := by simp [DatagramServer.start] at member

omit [DecidableEq Fd] in
/-- Each datagram is the payload of its frame. -/
theorem Dealt.datagrams (dealt : d.Dealt) (fd : Fd) :
    d.datagrams fd = (d.sent fd).map Relayed.bytes := by
  have whole := dealt.whole fd
  rw [DatagramServer.datagrams, DatagramServer.sent]
  generalize d.dealt fd = entries at whole ⊢
  induction entries with
  | nil => rfl
  | cons entry rest ih =>
    have later := ih fun other member => whole other (List.mem_cons_of_mem _ member)
    obtain ⟨message, datagram⟩ := entry
    cases datagram with
    | none => simpa using later
    | some payload =>
      have packed := whole (message, some payload) List.mem_cons_self payload rfl
      simpa [Relayed.bytes, packed] using later

theorem Dealt.sent_sublist (dealt : d.Dealt) (fd : Fd) :
    (d.sent fd).Sublist (d.server.relayed fd) := by
  rw [Server.relayed, dealt.delivered fd, DatagramServer.sent]
  exact (List.filter_sublist.map _).trans (List.sublist_append_left _ _)

theorem relay_run (distinct : (peers.map Consumer.fd).Nodup)
    (steady : Along (step cfg ancillaryDataSize) (Steady ancillaryDataSize) (start cfg peers)
      actions)
    (path : run (step cfg ancillaryDataSize) (start cfg peers) actions = some d) :
    Relay cfg peers d.server ∧ d.Dealt :=
  invariant_run (I := fun d => Relay cfg peers d.server ∧ d.Dealt)
    (fun _ _ _ kept steady step =>
      ⟨(step_relays distinct kept.1 steady step).relay, kept.2.step step⟩)
    ⟨.start cfg peers, .start cfg peers⟩ steady path

theorem untouched_run (distinct : (peers.map Consumer.fd).Nodup) (member : consumer ∈ peers)
    (steady : Along (step cfg ancillaryDataSize) (Steady ancillaryDataSize) (start cfg peers)
      actions)
    (room : Throughout (step cfg ancillaryDataSize)
      (fun d => (d.server.io consumer.fd).outbound.length < cfg.backlogSize)
      (start cfg peers) actions)
    (path : run (step cfg ancillaryDataSize) (start cfg peers) actions = some d) :
    (d.server.lane consumer.fd).Untouched := by
  refine (invariant_run
    (I := fun d => Relay cfg peers d.server ∧ (d.server.lane consumer.fd).Untouched)
    (fun d action e kept along step => ?_) ⟨.start cfg peers, ?_⟩ (steady.and room.along) path).2
  · have relays := step_relays distinct kept.1 along.1 step
    refine ⟨relays.relay, ?_⟩
    rcases relays.follows consumer member with same | moved
    · rw [same]
      exact kept.2
    · exact moved.untouched along.2 kept.2
  · intro removal removed
    simp [DatagramServer.start, (fresh_start cfg peers consumer.fd).log, Deque.Log.empty]
      at removed

/-- In every interleaving, the datagrams that a consumer gets are whole frames; those of
each source are frames read from it that match, in its order and once each, and none is
the consumer's own. While the backlog never fills up, a frame that matches is with the
socket, given up because the consumer was absent, queued, or in hand. -/
theorem datagram_fifo (distinct : (peers.map Consumer.fd).Nodup)
    (steady : Along (step cfg ancillaryDataSize) (Steady ancillaryDataSize) (start cfg peers)
      actions)
    (path : run (step cfg ancillaryDataSize) (start cfg peers) actions = some d)
    (member : consumer ∈ peers) :
    d.datagrams consumer.fd = (d.sent consumer.fd).map Relayed.bytes ∧
    (∀ message ∈ d.sent consumer.fd, message.source ≠ some consumer.fd) ∧
    (∀ source, source ≠ some consumer.fd →
      (ofSource source (d.sent consumer.fd)).Sublist (d.server.matched consumer source) ∧
        (d.server.matched consumer source).Nodup) ∧
    (Throughout (step cfg ancillaryDataSize)
        (fun d => (d.server.io consumer.fd).outbound.length < cfg.backlogSize)
        (start cfg peers) actions →
      ∀ source, source ≠ some consumer.fd → ∃ waiting rest : List (Relayed Fd),
        d.server.matched consumer source =
          ofSource source ((d.dealt consumer.fd).map Prod.fst ++ waiting) ++ rest ∧
        waiting.Sublist (d.server.io consumer.fd).outbound ∧ rest.length ≤ 1 ∧
        ∀ message ∈ rest, ∃ passed,
          d.server.dispatch (loopOf source) = some (message, passed)) := by
  obtain ⟨relay, dealt⟩ := relay_run distinct steady path
  obtain ⟨place, at_place⟩ := List.mem_iff_getElem?.mp member
  have handing := relay.handing place consumer at_place
  have inv := relay.lanes consumer member
  have sent := dealt.sent_sublist consumer.fd
  refine ⟨dealt.datagrams consumer.fd,
    fun message taken => handing.relayed_foreign inv (sent.subset taken),
    fun source foreign => ⟨?_, (relay.numbered.nodup source).filter _⟩,
    fun room source foreign => ?_⟩
  · exact (sent.filter _).trans (handing.relayed_sublist inv foreign)
  · have untouched := untouched_run distinct member steady room path
    have all := handing.matched_eq inv untouched foreign
    rw [Server.relayed, dealt.delivered consumer.fd] at all
    exact ⟨_, _, all, List.filter_sublist, relay.connected.inHand distinct at_place source⟩

/-- The peer of a consumer is absent for the first frame of the bus, there for the second and
full for the third; a frame of the other consumer queues behind that one. -/
def absentRun : List (Action Nat) :=
  [.rx, .rx, .rx, .rxRecv (some ⟨0x123, [1], false⟩), .rx, .rx, .rx, .rxCall .absent, .rx, .rx,
    .rx, .rx, .rx, .rxRecv (some ⟨0x123, [2], false⟩), .rx, .rx, .rx, .rxCall .accepted, .rx, .rx,
    .rx, .rx, .rx, .rxRecv (some ⟨0x123, [3], false⟩), .rx, .rx, .rx, .rxCall .wouldBlock, .rx,
    .rx, .rx, .tx, .txSelect [.ready 1 true false], .tx,
    .txRecv (.ok ⟨[0x23, 1, 0, 0, 1, 0, 0, 0, 4, 0, 0, 0, 0, 0, 0, 0], []⟩), .tx, .tx, .tx, .tx,
    .tx]

theorem datagram_fifo_absent :
    ∃ d, run (step .realBus 0) (start .realBus [⟨0, none⟩, ⟨1, some [⟨0x7F, 0x7F, none⟩]⟩])
        absentRun = some d ∧
      (d.server.io 0).outbound =
        [⟨none, 2, ⟨0x123, [3], false⟩⟩, ⟨some 1, 0, ⟨0x123, [4], false⟩⟩] ∧
      d.datagrams 0 = [Relayed.bytes (⟨none, 1, ⟨0x123, [2], false⟩⟩ : Relayed Nat)] ∧
      [⟨none, 1, ⟨0x123, [2], false⟩⟩].Sublist (d.server.matched ⟨0, none⟩ none) ∧
      (d.server.matched ⟨0, none⟩ none).Nodup ∧
      ∃ waiting rest : List (Relayed Nat),
        d.server.matched ⟨0, none⟩ none = ofSource none
          ([⟨none, 0, ⟨0x123, [1], false⟩⟩, ⟨none, 1, ⟨0x123, [2], false⟩⟩] ++ waiting) ++ rest ∧
        waiting.Sublist
          [⟨none, 2, ⟨0x123, [3], false⟩⟩, ⟨some 1, 0, ⟨0x123, [4], false⟩⟩] ∧
        rest.length ≤ 1 := by
  have ends : (run (step .realBus 0) (start .realBus [⟨0, none⟩, ⟨1, some [⟨0x7F, 0x7F, none⟩]⟩])
      absentRun).map (fun d => (d.sent 0, (d.dealt 0).map Prod.fst, (d.server.io 0).outbound)) =
        some ([⟨none, 1, ⟨0x123, [2], false⟩⟩],
          [⟨none, 0, ⟨0x123, [1], false⟩⟩, ⟨none, 1, ⟨0x123, [2], false⟩⟩],
          [⟨none, 2, ⟨0x123, [3], false⟩⟩, ⟨some 1, 0, ⟨0x123, [4], false⟩⟩]) := by
    decide +kernel
  obtain ⟨d, path, observed⟩ := Option.map_eq_some_iff.mp ends
  simp only [Prod.mk.injEq] at observed
  obtain ⟨sent, dealt, queued⟩ := observed
  obtain ⟨whole, _, ordered, accounted⟩ :=
    datagram_fifo (by decide) (by decide +kernel) path List.mem_cons_self
  obtain ⟨among, once⟩ := ordered none (by simp)
  obtain ⟨waiting, rest, all, behind, few, _⟩ := accounted (by decide +kernel) none (by simp)
  rw [sent] at whole among
  rw [dealt] at all
  rw [queued] at behind
  exact ⟨d, path, queued, whole, among, once, waiting, rest, all, behind, few⟩

end Sockcan.DatagramServer
