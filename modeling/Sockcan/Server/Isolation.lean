import Sockcan.Server.Accounting
import Sockcan.Server.Without

/-! What the consumers of a virtual bus get does not depend on one of them that publishes
nothing: neither on when it is ready nor on what becomes of the sends to it. -/
namespace Sockcan.Server
open Protocol Transition

/-- What the TX loop waits for: nothing, a readiness event, a frame of a consumer, or the
outcome of a send to one. -/
inductive Channel (Fd : Type) where
  | own
  | events
  | reads (fd : Fd)
  | sends (fd : Fd)
  deriving DecidableEq

variable {Fd : Type}

def TxPoint.channel : TxPoint Fd → Channel Fd
  | .select => .events
  | .recv fd _ _ => .reads fd
  | .offer _ _ consumer (.send _) => .sends consumer.fd
  | .drainSend fd _ _ _ => .sends fd
  | _ => .own

/-- The action is what the channel brings. -/
def Channel.Brings : Channel Fd → Action Fd → Prop
  | .own, .tx | .events, .txSelect _ | .reads _, .txRecv (some _) | .sends _, .txCall _ => True
  | _, _ => False

variable [DecidableEq Fd] {cfg : Config} {peers : List (Consumer Fd)} {s t : Server Fd}
  {action : Action Fd} {actions : List (Action Fd)} {silent fd : Fd}

section Observations

/-- The readiness event of one of the other consumers that the loop turns to. -/
def readiness (silent : Fd) (s : Server Fd) : Action Fd → Option (Event Fd)
  | .tx => match s.tx with
    | .nextEvent (.ready fd readable writable :: _) =>
      if fd = silent then none else some (.ready fd readable writable)
    | _ => none
  | _ => none

/-- The frame that is read from the consumer. -/
def reads (fd : Fd) (s : Server Fd) : Action Fd → Option Frame
  | .txRecv answer => match s.tx with
    | .recv fileobj _ _ => if fileobj = fd then answer else none
    | _ => none
  | _ => none

/-- The outcome of a socket call of a send to the consumer. -/
def sends (fd : Fd) (s : Server Fd) : Action Fd → Option CallOutcome
  | .txCall outcome => match s.sending .tx with
    | some (other, _, _) => if other = fd then some outcome else none
    | none => none
  | _ => none

end Observations

theorem Moves.brings (move : Moves cfg s action t) (quiet : s.Quiet silent action) :
    s.tx.channel.Brings action := by
  rcases move.quiet_cases quiet with move | move | move | ⟨fd, events, move⟩
  · cases move <;> simp only [TxPoint.channel, Channel.Brings, *]
  · cases move with
    | recvError => contradiction
    | _ => simp only [TxPoint.channel, Channel.Brings, *]
  · cases move with
    | offer at_ offer => cases offer <;> simp only [TxPoint.channel, Channel.Brings, *]
    | bus | busError => exact quiet.elim
    | _ => simp only [TxPoint.channel, Channel.Brings, *]
  · cases move <;> simp only [TxPoint.channel, Channel.Brings, *]

section Heard

/-- What the server without the consumer gets from a channel. -/
def heard (silent : Fd) (c : Channel Fd) (s : Server Fd) (action : Action Fd) :
    Option (Action Fd) :=
  (s.seen silent action).bind
    (fromChannel (fun view => view.tx.channel) c (s.without silent))

/-- The channel of a step that the server without the consumer takes too. -/
def TxPoint.source : TxPoint Fd → Channel Fd
  | .nextEvent _ => .events
  | point => point.channel

theorem channel_without (turn : s.turn = some fd) (other : fd ≠ silent) :
    (s.without silent).tx.channel = s.tx.source := by
  cases at_ : s.tx with
  | offer job index consumer point =>
    simp only [Server.turn, at_, Option.some.injEq] at turn
    rw [without_tx at_, TxPoint.without, if_neg (turn ▸ other)]
    cases point <;> rfl
  | whileRunning | select | readKillSwitch | checkRunning | busSend | ended =>
    simp [Server.turn, at_] at turn
  | nextEvent | recv | advance =>
    rw [without_tx at_]
    rfl
  | unregister | reportDead | lookup | drain | peek | drainSend | popleft | settle =>
    simp only [Server.turn, at_, Option.some.injEq] at turn
    rw [without_tx at_, TxPoint.without, if_neg (turn ▸ other)]
    rfl

variable {c : Channel Fd}

theorem heard_hidden (hidden : s.turn = none ∨ s.turn = some silent) :
    heard silent c s action = none := by
  rw [heard, seen, if_pos hidden]
  rfl

theorem heard_elsewhere (elsewhere : s.tx.source ≠ c) : heard silent c s action = none := by
  rcases hidden_or_shown silent s with hidden | ⟨fd, turn, other⟩
  · exact heard_hidden hidden
  · rw [← channel_without turn other] at elsewhere
    cases looks : s.seen silent action with
    | none => rw [heard, looks, Option.bind_none]
    | some input =>
      rw [heard, looks, Option.bind_some]
      exact fromChannel_elsewhere elsewhere input

theorem heard_here (turn : s.turn = some fd) (other : fd ≠ silent) (here : s.tx.source = c) :
    heard silent c s action = s.seen silent action := by
  rw [← channel_without turn other] at here
  cases looks : s.seen silent action with
  | none => rw [heard, looks, Option.bind_none]
  | some input =>
    rw [heard, looks, Option.bind_some]
    exact fromChannel_here here input

theorem heard_own (brings : s.tx.channel.Brings action) {input : Action Fd}
    (here : heard silent .own s action = some input) : input = .tx := by
  have own : s.tx.source = .own := by
    by_contra elsewhere
    rw [heard_elsewhere elsewhere] at here
    contradiction
  have taken (events : List (Event Fd)) : s.tx ≠ .nextEvent events := by
    intro at_
    rw [at_] at own
    contradiction
  have waits : s.tx.channel = .own := by
    rw [← own, TxPoint.source]
    exact fun events at_ => taken events at_
  rcases hidden_or_shown silent s with hidden | ⟨fd, turn, other⟩
  · rw [heard_hidden hidden] at here
    contradiction
  · rw [heard_here turn other own, seen_action turn other taken] at here
    cases here
    rw [waits] at brings
    cases action <;> first | rfl | exact brings.elim

theorem heard_events (brings : s.tx.channel.Brings action) :
    (readiness silent s action).map (fun event => .txSelect [event]) =
      heard silent .events s action := by
  cases at_ : s.tx with
  | nextEvent events =>
    match events with
    | [] | .killSwitch :: _ =>
      rw [heard_hidden (Or.inl (by rw [turn, at_]))]
      cases action <;> simp [readiness, at_]
    | .ready fd readable writable :: rest =>
      obtain rfl : action = .tx := by
        rw [at_] at brings
        cases action <;> first | rfl | exact brings.elim
      by_cases other : fd = silent
      · rw [heard_hidden (Or.inr (by rw [turn, at_, other]))]
        simp [readiness, at_, other]
      · have turn : s.turn = some fd := by rw [turn, at_]
        rw [heard_here turn other (by rw [at_, TxPoint.source]), seen_event turn other at_]
        simp [readiness, at_, other]
  | select =>
    rw [heard_hidden (Or.inl (by rw [turn, at_]))]
    cases action <;> simp [readiness, at_]
  | offer job index consumer point =>
    rw [heard_elsewhere (by cases point <;> simp [at_, TxPoint.source, TxPoint.channel])]
    cases action <;> simp [readiness, at_]
  | _ =>
    rw [heard_elsewhere (by simp [at_, TxPoint.source, TxPoint.channel])]
    cases action <;> simp [readiness, at_]

theorem heard_reads (brings : s.tx.channel.Brings action) (other : fd ≠ silent) :
    (reads fd s action).map (fun frame => .txRecv (some frame)) =
      heard silent (.reads fd) s action := by
  cases at_ : s.tx with
  | recv fileobj writable events =>
    by_cases same : fileobj = fd
    · subst same
      have turn : s.turn = some fileobj := by rw [turn, at_]
      rw [heard_here turn other (by simp [at_, TxPoint.source, TxPoint.channel]),
        seen_action turn other (by simp [at_])]
      rw [at_] at brings
      cases action with
      | txRecv answer =>
        cases answer with
        | none => exact brings.elim
        | some frame => simp [reads, at_]
      | _ => exact brings.elim
    · rw [heard_elsewhere (by simp [at_, TxPoint.source, TxPoint.channel, same])]
      cases action <;> simp [reads, at_, same]
  | offer job index consumer point =>
    rw [heard_elsewhere (by cases point <;> simp [at_, TxPoint.source, TxPoint.channel])]
    cases action <;> simp [reads, at_]
  | _ =>
    rw [heard_elsewhere (by simp [at_, TxPoint.source, TxPoint.channel])]
    cases action <;> simp [reads, at_]

theorem heard_sends (brings : s.tx.channel.Brings action) (other : fd ≠ silent) :
    (sends fd s action).map (fun outcome => .txCall outcome) =
      heard silent (.sends fd) s action := by
  have called {target : Fd} {message : Relayed Fd} {progress : Progress}
      (turn : s.turn = some target)
      (sending : s.sending .tx = some (target, message, progress))
      (taken : ∀ events, s.tx ≠ .nextEvent events) (waits : s.tx.channel = .sends target)
      (source : s.tx.source = .sends target) :
      (sends fd s action).map (fun outcome => .txCall outcome) =
        heard silent (.sends fd) s action := by
    rw [waits] at brings
    by_cases same : target = fd
    · subst same
      rw [heard_here turn other source, seen_action turn other taken]
      cases action with
      | txCall outcome => simp [sends, sending]
      | _ => exact brings.elim
    · rw [heard_elsewhere (by simp [source, same])]
      cases action <;> simp [sends, sending, same]
  cases at_ : s.tx with
  | offer job index consumer point =>
    cases point with
    | send progress =>
      exact called (by rw [turn, at_]) (by rw [sending, at_]) (by simp [at_])
        (by rw [at_, TxPoint.channel]) (by simp [at_, TxPoint.source, TxPoint.channel])
    | _ =>
      rw [heard_elsewhere (by simp [at_, TxPoint.source, TxPoint.channel])]
      cases action <;> simp [sends, sending, at_]
  | drainSend target head progress events =>
    exact called (by rw [turn, at_]) (by rw [sending, at_]) (by simp [at_])
      (by rw [at_, TxPoint.channel]) (by simp [at_, TxPoint.source, TxPoint.channel])
  | _ =>
    rw [heard_elsewhere (by simp [at_, TxPoint.source, TxPoint.channel])]
    cases action <;> simp [sends, sending, at_]

omit [DecidableEq Fd] in
theorem turn_of_source {target : Fd}
    (source : s.tx.source = .reads target ∨ s.tx.source = .sends target) :
    s.turn = some target := by
  cases at_ : s.tx with
  | offer job index consumer point =>
    cases point <;> simp_all [TxPoint.source, TxPoint.channel, turn]
  | _ => simp_all [TxPoint.source, TxPoint.channel, turn]

/-- Nothing of the consumer is heard. -/
theorem heard_masked (masked : c = .reads silent ∨ c = .sends silent) :
    heard silent c s action = none := by
  by_cases source : s.tx.source = c
  · have turn : s.turn = some silent :=
      turn_of_source (masked.imp source.trans source.trans)
    exact heard_hidden (Or.inr turn)
  · exact heard_elsewhere source

end Heard

section Runs
variable {actions₁ actions₂ : List (Action Fd)}

theorem calm_step (virtual : cfg.virtual = true) (silent : Fd) (s : Server Fd)
    (action : Action Fd) (t : Server Fd) (calm : Calm silent s) (quiet : s.Quiet silent action)
    (step : step cfg s action = some t) : Calm silent t := calm.step virtual quiet step

theorem Calm.run (virtual : cfg.virtual = true) (calm : Calm silent s)
    (quiet : Along (Server.step cfg) (Quiet silent) s actions)
    (path : Transition.run (Server.step cfg) s actions = some t) : Calm silent t :=
  invariant_run (calm_step virtual silent) calm quiet path

theorem unseen_step (virtual : cfg.virtual = true) (silent : Fd) (s : Server Fd)
    (action : Action Fd) (t : Server Fd) (calm : Calm silent s) (quiet : s.Quiet silent action)
    (step : step cfg s action = some t) (unseen : s.seen silent action = none) :
    t.without silent = s.without silent := by
  have mirrored := (step_moves step).mirrored virtual calm quiet
  rw [Mirrored, unseen] at mirrored
  exact mirrored

theorem seen_step (virtual : cfg.virtual = true) (silent : Fd) (s : Server Fd)
    (action : Action Fd) (t : Server Fd) (input : Action Fd) (calm : Calm silent s)
    (quiet : s.Quiet silent action) (step : step cfg s action = some t)
    (looks : s.seen silent action = some input) :
    serve cfg (s.without silent) input = some (t.without silent) := by
  have mirrored := (step_moves step).mirrored virtual calm quiet
  rw [Mirrored, looks] at mirrored
  exact mirrored

/-- The run of the server without the consumer. -/
theorem run_without (virtual : cfg.virtual = true) (calm : Calm silent s)
    (quiet : Along (step cfg) (Quiet silent) s actions)
    (path : run (step cfg) s actions = some t) :
    run (serve cfg) (s.without silent) (trace (step cfg) (seen silent) s actions) =
      some (t.without silent) :=
  run_view (calm_step virtual silent) (unseen_step virtual silent) (seen_step virtual silent)
    calm quiet path

/-- What that server gets from a channel in its run. -/
def inputs (cfg : Config) (silent : Fd) (c : Channel Fd) (s : Server Fd)
    (actions : List (Action Fd)) : List (Action Fd) :=
  trace (serve cfg) (fromChannel (fun view => view.tx.channel) c) (s.without silent)
    (trace (step cfg) (seen silent) s actions)

theorem trace_without {c : Channel Fd} {observe : Server Fd → Action Fd → Option (Action Fd)}
    (virtual : cfg.virtual = true) (calm : Calm silent s)
    (quiet : Along (step cfg) (Quiet silent) s actions)
    (same : ∀ s action, s.tx.channel.Brings action → observe s action = heard silent c s action) :
    trace (step cfg) observe s actions = inputs cfg silent c s actions := by
  have observed (s : Server Fd) (action : Action Fd) (t : Server Fd) (_ : Calm silent s)
      (quiet : s.Quiet silent action) (step : step cfg s action = some t) :
      observe s action = heard silent c s action := same s action ((step_moves step).brings quiet)
  exact trace_view (calm_step virtual silent) (unseen_step virtual silent)
    (seen_step virtual silent) observed calm quiet

theorem agree_silent {c : Channel Fd} (virtual : cfg.virtual = true) (calm : Calm silent s)
    (quiet₁ : Along (step cfg) (Quiet silent) s actions₁)
    (quiet₂ : Along (step cfg) (Quiet silent) s actions₂)
    (same : ∀ s action input, s.tx.channel.Brings action → heard silent c s action = some input →
      input = .tx) :
    Agree (inputs cfg silent c s actions₁) (inputs cfg silent c s actions₂) := by
  have each {actions : List (Action Fd)} (quiet : Along (step cfg) (Quiet silent) s actions) :
      ∀ input ∈ trace (step cfg) (heard silent c) s actions, input = .tx := by
    refine mem_trace (calm_step virtual silent) ?_ calm quiet
    intro s action t input _ quiet step here
    exact same s action input ((step_moves step).brings quiet) here
  rw [← trace_without virtual calm quiet₁ fun _ _ _ => rfl,
    ← trace_without virtual calm quiet₂ fun _ _ _ => rfl]
  exact agree_of_const (each quiet₁) (each quiet₂)

/-- Two runs with the same readiness events, reads and sends of the other consumers. -/
structure Alike (cfg : Config) (silent : Fd) (s : Server Fd)
    (actions₁ actions₂ : List (Action Fd)) : Prop where
  readiness : trace (step cfg) (readiness silent) s actions₁ =
    trace (step cfg) (readiness silent) s actions₂
  reads : ∀ fd, fd ≠ silent → Agree (trace (step cfg) (reads fd) s actions₁)
    (trace (step cfg) (reads fd) s actions₂)
  sends : ∀ fd, fd ≠ silent → Agree (trace (step cfg) (sends fd) s actions₁)
    (trace (step cfg) (sends fd) s actions₂)

theorem Alike.events (alike : Alike cfg silent s actions₁ actions₂) (virtual : cfg.virtual = true)
    (calm : Calm silent s) (quiet₁ : Along (step cfg) (Quiet silent) s actions₁)
    (quiet₂ : Along (step cfg) (Quiet silent) s actions₂) :
    inputs cfg silent .events s actions₁ = inputs cfg silent .events s actions₂ := by
  rw [← trace_without virtual calm quiet₁ fun _ _ brings => heard_events brings,
    ← trace_without virtual calm quiet₂ fun _ _ brings => heard_events brings,
    trace_map, trace_map, alike.readiness]

theorem Alike.agree (alike : Alike cfg silent s actions₁ actions₂) (virtual : cfg.virtual = true)
    (calm : Calm silent s) (quiet₁ : Along (step cfg) (Quiet silent) s actions₁)
    (quiet₂ : Along (step cfg) (Quiet silent) s actions₂) (c : Channel Fd) :
    Agree (inputs cfg silent c s actions₁) (inputs cfg silent c s actions₂) := by
  cases c with
  | own =>
    exact agree_silent virtual calm quiet₁ quiet₂ fun _ _ _ brings here => heard_own brings here
  | events => exact Agree.of_eq (alike.events virtual calm quiet₁ quiet₂)
  | reads fd =>
    by_cases other : fd = silent
    · refine agree_silent virtual calm quiet₁ quiet₂ fun s action input _ here => ?_
      rw [heard_masked (Or.inl (congrArg Channel.reads other))] at here
      contradiction
    · rw [← trace_without virtual calm quiet₁ fun _ _ brings => heard_reads brings other,
        ← trace_without virtual calm quiet₂ fun _ _ brings => heard_reads brings other,
        trace_map, trace_map]
      exact (alike.reads fd other).map _
  | sends fd =>
    by_cases other : fd = silent
    · refine agree_silent virtual calm quiet₁ quiet₂ fun s action input _ here => ?_
      rw [heard_masked (Or.inr (congrArg Channel.sends other))] at here
      contradiction
    · rw [← trace_without virtual calm quiet₁ fun _ _ brings => heard_sends brings other,
        ← trace_without virtual calm quiet₂ fun _ _ brings => heard_sends brings other,
        trace_map, trace_map]
      exact (alike.sends fd other).map _

/-- Between two events the smaller server waits for one. -/
theorem Calm.waits (calm : Calm silent s) (between : s.tx.BetweenEvents) :
    (s.without silent).tx.channel = .events := by
  cases at_ : s.tx with
  | whileRunning | select | nextEvent => rw [without_tx at_]; rfl
  | ended why => exact absurd at_ (calm.not_ended why)
  | _ =>
    rw [at_] at between
    exact between.elim

theorem Alike.same (alike : Alike cfg silent s actions₁ actions₂) (virtual : cfg.virtual = true)
    (calm : Calm silent s) (quiet₁ : Along (step cfg) (Quiet silent) s actions₁)
    (quiet₂ : Along (step cfg) (Quiet silent) s actions₂) {t₁ t₂ : Server Fd}
    (path₁ : run (step cfg) s actions₁ = some t₁) (path₂ : run (step cfg) s actions₂ = some t₂)
    (between₁ : t₁.tx.BetweenEvents) (between₂ : t₂.tx.BetweenEvents) :
    t₁.without silent = t₂.without silent :=
  eq_of_channels (run_without virtual calm quiet₁ path₁)
    (run_without virtual calm quiet₂ path₂) (alike.agree virtual calm quiet₁ quiet₂)
    ((calm.run virtual quiet₁ path₁).waits between₁)
    ((calm.run virtual quiet₂ path₂).waits between₂)
    (alike.events virtual calm quiet₁ quiet₂)

/-- No run ends the loop, and between two events nothing of the other consumers depends on
the silent one. -/
theorem consumers_isolated (virtual : cfg.virtual = true)
    (distinct : (peers.map Consumer.fd).Nodup)
    (quiet₁ : Along (step cfg) (Quiet silent) (start cfg peers) actions₁)
    (quiet₂ : Along (step cfg) (Quiet silent) (start cfg peers) actions₂)
    (readiness : trace (step cfg) (readiness silent) (start cfg peers) actions₁ =
      trace (step cfg) (readiness silent) (start cfg peers) actions₂)
    (reads : ∀ fd, fd ≠ silent → Agree (trace (step cfg) (reads fd) (start cfg peers) actions₁)
      (trace (step cfg) (reads fd) (start cfg peers) actions₂))
    (sends : ∀ fd, fd ≠ silent → Agree (trace (step cfg) (sends fd) (start cfg peers) actions₁)
      (trace (step cfg) (sends fd) (start cfg peers) actions₂))
    {t₁ t₂ : Server Fd} (path₁ : run (step cfg) (start cfg peers) actions₁ = some t₁)
    (path₂ : run (step cfg) (start cfg peers) actions₂ = some t₂) :
    (∀ why, t₁.tx ≠ .ended why ∧ t₂.tx ≠ .ended why) ∧
      (t₁.tx.BetweenEvents → t₂.tx.BetweenEvents → ∀ fd, fd ≠ silent →
        (t₁.traffic fd).delivered = (t₂.traffic fd).delivered ∧
        (t₁.io fd).outbound = (t₂.io fd).outbound ∧
        (t₁.io fd).dropped = (t₂.io fd).dropped ∧
        t₁.selector fd = t₂.selector fd) := by
  have calm : Calm silent (start cfg peers) := .start distinct silent
  constructor
  · intro why
    exact ⟨(calm.run virtual quiet₁ path₁).not_ended why,
      (calm.run virtual quiet₂ path₂).not_ended why⟩
  · intro between₁ between₂ fd other
    have alike : Alike cfg silent (start cfg peers) actions₁ actions₂ := ⟨readiness, reads, sends⟩
    have same := alike.same virtual calm quiet₁ quiet₂ path₁ path₂ between₁ between₂
    have traffic : t₁.traffic fd = t₂.traffic fd := by
      rw [← without_traffic other, same, without_traffic other]
    have io : t₁.io fd = t₂.io fd := by
      rw [← without_io other, same, without_io other]
    have selector : t₁.selector fd = t₂.selector fd := by
      rw [← without_selector other, same, without_selector other]
    rw [traffic, io, selector]
    exact ⟨rfl, rfl, rfl, rfl⟩

def isolatedPeers : List (Consumer (Fin 3)) := [⟨0, none⟩, ⟨2, none⟩, ⟨1, none⟩]

/-- A frame for two consumers: the first takes it, the second would block. -/
def isolatedHealthyRun : List (Action (Fin 3)) :=
  [.tx, .txSelect [.ready 0 true false], .tx, .txRecv (some ⟨0x123, [1], false⟩), .tx, .tx, .tx,
    .tx, .txCall (.accepted 16), .tx, .tx, .tx, .txCall .wouldBlock, .tx, .tx, .tx]

/-- The first would block too, and its connection breaks in the middle of the drain. -/
def isolatedBrokenRun : List (Action (Fin 3)) :=
  [.tx, .txSelect [.ready 0 true false], .tx, .txRecv (some ⟨0x123, [1], false⟩), .tx, .tx, .tx,
    .tx, .txCall .wouldBlock, .tx, .tx, .tx, .tx, .tx, .txCall .wouldBlock, .tx, .tx, .tx, .tx,
    .tx, .txSelect [.ready 2 false true], .tx, .tx, .tx, .txCall (.accepted 4),
    .txCall .disconnected, .tx, .tx]

theorem consumers_isolated_broken :
    ∃ t₁ t₂ : Server (Fin 3),
      run (step .virtualBus) (start .virtualBus isolatedPeers) isolatedHealthyRun = some t₁ ∧
      run (step .virtualBus) (start .virtualBus isolatedPeers) isolatedBrokenRun = some t₂ ∧
      (t₁.io 1).outbound = (t₂.io 1).outbound := by
  have runs₁ : (run (step .virtualBus) (start .virtualBus isolatedPeers) isolatedHealthyRun).map
      (fun t => decide (t.tx = .nextEvent [])) = some true := by
    decide +kernel
  have runs₂ : (run (step .virtualBus) (start .virtualBus isolatedPeers) isolatedBrokenRun).map
      (fun t => decide (t.tx = .nextEvent [])) = some true := by
    decide +kernel
  obtain ⟨t₁, path₁, rests₁⟩ := Option.map_eq_some_iff.mp runs₁
  obtain ⟨t₂, path₂, rests₂⟩ := Option.map_eq_some_iff.mp runs₂
  have between₁ : t₁.tx.BetweenEvents := by
    rw [of_decide_eq_true rests₁]
    trivial
  have between₂ : t₂.tx.BetweenEvents := by
    rw [of_decide_eq_true rests₂]
    trivial
  have quiet₁ : Along (step .virtualBus) (Quiet 2) (start .virtualBus isolatedPeers)
      isolatedHealthyRun := by
    decide +kernel
  have isolated := consumers_isolated rfl (by decide) quiet₁ (by decide +kernel)
    (by decide +kernel) (fun fd _ => Agree.of_eq (by revert fd; decide +kernel))
    (fun fd other => Agree.of_eq (by revert fd; decide +kernel)) path₁ path₂
  exact ⟨t₁, t₂, path₁, path₂, (isolated.2 between₁ between₂ 1 (by decide)).2.1⟩

end Runs

end Sockcan.Server
