import Sockcan.Raising
import Sockcan.Server.Step

/-! `listen_to` as one call: its checks, the collections that it enters the socket in, and
what it leaves in them when it raises. -/
namespace Sockcan.Server
open Raising

/-- The argument `filters`. Nothing here looks into the elements of a list. -/
inductive FiltersArgument (Filter : Type) where
  | none
  | list (filters : List Filter)
  | set (ids : List Int)
  | other (type : String)

/-- What `listen_to` raises itself, and what the socket, the bus or the selector raises. -/
inductive ListenError where
  | typeError (message : String)
  | runtimeError (message : String)
  | systemError (message : String)
  | raised (error : String)
  deriving DecidableEq, Repr

/-- `_Consumer`, with filters that the bus may refuse. -/
structure Listener (Fd Filter : Type) where
  fd : Fd
  filters : Option (List Filter)

/-- The collections that `listen_to` enters a socket in. The `_ConsumerIO` objects are
numbered as they are built. -/
structure Registrations (Fd Filter : Type) where
  consumers : List (Listener Fd Filter)
  consumerIo : Fd → Option Nat
  selector : Fd → Option (Interest × Nat)
  built : Nat
  wakeUps : Nat

/-- The server, and what is answered to a call: by `set_filters` of the bus, if there is
one, by `register` of the selector and by `send` of the kill switch. -/
structure Setting (Filter : Type) where
  useStream : Bool
  running : Bool
  bus : Option (Option (List Filter) → Except String Unit)
  register : Except String Unit
  wake : Except String Unit

/-- The socket with what `setsockopt` answers. `disable_nagle` suppresses what is raised. -/
structure Socket (Fd : Type) where
  fd : Fd
  datagram : Bool
  recvmsg : Bool
  sendTimeout : Except String Unit
  sendBuffer : Except String Unit

section
variable {Fd Filter : Type} [DecidableEq Fd]

/-- `_normalize_filters`; `ofId` is the filter with the full mask. -/
def FiltersArgument.normalize (ofId : Int → Filter) :
    FiltersArgument Filter → Except ListenError (Option (List Filter))
  | .none => .ok Option.none
  | .list filters => .ok (some filters)
  | .set ids => .ok (some (ids.map ofId))
  | .other type => .error (.typeError ("Unsupported filter type: " ++ type))

/-- `_aggregate_filters`. -/
def aggregate : List (Option (List Filter)) → Option (List Filter)
  | [] => some []
  | none :: _ | some [] :: _ => none
  | some filters :: rest => (aggregate rest).map (filters ++ ·)

def ask (result : Except String Unit) : EStateM ListenError (Registrations Fd Filter) Unit :=
  answer (result.mapError .raised)

def refreshBusFilters (setting : Setting Filter) :
    EStateM ListenError (Registrations Fd Filter) Unit := do
  let now ← get
  match setting.bus with
  | none => pure ()
  | some setFilters => ask (setFilters (aggregate (now.consumers.map Listener.filters)))

/-- `selector.register`. The `KeyError` of a socket that is registered is suppressed. -/
def registerSocket (setting : Setting Filter) (fd : Fd) (io : Nat) :
    EStateM ListenError (Registrations Fd Filter) Unit := do
  let now ← get
  if (now.selector fd).isSome then pure ()
  else
    ask setting.register
    modify fun now => { now with selector := Function.update now.selector fd (some (.read, io)) }

def wakeThread (setting : Setting Filter) : EStateM ListenError (Registrations Fd Filter) Unit :=
  if setting.running then do
    ask setting.wake
    modify fun now => { now with wakeUps := now.wakeUps + 1 }
  else pure ()

/-- The timeout and the buffer of a stream socket. -/
def setOptions (socket : Socket Fd) : EStateM ListenError (Registrations Fd Filter) Unit := do
  ask socket.sendTimeout
  ask socket.sendBuffer

/-- The part of `listen_to` before its first change. -/
def prepare (ofId : Int → Filter) (setting : Setting Filter) (socket : Socket Fd)
    (forceStream : Bool) (filters : FiltersArgument Filter) :
    EStateM ListenError (Registrations Fd Filter) (Option (List Filter)) := do
  let normalized ← answer (filters.normalize ofId)
  let useStream := setting.useStream || forceStream
  require (useStream || socket.datagram) (.runtimeError
    "Server is configured to DGRAM mode, cannot listen to SOCK_STREAM socket")
  require (useStream || socket.recvmsg) (.systemError "recvmsg not available on your system")
  if useStream then setOptions socket else pure ()
  pure normalized

/-- The other part, which begins with a new `_ConsumerIO`. -/
def enter (setting : Setting Filter) (new : Listener Fd Filter) :
    EStateM ListenError (Registrations Fd Filter) Unit := do
  let before ← get
  modify fun now => { now with built := before.built + 1 }
  modify fun now =>
    { now with consumerIo := Function.update now.consumerIo new.fd (some before.built) }
  modify fun now => { now with consumers := now.consumers ++ [new] }
  refreshBusFilters setting
  registerSocket setting new.fd before.built
  wakeThread setting

def listenTo (ofId : Int → Filter) (setting : Setting Filter) (socket : Socket Fd)
    (forceStream : Bool) (filters : FiltersArgument Filter) :
    EStateM ListenError (Registrations Fd Filter) Unit := do
  let normalized ← prepare ofId setting socket forceStream filters
  enter setting ⟨socket.fd, normalized⟩

/-- The sockets that a dispatch sends a frame to, where `accepts` tells whether the frame
passes the filters of a consumer. -/
def recipients (accepts : Option (List Filter) → Bool) (now : Registrations Fd Filter) : List Fd :=
  (now.consumers.filter fun consumer => accepts consumer.filters).map Listener.fd

/-- The collections are what they were, and no frame goes to the socket that did not. -/
structure LeavesNoTrace (fd : Fd) (before after : Registrations Fd Filter) : Prop where
  consumers : after.consumers = before.consumers
  consumerIo : after.consumerIo = before.consumerIo
  selector : after.selector = before.selector
  dispatch : ∀ accepts, fd ∈ recipients accepts after → fd ∈ recipients accepts before

/-- The checks of the socket, which come before any change. -/
structure Suitable (setting : Setting Filter) (socket : Socket Fd) (forceStream : Bool) : Prop where
  kind : setting.useStream || forceStream || socket.datagram
  primitive : setting.useStream || forceStream || socket.recvmsg
  options : setting.useStream || forceStream →
    socket.sendTimeout = .ok () ∧ socket.sendBuffer = .ok ()

/-- The bus takes the union of the filters, if there is a bus. -/
def BusTakes (setting : Setting Filter) (consumers : List (Listener Fd Filter)) : Prop :=
  ∀ setFilters, setting.bus = some setFilters →
    setFilters (aggregate (consumers.map Listener.filters)) = .ok ()

/-- Nothing is refused of what comes after the changes: the bus takes the union of the
filters, the selector takes a socket that it does not have, and a thread that runs can be
woken. -/
structure Carried (setting : Setting Filter) (before : Registrations Fd Filter)
    (new : Listener Fd Filter) : Prop where
  bus : BusTakes setting (before.consumers ++ [new])
  register : before.selector new.fd = none → setting.register = .ok ()
  wake : setting.running → setting.wake = .ok ()

def Registrations.entered (before : Registrations Fd Filter) (new : Listener Fd Filter) :
    Registrations Fd Filter :=
  { before with
    consumers := before.consumers ++ [new]
    consumerIo := Function.update before.consumerIo new.fd (some before.built)
    built := before.built + 1 }

def Registrations.registered (now : Registrations Fd Filter) (fd : Fd) (io : Nat) :
    Registrations Fd Filter :=
  if (now.selector fd).isSome then now
  else { now with selector := Function.update now.selector fd (some (.read, io)) }

def Registrations.woken (now : Registrations Fd Filter) : Registrations Fd Filter :=
  { now with wakeUps := now.wakeUps + 1 }

section Parts
variable {setting : Setting Filter} {socket : Socket Fd} {forceStream : Bool}
  {now : Registrations Fd Filter} {post : Unit → Registrations Fd Filter → Prop}
  {left : Registrations Fd Filter → Prop}

omit [DecidableEq Fd] in
@[simp] theorem returns_ask (result : Except String Unit) :
    Returns post (ask result) now ↔ (result = .ok () → post () now) := by
  rw [ask, returns_answer_mapError]
  exact ⟨fun all => all (), fun holds _ => holds⟩

omit [DecidableEq Fd] in
@[simp] theorem raises_ask (result : Except String Unit) :
    Raises (fun _ => left) (ask result) now ↔ (result ≠ .ok () → left now) := by
  have answers : (∃ a, result = .ok a) ↔ result = .ok () :=
    ⟨fun ⟨_, same⟩ => same, fun same => ⟨(), same⟩⟩
  rw [ask, raises_answer_mapError, answers]

omit [DecidableEq Fd] in
@[simp] theorem returns_refreshBusFilters : Returns post (refreshBusFilters setting) now ↔
    (BusTakes setting now.consumers → post () now) := by
  unfold refreshBusFilters BusTakes
  cases setting.bus with
  | none => simp
  | some setFilters => simp

omit [DecidableEq Fd] in
@[simp] theorem raises_refreshBusFilters :
    Raises (fun _ => left) (refreshBusFilters setting) now ↔
      (¬ BusTakes setting now.consumers → left now) := by
  unfold refreshBusFilters BusTakes
  cases setting.bus with
  | none => simp
  | some setFilters => simp

@[simp] theorem returns_registerSocket (fd : Fd) (io : Nat) :
    Returns post (registerSocket setting fd io) now ↔
      ((now.selector fd = none → setting.register = .ok ()) → post () (now.registered fd io)) := by
  unfold registerSocket Registrations.registered
  by_cases present : (now.selector fd).isSome = true
  · simp [present, Option.ne_none_iff_isSome.mpr present]
  · simp [Option.not_isSome_iff_eq_none.mp present]

@[simp] theorem raises_registerSocket (fd : Fd) (io : Nat) :
    Raises (fun _ => left) (registerSocket setting fd io) now ↔
      (now.selector fd = none → setting.register ≠ .ok () → left now) := by
  unfold registerSocket
  by_cases present : (now.selector fd).isSome = true
  · simp [Option.ne_none_iff_isSome.mpr present]
  · simp [Option.not_isSome_iff_eq_none.mp present]

omit [DecidableEq Fd] in
@[simp] theorem returns_wakeThread : Returns post (wakeThread setting) now ↔
    (setting.running → setting.wake = .ok () → post () now.woken) ∧
      (¬ setting.running → post () now) := by
  simp [wakeThread, Registrations.woken]

omit [DecidableEq Fd] in
@[simp] theorem raises_wakeThread : Raises (fun _ => left) (wakeThread setting) now ↔
    (setting.running → setting.wake ≠ .ok () → left now) := by
  simp [wakeThread]

omit [DecidableEq Fd] in
/-- What is raised before the first change is raised in the state of the call. -/
theorem raises_prepare (ofId : Int → Filter) (filters : FiltersArgument Filter) (holds : left now) :
    Raises (fun _ => left) (prepare ofId setting socket forceStream filters) now := by
  unfold prepare setOptions
  simp only [raises_bind, raises_answer, raises_require, raises_ite, raises_ask, raises_pure,
    returns_answer, returns_require, returns_bind, returns_ask, holds, implies_true, and_self]

omit [DecidableEq Fd] in
theorem returns_prepare {post : Option (List Filter) → Registrations Fd Filter → Prop}
    (ofId : Int → Filter) (filters : FiltersArgument Filter) :
    Returns post (prepare ofId setting socket forceStream filters) now ↔
      ∀ normalized, filters.normalize ofId = .ok normalized →
        Suitable setting socket forceStream → post normalized now := by
  unfold prepare setOptions
  simp only [returns_bind, returns_answer, returns_require, returns_ite, returns_ask, returns_pure]
  constructor
  · intro returns normalized read suitable
    obtain ⟨stream, datagram⟩ := returns normalized read suitable.kind suitable.primitive
    by_cases mode : (setting.useStream || forceStream) = true
    · obtain ⟨timeout, buffer⟩ := suitable.options mode
      exact stream mode timeout buffer
    · exact datagram mode
  · intro holds normalized read kind primitive
    constructor
    · intro mode timeout buffer
      exact holds normalized read ⟨kind, primitive, fun _ => ⟨timeout, buffer⟩⟩
    · intro mode
      exact holds normalized read ⟨kind, primitive, fun stream => absurd stream mode⟩

omit [DecidableEq Fd] in
/-- A consumer that was appended is a trace. -/
theorem not_leavesNoTrace {before after : Registrations Fd Filter} {new : Listener Fd Filter}
    {fd : Fd} (appended : after.consumers = before.consumers ++ [new]) :
    ¬ LeavesNoTrace fd before after := by
  intro restored
  have same := congrArg List.length (appended.symm.trans restored.consumers)
  simp at same

theorem raises_enter (before : Registrations Fd Filter) (new : Listener Fd Filter) :
    Raises (fun _ => left) (enter setting new) before ↔
      (¬ BusTakes setting (before.consumers ++ [new]) → left (before.entered new)) ∧
      (BusTakes setting (before.consumers ++ [new]) →
        (before.selector new.fd = none → setting.register ≠ .ok () → left (before.entered new)) ∧
        ((before.selector new.fd = none → setting.register = .ok ()) →
          setting.running → setting.wake ≠ .ok () →
            left ((before.entered new).registered new.fd before.built))) := by
  change Raises _ (do
    refreshBusFilters setting
    registerSocket setting new.fd before.built
    wakeThread setting) (before.entered new) ↔ _
  simp only [raises_bind, raises_refreshBusFilters, returns_refreshBusFilters,
    raises_registerSocket, returns_registerSocket, raises_wakeThread]
  rfl

theorem returns_enter (before : Registrations Fd Filter) (new : Listener Fd Filter) :
    Returns post (enter setting new) before ↔
      (BusTakes setting (before.consumers ++ [new]) →
        (before.selector new.fd = none → setting.register = .ok ()) →
          (setting.running → setting.wake = .ok () →
            post () ((before.entered new).registered new.fd before.built).woken) ∧
          (¬ setting.running →
            post () ((before.entered new).registered new.fd before.built))) := by
  change Returns _ (do
    refreshBusFilters setting
    registerSocket setting new.fd before.built
    wakeThread setting) (before.entered new) ↔ _
  simp only [returns_bind, returns_refreshBusFilters, returns_registerSocket, returns_wakeThread]
  rfl

theorem registered_consumers (fd : Fd) (io : Nat) :
    (now.registered fd io).consumers = now.consumers := by
  unfold Registrations.registered
  split <;> rfl

/-- A call that gets to its changes leaves no trace only where nothing is refused after
them. -/
theorem leaves_no_trace_iff (ofId : Int → Filter) (setting : Setting Filter) (socket : Socket Fd)
    (forceStream : Bool) (filters : FiltersArgument Filter) (before : Registrations Fd Filter) :
    (∀ error after, listenTo ofId setting socket forceStream filters before = .error error after →
        LeavesNoTrace socket.fd before after) ↔
      ∀ normalized, filters.normalize ofId = .ok normalized →
        Suitable setting socket forceStream → Carried setting before ⟨socket.fd, normalized⟩ := by
  have same : LeavesNoTrace socket.fd before before := ⟨rfl, rfl, rfl, fun _ member => member⟩
  change Raises (fun _ after => LeavesNoTrace socket.fd before after) _ before ↔ _
  rw [listenTo, raises_bind, returns_prepare]
  rw [and_iff_right (raises_prepare ofId filters same)]
  refine forall_congr' fun normalized => forall_congr' fun _ => forall_congr' fun _ => ?_
  have entered : ¬ LeavesNoTrace socket.fd before (before.entered ⟨socket.fd, normalized⟩) :=
    not_leavesNoTrace rfl
  have registered : ¬ LeavesNoTrace socket.fd before
      ((before.entered ⟨socket.fd, normalized⟩).registered socket.fd before.built) :=
    not_leavesNoTrace (registered_consumers _ _)
  rw [raises_enter]
  simp only [entered, registered, imp_false, not_not]
  constructor
  · rintro ⟨taken, later⟩
    exact ⟨taken, (later taken).1, (later taken).2 (later taken).1⟩
  · intro carried
    exact ⟨carried.bus, fun _ => ⟨carried.register, fun _ => carried.wake⟩⟩

/-- What holds at every place where the call can end holds of what it leaves. -/
theorem final_listenTo (ofId : Int → Filter) (filters : FiltersArgument Filter) (same : left now)
    (entered : ∀ normalized, left (now.entered ⟨socket.fd, normalized⟩))
    (registered : ∀ normalized,
      left ((now.entered ⟨socket.fd, normalized⟩).registered socket.fd now.built))
    (woken : ∀ normalized, setting.running →
      left ((now.entered ⟨socket.fd, normalized⟩).registered socket.fd now.built).woken) :
    left (final (listenTo ofId setting socket forceStream filters) now) := by
  apply final_of
  · rw [listenTo, returns_bind, returns_prepare]
    intro normalized _ _
    rw [returns_enter]
    exact fun _ _ => ⟨fun running _ => woken normalized running, fun _ => registered normalized⟩
  · rw [listenTo, raises_bind, returns_prepare]
    refine ⟨raises_prepare ofId filters same, fun normalized _ _ => ?_⟩
    rw [raises_enter]
    exact ⟨fun _ => entered normalized,
      fun _ => ⟨fun _ _ => entered normalized, fun _ _ _ => registered normalized⟩⟩

end Parts

end

/-- A running server on a bus that refuses all filters. -/
def brokenBus : Setting Unit where
  useStream := true
  running := true
  bus := some fun _ => .error "bus error"
  register := .ok ()
  wake := .ok ()

def streamSocket : Socket Nat := ⟨1, false, true, .ok (), .ok ()⟩

def noRegistrations : Registrations Nat Unit := ⟨[], fun _ => none, fun _ => none, 0, 0⟩

/-- The consumer stays where frames are dispatched to it, and the selector does not know its
socket. -/
theorem refused_filters_leave_consumer :
    ∃ after, listenTo (fun _ => ()) brokenBus streamSocket false .none noRegistrations =
        .error (.raised "bus error") after ∧
      ¬ LeavesNoTrace streamSocket.fd noRegistrations after ∧
      streamSocket.fd ∈ recipients (fun _ => true) after ∧
      after.selector streamSocket.fd = none := by
  refine ⟨_, rfl, ?_, by decide, rfl⟩
  exact fun restored => absurd restored.consumers (List.cons_ne_nil _ _)

end Sockcan.Server
