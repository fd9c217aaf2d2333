import Sockcan.Json
import Sockcan.Protocol.Frame
import Sockcan.Transition
import Mathlib.Logic.Function.Basic

/-! The requests that the daemon answers, and what the relay loops of its virtual channels
make of the filters that came with them. -/
namespace Sockcan.Daemon
open Protocol Transition

/-- What `json.loads` raises. `JSONDecodeError` is one of the `ValueError`s. -/
inductive LoadsError where
  | valueError (message : String)
  | recursionError
  deriving DecidableEq, Repr

/-- What `do_GET` raises. -/
inductive HandlerError where
  | typeError (message : String)
  | recursionError
  | assertionError (message : String)
  | notImplementedError
  deriving DecidableEq, Repr

/-- The path of a request and the first values of its parameters. -/
structure Request where
  path : String
  channel : Option String
  filters : Option String
  deriving DecidableEq, Repr

/-- What a request comes to. After the upgrade the handler keeps waiting. -/
inductive Reply where
  | answered (code : Nat) (content : String)
  | upgraded
  | raised (error : HandlerError)
  deriving DecidableEq, Repr

/-- A consumer with the filters that were loaded for it. -/
structure Subscriber (Fd : Type) where
  fd : Fd
  filters : Option (List Json)

/-- `_run_tx` as far as it evaluates filters: it waits for a message, or walks along the
consumers with one. -/
inductive RelayPoint (Fd : Type) where
  | waiting
  | advance (source : Fd) (message : Frame) (index : Nat)
  | ended (error : Json.EvalError)

/-- A channel without a bus, which has no RX loop. -/
structure VirtualChannel (Fd : Type) where
  running : Bool
  consumers : List (Subscriber Fd)
  relay : RelayPoint Fd

/-- `daemon._servers`. -/
abbrev Channels (Fd : Type) := String → Option (VirtualChannel Fd)

section
variable {Fd : Type}

namespace VirtualChannel

def listenTo (channel : VirtualChannel Fd) (fd : Fd) (filters : Option (List Json)) :
    VirtualChannel Fd := { channel with consumers := channel.consumers ++ [⟨fd, filters⟩] }

def relayRead (channel : VirtualChannel Fd) (source : Fd) (message : Frame) :
    Option (VirtualChannel Fd) :=
  match channel.relay with
  | .waiting =>
    if message.Classic then some { channel with relay := .advance source message 0 } else none
  | _ => none

/-- One round of the dispatch. A frame that is accepted is sent on, which no filter sees. -/
def relayNext [DecidableEq Fd] (channel : VirtualChannel Fd) : Option (VirtualChannel Fd) :=
  match channel.relay with
  | .advance source message index => match channel.consumers[index]? with
    | none => some { channel with relay := .waiting }
    | some consumer =>
      if consumer.fd = source then
        some { channel with relay := .advance source message (index + 1) }
      else match Json.frameMatches consumer.filters message.canId message.isExtended with
        | .ok _ => some { channel with relay := .advance source message (index + 1) }
        | .error error => some { channel with relay := .ended error }
  | _ => none

end VirtualChannel

end

/-- `urllib.parse.unquote`, `json.loads`, and the process of the daemon. -/
structure Host where
  unquote : String → String
  loads : String → Except LoadsError Json
  pid : Nat

namespace Host
variable {Fd : Type} (host : Host)

/-- The filters of `/subscribe`, or the end of the request. -/
def loadFilters (filters : Option String) : Except Reply (Option (List Json)) :=
  match filters with
  | none | some "" => .ok none
  | some filterStr => match host.loads (host.unquote filterStr) with
    | .error (.valueError message) =>
      .error (.answered 400 ("Invalid filters format: " ++ message))
    | .error .recursionError => .error (.raised .recursionError)
    | .ok (.list elements) => .ok (some elements)
    | .ok _ => .error (.raised (.typeError "Filters should be a list"))

/-- `do_GET` on the connection `fd`. -/
def doGet (channels : Channels Fd) (fd : Fd) (request : Request) : Reply × Channels Fd :=
  if request.path = "/ping" then (.answered 200 (toString host.pid), channels)
  else match request.channel with
    | none => (.answered 400 "Channel must be specified", channels)
    | some name => match channels name with
      | none => (.answered 400 "Requested channel is not managed by this daemon", channels)
      | some channel =>
        if request.path = "/subscribe" then match host.loadFilters request.filters with
          | .error reply => (reply, channels)
          | .ok filters =>
            if channel.running then
              (.upgraded, Function.update channels name (some (channel.listenTo fd filters)))
            else (.raised (.assertionError "Server should have been started already"), channels)
        else if request.path = "/unsubscribe" then (.raised .notImplementedError, channels)
        else (.answered 404 "404 Not Found: Provide a 'channel' parameter.", channels)

/-- A client asks to subscribe, or the relay loop of a channel goes on. -/
inductive Action (Fd : Type) where
  | subscribe (fd : Fd) (channel filters : Option String)
  | relayRead (name : String) (source : Fd) (message : Frame)
  | relayNext (name : String)

def step [DecidableEq Fd] (channels : Channels Fd) : Action Fd → Option (Channels Fd)
  | .subscribe fd channel filters =>
    some (host.doGet channels fd ⟨"/subscribe", channel, filters⟩).2
  | .relayRead name source message =>
    ((channels name).bind fun channel => channel.relayRead source message).map fun channel =>
      Function.update channels name (some channel)
  | .relayNext name =>
    ((channels name).bind VirtualChannel.relayNext).map fun channel =>
      Function.update channels name (some channel)

end Host

/-- The filters can be evaluated on every frame. -/
def Evaluable (filters : Option (List Json)) : Prop :=
  ∀ canId < 2 ^ 29, ∀ isExtended,
    ∃ verdict, Json.frameMatches filters canId isExtended = .ok verdict

/-- What cannot be read as a mask filter comes behind filters that take every frame between
them. -/
def Guarded (elements : List Json) : Prop :=
  ∀ before element after, elements = before ++ element :: after → element.maskFilter.isSome ∨
    ∀ canId < 2 ^ 29, ∀ isExtended, ∃ earlier ∈ before, ∃ filter,
      earlier.maskFilter = some filter ∧ filter.Accepts canId isExtended

theorem evaluable_none : Evaluable none := fun _ _ _ => ⟨true, rfl⟩

theorem evaluable_iff (elements : List Json) : Evaluable (some elements) ↔ Guarded elements := by
  have loops (canId : Nat) (isExtended : Bool) :
      (∃ verdict, Json.frameMatches (some elements) canId isExtended = .ok verdict) ↔
        ∃ verdict, Json.anyMatches canId isExtended elements = .ok verdict := by
    cases elements with
    | nil => exact iff_of_true ⟨true, rfl⟩ ⟨false, rfl⟩
    | cons => exact Iff.rfl
  constructor
  · intro evaluable before element after split
    by_cases reads : element.maskFilter.isSome
    · exact Or.inl reads
    · right
      intro canId bound isExtended
      have returned := (loops canId isExtended).mp (evaluable canId bound isExtended)
      exact (Json.anyMatches_eq_ok.mp returned before element after split).resolve_left reads
  · intro guarded canId bound isExtended
    rw [loops, Json.anyMatches_eq_ok]
    intro before element after split
    exact (guarded before element after split).imp_right fun covers => covers canId bound isExtended

/-- A list of mask filters. -/
theorem guarded_of_readable {elements : List Json}
    (readable : ∀ element ∈ elements, element.maskFilter.isSome) : Guarded elements := by
  rintro before element after rfl
  exact Or.inl (readable element (List.mem_append_right before List.mem_cons_self))

/-- What the client of this package sends is harmless. -/
theorem guarded_ofFilters (canFilters : List CanFilter) :
    Guarded (canFilters.map Json.ofFilter) := by
  apply guarded_of_readable
  intro element member
  obtain ⟨canFilter, _, rfl⟩ := List.mem_map.mp member
  rw [Json.maskFilter_ofFilter]
  rfl

/-- The channel runs, and none of its consumers can end its relay loop. -/
structure VirtualChannel.Sound {Fd : Type} (channel : VirtualChannel Fd) : Prop where
  running : channel.running = true
  evaluable : ∀ consumer ∈ channel.consumers, Evaluable consumer.filters
  message : ∀ source message index, channel.relay = .advance source message index →
    message.canId < 2 ^ 29
  alive : ∀ error, channel.relay ≠ .ended error

namespace Host
variable {Fd : Type} (host : Host)

/-- The value is empty, or no JSON, or a list in which what cannot be read as a mask filter
comes behind filters that take every frame. -/
def Harmless (value : String) : Prop :=
  value = "" ∨ (∃ message, host.loads (host.unquote value) = .error (.valueError message)) ∨
    ∃ elements, host.loads (host.unquote value) = .ok (.list elements) ∧ Guarded elements

/-- The request is refused and changes nothing, or it registers a consumer whose filters can
be evaluated. -/
def Contained (channels : Channels Fd) (name : String) (channel : VirtualChannel Fd) (fd : Fd)
    (value : String) : Prop :=
  (∃ content, host.doGet channels fd ⟨"/subscribe", some name, some value⟩ =
      (.answered 400 content, channels)) ∨
    ∃ filters, host.doGet channels fd ⟨"/subscribe", some name, some value⟩ =
        (.upgraded, Function.update channels name (some (channel.listenTo fd filters))) ∧
      Evaluable filters

variable {host} {channels next : Channels Fd} {name value : String}
  {channel : VirtualChannel Fd} {fd : Fd} {filters : Option String}

theorem doGet_error {reply : Reply} (fd : Fd) (managed : channels name = some channel)
    (refused : host.loadFilters filters = .error reply) :
    host.doGet channels fd ⟨"/subscribe", some name, filters⟩ = (reply, channels) := by
  simp [doGet, managed, refused]

theorem doGet_ok {loaded : Option (List Json)} (fd : Fd)
    (managed : channels name = some channel) (running : channel.running = true)
    (accepted : host.loadFilters filters = .ok loaded) :
    host.doGet channels fd ⟨"/subscribe", some name, filters⟩ =
      (.upgraded, Function.update channels name (some (channel.listenTo fd loaded))) := by
  simp [doGet, managed, running, accepted]

/-- What the filters load as, by what the value is. -/
theorem loadFilters_cases (host : Host) (value : String) :
    (value = "" ∧ host.loadFilters (some value) = .ok none) ∨
    (value ≠ "" ∧ ∃ message, host.loads (host.unquote value) = .error (.valueError message) ∧
      host.loadFilters (some value) =
        .error (.answered 400 ("Invalid filters format: " ++ message))) ∨
    (value ≠ "" ∧ ∃ elements, host.loads (host.unquote value) = .ok (.list elements) ∧
      host.loadFilters (some value) = .ok (some elements)) ∨
    (value ≠ "" ∧ (∀ message, host.loads (host.unquote value) ≠ .error (.valueError message)) ∧
      (∀ elements, host.loads (host.unquote value) ≠ .ok (.list elements)) ∧
      ∃ error, host.loadFilters (some value) = .error (.raised error)) := by
  unfold loadFilters
  split
  · contradiction
  · next same => exact Or.inl ⟨Option.some.inj same, rfl⟩
  · next filterStr filled same =>
    obtain rfl := Option.some.inj same
    right
    split
    · next message refused => exact Or.inl ⟨filled, message, refused, rfl⟩
    · next raised => exact Or.inr (Or.inr ⟨filled, by simp [raised], by simp [raised], _, rfl⟩)
    · next elements loaded => exact Or.inr (Or.inl ⟨filled, elements, loaded, rfl⟩)
    · next other apart loaded =>
      refine Or.inr (Or.inr ⟨filled, by simp [loaded], ?_, _, rfl⟩)
      intro elements list
      cases loaded.symm.trans list
      exact apart elements rfl

theorem listenTo_inj {first second : Option (List Json)}
    (same : channel.listenTo fd first = channel.listenTo fd second) : first = second := by
  simpa [VirtualChannel.listenTo] using same

/-- A request is contained exactly when the value of its filters is harmless. -/
theorem contained_iff (managed : channels name = some channel)
    (running : channel.running = true) :
    host.Contained channels name channel fd value ↔ host.Harmless value := by
  rcases loadFilters_cases host value with ⟨rfl, loaded⟩ | ⟨filled, message, invalid, refused⟩ |
    ⟨filled, elements, list, loaded⟩ | ⟨filled, noError, noList, error, raised⟩
  · have upgraded := doGet_ok fd managed running loaded
    exact iff_of_true (Or.inr ⟨none, upgraded, evaluable_none⟩) (Or.inl rfl)
  · have answered := doGet_error fd managed refused
    exact iff_of_true (Or.inl ⟨_, answered⟩) (Or.inr (Or.inl ⟨message, invalid⟩))
  · have upgraded := doGet_ok fd managed running loaded
    constructor
    · rintro (⟨content, answered⟩ | ⟨filters, again, evaluable⟩)
      · cases upgraded.symm.trans answered
      · have same := congrFun (Prod.mk.inj (upgraded.symm.trans again)).2 name
        rw [Function.update_self, Function.update_self] at same
        cases listenTo_inj (Option.some.inj same)
        exact Or.inr (Or.inr ⟨elements, list, (evaluable_iff elements).mp evaluable⟩)
    · rintro (empty | ⟨message, invalid⟩ | ⟨others, same, guarded⟩)
      · exact absurd empty filled
      · cases list.symm.trans invalid
      · cases list.symm.trans same
        exact Or.inr ⟨some elements, upgraded, (evaluable_iff elements).mpr guarded⟩
  · have failed := doGet_error fd managed raised
    apply iff_of_false
    · rintro (⟨content, answered⟩ | ⟨filters, upgraded, _⟩)
      · cases failed.symm.trans answered
      · cases (Prod.mk.inj (failed.symm.trans upgraded)).1
    · rintro (empty | ⟨message, invalid⟩ | ⟨elements, list, _⟩)
      · exact filled empty
      · exact noError message invalid
      · exact noList elements list

section Runs
variable (host)

/-- The filters of a request are harmless. -/
def HarmlessRequest (_ : Channels Fd) : Action Fd → Prop
  | .subscribe _ _ (some value) => host.Harmless value
  | _ => True

/-- The handler does not raise. -/
def Answers (channels : Channels Fd) : Action Fd → Prop
  | .subscribe fd channel filters =>
    ∀ error, (host.doGet channels fd ⟨"/subscribe", channel, filters⟩).1 ≠ .raised error
  | _ => True

/-- The relay loop of no channel has ended. -/
def RelaysAlive (channels : Channels Fd) : Prop :=
  ∀ name channel, channels name = some channel → ∀ error, channel.relay ≠ .ended error

end Runs

/-- All channels are sound. -/
def Sound (channels : Channels Fd) : Prop :=
  ∀ name channel, channels name = some channel → channel.Sound

theorem Sound.update (sound : Sound channels) (kept : channel.Sound) :
    Sound (Function.update channels name (some channel)) := by
  intro other found managed
  by_cases same : other = name
  · subst same
    rw [Function.update_self] at managed
    cases managed
    exact kept
  · rw [Function.update_of_ne same] at managed
    exact sound other found managed

end Host

namespace VirtualChannel
variable {Fd : Type} {channel after : VirtualChannel Fd} {fd : Fd}

theorem Sound.listenTo {filters : Option (List Json)} (sound : channel.Sound)
    (evaluable : Evaluable filters) : (channel.listenTo fd filters).Sound where
  running := sound.running
  evaluable consumer member := by
    rcases List.mem_append.mp member with old | new
    · exact sound.evaluable consumer old
    · obtain rfl := List.mem_singleton.mp new
      exact evaluable
  message := sound.message
  alive := sound.alive

theorem Sound.relayRead {source : Fd} {message : Frame} (sound : channel.Sound)
    (read : channel.relayRead source message = some after) : after.Sound := by
  unfold VirtualChannel.relayRead at read
  split at read
  · split at read
    · next classic =>
      cases read
      refine ⟨sound.running, sound.evaluable, ?_, ?_⟩
      · rintro _ _ _ ⟨⟩
        exact classic.1
      · rintro _ ⟨⟩
    · contradiction
  · contradiction

theorem Sound.relayNext [DecidableEq Fd] (sound : channel.Sound)
    (next : channel.relayNext = some after) : after.Sound := by
  unfold VirtualChannel.relayNext at next
  split at next
  · next source message index at_ =>
    have bound := sound.message source message index at_
    have advanced : VirtualChannel.Sound
        { channel with relay := .advance source message (index + 1) } := by
      refine ⟨sound.running, sound.evaluable, ?_, ?_⟩
      · rintro _ _ _ ⟨⟩
        exact bound
      · rintro _ ⟨⟩
    split at next
    · cases next
      exact ⟨sound.running, sound.evaluable, by rintro _ _ _ ⟨⟩, by rintro _ ⟨⟩⟩
    · next consumer found =>
      split at next
      · cases next
        exact advanced
      · obtain ⟨verdict, evaluates⟩ := sound.evaluable consumer (List.mem_of_getElem? found)
          message.canId bound message.isExtended
        rw [evaluates] at next
        cases next
        exact advanced
  · contradiction

end VirtualChannel

namespace Host
variable {Fd : Type} {host : Host} {channels next : Channels Fd} {name value : String}
  {channel : VirtualChannel Fd} {fd : Fd} {filters : Option String}

/-- What a request to subscribe with harmless filters comes to. -/
theorem doGet_harmless (sound : Sound channels) (requested : Option String)
    (harmless : ∀ value, filters = some value → host.Harmless value) :
    (∀ error, (host.doGet channels fd ⟨"/subscribe", requested, filters⟩).1 ≠ .raised error) ∧
      Sound (host.doGet channels fd ⟨"/subscribe", requested, filters⟩).2 := by
  cases requested with
  | none => exact ⟨by rintro _ ⟨⟩, sound⟩
  | some name =>
    cases managed : channels name with
    | none => simp [doGet, managed, sound]
    | some channel =>
      have running := (sound name channel managed).running
      cases filters with
      | none =>
        rw [doGet_ok fd managed running (show host.loadFilters none = .ok none from rfl)]
        exact ⟨by rintro _ ⟨⟩, sound.update ((sound name channel managed).listenTo evaluable_none)⟩
      | some value =>
        rcases (contained_iff managed running).mpr (harmless value rfl) with
          ⟨content, answered⟩ | ⟨loaded, upgraded, evaluable⟩
        · rw [answered]
          exact ⟨by rintro _ ⟨⟩, sound⟩
        · rw [upgraded]
          exact ⟨by rintro _ ⟨⟩, sound.update ((sound name channel managed).listenTo evaluable)⟩

theorem Sound.step [DecidableEq Fd] {action : Action Fd} (sound : Sound channels)
    (harmless : host.HarmlessRequest channels action)
    (stepped : host.step channels action = some next) : Sound next := by
  cases action with
  | subscribe fd requested filters =>
    cases stepped
    apply (doGet_harmless sound requested _).2
    rintro value rfl
    exact harmless
  | relayRead name source message =>
    obtain ⟨after, read, rfl⟩ := Option.map_eq_some_iff.mp stepped
    obtain ⟨channel, managed, read⟩ := Option.bind_eq_some_iff.mp read
    exact sound.update ((sound name channel managed).relayRead read)
  | relayNext name =>
    obtain ⟨after, went, rfl⟩ := Option.map_eq_some_iff.mp stepped
    obtain ⟨channel, managed, went⟩ := Option.bind_eq_some_iff.mp went
    exact sound.update ((sound name channel managed).relayNext went)

theorem Sound.answers {action : Action Fd} (sound : Sound channels)
    (harmless : host.HarmlessRequest channels action) : host.Answers channels action := by
  cases action with
  | subscribe fd requested filters =>
    apply (doGet_harmless sound requested _).1
    rintro value rfl
    exact harmless
  | relayRead => trivial
  | relayNext => trivial

/-- A request to subscribe is contained exactly when the value of its filters is harmless. In
every run whose requests are, no handler raises and no relay loop ends. -/
theorem subscriptions_contained_iff (Fd : Type) [DecidableEq Fd] (host : Host) :
    (∀ (channels : Channels Fd) (name : String) (channel : VirtualChannel Fd) (fd : Fd)
        (value : String), channels name = some channel → channel.running = true →
          (host.Contained channels name channel fd value ↔ host.Harmless value)) ∧
      ∀ (channels : Channels Fd) (actions : List (Action Fd)), Sound channels →
        Along host.step host.HarmlessRequest channels actions →
          Along host.step host.Answers channels actions ∧
            Throughout host.step RelaysAlive channels actions := by
  refine ⟨fun channels name channel fd value => contained_iff, ?_⟩
  intro channels actions sound along
  have preserved (s : Channels Fd) (a : Action Fd) (t : Channels Fd) (sound : Sound s)
      (harmless : host.HarmlessRequest s a) (stepped : host.step s a = some t) : Sound t :=
    sound.step harmless stepped
  constructor
  · exact along_of_invariant preserved (fun s a sound harmless => sound.answers harmless) sound
      along
  · apply throughout_of_invariant preserved _ sound along
    exact fun s sound name channel managed => (sound name channel managed).alive

/-- A host on which these values come to the handler as they were sent. -/
def exampleHost : Host where
  unquote := id
  loads text :=
    if text = "\x7b\x7d" then .ok (.dict [])
    else if text = "[1]" then .ok (.list [.int 1])
    else if text = "[\x7b\"can_id\": 256, \"can_mask\": 2047\x7d]" then
      .ok (.list [Json.ofFilter ⟨256, 2047, none⟩])
    else .error (.valueError "Expecting value: line 1 column 1 (char 0)")
  pid := 1

def exampleChannels : Channels Nat :=
  fun name => if name = "vcan0" then some ⟨true, [], .waiting⟩ else none

/-- One client subscribes with a filter, another one is refused, a third one takes all, and a
frame goes round. -/
def exampleRun : List (Action Nat) :=
  [.subscribe 1 (some "vcan0") (some "[\x7b\"can_id\": 256, \"can_mask\": 2047\x7d]"),
    .subscribe 2 (some "vcan0") (some "oops"), .subscribe 3 (some "vcan0") none,
    .relayRead "vcan0" 3 ⟨0x100, [], false⟩, .relayNext "vcan0", .relayNext "vcan0",
    .relayNext "vcan0"]

theorem harmless_example :
    exampleHost.Harmless "[\x7b\"can_id\": 256, \"can_mask\": 2047\x7d]" :=
  Or.inr (Or.inr ⟨[Json.ofFilter ⟨256, 2047, none⟩], rfl, guarded_ofFilters [⟨256, 2047, none⟩]⟩)

theorem sound_example : Sound exampleChannels := by
  intro name channel managed
  simp only [exampleChannels] at managed
  split at managed
  · cases managed
    exact ⟨rfl, by simp, by rintro _ _ _ ⟨⟩, by rintro _ ⟨⟩⟩
  · contradiction

theorem subscriptions_contained_iff_filter :
    exampleHost.Contained exampleChannels "vcan0" ⟨true, [], .waiting⟩ 1
        "[\x7b\"can_id\": 256, \"can_mask\": 2047\x7d]" ∧
      Along exampleHost.step exampleHost.Answers exampleChannels exampleRun ∧
      Throughout exampleHost.step RelaysAlive exampleChannels exampleRun := by
  obtain ⟨contained, runs⟩ := subscriptions_contained_iff Nat exampleHost
  constructor
  · exact (contained exampleChannels "vcan0" _ 1 _ rfl rfl).mpr harmless_example
  · apply runs exampleChannels exampleRun sound_example
    have refused : exampleHost.Harmless "oops" := Or.inr (Or.inl ⟨_, rfl⟩)
    exact ⟨harmless_example, refused, trivial, trivial, trivial, trivial, trivial, trivial⟩

/-- An object in place of the list: the handler raises. A list with a number in it: it is
accepted, and ends the relay loop at the next frame. -/
theorem object_not_contained :
    ¬ exampleHost.Contained exampleChannels "vcan0" ⟨true, [], .waiting⟩ 1 "\x7b\x7d" ∧
      ∃ channels, run exampleHost.step exampleChannels
          [.subscribe 1 (some "vcan0") (some "[1]"),
            .relayRead "vcan0" 3 ⟨0x100, [], false⟩, .relayNext "vcan0"] = some channels ∧
        ¬ RelaysAlive channels := by
  constructor
  · rintro (⟨content, answered⟩ | ⟨filters, upgraded, _⟩)
    · cases answered
    · cases (Prod.mk.inj upgraded).1
  · refine ⟨_, rfl, ?_⟩
    intro alive
    exact alive "vcan0" _ rfl .typeError rfl

end Host

end Sockcan.Daemon
