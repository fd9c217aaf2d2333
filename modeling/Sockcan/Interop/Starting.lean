import Sockcan.Interop.Activation
import Sockcan.Tables

/-! What a call of `activate_userspace_socketcan` starts, and where the parts of the call
raise: one rule each, for any property of the globals that are left. -/
namespace Sockcan.Interop
open Raising Tables
variable {Ref Bus Time : Type}

/-- What registering the parameters with a daemon opens. -/
def BusParameters.opened (parameters : BusParameters) : List Resource :=
  if parameters.virtual then [] else [.bus parameters]

/-- What holds of each of the parameters, at its place and with what those before it opened. -/
def AtPlaces (opened : BusParameters → List Resource)
    (holds : List Resource → Nat → BusParameters → Prop) (held : List Resource) (place : Nat)
    (parameters : List BusParameters) : Prop :=
  ∀ index each, parameters[index]? = some each →
    holds (held ++ (parameters.take index).flatMap opened) (place + index) each

/-- A bus opens for the parameters. -/
def BusOpens (env : Environment Bus Time) (held : List Resource) (parameters : BusParameters) :
    Prop := ∃ bus, env.canBus held parameters = .ok bus

/-- A bus opens for the parameters, and a server of mode `local` starts on it. -/
def Opens (env : Environment Bus Time) (contentionTime : Option Time) (held : List Resource)
    (place : Nat) (parameters : BusParameters) : Prop :=
  ∃ bus, env.canBus held parameters = .ok bus ∧ env.build place = .ok () ∧
    env.start { place := place, bus := some bus, contentionTime := contentionTime } = .ok ()

/-- The channels are new and distinct, and a server starts for each. -/
structure Servable (env : Environment Bus Time) (contentionTime : Option Time)
    (held : List Resource) (served : String → Option (SocketcanServer Bus Time)) (place : Nat)
    (parameters : List BusParameters) : Prop where
  fresh : ∀ each ∈ parameters, served each.channel = none
  distinct : (parameters.map BusParameters.channel).Nodup
  opened : AtPlaces (fun each => [.bus each]) (Opens env contentionTime) held place parameters

/-- The first channel has a server, or its bus does not open. -/
def FirstRefused (env : Environment Bus Time) (held : List Resource)
    (served : String → Option (SocketcanServer Bus Time)) (parameters : List BusParameters) :
    Prop :=
  ∃ first ∈ parameters.head?, served first.channel ≠ none ∨ ¬ BusOpens env held first

/-- The bus of the daemon opens, where the parameters ask for one. -/
def Registers (env : Environment Bus Time) (held : List Resource) (place : Nat)
    (parameters : BusParameters) : Prop :=
  (¬ parameters.virtual → BusOpens env held parameters) ∧ env.build place = .ok ()

/-- The server of the daemon for the parameters. -/
def daemonServer (env : Environment Bus Time) (useNativeTimestamps : Bool)
    (contentionTime : Option Time) (held : List Resource) (place : Nat)
    (parameters : BusParameters) : SocketcanServer Bus Time where
  place := place
  bus := if parameters.virtual then none else (env.canBus held parameters).toOption
  useNativeTimestamps := !parameters.virtual && useNativeTimestamps
  useStream := true
  contentionTime := contentionTime

/-- Where several parameters have one channel, its server is that of the last. -/
def daemonServers (env : Environment Bus Time) (useNativeTimestamps : Bool)
    (contentionTime : Option Time) :
    (held : List Resource) → (place : Nat) → List BusParameters →
      List (String × SocketcanServer Bus Time) → List (String × SocketcanServer Bus Time)
  | _, _, [], servers => servers
  | held, place, parameters :: rest, servers =>
    let server := daemonServer env useNativeTimestamps contentionTime held place parameters
    daemonServers env useNativeTimestamps contentionTime (held ++ parameters.opened) (place + 1)
      rest (assign parameters.channel server servers)

/-- The buses of the daemon open, and all of it starts. -/
structure DaemonServes (env : Environment Bus Time) (settings : SocketcanDaemonConfig Time)
    (held : List Resource) (parameters : List BusParameters) : Prop where
  registered : AtPlaces BusParameters.opened (Registers env) held 0 parameters
  started : ∀ entry ∈ daemonServers env settings.useNativeTimestamps settings.minContentionTime
    held 0 parameters [], env.start entry.2 = .ok ()
  serving : env.serveForever = .ok ()

/-- No daemon answers at the port. -/
def Unanswered (env : Environment Bus Time) (settings : SocketcanDaemonConfig Time)
    (held : List Resource) (port : Int) : Prop :=
  port ≠ 0 → env.pingDaemon held settings.host port = .ok false

/-- The port is bound for a daemon that runs here. -/
def Binds (env : Environment Bus Time) (settings : SocketcanDaemonConfig Time)
    (held : List Resource) (port : Int) : Prop :=
  ∃ bound, env.bind held settings.host port = .ok bound

/-- Where mode `daemon` is refused before a port is bound, and the port that the configuration
has by then. -/
inductive DaemonRefused (env : Environment Bus Time) (settings : SocketcanDaemonConfig Time)
    (held : List Resource) (defer : Bool) : (port : Int) → Prop where
  | unread (error : ActivationError) (read : readPort env settings.port = .error error) :
      DaemonRefused env settings held defer settings.port
  | silent (port : Int) (read : readPort env settings.port = .ok port) (nonzero : port ≠ 0)
      (fails : ¬ ∃ found, env.pingDaemon held settings.host port = .ok found) :
      DaemonRefused env settings held defer port
  | forbidden (port : Int) (read : readPort env settings.port = .ok port)
      (unanswered : Unanswered env settings held port)
      (forbidden : ¬ settings.allowRunDaemonLocally) : DaemonRefused env settings held defer port
  | unbound (port : Int) (read : readPort env settings.port = .ok port)
      (unanswered : Unanswered env settings held port) (allowed : settings.allowRunDaemonLocally)
      (prompt : ¬ defer) (fails : ¬ Binds env settings held port) :
      DaemonRefused env settings held defer port

/-- The port is bound, and something that follows is refused. -/
structure DaemonFailed (env : Environment Bus Time) (settings : SocketcanDaemonConfig Time)
    (held : List Resource) (parameters : List BusParameters) (defer : Bool) (port bound : Int) :
    Prop where
  read : readPort env settings.port = .ok port
  unanswered : Unanswered env settings held port
  allowed : settings.allowRunDaemonLocally
  prompt : ¬ defer
  bind : env.bind held settings.host port = .ok bound
  fails : ¬ DaemonServes env settings (held ++ [.listener settings.host bound]) parameters

section
variable {env : Environment Bus Time} {settings : SocketcanDaemonConfig Time}
  {now : Globals Ref Bus Time} {left : Globals Ref Bus Time → Prop} {held : List Resource}
  {place : Nat} {parameters : BusParameters} {rest : List BusParameters}

@[simp] theorem returns_ask {α : Type} {post : α → Globals Ref Bus Time → Prop}
    (answered : Except String α) :
    Returns post (ask answered) now ↔ ∀ a, answered = .ok a → post a now :=
  returns_answer_mapError ActivationError.raised answered

@[simp] theorem raises_ask {α : Type} (answered : Except String α) :
    Raises (fun _ => left) (ask answered) now ↔ ((¬ ∃ a, answered = .ok a) → left now) :=
  raises_answer_mapError ActivationError.raised answered

@[simp] theorem held_hold (opened : List Resource) :
    (now.hold opened).held = now.held ++ opened := rfl

@[simp] theorem localServers_hold (opened : List Resource) :
    (now.hold opened).localServers = now.localServers := rfl

@[simp] theorem hold_nil : now.hold [] = now := by
  rw [Globals.hold, List.append_nil]

@[simp] theorem held_serve (channel : String) (server : SocketcanServer Bus Time) :
    (now.serve channel server).held = now.held := rfl

@[simp] theorem atPlaces_nil (opened : BusParameters → List Resource)
    (holds : List Resource → Nat → BusParameters → Prop) :
    AtPlaces opened holds held place [] := by
  intro index each found
  rw [List.getElem?_nil] at found
  contradiction

@[simp] theorem atPlaces_cons (opened : BusParameters → List Resource)
    (holds : List Resource → Nat → BusParameters → Prop) :
    AtPlaces opened holds held place (parameters :: rest) ↔
      holds held place parameters ∧
        AtPlaces opened holds (held ++ opened parameters) (place + 1) rest := by
  constructor
  · intro all
    constructor
    · have first := all 0 parameters rfl
      rwa [List.take_zero, List.flatMap_nil, List.append_nil] at first
    · intro index each found
      rw [Nat.add_assoc, Nat.add_comm 1, List.append_assoc, ← List.flatMap_cons,
        ← List.take_succ_cons]
      exact all (index + 1) each found
  · rintro ⟨first, others⟩ index each found
    cases index with
    | zero =>
      cases found
      rw [List.take_zero, List.flatMap_nil, List.append_nil]
      exact first
    | succ index =>
      rw [Nat.add_comm index, ← Nat.add_assoc, Nat.add_comm 1, List.take_succ_cons,
        List.flatMap_cons, ← List.append_assoc]
      exact others index each found

@[simp] theorem returns_openCanBus {post : Bus → Globals Ref Bus Time → Prop} :
    Returns post (openCanBus env parameters) now ↔
      ∀ bus, env.canBus now.held parameters = .ok bus → post bus (now.hold [.bus parameters]) := by
  simp only [openCanBus, returns_bind, returns_get, returns_ask, returns_modify, returns_pure]

@[simp] theorem raises_openCanBus :
    Raises (fun _ => left) (openCanBus env parameters) now ↔
      (¬ BusOpens env now.held parameters → left now) := by
  simp only [openCanBus, raises_bind, raises_get, returns_get, raises_ask, returns_ask,
    raises_modify, returns_modify, raises_pure, implies_true, true_and, and_true]
  rfl

/-- Something is open that was not open before. -/
def Grown (before now : Globals Ref Bus Time) : Prop := before.held.length < now.held.length

theorem grown_hold {opened : List Resource} (some_opened : opened ≠ []) :
    Grown now (now.hold opened) := by
  have positive := List.length_pos_iff.mpr some_opened
  rw [Grown, held_hold, List.length_append]
  omega

theorem Grown.of_hold {after : Globals Ref Bus Time} {opened : List Resource}
    (grown : Grown (now.hold opened) after) : Grown now after := by
  rw [Grown, held_hold, List.length_append] at grown
  rw [Grown]
  omega

section LocalServers
variable {contentionTime : Option Time} {served : String → Option (SocketcanServer Bus Time)}

/-- The bus stays open where the server on it does not start. -/
theorem raises_initGlobalServer :
    Raises (fun _ => left) (initGlobalServer env contentionTime place parameters) now ↔
      (¬ BusOpens env now.held parameters → left now) ∧
      (BusOpens env now.held parameters →
        ¬ Opens env contentionTime now.held place parameters →
          left (now.hold [.bus parameters])) := by
  simp only [initGlobalServer, raises_bind, raises_openCanBus, returns_openCanBus, raises_ask,
    returns_ask, raises_pure, implies_true, and_true]
  refine and_congr_right fun _ => ?_
  constructor
  · rintro later ⟨bus, opened⟩ fails
    obtain ⟨built, started⟩ := later bus opened
    by_cases builds : ∃ done, env.build place = .ok done
    · obtain ⟨done, builds⟩ := builds
      refine started done builds ?_
      rintro ⟨_, starts⟩
      exact fails ⟨bus, opened, builds, starts⟩
    · exact built builds
  · intro later bus opened
    have one {other : Bus} (again : env.canBus now.held parameters = .ok other) : other = bus :=
      Except.ok.inj (again.symm.trans opened)
    constructor
    · intro fails
      refine later ⟨bus, opened⟩ ?_
      rintro ⟨_, _, builds, _⟩
      exact fails ⟨(), builds⟩
    · intro _ _ fails
      refine later ⟨bus, opened⟩ ?_
      rintro ⟨other, again, _, starts⟩
      obtain rfl := one again
      exact fails ⟨(), starts⟩

theorem returns_initGlobalServer
    {post : SocketcanServer Bus Time → Globals Ref Bus Time → Prop} :
    Returns post (initGlobalServer env contentionTime place parameters) now ↔
      ∀ bus, env.canBus now.held parameters = .ok bus → env.build place = .ok () →
        let server : SocketcanServer Bus Time :=
          { place := place, bus := some bus, contentionTime := contentionTime }
        env.start server = .ok () → post server (now.hold [.bus parameters]) := by
  simp only [initGlobalServer, returns_bind, returns_openCanBus, returns_ask, returns_pure]
  exact ⟨fun all bus opened builds starts => all bus opened () builds () starts,
    fun all bus opened _ builds _ starts => all bus opened builds starts⟩

theorem servable_nil : Servable env contentionTime held served place [] :=
  ⟨fun _ member => absurd member List.not_mem_nil, List.nodup_nil, atPlaces_nil _ _⟩

theorem servable_cons (server : SocketcanServer Bus Time) :
    Servable env contentionTime held served place (parameters :: rest) ↔
      served parameters.channel = none ∧ Opens env contentionTime held place parameters ∧
        Servable env contentionTime (held ++ [.bus parameters])
          (Function.update served parameters.channel (some server)) (place + 1) rest := by
  constructor
  · rintro ⟨fresh, distinct, opened⟩
    obtain ⟨first, others⟩ := (atPlaces_cons _ _).mp opened
    obtain ⟨unique, distinct⟩ := List.nodup_cons.mp distinct
    refine ⟨fresh _ List.mem_cons_self, first, ?_, distinct, others⟩
    intro each member
    have different : each.channel ≠ parameters.channel := by
      intro same
      exact unique (same ▸ List.mem_map_of_mem member)
    rw [Function.update_of_ne different]
    exact fresh each (List.mem_cons_of_mem _ member)
  · rintro ⟨free, first, fresh, distinct, others⟩
    have different : ∀ each ∈ rest, each.channel ≠ parameters.channel := by
      intro each member same
      have unserved := fresh each member
      rw [same, Function.update_self] at unserved
      contradiction
    refine ⟨?_, ?_, (atPlaces_cons _ _).mpr ⟨first, others⟩⟩
    · intro each member
      rcases List.mem_cons.mp member with rfl | later
      · exact free
      · rw [← Function.update_of_ne (different each later) (some server) served]
        exact fresh each later
    · apply List.nodup_cons.mpr
      refine ⟨?_, distinct⟩
      intro member
      obtain ⟨each, later, same⟩ := List.mem_map.mp member
      exact different each later same

/-- A round of the loop is refused, or fails with its bus open, or the next one begins with one
more server. -/
theorem raises_startLocalServers_cons :
    Raises (fun _ => left) (startLocalServers env contentionTime place (parameters :: rest)) now ↔
      (now.localServers parameters.channel ≠ none ∨ ¬ BusOpens env now.held parameters →
        left now) ∧
      (now.localServers parameters.channel = none →
        (BusOpens env now.held parameters →
          ¬ Opens env contentionTime now.held place parameters →
            left (now.hold [.bus parameters])) ∧
        ∀ bus, env.canBus now.held parameters = .ok bus → env.build place = .ok () →
          let server : SocketcanServer Bus Time :=
            { place := place, bus := some bus, contentionTime := contentionTime }
          env.start server = .ok () →
            Raises (fun _ => left) (startLocalServers env contentionTime (place + 1) rest)
              ((now.hold [.bus parameters]).serve parameters.channel server)) := by
  simp only [startLocalServers, raises_bind, raises_get, returns_get, raises_require,
    returns_require, raises_initGlobalServer, returns_initGlobalServer, raises_modify,
    returns_modify, true_and, Option.isNone_iff_eq_none]
  constructor
  · rintro ⟨busy, free⟩
    refine ⟨?_, fun unserved => ⟨(free unserved).1.2, (free unserved).2⟩⟩
    rintro (served | closed)
    · exact busy served
    · by_cases unserved : now.localServers parameters.channel = none
      · exact (free unserved).1.1 closed
      · exact busy unserved
  · rintro ⟨refused, next⟩
    exact ⟨fun served => refused (.inl served), fun unserved =>
      ⟨⟨fun closed => refused (.inr closed), (next unserved).1⟩, (next unserved).2⟩⟩

/-- The loop leaves what it found only where it comes to its end, or is refused before it opens
a bus. -/
theorem raises_startLocalServers (parameters : List BusParameters)
    (lost : ∀ after, Grown now after → ¬ left after) :
    Raises (fun _ => left) (startLocalServers env contentionTime place parameters) now ↔
      Servable env contentionTime now.held now.localServers place parameters ∨
        left now ∧ FirstRefused env now.held now.localServers parameters := by
  induction parameters generalizing place now with
  | nil =>
    simp only [startLocalServers, raises_pure, true_iff]
    exact .inl servable_nil
  | cons parameters rest ih =>
    have first : FirstRefused env now.held now.localServers (parameters :: rest) ↔
        now.localServers parameters.channel ≠ none ∨ ¬ BusOpens env now.held parameters := by
      simp only [FirstRefused, List.head?_cons, Option.mem_some_iff, exists_eq_left']
    -- Nothing closes the bus, so that from here on nothing may be refused.
    have opened : Grown now (now.hold [.bus parameters]) := grown_hold (List.cons_ne_nil _ _)
    have later (server : SocketcanServer Bus Time) :
        Raises (fun _ => left) (startLocalServers env contentionTime (place + 1) rest)
            ((now.hold [.bus parameters]).serve parameters.channel server) ↔
          Servable env contentionTime (now.held ++ [.bus parameters])
            (Function.update now.localServers parameters.channel (some server))
            (place + 1) rest := by
      let after := (now.hold [.bus parameters]).serve parameters.channel server
      have unkept (final : Globals Ref Bus Time) (grown : Grown after final) : ¬ left final :=
        lost final (Grown.of_hold grown)
      refine (ih unkept).trans (or_iff_left fun kept => ?_)
      exact lost ((now.hold [.bus parameters]).serve parameters.channel server) opened kept.1
    rw [raises_startLocalServers_cons, first]
    constructor
    · rintro ⟨refused, next⟩
      by_cases early : now.localServers parameters.channel ≠ none ∨
          ¬ BusOpens env now.held parameters
      · exact .inr ⟨refused early, early⟩
      · obtain ⟨free, bus⟩ := not_or.mp early
        obtain ⟨fails, serves⟩ := next (not_not.mp free)
        obtain ⟨bus, opens, builds, starts⟩ :
            Opens env contentionTime now.held place parameters := by
          by_contra fails'
          exact lost _ opened (fails (not_not.mp bus) fails')
        left
        exact (servable_cons _).mpr ⟨not_not.mp free, ⟨bus, opens, builds, starts⟩,
          (later _).mp (serves bus opens builds starts)⟩
    · rintro (servable | ⟨same, early⟩)
      · obtain ⟨_, opens, _⟩ := (servable_cons ⟨0, none, false, false, none⟩).mp servable
        constructor
        · rintro (served | closed)
          · exact absurd (servable.fresh _ List.mem_cons_self) served
          · exact absurd (opens.imp fun _ opens => opens.1) closed
        · intro free
          exact ⟨fun _ fails => absurd opens fails,
            fun bus _ _ _ => (later _).mpr ((servable_cons _).mp servable).2.2⟩
      · refine ⟨fun _ => same, fun free => ?_⟩
        rcases early with served | closed
        · exact absurd free served
        · exact ⟨fun bus => absurd bus closed, fun bus opens => absurd ⟨bus, opens⟩ closed⟩

end LocalServers

section Registering
variable {daemon : SocketcanDaemon Bus Time} {native : Bool}

theorem raises_openBus : Raises (fun _ => left) (openBus env parameters) now ↔
    (¬ (¬ parameters.virtual → BusOpens env now.held parameters) → left now) := by
  unfold openBus
  by_cases virtual : parameters.virtual = true
  · simp [virtual]
  · simp [virtual]

theorem returns_openBus {post : Option Bus → Globals Ref Bus Time → Prop} :
    Returns post (openBus env parameters) now ↔
      ((¬ parameters.virtual → BusOpens env now.held parameters) →
        post (if parameters.virtual then none
          else (env.canBus now.held parameters).toOption) (now.hold parameters.opened)) := by
  unfold openBus BusParameters.opened BusOpens
  by_cases virtual : parameters.virtual = true
  · simp [virtual]
  · cases opened : env.canBus now.held parameters with
    | error error => simp [virtual, opened]
    | ok bus => simp [virtual, opened, Except.toOption]

theorem returns_register
    {post : SocketcanDaemon Bus Time → Globals Ref Bus Time → Prop} :
    Returns post (daemon.register env native place parameters) now ↔
      (Registers env now.held place parameters →
        post (daemon.enter parameters.channel
          (daemonServer env native daemon.contentionTime now.held place parameters))
          (now.hold parameters.opened)) := by
  simp only [SocketcanDaemon.register, returns_bind, returns_openBus, returns_ask, returns_pure]
  constructor
  · rintro all ⟨opens, builds⟩
    exact all opens () builds
  · intro all opens _ builds
    exact all ⟨opens, builds⟩

theorem raises_register (here : ¬ left now) (opened : ¬ left (now.hold parameters.opened)) :
    Raises (fun _ => left) (daemon.register env native place parameters) now ↔
      Registers env now.held place parameters := by
  simp only [SocketcanDaemon.register, raises_bind, raises_openBus, returns_openBus, raises_ask,
    raises_pure, returns_true, and_true, here, opened, imp_false, not_not, Registers]
  exact and_congr_right fun opens => ⟨fun all => (all opens).elim fun _ builds => builds,
    fun builds _ => ⟨(), builds⟩⟩

theorem returns_registerAll (list : List BusParameters)
    {post : SocketcanDaemon Bus Time → Globals Ref Bus Time → Prop} :
    Returns post (daemon.registerAll env native place list) now ↔
      (AtPlaces BusParameters.opened (Registers env) now.held place list →
        post { daemon with
          servers := daemonServers env native daemon.contentionTime now.held place list
            daemon.servers } (now.hold (list.flatMap BusParameters.opened))) := by
  induction list generalizing place daemon now with
  | nil => simp [SocketcanDaemon.registerAll, daemonServers]
  | cons parameters rest ih =>
    simp only [SocketcanDaemon.registerAll, returns_bind, returns_register, ih, atPlaces_cons,
      and_imp]
    have opened : (now.hold parameters.opened).hold (rest.flatMap BusParameters.opened) =
        now.hold ((parameters :: rest).flatMap BusParameters.opened) := by
      simp only [Globals.hold, List.append_assoc, List.flatMap_cons]
    rw [opened]
    rfl

/-- Where everything that is left counts as lost, all has to register. -/
theorem raises_registerAll (list : List BusParameters)
    (lost : ∀ after, now.held.length ≤ after.held.length → ¬ left after) :
    Raises (fun _ => left) (daemon.registerAll env native place list) now ↔
      AtPlaces BusParameters.opened (Registers env) now.held place list := by
  induction list generalizing place daemon now with
  | nil => simp [SocketcanDaemon.registerAll]
  | cons parameters rest ih =>
    have more {after : Globals Ref Bus Time}
        (grown : (now.hold parameters.opened).held.length ≤ after.held.length) :
        now.held.length ≤ after.held.length := by
      rw [held_hold, List.length_append] at grown
      omega
    have here := lost now (Nat.le_refl _)
    have opened := lost (now.hold parameters.opened) (more (Nat.le_refl _))
    simp only [SocketcanDaemon.registerAll, raises_bind, raises_register here opened,
      returns_register, ih fun after grown => lost after (more grown), atPlaces_cons]
    exact and_congr_right fun first => forall_prop_of_true first

theorem startSocketcanServers_eq_ok (servers : List (String × SocketcanServer Bus Time))
    (done : Unit) : startSocketcanServers env servers = .ok done ↔
      ∀ entry ∈ servers, env.start entry.2 = .ok () := by
  induction servers with
  | nil => exact iff_of_true rfl fun _ member => absurd member List.not_mem_nil
  | cons entry rest ih =>
    simp only [startSocketcanServers, bind_eq_ok, ih, List.forall_mem_cons]
    exact ⟨fun ⟨_, first, others⟩ => ⟨first, others⟩, fun ⟨first, others⟩ => ⟨(), first, others⟩⟩

/-- What follows the binding of the port raises where the daemon does not come to serve. -/
theorem raises_serve (settings : SocketcanDaemonConfig Time) (list : List BusParameters)
    (contentionTime : daemon.contentionTime = settings.minContentionTime)
    (empty : daemon.servers = [])
    (lost : ∀ after, now.held.length ≤ after.held.length → ¬ left after) :
    Raises (fun _ => left) (do
        let registered ← daemon.registerAll env settings.useNativeTimestamps 0 list
        ask (registered.start env)) now ↔
      DaemonServes env settings now.held list := by
  have after := lost (now.hold (list.flatMap BusParameters.opened)) (by simp)
  simp only [raises_bind, raises_registerAll list lost, returns_registerAll, raises_ask, after,
    imp_false, not_not, SocketcanDaemon.start, bind_eq_ok, startSocketcanServers_eq_ok,
    contentionTime, empty]
  constructor
  · rintro ⟨registered, starts⟩
    obtain ⟨_, _, started, serving⟩ := starts registered
    exact ⟨registered, started, serving⟩
  · rintro ⟨registered, started, serving⟩
    exact ⟨registered, fun _ => ⟨(), (), started, serving⟩⟩

end Registering

theorem readPort_of_ne {port : Int} (nonzero : port ≠ 0) : readPort env port = .ok port :=
  if_neg nonzero

/-- The port that is read is read again where the daemon reads its own. -/
theorem readPort_again {port read : Int} (first : readPort env port = .ok read) :
    readPort env read = .ok read := by
  by_cases zero : port = 0
  · by_cases again : read = 0
    · rw [again, ← zero, first, again, zero]
    · exact readPort_of_ne again
  · have same := Except.ok.inj ((readPort_of_ne zero).symm.trans first)
    exact same ▸ readPort_of_ne zero

section Daemons
variable {host : String} {port : Int} {contentionTime : Option Time}

theorem init_eq (settled : readPort env port = .ok port) :
    SocketcanDaemon.init env held host port contentionTime =
      ((env.bind held host port).mapError .raised).map fun bound =>
        { host := host, port := bound, contentionTime := contentionTime } := by
  rw [SocketcanDaemon.init, settled]
  change ((env.bind held host port).mapError ActivationError.raised >>= fun _ => pure _) = _
  cases env.bind held host port with
  | ok bound => rfl
  | error error => rfl

variable [DecidableEq Ref] {config : Ref} {list : List BusParameters}

@[simp] theorem configs_setPort :
    (now.setPort config port).configs config = { now.configs config with port := port } :=
  Function.update_self config _ _

@[simp] theorem setPort_setPort (later : Int) :
    (now.setPort config port).setPort config later = now.setPort config later := by
  simp only [Globals.setPort, Function.update_self, Function.update_idem]

@[simp] theorem held_setPort : (now.setPort config port).held = now.held := rfl

@[simp] theorem setPort_self : now.setPort config (now.configs config).port = now := by
  rw [Globals.setPort, Function.update_eq_self_iff.mpr rfl]

/-- The port is settled before anything is registered, and bound for good. -/
theorem raises_initDaemon
    (settled : readPort env (now.configs config).port = .ok (now.configs config).port)
    (lost : ∀ after, Grown now after → ¬ left after) :
    Raises (fun _ => left) (initDaemon env list config) now ↔
      (¬ Binds env (now.configs config) now.held (now.configs config).port → left now) ∧
      ∀ bound, env.bind now.held (now.configs config).host (now.configs config).port =
          .ok bound →
        DaemonServes env (now.configs config)
          (now.held ++ [.listener (now.configs config).host bound]) list := by
  simp only [initDaemon, raises_bind, raises_get, returns_get, true_and, init_eq settled, Binds]
  cases bind : env.bind now.held (now.configs config).host (now.configs config).port with
  | error error => simp [Except.mapError, Except.map]
  | ok bound =>
    simp only [Except.mapError, Except.map, raises_answer, returns_answer, reduceCtorEq,
      false_imp_iff, implies_true, true_and, Except.ok.injEq, forall_eq', returns_modify,
      raises_modify, exists_eq', not_true_eq_false]
    rw [← raises_bind, raises_serve (now.configs config) list rfl rfl]
    · rfl
    · intro after grown
      have one : (now.held ++ [Resource.listener (now.configs config).host bound]).length ≤
          after.held.length := grown
      rw [List.length_append, List.length_singleton] at one
      exact lost after one

theorem raises_runDaemonLocally (defer : Bool) :
    Raises (fun _ => left) (runDaemonLocally env list config defer) now ↔
      (¬ (now.configs config).allowRunDaemonLocally → left now) ∧
      ((now.configs config).allowRunDaemonLocally → ¬ defer →
        Raises (fun _ => left) (initDaemon env list config) now) := by
  simp only [runDaemonLocally, raises_bind, raises_get, returns_get, raises_require,
    returns_require, raises_ite, raises_pure, implies_true, true_and]
  refine and_congr_right fun _ => forall_congr' fun _ => forall_congr' fun _ => ?_
  exact and_iff_left fun _ _ _ => trivial

theorem raises_prepareDaemonInit (defer : Bool) :
    Raises (fun _ => left) (prepareDaemonInit env list config defer) now ↔
      (∀ error, readPort env (now.configs config).port = .error error → left now) ∧
      ∀ port, readPort env (now.configs config).port = .ok port →
        (port ≠ 0 →
          (¬ ∃ found, env.pingDaemon now.held (now.configs config).host port = .ok found) →
            left (now.setPort config port)) ∧
        (Unanswered env (now.configs config) now.held port →
          Raises (fun _ => left) (runDaemonLocally env list config defer)
            (now.setPort config port)) := by
  simp only [prepareDaemonInit, raises_bind, raises_get, returns_get, true_and, raises_answer,
    returns_answer, raises_modify, returns_modify]
  refine and_congr_right fun _ => forall_congr' fun port => forall_congr' fun read => ?_
  by_cases zero : port = 0
  · simp [zero, Unanswered]
  · cases ping : env.pingDaemon now.held (now.configs config).host port with
    | error error => simp [zero, Unanswered, ping]
    | ok found =>
      cases found with
      | true => simp [zero, Unanswered, ping]
      | false => simp [zero, Unanswered, ping]

theorem daemonServes_setPort :
    DaemonServes env { settings with port := port } held list ↔
      DaemonServes env settings held list :=
  ⟨fun ⟨registered, started, serving⟩ => ⟨registered, started, serving⟩,
    fun ⟨registered, started, serving⟩ => ⟨registered, started, serving⟩⟩

/-- A daemon that has to be run here, once the port is read. -/
theorem raises_runHere (defer : Bool) (read : readPort env (now.configs config).port = .ok port)
    (lost : ∀ after, Grown now after → ¬ left after) :
    Raises (fun _ => left) (runDaemonLocally env list config defer) (now.setPort config port) ↔
      (¬ (now.configs config).allowRunDaemonLocally → left (now.setPort config port)) ∧
      ((now.configs config).allowRunDaemonLocally → ¬ defer →
        (¬ Binds env (now.configs config) now.held port → left (now.setPort config port)) ∧
        ∀ bound, env.bind now.held (now.configs config).host port = .ok bound →
          DaemonServes env (now.configs config)
            (now.held ++ [.listener (now.configs config).host bound]) list) := by
  have settled : readPort env ((now.setPort config port).configs config).port =
      .ok ((now.setPort config port).configs config).port := by
    rw [configs_setPort]
    exact readPort_again read
  simp only [raises_runDaemonLocally, raises_initDaemon settled lost, configs_setPort,
    daemonServes_setPort, held_setPort, Binds]

/-- Mode `daemon` raises where it is refused, with the port that it has written by then, and
where it fails with its own port bound. -/
theorem raises_daemon (defer : Bool) (lost : ∀ after, Grown now after → ¬ left after) :
    Raises (fun _ => left) (prepareDaemonInit env list config defer) now ↔
      (∀ port, DaemonRefused env (now.configs config) now.held defer port →
        left (now.setPort config port)) ∧
      ∀ port bound, ¬ DaemonFailed env (now.configs config) now.held list defer port bound := by
  rw [raises_prepareDaemonInit]
  constructor
  · rintro ⟨unread, reads⟩
    constructor
    · intro _ refused
      cases refused with
      | unread error read =>
        rw [setPort_self]
        exact unread error read
      | silent _ read nonzero fails => exact (reads _ read).1 nonzero fails
      | forbidden _ read unanswered forbidden =>
        have run := (raises_runHere defer read lost).mp ((reads _ read).2 unanswered)
        exact run.1 forbidden
      | unbound _ read unanswered allowed prompt fails =>
        have run := (raises_runHere defer read lost).mp ((reads _ read).2 unanswered)
        exact (run.2 allowed prompt).1 fails
    · intro port bound failed
      have run := (raises_runHere defer failed.read lost).mp
        ((reads _ failed.read).2 failed.unanswered)
      exact failed.fails ((run.2 failed.allowed failed.prompt).2 bound failed.bind)
  · rintro ⟨all, none_failed⟩
    constructor
    · intro error read
      have kept := all _ (.unread error read)
      rwa [setPort_self] at kept
    · intro port read
      refine ⟨fun nonzero fails => all port (.silent port read nonzero fails), fun silent => ?_⟩
      rw [raises_runHere defer read lost]
      constructor
      · exact fun forbidden => all port (.forbidden port read silent forbidden)
      · intro allowed prompt
        constructor
        · exact fun fails => all port (.unbound port read silent allowed prompt fails)
        · intro bound bind
          by_contra fails
          exact none_failed port bound ⟨read, silent, allowed, prompt, bind, fails⟩

end Daemons

end

end Sockcan.Interop
