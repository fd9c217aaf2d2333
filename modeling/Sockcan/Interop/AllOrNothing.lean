import Sockcan.Interop.Starting

/-! Whether `activate_userspace_socketcan` is all or nothing: what a call that raises has left
changed, and when that is nothing. -/
namespace Sockcan.Interop
open Raising
variable {Ref Bus Time : Type}

/-- The globals are what they were and nothing more is open, and a call that follows, answered
as what is open then requires, goes as it would have gone. -/
structure Restored [DecidableEq Ref] (before after : Globals Ref Bus Time) : Prop where
  globalConfig : after.globalConfig = before.globalConfig
  contents : after.configs after.globalConfig = before.configs before.globalConfig
  localServers : after.localServers = before.localServers
  backend : after.backend = before.backend
  held : after.held = before.held
  again : ∀ env parameters config system defer,
    activateUserspaceSocketcan env parameters config system defer after =
      activateUserspaceSocketcan env parameters config system defer before

/-- The platform is one that the configuration allows. -/
structure Supported (env : Environment Bus Time) (settings : SocketcanDaemonConfig Time)
    (system : Option String) : Prop where
  linux : systemName env system = "Linux" → settings.linuxToo
  windows : systemName env system = "Windows" → ¬ settings.useNativeTimestamps

/-- Mode `daemon` gets its daemon: one that answers, one that is to start with the first bus, or
one that starts. -/
inductive DaemonGranted (env : Environment Bus Time) (settings : SocketcanDaemonConfig Time)
    (held : List Resource) (parameters : List BusParameters) (defer : Bool) : Prop where
  | found (port : Int) (read : readPort env settings.port = .ok port) (nonzero : port ≠ 0)
      (answers : env.pingDaemon held settings.host port = .ok true)
  | deferred (port : Int) (read : readPort env settings.port = .ok port)
      (unanswered : Unanswered env settings held port) (allowed : settings.allowRunDaemonLocally)
      (later : defer)
  | started (port bound : Int) (read : readPort env settings.port = .ok port)
      (unanswered : Unanswered env settings held port) (allowed : settings.allowRunDaemonLocally)
      (bind : env.bind held settings.host port = .ok bound)
      (serves : DaemonServes env settings (held ++ [.listener settings.host bound]) parameters)

/-- No port is bound, and none is written into the configuration that it does not have. -/
inductive PortKept (env : Environment Bus Time) (settings : SocketcanDaemonConfig Time)
    (held : List Resource) : Prop where
  | given (nonzero : settings.port ≠ 0)
      (refused : (∃ found, env.pingDaemon held settings.host settings.port = .ok found) →
        settings.allowRunDaemonLocally → ¬ Binds env settings held settings.port)
  | unread (error : ActivationError) (read : readPort env settings.port = .error error)
  | unbound (read : readPort env settings.port = .ok 0)
      (refused : settings.allowRunDaemonLocally → ¬ Binds env settings held 0)

/-- Nothing is refused of the whole call. -/
structure Granted (env : Environment Bus Time) (settings : SocketcanDaemonConfig Time)
    (held : List Resource) (served : String → Option (SocketcanServer Bus Time))
    (parameters : List BusParameters) (system : Option String) (defer : Bool) : Prop where
  supported : Supported env settings system
  channels : settings.mode = .localThread →
    Servable env settings.minContentionTime held served 0 parameters
  daemon : settings.mode = .daemon → DaemonGranted env settings held parameters defer

/-- What is refused is refused before a bus is opened, and before a port is bound or entered. -/
inductive RefusedFirst (env : Environment Bus Time) (settings : SocketcanDaemonConfig Time)
    (held : List Resource) (served : String → Option (SocketcanServer Bus Time))
    (parameters : List BusParameters) (system : Option String) : Prop where
  | unsupported (platform : ¬ Supported env settings system)
  | first (mode : settings.mode = .localThread)
      (refused : FirstRefused env held served parameters)
  | port (mode : settings.mode = .daemon) (kept : PortKept env settings held)

variable {env : Environment Bus Time}

theorem localThread_ne_daemon : ServerMode.localThread ≠ .daemon := by decide

section Daemons
variable {settings : SocketcanDaemonConfig Time} {held : List Resource}
  {list : List BusParameters} {defer : Bool} {port bound : Int}

/-- A daemon that is not refused and does not fail is granted. -/
theorem daemonGranted_or_refused (env : Environment Bus Time)
    (settings : SocketcanDaemonConfig Time) (held : List Resource) (list : List BusParameters)
    (defer : Bool) :
    DaemonGranted env settings held list defer ∨
      (∃ port, DaemonRefused env settings held defer port) ∨
      ∃ port bound, DaemonFailed env settings held list defer port bound := by
  cases read : readPort env settings.port with
  | error error => exact .inr (.inl ⟨_, .unread error read⟩)
  | ok port =>
    by_cases silent : port ≠ 0 ∧ ¬ ∃ found, env.pingDaemon held settings.host port = .ok found
    · exact .inr (.inl ⟨_, .silent port read silent.1 silent.2⟩)
    by_cases answers : port ≠ 0 ∧ env.pingDaemon held settings.host port = .ok true
    · exact .inl (.found port read answers.1 answers.2)
    have unanswered : Unanswered env settings held port := by
      intro nonzero
      obtain ⟨found, answer⟩ := not_not.mp fun none => silent ⟨nonzero, none⟩
      cases found with
      | false => exact answer
      | true => exact absurd ⟨nonzero, answer⟩ answers
    by_cases allowed : settings.allowRunDaemonLocally = true
    · by_cases later : defer = true
      · exact .inl (.deferred port read unanswered allowed later)
      · by_cases binds : Binds env settings held port
        · obtain ⟨bound, bind⟩ := binds
          by_cases serves : DaemonServes env settings (held ++ [.listener settings.host bound]) list
          · exact .inl (.started port bound read unanswered allowed bind serves)
          · exact .inr (.inr ⟨port, bound, read, unanswered, allowed, later, bind, serves⟩)
        · exact .inr (.inl ⟨_, .unbound port read unanswered allowed later binds⟩)
    · exact .inr (.inl ⟨_, .forbidden port read unanswered allowed⟩)

theorem Unanswered.not_silent (unanswered : Unanswered env settings held port)
    (nonzero : port ≠ 0) : ∃ found, env.pingDaemon held settings.host port = .ok found :=
  ⟨false, unanswered nonzero⟩

theorem Unanswered.not_found (unanswered : Unanswered env settings held port)
    (nonzero : port ≠ 0) : env.pingDaemon held settings.host port ≠ .ok true := by
  rw [unanswered nonzero]
  exact nofun

theorem read_unique {first second : Int} (read : readPort env settings.port = .ok first)
    (again : readPort env settings.port = .ok second) : first = second :=
  Except.ok.inj (read.symm.trans again)

/-- A daemon that is granted is refused nowhere. -/
theorem DaemonGranted.not_refused (granted : DaemonGranted env settings held list defer) :
    ¬ DaemonRefused env settings held defer port := by
  intro refused
  have quiet {first second : Int} (read : readPort env settings.port = .ok first)
      (again : readPort env settings.port = .ok second)
      (unanswered : Unanswered env settings held first) (nonzero : second ≠ 0) :
      env.pingDaemon held settings.host second ≠ .ok true := by
    obtain rfl := read_unique read again
    exact unanswered.not_found nonzero
  cases refused with
  | unread error unread =>
    cases granted with
    | found _ read | deferred _ read | started _ _ read =>
      exact absurd (unread.symm.trans read) nofun
  | silent port read nonzero fails =>
    cases granted with
    | found _ again _ answers => exact fails ⟨true, read_unique read again ▸ answers⟩
    | deferred _ again unanswered | started _ _ again unanswered =>
      obtain rfl := read_unique read again
      exact fails (unanswered.not_silent nonzero)
  | forbidden port read unanswered forbidden =>
    cases granted with
    | found _ again nonzero answers =>
      exact quiet read again unanswered nonzero answers
    | deferred _ _ _ allowed | started _ _ _ _ allowed => exact forbidden allowed
  | unbound port read unanswered allowed prompt fails =>
    cases granted with
    | found _ again nonzero answers =>
      exact quiet read again unanswered nonzero answers
    | deferred _ _ _ _ later => exact prompt later
    | started _ bound again _ _ bind => exact fails ⟨bound, read_unique read again ▸ bind⟩

theorem DaemonGranted.not_failed (granted : DaemonGranted env settings held list defer) :
    ¬ DaemonFailed env settings held list defer port bound := by
  intro failed
  cases granted with
  | found _ again nonzero answers =>
    obtain rfl := read_unique failed.read again
    exact failed.unanswered.not_found nonzero answers
  | deferred _ _ _ _ later => exact failed.prompt later
  | started _ _ again _ _ bind serves =>
    obtain rfl := read_unique failed.read again
    obtain rfl := Except.ok.inj (failed.bind.symm.trans bind)
    exact failed.fails serves

theorem PortKept.port_eq (kept : PortKept env settings held)
    (read : readPort env settings.port = .ok port) : port = settings.port := by
  by_cases zero : settings.port = 0
  · cases kept with
    | given nonzero => exact absurd zero nonzero
    | unread error unread => exact absurd (unread.symm.trans read) nofun
    | unbound none _ => exact (Except.ok.inj (none.symm.trans read)).symm.trans zero.symm
  · exact Except.ok.inj (read.symm.trans (readPort_of_ne zero))

/-- The port is kept wherever the refusal is. -/
theorem PortKept.eq (kept : PortKept env settings held)
    (refused : DaemonRefused env settings held defer port) : port = settings.port := by
  cases refused with
  | unread => rfl
  | silent _ read | forbidden _ read | unbound _ read => exact kept.port_eq read

/-- Nothing is bound, so that nothing fails later. -/
theorem PortKept.not_failed (kept : PortKept env settings held) :
    ¬ DaemonFailed env settings held list defer port bound := by
  intro failed
  obtain rfl := kept.port_eq failed.read
  cases kept with
  | given nonzero refused =>
    exact refused (failed.unanswered.not_silent nonzero) failed.allowed ⟨bound, failed.bind⟩
  | unread error unread => exact absurd (unread.symm.trans failed.read) nofun
  | unbound zero refused =>
    have none := Except.ok.inj (failed.read.symm.trans zero)
    exact refused failed.allowed ⟨bound, none ▸ failed.bind⟩

theorem portKept_of_eq (read : readPort env settings.port = .ok settings.port)
    (refused : settings.allowRunDaemonLocally → ¬ Binds env settings held settings.port) :
    PortKept env settings held := by
  by_cases zero : settings.port = 0
  · rw [zero] at refused
    exact .unbound (read.trans (congrArg Except.ok zero)) refused
  · exact .given zero fun _ => refused

theorem DaemonRefused.kept (refused : DaemonRefused env settings held defer port)
    (same : port = settings.port) : PortKept env settings held := by
  cases refused with
  | unread error read => exact .unread error read
  | silent _ _ nonzero fails =>
    subst same
    exact .given nonzero fun answers => absurd answers fails
  | forbidden _ read _ forbidden =>
    subst same
    exact portKept_of_eq read fun allowed => absurd allowed forbidden
  | unbound _ read _ _ _ fails =>
    subst same
    exact portKept_of_eq read fun _ => fails

end Daemons

section Calls
variable [DecidableEq Ref] {before now : Globals Ref Bus Time}
  {left : Globals Ref Bus Time → Prop} {config : Ref} {port : Int} {list : List BusParameters}
  {defer : Bool} {system : Option String}

omit [DecidableEq Ref] in
@[simp] theorem configs_adopt : (before.adopt config).configs = before.configs := rfl

omit [DecidableEq Ref] in
@[simp] theorem held_adopt : (before.adopt config).held = before.held := rfl

omit [DecidableEq Ref] in
theorem raises_registerFactory {raised : ActivationError → Globals Ref Bus Time → Prop}
    (factory : Option (BusFactory Ref)) : Raises raised (registerFactory factory) now := by
  cases factory with
  | none => exact nofun
  | some factory => exact nofun

theorem raises_prepareServers (lost : ∀ after, Grown before after → ¬ left after) :
    Raises (fun _ => left) (prepareServers env list config defer) (before.adopt config) ↔
      ((before.configs config).mode = .localThread →
        Servable env (before.configs config).minContentionTime before.held before.localServers 0
            list ∨
          left (before.adopt config) ∧
            FirstRefused env before.held before.localServers list) ∧
      ((before.configs config).mode = .daemon →
        (∀ port, DaemonRefused env (before.configs config) before.held defer port →
          left ((before.adopt config).setPort config port)) ∧
        ∀ port bound,
          ¬ DaemonFailed env (before.configs config) before.held list defer port bound) := by
  have lost : ∀ after, Grown (before.adopt config) after → ¬ left after := lost
  simp only [prepareServers, raises_bind, raises_get, returns_get, true_and, configs_adopt]
  cases (before.configs config).mode with
  | localThread =>
    simp only [raises_bind, raises_startLocalServers list lost, raises_pure, returns_true,
      and_true, forall_true_left, reduceCtorEq, false_imp_iff]
    rfl
  | daemon =>
    simp only [raises_daemon defer lost, configs_adopt, held_adopt, reduceCtorEq, false_imp_iff,
      true_and, forall_true_left]

/-- Where a call raises, for a property that ends as soon as something is opened. -/
theorem raises_activate (parameters : ParametersArgument) (config : Option Ref)
    (lost : ∀ after, Grown before after → ¬ left after) :
    Raises (fun _ => left) (activateUserspaceSocketcan env parameters config system defer) before ↔
      let used := config.getD before.globalConfig
      let settings := before.configs used
      (¬ Supported env settings system → left (before.adopt used)) ∧
      (Supported env settings system →
        (settings.mode = .localThread →
          Servable env settings.minContentionTime before.held before.localServers 0
              parameters.toList ∨
            left (before.adopt used) ∧
              FirstRefused env before.held before.localServers parameters.toList) ∧
        (settings.mode = .daemon →
          (∀ port, DaemonRefused env settings before.held defer port →
            left ((before.adopt used).setPort used port)) ∧
          ∀ port bound,
            ¬ DaemonFailed env settings before.held parameters.toList defer port bound)) := by
  simp only [activateUserspaceSocketcan, raises_bind, raises_get, returns_get, raises_modify,
    returns_modify, raises_require, returns_require, raises_registerFactory, raises_pure,
    returns_true, true_and, and_true]
  generalize config.getD before.globalConfig = used
  rw [raises_prepareServers lost]
  constructor
  · rintro ⟨linux, later⟩
    constructor
    · intro unsupported
      by_cases allowed : systemName env system = "Linux" → (before.configs used).linuxToo
      · exact (later allowed).1 fun windows => unsupported ⟨allowed, windows⟩
      · exact linux allowed
    · exact fun supported => (later supported.linux).2 supported.windows
  · rintro ⟨unsupported, later⟩
    constructor
    · exact fun fails => unsupported fun supported => fails supported.linux
    · intro linux
      exact ⟨fun fails => unsupported fun supported => fails supported.windows,
        fun windows => later ⟨linux, windows⟩⟩

/-- A call returns exactly where nothing of it is refused. -/
theorem returns_iff_granted (parameters : ParametersArgument) (config : Option Ref) :
    (∃ after, activateUserspaceSocketcan env parameters config system defer before =
        .ok () after) ↔
      Granted env (before.configs (config.getD before.globalConfig)) before.held
        before.localServers parameters.toList system defer := by
  rw [← raises_false, raises_activate parameters config fun _ _ => not_false]
  simp only [imp_false, not_not, false_and, or_false]
  generalize config.getD before.globalConfig = used
  constructor
  · rintro ⟨supported, later⟩
    obtain ⟨channels, daemon⟩ := later supported
    refine ⟨supported, channels, fun mode => ?_⟩
    obtain ⟨none_refused, none_failed⟩ := daemon mode
    rcases daemonGranted_or_refused env (before.configs used) before.held parameters.toList defer
      with granted | ⟨port, refused⟩ | ⟨port, bound, failed⟩
    · exact granted
    · exact absurd refused (none_refused port)
    · exact absurd failed (none_failed port bound)
  · rintro ⟨supported, channels, daemon⟩
    exact ⟨supported, fun _ => ⟨channels, fun mode =>
      ⟨fun _ => (daemon mode).not_refused, fun _ _ => (daemon mode).not_failed⟩⟩⟩

theorem restored_self : Restored before before :=
  ⟨rfl, rfl, rfl, rfl, rfl, fun _ _ _ _ _ => rfl⟩

theorem restored_config :
    Restored before (before.adopt config) ↔ config = before.globalConfig := by
  constructor
  · exact Restored.globalConfig
  · rintro rfl
    exact restored_self

theorem restored_setPort :
    Restored before ((before.adopt config).setPort config port) ↔
      config = before.globalConfig ∧ port = (before.configs config).port := by
  constructor
  · intro restored
    have same : config = before.globalConfig := restored.globalConfig
    have contents := restored.contents
    refine ⟨same, ?_⟩
    rw [restored.globalConfig, ← same, configs_setPort] at contents
    exact congrArg SocketcanDaemonConfig.port contents
  · rintro ⟨rfl, rfl⟩
    rw [Globals.setPort, configs_adopt, Function.update_eq_self_iff.mpr rfl]
    exact restored_self

theorem Grown.not_restored {after : Globals Ref Bus Time} (grown : Grown before after) :
    ¬ Restored before after := fun restored =>
  absurd (congrArg List.length restored.held) (Nat.ne_of_gt grown)

/-- A call is all or nothing exactly where nothing of it is refused, or where it keeps the
configuration and is refused before it opens a bus, or binds or enters a port. -/
theorem all_or_nothing_iff (env : Environment Bus Time) (parameters : ParametersArgument)
    (config : Option Ref) (system : Option String) (defer : Bool) (before : Globals Ref Bus Time) :
    (∀ error after,
        activateUserspaceSocketcan env parameters config system defer before =
          .error error after → Restored before after) ↔
      Granted env (before.configs (config.getD before.globalConfig)) before.held
          before.localServers parameters.toList system defer ∨
        config.getD before.globalConfig = before.globalConfig ∧
          RefusedFirst env (before.configs (config.getD before.globalConfig)) before.held
            before.localServers parameters.toList system := by
  change Raises (fun _ after => Restored before after) _ before ↔ _
  rw [raises_activate parameters config fun _ grown => Grown.not_restored grown]
  simp only [restored_config, restored_setPort]
  generalize config.getD before.globalConfig = used
  constructor
  · rintro ⟨unsupported, later⟩
    by_cases supported : Supported env (before.configs used) system
    · obtain ⟨channels, daemon⟩ := later supported
      cases mode : (before.configs used).mode with
      | localThread =>
        rcases channels mode with servable | ⟨same, refused⟩
        · exact .inl ⟨supported, fun _ => servable,
            fun other => absurd (mode.symm.trans other) localThread_ne_daemon⟩
        · exact .inr ⟨same, .first mode refused⟩
      | daemon =>
        obtain ⟨kept, none_failed⟩ := daemon mode
        rcases daemonGranted_or_refused env (before.configs used) before.held parameters.toList
          defer with granted | ⟨port, refused⟩ | ⟨port, bound, failed⟩
        · exact .inl ⟨supported,
            fun other => absurd (other.symm.trans mode) localThread_ne_daemon,
            fun _ => granted⟩
        · obtain ⟨same, port_kept⟩ := kept port refused
          exact .inr ⟨same, .port mode (refused.kept port_kept)⟩
        · exact absurd failed (none_failed port bound)
    · exact .inr ⟨unsupported supported, .unsupported supported⟩
  · rintro (granted | ⟨same, refused⟩)
    · refine ⟨fun fails => absurd granted.supported fails, fun _ => ?_⟩
      exact ⟨fun mode => .inl (granted.channels mode), fun mode =>
        ⟨fun port refused => absurd refused (granted.daemon mode).not_refused,
          fun port bound => (granted.daemon mode).not_failed⟩⟩
    · refine ⟨fun _ => same, fun supported => ?_⟩
      cases refused with
      | unsupported fails => exact absurd supported fails
      | first mode refused =>
        exact ⟨fun _ => .inr ⟨same, refused⟩,
          fun other => absurd (mode.symm.trans other) localThread_ne_daemon⟩
      | port mode kept =>
        exact ⟨fun other => absurd (other.symm.trans mode) localThread_ne_daemon,
          fun _ => ⟨fun port refused => ⟨same, kept.eq refused⟩, fun _ _ => kept.not_failed⟩⟩

end Calls

/-- Of the two channels, only the first has a bus. -/
def oneBus : Environment Unit Unit where
  platformSystem := "Windows"
  daemonPort := none
  int := fun text => .error text
  pingDaemon := fun _ _ _ => .ok false
  bind := fun _ _ port => if port = 0 then .ok 49152 else .ok port
  canBus := fun _ parameters =>
    if parameters.channel = "PCAN_USBBUS1" then .ok () else .error "PcanCanInitializationError"
  build := fun _ => .ok ()
  start := fun _ => .ok ()
  serveForever := .ok ()
  bind_port := by
    intro _ _ port bound bind
    split at bind
    next zero =>
      obtain rfl := Except.ok.inj bind
      exact ⟨by decide, fun nonzero => absurd zero nonzero⟩
    next nonzero =>
      obtain rfl := Except.ok.inj bind
      exact ⟨nonzero, fun _ => rfl⟩

def firstChannel : BusParameters := {}

def secondChannel : BusParameters := { channel := "PCAN_USBBUS2" }

/-- The module as it is imported. -/
def imported : Globals Unit Unit Unit where
  configs := fun _ => {}
  globalConfig := ()
  localServers := fun _ => none
  backend := some ("can.interfaces.socketcan", "SocketcanBus")
  attributes := fun _ => none
  held := []

/-- The server of the first channel stays, and stands in the way of the corrected call, which
would have succeeded. -/
theorem second_channel_leaves_first :
    ∃ after, activateUserspaceSocketcan oneBus (.list [firstChannel, secondChannel]) none none
        false imported = .error (.raised "PcanCanInitializationError") after ∧
      ¬ Restored imported after ∧
      (∃ later, activateUserspaceSocketcan oneBus (.list [firstChannel]) none none false after =
        .error (.runtimeError "A server is already started for channel PCAN_USBBUS1") later) ∧
      ∃ later, activateUserspaceSocketcan oneBus (.list [firstChannel]) none none false imported =
        .ok () later := by
  refine ⟨_, rfl, ?_, ⟨_, rfl⟩, ⟨_, rfl⟩⟩
  intro restored
  have same := congrFun restored.localServers "PCAN_USBBUS1"
  exact absurd same (Option.some_ne_none _)

end Sockcan.Interop
