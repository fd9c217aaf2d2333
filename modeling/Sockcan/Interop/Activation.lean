import Sockcan.Raising
import Mathlib.Logic.Function.Basic
import Mathlib.Data.List.Nodup

/-! `activate_userspace_socketcan`, which points python-can at userspace buses and starts what
serves them. It changes the globals of the module and opens buses and listeners as it goes, and
may raise between any two of these changes. -/
namespace Sockcan.Interop
open Raising

/-- Mode `local` is that of a thread in this process. -/
inductive ServerMode where
  | localThread
  | daemon
  deriving DecidableEq, Repr

structure BusParameters where
  channel : String := "PCAN_USBBUS1"
  interface : String := "pcan"
  bitrate : Nat := 500000
  virtual : Bool := false
  deriving DecidableEq, Repr

structure SocketcanDaemonConfig (Time : Type) where
  mode : ServerMode := .localThread
  allowRunDaemonLocally : Bool := true
  host : String := "localhost"
  port : Int := 0
  linuxToo : Bool := false
  useNativeTimestamps : Bool := false
  minContentionTime : Option Time := none

/-- A server, with its place among those of one call. -/
structure SocketcanServer (Bus Time : Type) where
  place : Nat
  bus : Option Bus
  useNativeTimestamps : Bool := false
  useStream : Bool := false
  contentionTime : Option Time := none

/-- The servers by channel, in the order in which their channels came. -/
structure SocketcanDaemon (Bus Time : Type) where
  host : String
  port : Int
  contentionTime : Option Time
  servers : List (String × SocketcanServer Bus Time) := []

/-- What python-can makes a bus with: the class, or the partial application that starts a
daemon first. -/
inductive BusFactory (Ref : Type) where
  | userspaceSocketcanBus
  | deferred (parameters : List BusParameters) (config : Ref)

inductive ActivationError where
  | runtimeError (message : String)
  | valueError (message : String)
  | raised (error : String)
  deriving DecidableEq, Repr

/-- What is open in the process: a bus, or the socket on which a daemon listens. No statement of a
call that raises closes it; when the garbage collector would is left open. -/
inductive Resource where
  | bus (parameters : BusParameters)
  | listener (host : String) (port : Int)
  deriving DecidableEq

/-- The globals, and what is open. Configurations are objects, which the caller may hold as
well. -/
structure Globals (Ref Bus Time : Type) where
  configs : Ref → SocketcanDaemonConfig Time
  globalConfig : Ref
  localServers : String → Option (SocketcanServer Bus Time)
  /-- `BACKENDS["socketcan"]`. -/
  backend : Option (String × String)
  /-- The factories that are attributes of the module. -/
  attributes : String → Option (BusFactory Ref)
  held : List Resource

/-- What a call is answered from outside, where the answer depends on what the process has open
already. The port that a socket is bound to is the one that was asked for, or a free one where
that is 0. -/
structure Environment (Bus Time : Type) where
  platformSystem : String
  /-- `SOCKCAN_DAEMON_PORT`. -/
  daemonPort : Option String
  int : String → Except String Int
  pingDaemon : (held : List Resource) → String → Int → Except String Bool
  bind : (held : List Resource) → String → Int → Except String Int
  /-- `can.Bus`, for an interface that does not lead back to this module. -/
  canBus : (held : List Resource) → BusParameters → Except String Bus
  /-- The sockets of a new server. -/
  build : (place : Nat) → Except String Unit
  start : SocketcanServer Bus Time → Except String Unit
  /-- The thread of the daemon. -/
  serveForever : Except String Unit
  bind_port : ∀ held host port bound, bind held host port = .ok bound →
    bound ≠ 0 ∧ (port ≠ 0 → bound = port)

/-- The argument `parameters`. -/
inductive ParametersArgument where
  | none
  | one (parameters : BusParameters)
  | list (parameters : List BusParameters)

def ParametersArgument.toList : ParametersArgument → List BusParameters
  | .none => [{}]
  | .one parameters => [parameters]
  | .list parameters => parameters

section
variable {Ref Bus Time : Type}

def ask {α : Type} (answered : Except String α) :
    EStateM ActivationError (Globals Ref Bus Time) α := answer (answered.mapError .raised)

/-- `_register_backend`. -/
def registerBackend (factory : BusFactory Ref) (name : String) :
    EStateM ActivationError (Globals Ref Bus Time) (Option (String × String)) := do
  let former ← get
  modify fun now => { now with attributes := Function.update now.attributes name (some factory) }
  modify fun now => { now with backend := some ("sockcan.interop", name) }
  pure former.backend

/-- `_hijack_python_can(UserspaceSocketcanBus)`. -/
def hijackPythonCan : EStateM ActivationError (Globals Ref Bus Time) (Option (String × String)) :=
  registerBackend .userspaceSocketcanBus "UserspaceSocketcanBus"

def Globals.hold (now : Globals Ref Bus Time) (opened : List Resource) : Globals Ref Bus Time :=
  { now with held := now.held ++ opened }

/-- A bus that is opened is held, also where the call raises later. -/
def openCanBus (env : Environment Bus Time) (parameters : BusParameters) :
    EStateM ActivationError (Globals Ref Bus Time) Bus := do
  let now ← get
  let bus ← ask (env.canBus now.held parameters)
  modify fun now => now.hold [.bus parameters]
  pure bus

/-- `_init_global_server`. It opens a bus also for parameters that are virtual. -/
def initGlobalServer (env : Environment Bus Time) (contentionTime : Option Time) (place : Nat)
    (parameters : BusParameters) :
    EStateM ActivationError (Globals Ref Bus Time) (SocketcanServer Bus Time) := do
  let bus ← openCanBus env parameters
  ask (env.build place)
  let server := { place := place, bus := some bus, contentionTime := contentionTime }
  ask (env.start server)
  pure server

def Globals.serve (now : Globals Ref Bus Time) (channel : String)
    (server : SocketcanServer Bus Time) : Globals Ref Bus Time :=
  { now with localServers := Function.update now.localServers channel (some server) }

/-- The loop of mode `local`. -/
def startLocalServers (env : Environment Bus Time) (contentionTime : Option Time) :
    (place : Nat) → List BusParameters → EStateM ActivationError (Globals Ref Bus Time) Unit
  | _, [] => pure ()
  | place, parameters :: rest => do
    let now ← get
    require ((now.localServers parameters.channel).isNone = true)
      (.runtimeError ("A server is already started for channel " ++ parameters.channel))
    let server ← initGlobalServer env contentionTime place parameters
    modify fun now => now.serve parameters.channel server
    startLocalServers env contentionTime (place + 1) rest

/-- The port, or that of the environment in place of 0. -/
def readPort (env : Environment Bus Time) (port : Int) : Except ActivationError Int :=
  if port = 0 then
    match env.daemonPort with
    | none => .ok port
    | some text => if text.isEmpty then .ok port else (env.int text).mapError .valueError
  else .ok port

/-- `SocketcanDaemon.__init__`, which binds its port and listens on it. -/
def SocketcanDaemon.init (env : Environment Bus Time) (held : List Resource) (host : String)
    (port : Int) (contentionTime : Option Time) :
    Except ActivationError (SocketcanDaemon Bus Time) := do
  let port ← readPort env port
  let bound ← (env.bind held host port).mapError .raised
  pure { host := host, port := bound, contentionTime := contentionTime }

/-- An assignment to a key of a dictionary. -/
def assign {α : Type} (channel : String) (entry : α) : List (String × α) → List (String × α)
  | [] => [(channel, entry)]
  | other :: rest =>
    if other.1 = channel then (channel, entry) :: rest else other :: assign channel entry rest

/-- `self._servers[channel] = server`. -/
def SocketcanDaemon.enter (daemon : SocketcanDaemon Bus Time) (channel : String)
    (server : SocketcanServer Bus Time) : SocketcanDaemon Bus Time :=
  { daemon with servers := assign channel server daemon.servers }

/-- What `register_virtual_bus` and `register_bus` make the server on. -/
def openBus (env : Environment Bus Time) (parameters : BusParameters) :
    EStateM ActivationError (Globals Ref Bus Time) (Option Bus) :=
  if parameters.virtual then pure none else some <$> openCanBus env parameters

/-- `register_virtual_bus` and `register_bus`, of a daemon that does not run yet. -/
def SocketcanDaemon.register (env : Environment Bus Time) (useNativeTimestamps : Bool)
    (place : Nat) (parameters : BusParameters) (daemon : SocketcanDaemon Bus Time) :
    EStateM ActivationError (Globals Ref Bus Time) (SocketcanDaemon Bus Time) := do
  let bus ← openBus env parameters
  ask (env.build place)
  let server :=
    { place := place
      bus := bus
      useNativeTimestamps := !parameters.virtual && useNativeTimestamps
      useStream := true
      contentionTime := daemon.contentionTime }
  pure (daemon.enter parameters.channel server)

def SocketcanDaemon.registerAll (env : Environment Bus Time) (useNativeTimestamps : Bool) :
    (place : Nat) → List BusParameters → SocketcanDaemon Bus Time →
      EStateM ActivationError (Globals Ref Bus Time) (SocketcanDaemon Bus Time)
  | _, [], daemon => pure daemon
  | place, parameters :: rest, daemon => do
    let registered ← daemon.register env useNativeTimestamps place parameters
    registerAll env useNativeTimestamps (place + 1) rest registered

def startSocketcanServers (env : Environment Bus Time) :
    List (String × SocketcanServer Bus Time) → Except String Unit
  | [] => pure ()
  | entry :: rest => do
    env.start entry.2
    startSocketcanServers env rest

def SocketcanDaemon.start (env : Environment Bus Time) (daemon : SocketcanDaemon Bus Time) :
    Except String Unit := do
  startSocketcanServers env daemon.servers
  env.serveForever

variable [DecidableEq Ref]

/-- `config.port = port`. -/
def Globals.setPort (now : Globals Ref Bus Time) (config : Ref) (port : Int) :
    Globals Ref Bus Time :=
  let settings := { now.configs config with port := port }
  { now with configs := Function.update now.configs config settings }

/-- `_init_daemon`. -/
def initDaemon (env : Environment Bus Time) (parameters : List BusParameters) (config : Ref) :
    EStateM ActivationError (Globals Ref Bus Time) Unit := do
  let now ← get
  let settings := now.configs config
  let daemon ← answer
    (SocketcanDaemon.init env now.held settings.host settings.port settings.minContentionTime)
  modify fun now => now.hold [.listener settings.host daemon.port]
  modify fun now => now.setPort config daemon.port
  let registered ← daemon.registerAll env settings.useNativeTimestamps 0 parameters
  ask (registered.start env)

/-- The part of `_prepare_daemon_init` for a daemon that did not answer. -/
def runDaemonLocally (env : Environment Bus Time) (parameters : List BusParameters)
    (config : Ref) (defer : Bool) :
    EStateM ActivationError (Globals Ref Bus Time) (Option (BusFactory Ref)) := do
  let now ← get
  require ((now.configs config).allowRunDaemonLocally = true) (.runtimeError
    ("Daemon did not reply, and running daemon locally is disabled in config. " ++
      "If you want to run daemon locally, enabel `allow_run_daemon_locally`"))
  if defer then pure (some (.deferred parameters config))
  else
    initDaemon env parameters config
    pure none

/-- `_prepare_daemon_init`. It writes the port only where it reads one. -/
def prepareDaemonInit (env : Environment Bus Time) (parameters : List BusParameters)
    (config : Ref) (defer : Bool) :
    EStateM ActivationError (Globals Ref Bus Time) (Option (BusFactory Ref)) := do
  let now ← get
  let settings := now.configs config
  let port ← answer (readPort env settings.port)
  modify fun now => now.setPort config port
  let found ← if port = 0 then pure false else ask (env.pingDaemon now.held settings.host port)
  if found then pure none else runDaemonLocally env parameters config defer

/-- `system or platform.system()`. -/
def systemName (env : Environment Bus Time) : Option String → String
  | none => env.platformSystem
  | some system => if system.isEmpty then env.platformSystem else system

/-- What serves the buses in the mode of the configuration, started. -/
def prepareServers (env : Environment Bus Time) (parameters : List BusParameters) (config : Ref)
    (defer : Bool) :
    EStateM ActivationError (Globals Ref Bus Time) (Option (BusFactory Ref)) := do
  let now ← get
  let settings := now.configs config
  match settings.mode with
  | .localThread =>
    startLocalServers env settings.minContentionTime 0 parameters
    pure none
  | .daemon => prepareDaemonInit env parameters config defer

/-- The factory that `activate_userspace_socketcan` registers last. -/
def registerFactory : Option (BusFactory Ref) →
    EStateM ActivationError (Globals Ref Bus Time) (Option (String × String))
  | none => hijackPythonCan
  | some factory => registerBackend factory "_DeferredUserspaceSocketcanBus"

/-- `_global_config = config`. -/
def Globals.adopt (before : Globals Ref Bus Time) (config : Ref) : Globals Ref Bus Time :=
  { before with globalConfig := config }

def activateUserspaceSocketcan (env : Environment Bus Time) (parameters : ParametersArgument)
    (config : Option Ref) (system : Option String) (defer : Bool) :
    EStateM ActivationError (Globals Ref Bus Time) Unit := do
  let before ← get
  let config := config.getD before.globalConfig
  let settings := before.configs config
  modify fun now => now.adopt config
  require (systemName env system = "Linux" → settings.linuxToo) (.runtimeError
    ("Tried to enable userspace on Linux which supports socketcan natively." ++
      "If that's deliberate, enable `linux_too` in your config"))
  require (systemName env system = "Windows" → ¬ settings.useNativeTimestamps) (.valueError
    ("Native timestamps are not supported on windows." ++
      "Disable `use_native_timestamps` in your config"))
  let factory ← prepareServers env parameters.toList config defer
  let _ ← registerFactory factory
  pure ()

end

end Sockcan.Interop
