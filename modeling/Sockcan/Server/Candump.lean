import Sockcan.Server.Endings
import Sockcan.Server.Points
import Sockcan.Server.TraceFile

/-! A server that traces its bus. The RX loop writes each frame that the bus returns before it
goes on with it, the TX loop each frame before it sends it to the bus. `stop` closes the file,
and a loop that writes to it later raises. -/
namespace Sockcan.Server
open Protocol Transition Numerals
variable {Fd : Type}

/-- The server and its `_CandumpWriter`, between the statements of `_candump_recv` and of
`_candump_send`: the frame that the bus has returned and that is not written yet, and whether
the frame that is to be sent to the bus is written. -/
structure Traced (Fd : Type) where
  server : Server Fd
  writer : CandumpWriter
  writing : Option Frame
  written : Bool
  /-- `stop` has cleared the flag, and closes the file next. -/
  closing : Bool

inductive TracedAction (Fd : Type) where
  | plain (action : Action Fd)
  | rxWrite (offset : List Char)
  | txWrite (offset : List Char)
  | close

namespace Traced

/-- `start` with `SOCKCAN_CANDUMP` set. -/
def start [DecidableEq Fd] (cfg : Config) (peers : List (Consumer Fd)) (startTime : List Char) :
    Traced Fd :=
  ⟨Server.start cfg peers, .open startTime, none, false, false⟩

/-- A write of `_candump_recv`, and what follows it. -/
def rxWrite [DecidableEq Fd] (traced : Traced Fd) (offset : List Char) : Option (Traced Fd) :=
  match traced.writing with
  | none => none
  | some frame =>
    match traced.writer.write offset .rx frame with
    | (writer, true) => (traced.server.rxRecv (some frame)).map fun server =>
      { traced with server, writer, writing := none }
    | (writer, false) => some { traced with
        server := { traced.server with rx := .ended .valueError }
        writer
        writing := none }

/-- A write of `_candump_send`, before the send. -/
def txWrite (traced : Traced Fd) (offset : List Char) : Option (Traced Fd) :=
  match traced.server.tx, traced.written with
  | .busSend job, false =>
    match traced.writer.write offset .tx job.message.frame with
    | (writer, true) => some { traced with writer, written := true }
    | (writer, false) => some { traced with
        server := { traced.server with tx := .ended .valueError }
        writer }
  | _, _ => none

/-- The statements of the plain server, but for the two that are traced. -/
def plain [DecidableEq Fd] (cfg : Config) (traced : Traced Fd) : Action Fd → Option (Traced Fd)
  | .rxRecv answer =>
    if traced.writing.isSome then none
    else match traced.server.rxRecv answer, answer with
      | none, _ => none
      | some _, some frame => some { traced with writing := some frame }
      | some server, none => some { traced with server }
  | .txBus returned =>
    if traced.written then
      (traced.server.txBus returned).map fun server =>
        { traced with server, written := !returned }
    else none
  | .stop => traced.server.stopStep.map fun server =>
      { traced with
        server
        closing := traced.closing || decide (traced.server.stopping = .clear) }
  | action => (traced.server.step cfg action).map fun server => { traced with server }

def step [DecidableEq Fd] (cfg : Config) (traced : Traced Fd) :
    TracedAction Fd → Option (Traced Fd)
  | .plain action => traced.plain cfg action
  | .rxWrite offset => traced.rxWrite offset
  | .txWrite offset => traced.txWrite offset
  | .close =>
    if traced.closing then some { traced with writer := traced.writer.close, closing := false }
    else none

/-- What a step does, the shared part of the loops apart. -/
inductive Goes [DecidableEq Fd] (cfg : Config) (traced : Traced Fd) :
    TracedAction Fd → Traced Fd → Prop where
  | recv {frame : Frame} (at_ : traced.server.rx = .recv) (idle : traced.writing = none) :
    Goes cfg traced (.plain (.rxRecv (some frame))) { traced with writing := some frame }
  | rxWrite {frame : Frame} {offset : List Char} {writer : CandumpWriter} {server : Server Fd}
      (held : traced.writing = some frame)
      (wrote : traced.writer.write offset .rx frame = (writer, true))
      (stepped : traced.server.step cfg (.rxRecv (some frame)) = some server) :
    Goes cfg traced (.rxWrite offset) { traced with server, writer, writing := none }
  | rxClosed {frame : Frame} {offset : List Char} {writer : CandumpWriter}
      (held : traced.writing = some frame)
      (failed : traced.writer.write offset .rx frame = (writer, false)) :
    Goes cfg traced (.rxWrite offset) { traced with
      server := { traced.server with rx := .ended .valueError }
      writer
      writing := none }
  | txWrite {job : Job Fd} {offset : List Char} {writer : CandumpWriter}
      (at_ : traced.server.tx = .busSend job) (fresh : traced.written = false)
      (wrote : traced.writer.write offset .tx job.message.frame = (writer, true)) :
    Goes cfg traced (.txWrite offset) { traced with writer, written := true }
  | txClosed {job : Job Fd} {offset : List Char} {writer : CandumpWriter}
      (at_ : traced.server.tx = .busSend job) (fresh : traced.written = false)
      (failed : traced.writer.write offset .tx job.message.frame = (writer, false)) :
    Goes cfg traced (.txWrite offset) { traced with
      server := { traced.server with tx := .ended .valueError }
      writer }
  | send {returned : Bool} {server : Server Fd} (written : traced.written = true)
      (stepped : traced.server.step cfg (.txBus returned) = some server) :
    Goes cfg traced (.plain (.txBus returned)) { traced with server, written := !returned }
  | plain {action : Action Fd} {server : Server Fd} {closing : Bool}
      (idle : action.loop = some .rx → traced.writing = none)
      (unread : ∀ frame, action ≠ .rxRecv (some frame))
      (unsent : ∀ returned, action ≠ .txBus returned)
      (stepped : traced.server.step cfg action = some server) :
    Goes cfg traced (.plain action) { traced with server, closing }
  | close (closing : traced.closing = true) :
    Goes cfg traced .close { traced with writer := traced.writer.close, closing := false }

variable [DecidableEq Fd] {cfg : Config} {peers : List (Consumer Fd)} {t u : Traced Fd}
  {startTime : List Char}

/-- The RX loop waits for the bus while it writes. -/
def Waits (traced : Traced Fd) : Prop := traced.writing.isSome → traced.server.rx = .recv

theorem idle_of_step {action : Action Fd} {server : Server Fd} (waits : t.Waits)
    (stepped : t.server.step cfg action = some server) (unread : ∀ answer, action ≠ .rxRecv answer)
    (own : action.loop = some .rx) : t.writing = none := by
  by_contra writing
  have at_ := waits (Option.isSome_iff_ne_none.mpr writing)
  cases action with
  | rx => simp [Server.step, rxStep, at_] at stepped
  | rxRecv answer => exact unread answer rfl
  | rxCall => simp [Server.step, rxCall, at_] at stepped
  | _ => cases own

theorem plain_goes {action : Action Fd} (waits : t.Waits)
    (stepped : t.plain cfg action = some u) : Goes cfg t (.plain action) u := by
  cases action with
  | rxRecv answer =>
    simp only [plain] at stepped
    cases busy : t.writing with
    | some frame => simp [busy] at stepped
    | none =>
      simp only [busy, Option.isSome_none, Bool.false_eq_true, if_false] at stepped
      cases taken : t.server.rxRecv answer with
      | none => simp [taken] at stepped
      | some server =>
        rw [taken] at stepped
        cases answer with
        | none =>
          cases stepped
          have goes : Goes cfg t (.plain (.rxRecv none)) { t with server } :=
            .plain (fun _ => busy) (by simp) (by simp) taken
          rwa [busy] at goes
        | some frame =>
          cases stepped
          exact .recv (recv_of_rxRecv taken) busy
  | txBus returned =>
    simp only [plain] at stepped
    split at stepped
    · obtain ⟨server, taken, rfl⟩ := Option.map_eq_some_iff.mp stepped
      exact .send ‹_› taken
    · cases stepped
  | stop =>
    obtain ⟨server, taken, rfl⟩ := Option.map_eq_some_iff.mp stepped
    exact .plain (by simp [Action.loop]) (by simp) (by simp) taken
  | _ =>
    obtain ⟨server, taken, rfl⟩ := Option.map_eq_some_iff.mp stepped
    exact .plain (idle_of_step waits taken (by simp)) (by simp) (by simp) taken

theorem step_goes {action : TracedAction Fd} (waits : t.Waits)
    (stepped : t.step cfg action = some u) : Goes cfg t action u := by
  cases action with
  | plain action => exact plain_goes waits stepped
  | rxWrite offset =>
    simp only [step, rxWrite] at stepped
    cases held : t.writing with
    | none => simp [held] at stepped
    | some frame =>
      cases wrote : t.writer.write offset .rx frame with
      | mk writer returned =>
        simp only [held, wrote] at stepped
        cases returned with
        | true =>
          obtain ⟨server, taken, rfl⟩ := Option.map_eq_some_iff.mp stepped
          exact .rxWrite held wrote taken
        | false =>
          obtain rfl := Option.some.inj stepped
          exact .rxClosed held wrote
  | txWrite offset =>
    simp only [step, txWrite] at stepped
    split at stepped
    · rename_i job at_ fresh
      cases wrote : t.writer.write offset .tx job.message.frame with
      | mk writer returned =>
        simp only [wrote] at stepped
        cases returned with
        | true =>
          obtain rfl := Option.some.inj stepped
          exact .txWrite at_ fresh wrote
        | false =>
          obtain rfl := Option.some.inj stepped
          exact .txClosed at_ fresh wrote
    · cases stepped
  | close =>
    simp only [step] at stepped
    split at stepped
    · cases stepped
      exact .close ‹_›
    · cases stepped

end Traced

section View

/-- A loop that raised because the file is closed, as if the bus had raised. -/
def RxPoint.unfiled : RxPoint Fd → RxPoint Fd
  | .ended .valueError => .ended .operationError
  | point => point

def TxPoint.unfiled : TxPoint Fd → TxPoint Fd
  | .ended .valueError => .ended .operationError
  | point => point

/-- The server without its file. -/
def Traced.view (traced : Traced Fd) : Server Fd :=
  traced.server.jump traced.server.rx.unfiled traced.server.tx.unfiled

theorem RxPoint.unfiled_eq {point : RxPoint Fd} (filed : point ≠ .ended .valueError) :
    point.unfiled = point := by
  unfold unfiled
  split
  · contradiction
  · rfl

theorem TxPoint.unfiled_eq {point : TxPoint Fd} (filed : point ≠ .ended .valueError) :
    point.unfiled = point := by
  unfold unfiled
  split
  · contradiction
  · rfl

theorem RxPoint.unfiled_ne (point : RxPoint Fd) : point.unfiled ≠ .ended .valueError := by
  unfold unfiled
  split
  · simp
  · assumption

theorem TxPoint.unfiled_ne (point : TxPoint Fd) : point.unfiled ≠ .ended .valueError := by
  unfold unfiled
  split
  · simp
  · assumption

variable [DecidableEq Fd] {cfg : Config} {peers : List (Consumer Fd)} {t u : Traced Fd}
  {startTime : List Char} {action : Action Fd} {server : Server Fd}

/-- No statement of the plain server raises a `ValueError`. -/
theorem step_unfiled (healthy : t.view.Healthy cfg)
    (stepped : t.server.step cfg action = some server) :
    t.view.step cfg action = some (server.jump server.rx.unfiled server.tx.unfiled) := by
  have move := step_moves stepped
  cases own : action.loop with
  | none =>
    have rx : server.rx = t.server.rx :=
      congrArg RxLoop.point (move.rxLoop_of_loop (by simp [own]))
    have tx : server.tx = t.server.tx := move.tx_of_loop (by simp [own])
    rw [Traced.view, step_jump_other own, stepped, rx, tx]
    rfl
  | some loop =>
    cases loop with
    | rx =>
      have alive := alive_of_step_rx own stepped
      have filed : t.server.rx ≠ .ended .valueError := fun ended => by
        simp [ended, RxPoint.alive] at alive
      have tx : server.tx = t.server.tx := move.tx_of_loop (by simp [own])
      have seen : t.view = t.server.jump t.server.rx t.server.tx.unfiled := by
        rw [Traced.view, RxPoint.unfiled_eq filed]
      have shown : t.view.step cfg action = some (server.jump server.rx t.server.tx.unfiled) := by
        rw [seen, step_jump_rx own, stepped]
        rfl
      have raised : server.rx ≠ .ended .valueError := by
        intro ended
        rcases (step_moves shown).rx_ends healthy ended with before | causes
        · exact t.server.rx.unfiled_ne before
        · exact causes
      rw [shown, RxPoint.unfiled_eq raised, tx]
    | tx =>
      have alive := alive_of_step_tx own stepped
      have filed : t.server.tx ≠ .ended .valueError := fun ended => by
        simp [ended, TxPoint.alive] at alive
      have rx : server.rx = t.server.rx :=
        congrArg RxLoop.point (move.rxLoop_of_loop (by simp [own]))
      have seen : t.view = t.server.jump t.server.rx.unfiled t.server.tx := by
        rw [Traced.view, TxPoint.unfiled_eq filed]
      have shown : t.view.step cfg action = some (server.jump t.server.rx.unfiled server.tx) := by
        rw [seen, step_jump_tx own, stepped]
        rfl
      have raised : server.tx ≠ .ended .valueError := by
        intro ended
        rcases (step_moves shown).tx_ends healthy ended with before | causes
        · exact t.server.tx.unfiled_ne before
        · exact causes
      rw [shown, TxPoint.unfiled_eq raised, rx]

theorem Traced.Goes.view {action : TracedAction Fd} (goes : t.Goes cfg action u)
    (waits : t.Waits) (healthy : t.view.Healthy cfg) :
    u.view = t.view ∨ ∃ action, True ∧ t.view.step cfg action = some u.view := by
  cases goes with
  | recv | txWrite | close => exact Or.inl rfl
  | rxWrite held wrote stepped => exact Or.inr ⟨_, trivial, step_unfiled healthy stepped⟩
  | send written stepped => exact Or.inr ⟨_, trivial, step_unfiled healthy stepped⟩
  | plain idle unread unsent stepped => exact Or.inr ⟨_, trivial, step_unfiled healthy stepped⟩
  | rxClosed held failed =>
    have at_ : t.server.rx = .recv := waits (by simp [held])
    refine Or.inr ⟨.rxRecv none, trivial, ?_⟩
    simp [Server.step, rxRecv, Traced.view, at_, RxPoint.unfiled]
    rfl
  | txClosed at_ fresh failed =>
    refine Or.inr ⟨.txBus false, trivial, ?_⟩
    simp [Server.step, txBus, Traced.view, at_, TxPoint.unfiled]
    rfl

theorem Traced.Goes.waits {action : TracedAction Fd} (goes : t.Goes cfg action u)
    (waits : t.Waits) : u.Waits := by
  cases goes with
  | recv at_ => exact fun _ => at_
  | rxWrite | rxClosed => exact fun writing => by simp at writing
  | txWrite | txClosed | close => exact waits
  | send written stepped =>
    have rx := congrArg RxLoop.point ((step_moves stepped).rxLoop_of_loop (by simp [Action.loop]))
    exact fun writing => rx.trans (waits writing)
  | @plain action server _ idle _ _ stepped =>
    intro writing
    have other : action.loop ≠ some .rx := fun own => by simp [idle own] at writing
    have rx := congrArg RxLoop.point ((step_moves stepped).rxLoop_of_loop other)
    exact rx.trans (waits writing)

/-- The file is open, and no statement of a loop is half made. -/
structure Traced.Between (traced : Traced Fd) : Prop where
  opened : traced.writer.closed = false
  read : traced.writing = none
  sent : traced.written = true → traced.server.tx.alive = false
  plain : traced.view = traced.server

theorem start_view (cfg : Config) (peers : List (Consumer Fd)) (startTime : List Char) :
    (Traced.start cfg peers startTime).view = start cfg peers := by
  have filed : (start cfg peers).rx ≠ .ended .valueError := by
    simp only [start]
    split <;> simp
  rw [Traced.view, Traced.start, RxPoint.unfiled_eq filed, TxPoint.unfiled_eq (by simp [start])]
  rfl

theorem Traced.Between.follows (between : t.Between) (healthy : t.view.Healthy cfg)
    (stepped : t.view.step cfg action = some server) :
    ∃ actions u, run (Traced.step cfg) t actions = some u ∧ u.Between ∧ u.view = server := by
  rw [between.plain] at stepped
  have shown (after : Traced Fd) (same : after.server = server) : after.view = server := by
    have unfiled := step_unfiled healthy stepped
    rw [between.plain, stepped] at unfiled
    rw [Traced.view, same]
    exact (Option.some.inj unfiled).symm
  have halts (written : t.written = true) : server.tx.alive = false := by
    have ended := between.sent written
    have other : action.loop ≠ some .tx := fun own => by
      simp [alive_of_step_tx own stepped] at ended
    rw [(step_moves stepped).tx_of_loop other]
    exact ended
  have ordinary (closing : Bool)
      (taken : t.plain cfg action = some { t with server, closing }) :
      ∃ actions u, run (Traced.step cfg) t actions = some u ∧ u.Between ∧ u.view = server :=
    ⟨[.plain action], { t with server, closing }, by simp [run, Traced.step, taken],
      ⟨between.opened, between.read, halts, shown _ rfl⟩, shown _ rfl⟩
  cases action with
  | rxRecv answer =>
    have taken : t.server.rxRecv answer = some server := stepped
    cases answer with
    | none => exact ordinary t.closing (by simp [Traced.plain, between.read, taken])
    | some frame =>
      refine ⟨[.plain (.rxRecv (some frame)), .rxWrite []],
        { t with
          server
          writer := (t.writer.write [] .rx frame).1
          writing := none }, ?_, ⟨?_, rfl, halts, shown _ rfl⟩, shown _ rfl⟩
      · simp [run, Traced.step, Traced.plain, Traced.rxWrite, between.read, taken,
          CandumpWriter.write, between.opened]
      · simp [CandumpWriter.write, between.opened]
  | txBus returned =>
    have taken : t.server.txBus returned = some server := stepped
    have alive : t.server.tx.alive = true := alive_of_step_tx rfl stepped
    have fresh : t.written = false := by
      by_contra written
      simp [between.sent (by simpa using written)] at alive
    obtain ⟨job, at_⟩ := busSend_of_txBus taken
    refine ⟨[.txWrite [], .plain (.txBus returned)],
      { t with
        server
        writer := (t.writer.write [] .tx job.message.frame).1
        written := !returned }, ?_, ⟨?_, between.read, ?_, shown _ rfl⟩, shown _ rfl⟩
    · simp [run, Traced.step, Traced.plain, Traced.txWrite, at_, fresh, taken,
          CandumpWriter.write, between.opened]
    · simp [CandumpWriter.write, between.opened]
    · intro unsent
      have raised : returned = false := by simpa using unsent
      subst raised
      simp only [txBus, at_] at taken
      cases taken
      rfl
  | stop =>
    have taken : t.server.stopStep = some server := stepped
    exact ordinary (t.closing || decide (t.server.stopping = .clear))
      (by simp only [Traced.plain, taken, Option.map_some])
  | _ =>
    exact ordinary t.closing (by simp only [Traced.plain, stepped, Option.map_some])

/-- To trace a server changes nothing that it does: seen without the file, where a loop that
writes to it after `stop` is one that the bus raises in, it comes to the states that it comes
to without, and to no others. -/
theorem candump_transparent (distinct : (peers.map Consumer.fd).Nodup) (s : Server Fd) :
    (∃ actions t, run (Traced.step cfg) (Traced.start cfg peers startTime) actions = some t ∧
        t.view = s) ↔
      ∃ actions, run (step cfg) (start cfg peers) actions = some s := by
  have healthy : (Traced.start cfg peers startTime).view.Healthy cfg := by
    rw [start_view]
    exact .start distinct
  constructor
  · rintro ⟨actions, t, path, rfl⟩
    have simulates : Simulates (Traced.step cfg) (step cfg)
        (fun (t : Traced Fd) _ => t.Waits ∧ t.view.Healthy cfg) (fun _ _ => True) Traced.view :=
      fun t action u sound stepped => (Traced.step_goes sound.1 stepped).view sound.1 sound.2
    have preserved (t : Traced Fd) (action : TracedAction Fd) (u : Traced Fd)
        (sound : t.Waits ∧ t.view.Healthy cfg) (_ : True)
        (stepped : t.step cfg action = some u) : u.Waits ∧ u.view.Healthy cfg := by
      refine ⟨(Traced.step_goes sound.1 stepped).waits sound.1, ?_⟩
      rcases simulates t action u sound stepped with same | ⟨_, _, step⟩
      · exact same ▸ sound.2
      · exact (step_moves step).healthy sound.2
    have sound : Along (Traced.step cfg) (fun t _ => t.Waits ∧ t.view.Healthy cfg)
        (Traced.start cfg peers startTime) actions :=
      along_of_invariant preserved (fun _ _ sound _ => sound)
        ⟨fun writing => by simp [Traced.start] at writing, healthy⟩ along_true
    obtain ⟨shown, shows, _⟩ := simulates.run sound path
    rw [start_view] at shows
    exact ⟨shown, shows⟩
  · rintro ⟨actions, path⟩
    rw [← start_view cfg peers startTime] at path
    have between : (Traced.start cfg peers startTime).Between :=
      ⟨rfl, rfl, fun written => by simp [Traced.start] at written, start_view _ _ _⟩
    have covers : Covers (Traced.step cfg) (step cfg)
        (fun (t : Traced Fd) => t.Between ∧ t.view.Healthy cfg) Traced.view := by
      rintro t action server ⟨between, healthy⟩ stepped
      obtain ⟨actions, u, shows, after, rfl⟩ := between.follows healthy stepped
      exact ⟨actions, u, shows, ⟨after, (step_moves stepped).healthy healthy⟩, rfl⟩
    obtain ⟨shown, t, shows, _, same⟩ := covers.run ⟨between, healthy⟩ path
    exact ⟨shown, t, shows, same⟩

/-- The bus has a frame that no consumer wants, and a consumer sends one; before that is on the
bus, `stop` closes the file. -/
def stoppedTraceRun : List (TracedAction Nat) :=
  [.plain .rx, .plain .rx, .plain .rx, .plain (.rxRecv (some ⟨0x123, [1], false⟩)),
    .rxWrite ['0', '.', '5'], .plain .rx, .plain .rx, .plain .rx, .plain .rx, .plain .rx,
    .plain .tx, .plain (.txSelect [.ready 0 true false]), .plain .tx,
    .plain (.txRecv (some ⟨0x7, [2], true⟩)), .plain .tx, .plain .tx,
    .txWrite ['1', '.', '5'], .plain .stop, .plain .stop, .close]

/-- The frame is sent, and the bus has another one. -/
def stoppedTraceRest : List (TracedAction Nat) :=
  [.plain (.txBus true), .plain (.rxRecv (some ⟨0x123, [3], false⟩)), .rxWrite ['2', '.', '5']]

def tracedPeers : List (Consumer Nat) := [⟨0, some [⟨0x7, 0x7FF, none⟩]⟩]

/-- The RX loop ends on the closed file. -/
theorem candump_transparent_stopped :
    ∃ t, run (Traced.step .realBus) (Traced.start .realBus tracedPeers ['1'])
        (stoppedTraceRun ++ stoppedTraceRest) = some t ∧
      t.server.rx = .ended .valueError ∧
      ∃ actions, run (step .realBus) (start .realBus tracedPeers) actions = some t.view := by
  have ends : (run (Traced.step .realBus) (Traced.start .realBus tracedPeers ['1'])
      (stoppedTraceRun ++ stoppedTraceRest)).map (fun t => t.server.rx) =
        some (.ended .valueError) := by decide +kernel
  obtain ⟨t, path, ended⟩ := Option.map_eq_some_iff.mp ends
  exact ⟨t, path, ended, (candump_transparent (by decide) t.view).mp ⟨_, t, path, rfl⟩⟩

end View

section Records
variable [DecidableEq Fd] {cfg : Config} {peers : List (Consumer Fd)} {s : Server Fd}
  {t u : Traced Fd} {startTime : List Char}

/-- The frames that were written in one direction. -/
def framesOf (direction : TraceDirection) (writes : List TraceWrite) : List Frame :=
  (writes.filter fun write => decide (write.direction = direction)).map TraceWrite.frame

/-- What the file says of the frames that have passed. A frame that is to be sent to the bus is
written before: it is `pending`, also after the bus has raised. -/
structure Traced.Records (startTime : List Char) (traced : Traced Fd) (writes : List TraceWrite)
    (pending : List Frame) : Prop where
  file : traced.writer.file =
    traceHeader startTime ++ (numbered 0 writes).flatMap TraceEntry.line
  counter : traced.writer.closed = false → traced.writer.counter = writes.length
  read : framesOf .rx writes = (traced.server.received none).map Relayed.frame
  sent : framesOf .tx writes = traced.server.busTraffic.map Relayed.frame ++ pending
  settled : traced.written = false → pending = []
  waiting : traced.written = true → ∃ frame, pending = [frame] ∧
    (traced.server.tx.alive = false ∨
      ∃ job, traced.server.tx = .busSend job ∧ job.message.frame = frame)

/-- The line that the action is to write. -/
def Traced.line (traced : Traced Fd) : TracedAction Fd → Option TraceWrite
  | .rxWrite offset => traced.writing.map fun frame => ⟨offset, .rx, frame⟩
  | .txWrite offset => match traced.server.tx with
    | .busSend job => some ⟨offset, .tx, job.message.frame⟩
    | _ => none
  | _ => none

theorem framesOf_append (direction : TraceDirection) (writes : List TraceWrite)
    (write : TraceWrite) : framesOf direction (writes ++ [write]) =
      framesOf direction writes ++ if write.direction = direction then [write.frame] else [] := by
  by_cases same : write.direction = direction <;> simp [framesOf, same]

/-- The bus send that is in hand stays so until it is made. -/
theorem Traced.Records.stays {writes : List TraceWrite} {pending : List Frame}
    (records : t.Records startTime writes pending) {action : Action Fd}
    (unsent : ∀ returned, action ≠ .txBus returned)
    (stepped : t.server.step cfg action = some s) (written : t.written = true) :
    s.tx = t.server.tx := by
  refine (step_moves stepped).tx_of_loop fun own => ?_
  obtain ⟨_, _, ended | ⟨job, at_, _⟩⟩ := records.waiting written
  · simp [alive_of_step_tx own stepped] at ended
  · cases action with
    | tx => simp [Server.step, txStep, at_] at stepped
    | txSelect => simp [Server.step, txSelect, at_] at stepped
    | txRecv => simp [Server.step, txRecv, at_] at stepped
    | txCall => simp [Server.step, txCall, at_] at stepped
    | txBus returned => exact unsent returned rfl
    | _ => cases own

theorem Traced.Goes.records {action : TracedAction Fd} (goes : t.Goes cfg action u)
    {writes : List TraceWrite} {pending : List Frame}
    (records : t.Records startTime writes pending) :
    ∃ pending, u.Records startTime writes pending ∨
      ∃ write ∈ t.line action, u.Records startTime (writes ++ [write]) pending := by
  obtain ⟨file, counter, read, sent, settled, waiting⟩ := id records
  cases goes with
  | recv => exact ⟨pending, Or.inl ⟨file, counter, read, sent, settled, waiting⟩⟩
  | close =>
    exact ⟨pending, Or.inl ⟨file, fun opened => by contradiction, read, sent, settled, waiting⟩⟩
  | @rxWrite frame offset writer server held wrote stepped =>
    obtain ⟨opened, rfl⟩ := CandumpWriter.write_returned wrote
    have move := step_moves stepped
    have tx : server.tx = t.server.tx := move.tx_of_loop (by simp [Action.loop])
    have bus : server.busTraffic = t.server.busTraffic := move.busTraffic_keeps (by simp)
    have received : (server.received none).map Relayed.frame =
        (t.server.received none).map Relayed.frame ++ [frame] := by
      have taken : t.server.rxRecv (some frame) = some server := stepped
      have at_ : t.server.rx = .recv := recv_of_rxRecv taken
      simp only [rxRecv, at_] at taken
      cases taken
      simp [receive, stamp]
    refine ⟨pending, Or.inr ⟨⟨offset, .rx, frame⟩, by simp [line, held], ?_, ?_, ?_, ?_, settled,
      ?_⟩⟩
    · simp [file, numbered_append, counter opened]
    · simp [counter opened]
    · rw [framesOf_append, read, received]
      rfl
    · rw [framesOf_append, sent, bus]
      simp
    · simpa only [tx] using waiting
  | @rxClosed frame offset writer held failed =>
    obtain ⟨closed, rfl⟩ := CandumpWriter.write_raised failed
    exact ⟨pending, Or.inl ⟨file, fun opened => by simp [closed] at opened, read, sent, settled,
      waiting⟩⟩
  | @txWrite job offset writer at_ fresh wrote =>
    obtain ⟨opened, rfl⟩ := CandumpWriter.write_returned wrote
    refine ⟨[job.message.frame], Or.inr ⟨⟨offset, .tx, job.message.frame⟩, by simp [line, at_],
      ?_, ?_, ?_, ?_, by simp, fun _ => ⟨_, rfl, Or.inr ⟨job, at_, rfl⟩⟩⟩⟩
    · simp [file, numbered_append, counter opened]
    · simp [counter opened]
    · rw [framesOf_append, read]
      simp
    · rw [framesOf_append, sent, settled fresh]
      simp
  | @txClosed job offset writer at_ fresh failed =>
    obtain ⟨closed, rfl⟩ := CandumpWriter.write_raised failed
    exact ⟨pending, Or.inl ⟨file, fun opened => by simp [closed] at opened, read, sent, settled,
      fun written => by simp [fresh] at written⟩⟩
  | @send returned server written stepped =>
    have move := step_moves stepped
    have received : server.received none = t.server.received none := move.received_bus (by simp)
    obtain ⟨frame, rfl, ended | ⟨job, at_, rfl⟩⟩ := waiting written
    · simp [alive_of_step_tx rfl stepped] at ended
    · simp only [Server.step, txBus, at_] at stepped
      cases returned with
      | true =>
        cases stepped
        refine ⟨[], Or.inl ⟨file, counter, by rw [read, received], ?_, by simp, by simp⟩⟩
        simp [sent]
      | false =>
        cases stepped
        exact ⟨_, Or.inl ⟨file, counter, read, sent, by simp, fun _ => ⟨_, rfl, Or.inl rfl⟩⟩⟩
  | @plain action server closing idle unread unsent stepped =>
    have move := step_moves stepped
    have received : server.received none = t.server.received none := move.received_bus unread
    have bus : server.busTraffic = t.server.busTraffic := move.busTraffic_keeps (unsent true)
    refine ⟨pending, Or.inl ⟨file, counter, by rw [read, received], by rw [sent, bus], settled,
      fun written => ?_⟩⟩
    have tx : server.tx = t.server.tx := records.stays unsent stepped written
    simpa only [tx] using waiting written

variable {actions later : List (TracedAction Fd)}

def entriesOf (direction : TraceDirection) (entries : List TraceEntry) : List Frame :=
  (entries.filter fun entry => decide (entry.direction = direction)).map TraceEntry.frame

theorem entriesOf_numbered (direction : TraceDirection) (counter : Nat)
    (writes : List TraceWrite) :
    entriesOf direction (numbered counter writes) = framesOf direction writes := by
  induction writes generalizing counter with
  | nil => rfl
  | cons write rest ih =>
    have later := ih (counter + 1)
    simp only [entriesOf, framesOf] at later ⊢
    by_cases same : write.direction = direction <;>
      simp [numbered, TraceWrite.entry, same, later]

/-- The frame of a line, and when it came, can be told from the line. -/
def TraceWrite.Clear (write : TraceWrite) : Prop :=
  IsWord write.offset ∧ write.frame.canId < 2 ^ 32 ∧ Legible write.frame

instance : DecidablePred TraceWrite.Clear := fun _ => inferInstanceAs (Decidable (_ ∧ _ ∧ _))

def Traced.Clear (traced : Traced Fd) (action : TracedAction Fd) : Prop :=
  ∀ write ∈ traced.line action, write.Clear

instance (traced : Traced Fd) : DecidablePred traced.Clear :=
  fun action => inferInstanceAs (Decidable (∀ write ∈ traced.line action, _))

/-- What holds in every state of a traced run, in which all that is written meets `P`. -/
def Traced.Recorded (startTime : List Char) (P : TraceWrite → Prop) (traced : Traced Fd) : Prop :=
  traced.Waits ∧ ∃ writes pending, traced.Records startTime writes pending ∧
    ∀ write ∈ writes, P write

variable {P : TraceWrite → Prop}

theorem Traced.Recorded.step {action : TracedAction Fd} (recorded : t.Recorded startTime P)
    (meets : ∀ write ∈ t.line action, P write) (stepped : t.step cfg action = some u) :
    u.Recorded startTime P := by
  obtain ⟨waits, writes, pending, records, all⟩ := recorded
  have goes := Traced.step_goes waits stepped
  refine ⟨goes.waits waits, ?_⟩
  obtain ⟨next, kept | ⟨write, written, kept⟩⟩ := goes.records records
  · exact ⟨writes, next, kept, all⟩
  · refine ⟨writes ++ [write], next, kept, fun other member => ?_⟩
    rcases List.mem_append.mp member with before | last
    · exact all other before
    · rw [List.mem_singleton.mp last]
      exact meets write written

theorem Traced.Recorded.start : (Traced.start cfg peers startTime).Recorded startTime P := by
  refine ⟨fun writing => by simp [Traced.start] at writing, [], [], ⟨?_, fun _ => rfl, rfl, rfl,
    fun _ => rfl, fun written => by simp [Traced.start] at written⟩, by simp⟩
  simp [Traced.start, CandumpWriter.open, numbered]

/-- What is still to come once the file is closed: at most the frame that the TX loop has written
is sent to the bus. -/
structure Traced.Closed (t u : Traced Fd) : Prop where
  closed : u.writer.closed = true
  file : u.writer.file = t.writer.file
  read : u.server.received none = t.server.received none
  sent : u.server.busTraffic = t.server.busTraffic ∧
      (u.written = true → t.written = true ∧
        ∀ job, u.server.tx = .busSend job → t.server.tx = .busSend job) ∨
    u.written = false ∧ t.written = true ∧ ∃ job, t.server.tx = .busSend job ∧
      u.server.busTraffic = t.server.busTraffic ++ [job.message]

theorem Traced.Closed.step {action : TracedAction Fd} {v : Traced Fd} (shut : t.Closed u)
    (recorded : u.Recorded startTime P) (stepped : u.step cfg action = some v) : t.Closed v := by
  obtain ⟨closed, file, read, sent⟩ := id shut
  obtain ⟨waits, writes, pending, records, _⟩ := recorded
  cases Traced.step_goes waits stepped with
  | recv | close => exact ⟨by first | exact closed | rfl, file, read, sent⟩
  | rxWrite held wrote =>
    obtain ⟨opened, _⟩ := CandumpWriter.write_returned wrote
    simp [opened] at closed
  | txWrite at_ fresh wrote =>
    obtain ⟨opened, _⟩ := CandumpWriter.write_returned wrote
    simp [opened] at closed
  | rxClosed held failed =>
    obtain ⟨_, rfl⟩ := CandumpWriter.write_raised failed
    exact ⟨closed, file, read, sent⟩
  | txClosed at_ fresh failed =>
    obtain ⟨_, rfl⟩ := CandumpWriter.write_raised failed
    refine ⟨closed, file, read, sent.imp_left fun kept => ⟨kept.1, fun written => ?_⟩⟩
    simp [fresh] at written
  | @send returned server written taken =>
    have move := step_moves taken
    refine ⟨closed, file, (move.received_bus (by simp)).trans read, ?_⟩
    rcases sent with ⟨same, hand⟩ | ⟨unwritten, _⟩
    · obtain ⟨held, sending⟩ := hand written
      obtain ⟨job, at_⟩ := busSend_of_txBus taken
      simp only [Server.step, txBus, at_] at taken
      cases returned with
      | true =>
        cases taken
        exact Or.inr ⟨rfl, held, job, sending job at_, congrArg (· ++ [job.message]) same⟩
      | false =>
        cases taken
        exact Or.inl ⟨same, fun _ => ⟨held, fun job at_ => by cases at_⟩⟩
    · simp [unwritten] at written
  | @plain action server closing idle unread unsent taken =>
    have move := step_moves taken
    refine ⟨closed, file, (move.received_bus unread).trans read, ?_⟩
    rw [move.busTraffic_keeps (unsent true)]
    refine sent.imp_left fun kept => ⟨kept.1, fun written => ?_⟩
    rw [records.stays unsent taken written]
    exact kept.2 written

/-- `stop` ends the relay to and from a bus that is traced. Once it has closed the file, no frame
from the bus is relayed any more, and none to it but the one that the TX loop has written. -/
theorem candump_closed
    (path : run (Traced.step cfg) (Traced.start cfg peers startTime) actions = some t)
    (closed : t.writer.closed = true) (after : run (Traced.step cfg) t later = some u) :
    u.writer.file = t.writer.file ∧ u.server.received none = t.server.received none ∧
      (u.server.busTraffic = t.server.busTraffic ∨ t.written = true ∧
        ∃ job, t.server.tx = .busSend job ∧
          u.server.busTraffic = t.server.busTraffic ++ [job.message]) := by
  have kept (s : Traced Fd) (action : TracedAction Fd) (v : Traced Fd)
      (recorded : s.Recorded startTime fun _ => True) (_ : True)
      (stepped : s.step cfg action = some v) : v.Recorded startTime fun _ => True :=
    recorded.step (fun _ _ => trivial) stepped
  have recorded : t.Recorded startTime fun _ => True :=
    invariant_run kept .start along_true path
  have shut : t.Closed u := by
    refine (invariant_run (I := fun s => t.Closed s ∧ s.Recorded startTime fun _ => True) ?_
      ⟨?_, recorded⟩ along_true after).1
    · rintro s action v ⟨shut, recorded⟩ _ stepped
      exact ⟨shut.step recorded stepped, kept s action v recorded trivial stepped⟩
    · exact ⟨closed, rfl, rfl, Or.inl ⟨rfl, fun written => ⟨written, fun _ => id⟩⟩⟩
  refine ⟨shut.file, shut.read, ?_⟩
  rcases shut.sent with ⟨same, _⟩ | ⟨_, written, sent⟩
  · exact Or.inl same
  · exact Or.inr ⟨written, sent⟩

/-- The frame that is written is sent after the file is closed. -/
theorem candump_closed_stopped :
    ∃ t u, run (Traced.step .realBus) (Traced.start .realBus tracedPeers ['1'])
        stoppedTraceRun = some t ∧
      run (Traced.step .realBus) t stoppedTraceRest = some u ∧
      u.writer.file = t.writer.file ∧ u.server.received none = t.server.received none ∧
      t.server.busTraffic = [] ∧ u.server.busTraffic.length = 1 := by
  have ends : (run (Traced.step .realBus) (Traced.start .realBus tracedPeers ['1'])
      (stoppedTraceRun ++ stoppedTraceRest)).map (fun u => u.server.busTraffic.length) =
        some 1 := by decide +kernel
  have before : (run (Traced.step .realBus) (Traced.start .realBus tracedPeers ['1'])
      stoppedTraceRun).map (fun t => (t.writer.closed, t.server.busTraffic)) =
        some (true, []) := by decide +kernel
  obtain ⟨u, path, sent⟩ := Option.map_eq_some_iff.mp ends
  obtain ⟨t, first, second⟩ := run_append.mp path
  rw [first, Option.map_some, Option.some.injEq] at before
  obtain ⟨closed, unsent⟩ := Prod.mk.inj before
  obtain ⟨file, received, _⟩ := candump_closed first closed second
  exact ⟨t, u, first, second, file, received, unsent, sent⟩

end Records

end Sockcan.Server
