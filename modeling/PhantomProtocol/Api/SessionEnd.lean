import PhantomProtocol.Lib.Run
import PhantomProtocol.Transport.Liveness

/-!
# The state of a session and the cause of its end

`api::session`: the two cells an application reads, `connection_state()` and `last_error()`, and
their writers. These are `disconnect()` on the application's thread, the client's background task
(`background_task` with `publish_failure`), the receive task of the data pump, and the pump itself
with its liveness sweep and its teardown.

Each write of a cell is one step, as are the reads of `peer_closed` and `has_given_up` that decide
what is written next. A task is where it stands between two such steps.
-/

namespace PhantomProtocol

inductive ConnectionState where
  | connecting
  | connected
  | failed
  | closed
  | migrating
  | dead
  | draining
deriving DecidableEq, Repr

/-- `Closed`, `Failed` and `Dead`. -/
def ConnectionState.isEnd : ConnectionState → Bool
  | .closed | .failed | .dead => true
  | _ => false

def ConnectionState.isDataReady : ConnectionState → Bool
  | .connected | .migrating => true
  | _ => false

/-- The errors of `CoreError` that a session ends with. -/
inductive TerminalCause where
  | timeout
  | networkError (message : String)
  | handshakeError (message : String)
deriving DecidableEq, Repr

namespace SessionEnd

/-! ## The publishers -/

/-- `publish_end`: the first end is the one to report. -/
def publishEnd (current next : ConnectionState) : ConnectionState :=
  match current with
  | .closed | .failed | .dead => current
  | _ => next

/-- `publish_unless_ended`: for the stages a session passes through. -/
def publishUnlessEnded (current next : ConnectionState) : ConnectionState :=
  match current with
  | .closed | .failed | .dead | .draining => current
  | _ => next

/-- The update of the state in `PhantomSession::disconnect`. -/
def disconnect (current : ConnectionState) : ConnectionState :=
  match current with
  | .dead | .failed => current
  | _ => .closed

/-- `record_terminal_cause`: the first cause stays. -/
def recordTerminalCause (slot : Option TerminalCause) (cause : TerminalCause) :
    Option TerminalCause :=
  match slot with
  | none => some cause
  | some c => some c

/-! ## The tasks -/

/-- The client's `background_task` up to the data pump. -/
inductive Handshake where
  | running
  /-- Inside `publish_failure`: the cause is in the slot, the state not yet published. -/
  | recorded (recordedHere : Bool)
  /-- Inside `publish_failure`, behind its `fetch_update`. -/
  | published (published recordedHere : Bool)
  | done
deriving DecidableEq, Repr

/-- The receive task of `run_data_pump`. -/
inductive Reader where
  | off
  | reading
  /-- In or just behind `handle_packet`. -/
  | handled
  /-- Saw `peer_closed`, about to store `Draining`. -/
  | publishDraining
  /-- About to look at the drain deadline. -/
  | checkDeadline
  /-- Out of its loop, with `ended_with`. -/
  | ended (endedWith : Option TerminalCause)
  | recordTimeout
  | storeDead
  | recordCause (cause : TerminalCause)
  | publishDead
  | done
deriving DecidableEq, Repr

/-- The send loop of `run_data_pump`. -/
inductive Pump where
  | off
  | loop
  /-- The tick arm saw `peer_closed` for the first time, about to store `Draining`. -/
  | publishDraining
  /-- In the tick arm, between its look at `peer_closed` and `apply_liveness`. -/
  | sweep
  | publishMigrating
  | publishConnected
  | recordTimeout
  | storeDead
  /-- Out of the loop; `died` when the liveness sweep ended it. -/
  | ended (died : Bool)
  | recordGaveUp
  | storeGaveUp
  | abort (died : Bool)
  | publishClosed
  | done
deriving DecidableEq, Repr

structure State where
  connection : ConnectionState
  terminalError : Option TerminalCause
  /-- `Session::peer_closed`. -/
  peerClosed : Bool
  /-- `SessionTransport::has_given_up`, never cleared. -/
  givenUp : Bool
  handshake : Handshake
  reader : Reader
  pump : Pump
  /-- `draining_until.is_some()`. -/
  draining : Bool
  /-- `migrating_since.is_some()`. -/
  migrating : Bool
deriving DecidableEq, Repr

/-- The signals `apply_liveness` reads. -/
structure Signals where
  silence : Nat
  inflight : Nat
  minRtt : Nat
  migratingFor : Nat
  cfg : LivenessConfig
deriving DecidableEq, Repr

inductive Event where
  /-- `disconnect()`. -/
  | disconnect
  /-- The transport gives up on the peer. -/
  | giveUp
  | handshakeFails (cause : TerminalCause)
  | handshakeSucceeds
  | handshakeStep
  /-- A frame was handled; `close` when it announced the peer's close. -/
  | packet (close : Bool)
  /-- The receive loop breaks: with the pipe's error or the backlog's, or because the transport gave
  up. -/
  | readerEnds (cause : Option TerminalCause)
  /-- `late`: the drain deadline has passed. -/
  | readerStep (late : Bool)
  /-- The abort of the teardown takes effect, which it does at an await. -/
  | readerAborted
  | tick (late : Bool)
  | sweep (signals : Signals)
  /-- Another arm breaks the loop: a local close, a dropped command channel, the finished receive
  task. -/
  | pumpEnds
  | pumpStep (late : Bool)
deriving DecidableEq, Repr

/-! ## One step of each task -/

def State.handshakeStep (s : State) : Option State :=
  match s.handshake with
  | .recorded here =>
    some { s with
      connection := if s.connection.isEnd then s.connection else .failed
      handshake := .published (!s.connection.isEnd) here }
  | .published published here =>
    some { s with
      terminalError := if !published && here then none else s.terminalError
      handshake := .done }
  | _ => none

/-- How the receive task ends behind its loop: what it is about to write, if anything. -/
def State.readerExit (s : State) (endedWith : Option TerminalCause) : Reader :=
  if s.peerClosed then .done
  else if s.givenUp then .recordTimeout
  else match endedWith with
    | some cause => .recordCause cause
    | none => .done

def State.readerStep (s : State) (late : Bool) : Option State :=
  match s.reader with
  | .handled => some { s with reader := if s.peerClosed then .publishDraining else .reading }
  -- a plain store, whatever the state reads
  | .publishDraining => some { s with connection := .draining, reader := .checkDeadline }
  | .checkDeadline => some { s with reader := if late then .ended none else .reading }
  | .ended endedWith => some { s with reader := s.readerExit endedWith }
  | .recordTimeout =>
    some { s with
      terminalError := recordTerminalCause s.terminalError .timeout
      reader := .storeDead }
  | .storeDead => some { s with connection := .dead, reader := .done }
  | .recordCause cause =>
    some { s with
      terminalError := recordTerminalCause s.terminalError cause
      reader := .publishDead }
  | .publishDead => some { s with connection := publishEnd s.connection .dead, reader := .done }
  | _ => none

def State.tick (s : State) (late : Bool) : Option State :=
  if s.pump = .loop then
    if !s.draining && s.peerClosed then some { s with draining := true, pump := .publishDraining }
    else if s.draining then some { s with pump := if late then .ended false else .loop }
    else some { s with pump := .sweep }
  else none

/-- `apply_liveness`, up to the first write of a cell. -/
def State.sweep (s : State) (g : Signals) : Option State :=
  if s.pump = .sweep then
    match livenessVerdict g.silence g.inflight g.minRtt s.migrating
        (if s.migrating then g.migratingFor else 0) g.cfg with
    | .pathDown => some { s with migrating := true, pump := .publishMigrating }
    | .recovered => some { s with migrating := false, pump := .publishConnected }
    | .dead => some { s with pump := .recordTimeout }
    | .unchanged => some { s with pump := .loop }
  else none

def State.pumpStep (s : State) (late : Bool) : Option State :=
  match s.pump with
  | .publishDraining =>
    some { s with connection := .draining, pump := if late then .ended false else .loop }
  | .publishMigrating =>
    some { s with connection := publishUnlessEnded s.connection .migrating, pump := .loop }
  | .publishConnected =>
    some { s with connection := publishUnlessEnded s.connection .connected, pump := .loop }
  | .recordTimeout =>
    some { s with
      terminalError := recordTerminalCause s.terminalError .timeout
      pump := .storeDead }
  | .storeDead => some { s with connection := .dead, pump := .ended true }
  | .ended died =>
    some { s with pump := if s.givenUp && !s.peerClosed then .recordGaveUp else .abort died }
  | .recordGaveUp =>
    some { s with
      terminalError := recordTerminalCause s.terminalError .timeout
      pump := .storeGaveUp }
  | .storeGaveUp => some { s with connection := .dead, pump := .abort true }
  | .abort died => some { s with pump := if died then .done else .publishClosed }
  | .publishClosed => some { s with connection := publishEnd s.connection .closed, pump := .done }
  | _ => none

/-- `recv_handle.abort()` has been called. -/
def Pump.aborted : Pump → Bool
  | .publishClosed | .done => true
  | _ => false

def step (s : State) : Event → Option State
  | .disconnect => some { s with connection := SessionEnd.disconnect s.connection }
  | .giveUp => some { s with givenUp := true }
  | .handshakeFails cause =>
    if s.handshake = .running then
      some { s with
        terminalError := recordTerminalCause s.terminalError cause
        handshake := .recorded s.terminalError.isNone }
    else none
  | .handshakeSucceeds =>
    if s.handshake = .running then
      some { s with
        connection := publishUnlessEnded s.connection .connected
        handshake := .done
        reader := .reading
        pump := .loop }
    else none
  | .handshakeStep => s.handshakeStep
  | .packet close =>
    if s.reader = .reading then
      some { s with peerClosed := s.peerClosed || close, reader := .handled }
    else none
  | .readerEnds cause =>
    if s.reader = .reading ∧ (cause.isSome ∨ s.givenUp) then
      some { s with reader := .ended cause }
    else none
  | .readerStep late => s.readerStep late
  | .readerAborted =>
    if s.pump.aborted ∧ (s.reader = .reading ∨ s.reader = .handled) then
      some { s with reader := .done }
    else none
  | .tick late => s.tick late
  | .sweep g => s.sweep g
  | .pumpEnds => if s.pump = .loop then some { s with pump := .ended false } else none
  | .pumpStep late => s.pumpStep late

/-- A session as `connect*` makes it: the background task runs the handshake. -/
def client : State := ⟨.connecting, none, false, false, .running, .off, .off, false, false⟩

/-- A session as the listener makes it, behind the server's handshake. -/
def server : State := ⟨.connected, none, false, false, .done, .reading, .loop, false, false⟩

def start : Side → State
  | .client => client
  | .server => server

/-- No task is left that writes a cell. -/
def State.quiet (s : State) : Bool :=
  s.handshake = .done ∧ (s.reader = .off ∨ s.reader = .done) ∧ (s.pump = .off ∨ s.pump = .done)

/-- The step stores `Draining`. -/
def State.storesDraining (s : State) : Event → Bool
  | .readerStep _ => s.reader = .publishDraining
  | .pumpStep _ => s.pump = .publishDraining
  | _ => false

/-- The step publishes the death the receive task found in the byte pipe. -/
def State.publishesPipeDeath (s : State) : Event → Bool
  | .readerStep _ => s.reader = .publishDead
  | _ => false

end SessionEnd

end PhantomProtocol
