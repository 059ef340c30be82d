import PhantomProtocol.Api.SessionEnd

/-!
# Writes made while the session connects

`api::session`: `PhantomSession::send` reads the connection state and then puts the payload on the
pre-handshake queue or on the command channel; the client's `background_task` puts rejected early
data in front of that queue, publishes `Connected` and runs the pump, which drains the queue once
and takes commands from then on. Both end on the raw-app stream. The state read and the push are
separate steps.
-/

namespace PhantomProtocol

namespace EarlyWrites

/-- A payload, with the task whose call it came from. -/
inductive Message (α : Type*) where
  | early (data : α)
  | app (task : Nat) (data : α)
deriving DecidableEq, Repr

/-- The data of a message of `task`. -/
def Message.ofTask {α : Type*} (task : Nat) : Message α → Option α
  | .early _ => none
  | .app t data => if t = task then some data else none

/-- Where `background_task` stands. -/
inductive Background where
  | handshake
  /-- About to put rejected early data back. -/
  | requeue
  | publish
  /-- In `run_data_pump`, about to drain the queue. -/
  | drain
  | loop
deriving DecidableEq, Repr

structure State (α : Type*) where
  connection : ConnectionState
  background : Background
  sendQueue : List (Message α)
  /-- `cmd_tx` to `cmd_rx`. -/
  commands : List (Message α)
  /-- What has been queued for the raw-app stream. -/
  raw : List (Message α)
  /-- A task inside `send`, with the state it read. -/
  call : Nat → Option (ConnectionState × α)
  /-- The payloads for which `send` returned `Ok`, per task. -/
  sent : Nat → List α

inductive Event (α : Type*) where
  | call (task : Nat) (data : α)
  /-- The rest of that call. -/
  | finish (task : Nat)
  | background

variable {α : Type*}

namespace State

/-- `send`, behind its read of the state. -/
def finishSend (s : State α) (task : Nat) : Option (State α) :=
  match s.call task with
  | none => none
  | some (seen, data) =>
    let returned := { s with call := Function.update s.call task none }
    let ok := { returned with sent := Function.update s.sent task (s.sent task ++ [data]) }
    if seen.isDataReady then
      -- the channel is bounded: the call waits while it is full
      if s.commands.length < commandChannelDepth then
        some { ok with commands := s.commands ++ [.app task data] }
      else none
    else if seen = .connecting then some { ok with sendQueue := s.sendQueue ++ [.app task data] }
    else some returned

/-- One step of the background task; `rejected` is early data the server refused. -/
def backgroundStep (s : State α) (rejected : Option α) : State α :=
  match s.background with
  | .handshake => { s with background := .requeue }
  | .requeue =>
    { s with
      sendQueue := (rejected.map .early).toList ++ s.sendQueue
      background := .publish }
  | .publish =>
    { s with
      connection := SessionEnd.publishUnlessEnded s.connection .connected
      background := .drain }
  | .drain => { s with raw := s.raw ++ s.sendQueue, sendQueue := [], background := .loop }
  | .loop =>
    match s.commands with
    | [] => s
    | m :: rest => { s with commands := rest, raw := s.raw ++ [m] }

end State

/-- The handshake succeeds and nobody closes the session. -/
def step (rejected : Option α) (s : State α) : Event α → Option (State α)
  | .call task data =>
    match s.call task with
    | none => some { s with call := Function.update s.call task (some (s.connection, data)) }
    | some _ => none
  | .finish task => s.finishSend task
  | .background => some (s.backgroundStep rejected)

def start : State α where
  connection := .connecting
  background := .handshake
  sendQueue := []
  commands := []
  raw := []
  call _ := none
  sent _ := []

/-- The step puts a payload on the pre-handshake queue. -/
def State.pushesQueue (s : State α) : Event α → Bool
  | .finish task =>
    match s.call task with
    | some (seen, _) => seen = .connecting
    | none => false
  | _ => false

end EarlyWrites

end PhantomProtocol
