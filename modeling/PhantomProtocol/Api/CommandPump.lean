import PhantomProtocol.Api.StreamSlots
import PhantomProtocol.Lib.Chunks

/-!
# Commands and the data pump

How the writes of an application reach the send buffers: the command channel and the channel on
which dropped stream handles are reported, the select loop of `run_data_pump` with `take_command`,
`release_due_streams` and `flush_deferred_sends`, and the stream handles (`api::stream`). The pump's
loops are cut at every iteration; the application, the receive task and the send loop run in
between.

`queued` and `admitted` record what was queued on the channel and what was admitted to the streams.
-/

namespace PhantomProtocol

open Function

/-- `data.chunks(APP_CHUNK)`. -/
def chunks (data : Bytes) : List Bytes := chunksOf maxAppChunk data

namespace CommandPump

open StreamSlots (Half)

inductive SessionCommand where
  | send (data : Bytes)
  | sendStreamReliable (id : UInt16) (data : Bytes)
  | sendStreamUnreliable (id : UInt16) (data : Bytes)
  | closeStream (id : UInt16)
  | close
deriving DecidableEq, Repr

namespace SessionCommand

def stream : SessionCommand → Option UInt16
  | send _ => some rawAppStreamId
  | sendStreamReliable id _ | sendStreamUnreliable id _ | closeStream id => some id
  | close => none

/-- The stream whose handle queues the command; `none` for the session's own. -/
def handle : SessionCommand → Option UInt16
  | sendStreamReliable id _ | sendStreamUnreliable id _ | closeStream id => some id
  | send _ | close => none

def writes (id : UInt16) : SessionCommand → List Bytes
  | send data => if rawAppStreamId = id then chunks data else []
  | sendStreamReliable i data => if i = id then chunks data else []
  | sendStreamUnreliable _ _ | closeStream _ | close => []

end SessionCommand

/-- `Deferred`; a stream is named by its id. -/
inductive Deferred where
  | data (id : UInt16) (chunk : Bytes)
  | fin (id : UInt16)
  | release (id : UInt16)
deriving DecidableEq, Repr

def Deferred.chunks (id : UInt16) : Deferred → List Bytes
  | data i chunk => if i = id then [chunk] else []
  | fin _ | release _ => []

inductive Admitted where
  | data (chunk : Bytes)
  | fin
deriving DecidableEq, Repr

/-- The handle of a stream, with `issued_command`. -/
inductive Handle where
  | absent
  | held (issued : Bool)
  | dropped
deriving DecidableEq, Repr

/-- What the pump does after a flush. -/
inductive Next where
  | select
  | release
  /-- The local close: commands it may still take, once it has looked. -/
  | close (left : Option Nat)
deriving DecidableEq, Repr

inductive Pump where
  | select
  /-- In `flush_deferred_sends`. -/
  | flush (next : Next)
  /-- Taking the reports that are waiting. -/
  | reports
  /-- In the loop of `release_due_streams`. -/
  | releases (queuedAny : Bool)
  | closing (left : Nat)
  | ended
deriving DecidableEq, Repr

structure State where
  handles : UInt16 → Handle
  table : Finset UInt16
  streams : UInt16 → Half
  commands : List SessionCommand
  released : List UInt16
  releases : List (UInt16 × Nat)
  commandsTaken : Nat
  deferred : List Deferred
  peerClosed : Bool
  draining : Bool
  pump : Pump
  queued : List SessionCommand
  admitted : UInt16 → List Admitted

def init : State where
  handles _ := .absent
  table := {rawAppStreamId}
  streams _ := .new
  commands := []
  released := []
  releases := []
  commandsTaken := 0
  deferred := []
  peerClosed := false
  draining := false
  pump := .select
  queued := []
  admitted _ := []

namespace State

def setHalf (s : State) (id : UInt16) (h : Half) : State :=
  { s with streams := update s.streams id h }

def setStream (s : State) (id : UInt16) (stream : Stream) : State :=
  s.setHalf id { s.streams id with stream }

def localFinished (s : State) (id : UInt16) : Bool := (s.streams id).stream.localFinished

def accept (s : State) (id : UInt16) (stream : Stream) (seg : Admitted) : State :=
  { s.setStream id stream with admitted := update s.admitted id (s.admitted id ++ [seg]) }

/-- `retire_stream` and `retire_released_stream`, on the table. -/
def retire (s : State) (id : UInt16) : State :=
  if rawAppStreamId < id then { s with table := s.table.erase id } else s

/-- Where the pump goes on when a flush is over. -/
def goOn (s : State) : Next → State
  | .select => { s with pump := .select }
  | .release => { s with pump := .releases false }
  | .close none => { s with pump := .closing s.commands.length }
  | .close (some left) => { s with pump := .closing left }

/-! ## The flush -/

/-- A FIN at the head of the queue; `rest` is what is behind it. -/
def flushFin (s : State) (next : Next) (id : UInt16) (rest : List Deferred) : State :=
  match (s.streams id).stream.tryQueueFin with
  | (stream, .ok true) => { s.accept id stream .fin with deferred := rest }
  | (_, .ok false) => s.goOn next
  | (_, .error _) => { s with deferred := rest, table := s.table.erase id }

/-- One iteration of `flush_deferred_sends`. -/
def flushItem (s : State) (side : Side) (next : Next) : State :=
  match s.deferred with
  | [] => s.goOn next
  | .data id chunk :: rest =>
    if s.localFinished id then { s with deferred := rest }
    else
      match (s.streams id).stream.trySendReliable chunk with
      | (stream, .ok true) => { s.accept id stream (.data chunk) with deferred := rest }
      | (_, .ok false) => s.goOn next
      | (_, .error _) => { s with deferred := rest }
  | .release id :: rest =>
    if s.localFinished id then
      let s := { s with deferred := rest }
      if (s.streams id).isRetirable then s.retire id else s
    else if (StreamDemultiplexer.newWithRole side).isLocalStreamId id.toNat &&
        !(s.streams id).hasSentReliable then
      { s with deferred := rest }.retire id
    else s.flushFin next id rest
  | .fin id :: rest => s.flushFin next id rest

/-! ## Commands -/

/-- `take_command`, except for `Close`. -/
def takeCommand (s : State) (next : Next) : SessionCommand → State
  | .send data =>
    { s with
      deferred := s.deferred ++ (chunks data).map (.data rawAppStreamId)
      pump := .flush next }
  | .sendStreamReliable id data =>
    if id ∈ s.table then
      { s with deferred := s.deferred ++ (chunks data).map (.data id), pump := .flush next }
    else s.goOn next
  | .sendStreamUnreliable id data =>
    if id ∈ s.table ∧ s.localFinished id = false then
      (s.setStream id ((chunks data).foldl Stream.sendUnreliable (s.streams id).stream)).goOn next
    else s.goOn next
  | .closeStream id =>
    if id ∈ s.table then { s with deferred := s.deferred ++ [.fin id], pump := .flush next }
    else s.goOn next
  | .close => s.goOn next

/-- The command arm on a command. -/
def command (s : State) (cmd : SessionCommand) : State :=
  let s := { s with commandsTaken := s.commandsTaken + 1 }
  if cmd = .close then { s with pump := .ended }
  else if s.draining then { s with pump := .releases false }
  else s.takeCommand .release cmd

/-! ## Released handles -/

/-- A report is taken, with the commands that have to be taken before it is acted on. -/
def report (s : State) (id : UInt16) (rest : List UInt16) : State :=
  { s with
    released := rest
    releases := s.releases ++ [(id, s.commandsTaken + s.commands.length)] }

/-- One iteration of `release_due_streams`. -/
def releaseItem (s : State) (queuedAny : Bool) : State :=
  match s.releases with
  | (id, due) :: rest =>
    if due ≤ s.commandsTaken then
      let s := { s with releases := rest }
      if id ∈ s.table then
        let s := s.setHalf id { s.streams id with appReleased := true }
        if (s.streams id).isRetirable then s.retire id
        else { s with deferred := s.deferred ++ [.release id], pump := .releases true }
      else s
    else { s with pump := if queuedAny then .flush .select else .select }
  | [] => { s with pump := if queuedAny then .flush .select else .select }

/-- `Drop for PhantomStream`. -/
def dropHandle (s : State) (side : Side) (id : UInt16) (issued : Bool) : State :=
  let s := { s with handles := update s.handles id .dropped }
  let isLocal := (StreamDemultiplexer.newWithRole side).isLocalStreamId id.toNat
  if !issued && isLocal && decide (id ∈ s.table) && !(s.streams id).hasSentReliable then
    s.retire id
  else { s with released := s.released ++ [id] }

end State

inductive Event where
  /-- A stream is entered in the table, by `open_stream` or by the peer's first segment. -/
  | enter (id : UInt16)
  /-- `open_stream` or `accept_stream` returns its handle. -/
  | handOut (id : UInt16)
  | issue (id : UInt16)
  | queue (cmd : SessionCommand)
  | drop (id : UInt16)
  /-- The send loop and the receive task on a stream. -/
  | transmit (id : UInt16) (cwndBudget deliveredNow deliveredTimeNow : Nat) (appLimitedNow : Bool)
      (now : Nat)
  | ack (id : UInt16) (sack : Sack) (now : Nat)
  | peerFin (id : UInt16)
  | retire (id : UInt16)
  | peerCloses
  /-- The arms of the pump and the iterations of its loops. -/
  | tick
  | notify
  | flushItem
  | takeReport
  | releaseItem
  | command
  | closeRequested
  | closeItem
  | ends
deriving DecidableEq

def step (side : Side) (s : State) : Event → Option State
  | .enter id =>
    if s.handles id = .absent ∧ id ∉ s.table then
      some { s.setHalf id .new with table := insert id s.table }
    else none
  | .handOut id =>
    if s.handles id = .absent ∧ id ∈ s.table ∧ id ≠ rawAppStreamId then
      some { s with handles := update s.handles id (.held false) }
    else none
  | .issue id =>
    match s.handles id with
    | .held _ => some { s with handles := update s.handles id (.held true) }
    | _ => none
  | .queue cmd =>
    if s.commands.length < commandChannelDepth ∧
        cmd.handle.all fun id => s.handles id = .held true then
      some { s with commands := s.commands ++ [cmd], queued := s.queued ++ [cmd] }
    else none
  | .drop id =>
    match s.handles id with
    | .held issued => some (s.dropHandle side id issued)
    | _ => none
  | .transmit id cwndBudget deliveredNow deliveredTimeNow appLimitedNow now =>
    if id ∈ s.table then
      some (s.setStream id ((s.streams id).stream.pollSend cwndBudget deliveredNow deliveredTimeNow
        appLimitedNow now).1)
    else none
  | .ack id sack now =>
    if id ∈ s.table then some (s.setStream id ((s.streams id).stream.onSack sack now).1) else none
  | .peerFin id =>
    let h := s.streams id
    some (s.setHalf id { h with remoteFin := { h.remoteFin with finished := true } })
  | .retire id => if (s.streams id).isRetirable then some (s.retire id) else none
  | .peerCloses => some { s with peerClosed := true }
  | .tick =>
    if s.pump = .select then
      if s.draining || s.peerClosed then some { s with draining := true }
      else some { s with pump := .flush .select }
    else none
  | .notify =>
    if s.pump = .select ∧ s.draining = false then some { s with pump := .flush .select } else none
  | .flushItem =>
    match s.pump with
    | .flush next => some (s.flushItem side next)
    | _ => none
  | .takeReport =>
    match s.pump, s.released with
    | .select, id :: rest | .reports, id :: rest => some { s.report id rest with pump := .reports }
    | .reports, [] => some { s with pump := .releases false }
    | _, _ => none
  | .releaseItem =>
    match s.pump with
    | .releases queuedAny => some (s.releaseItem queuedAny)
    | _ => none
  | .command =>
    match s.pump, s.deferred, s.commands with
    | .select, [], cmd :: rest => some ({ s with commands := rest }.command cmd)
    | _, _, _ => none
  | .closeRequested =>
    if s.pump = .select then
      if s.peerClosed then some { s with pump := .ended }
      else some { s with pump := .flush (.close none) }
    else none
  | .closeItem =>
    match s.pump, s.deferred, s.commands with
    | .closing (left + 1), [], cmd :: rest =>
      some ({ s with commands := rest }.takeCommand (.close (some left)) cmd)
    | .closing _, _, _ => some { s with pump := .ended }
    | _, _, _ => none
  | .ends => if s.pump = .select then some { s with pump := .ended } else none

/-! ## What is to be admitted -/

/-- The chunks of the writes on a stream before its first close. -/
def writesOn (id : UInt16) (cmds : List SessionCommand) : List Bytes :=
  Scan.before (.closeStream id) (·.writes id) cmds

/-- The chunks of a stream in the pump's queue, up to a FIN. -/
def ahead (id : UInt16) (deferred : List Deferred) : List Bytes :=
  Scan.before (.fin id) (·.chunks id) deferred

/-- What is still to be admitted to a stream. -/
def State.waiting (s : State) (id : UInt16) : List Bytes :=
  if s.localFinished id then []
  else ahead id s.deferred ++ if .fin id ∈ s.deferred then [] else writesOn id s.commands

/-- No stream has used up its offsets. -/
def OffsetsLeft (s : State) (_ : Event) (_ : State) : Prop :=
  ∀ id, (s.streams id).stream.reliableOffset < u32Max

end CommandPump

end PhantomProtocol
