import PhantomProtocol.Api.FlowControl
import PhantomProtocol.Api.FrameBuilders

/-!
# Receiving on a stream

The reliable branch of `handle_packet`: a segment is accepted into the reassembly and acknowledged;
what it releases is handed to the delivery task, and after the last of it the end of the stream.

`send_stream_sack` seals the acknowledgement on the session, which the send task is using at the
same time; the call is cut into the steps of `Session.buildStep`. `StreamReceive` is the receiver
under any frames whatever, `EndOfStream` the receiver of a stream that its peer writes and closes.
-/

namespace PhantomProtocol

/-- `remote_fin_offset` and `remote_finished` of a `Stream`. -/
structure RemoteFin where
  /-- `u32::MAX` as long as no FIN is noted. -/
  offset : Nat
  finished : Bool
deriving DecidableEq, Repr

namespace RemoteFin

def new : RemoteFin := ⟨u32Max, false⟩

def noteRemoteFin (f : RemoteFin) (streamOffset : Nat) : RemoteFin :=
  if f.offset = u32Max then { f with offset := streamOffset } else f

def takeInOrderFin (f : RemoteFin) (recvSequence : Nat) : RemoteFin × Bool :=
  if f.offset ≠ u32Max ∧ recvSequence > f.offset then ({ f with finished := true }, !f.finished)
  else (f, false)

end RemoteFin

/-- What the receive task sends to the delivery task for one stream. -/
inductive DeliverItem where
  | data (payload : Bytes) (reliable : Bool)
  | close
  | retire
deriving DecidableEq, Repr

/-- `deliver_in_order_run`, on the channel of the delivery task. -/
def handOn (run : List Bytes) : List DeliverItem :=
  (FlowControl.deliverInOrderRun run).map fun d => .data d.1 d.2

/-- A frame that has been accepted and is being acknowledged. -/
structure Handling where
  streamOffset : Nat
  /-- What `accept_in_order` returned. -/
  run : List Bytes
  isPersistProbe : Bool
  fin : Bool
  ackFrame : OutFrame
  ack : Session.Build

/-- One stream on the receive task, apart from the `Stream` itself. -/
structure Receiver where
  remoteFin : RemoteFin
  session : Session
  /-- The builder the send task is in. -/
  sending : Option (OutFrame × Session.Build)
  handling : Option Handling
  queue : List DeliverItem
  pendingWindowUpdate : Nat
  /-- This side's own FIN has been acknowledged. -/
  finAcked : Bool
  /-- The stream is in the table. -/
  held : Bool

namespace Receiver

variable (kdf : Kdf) (sessionId : SessionId) (streamId : UInt16)

def new (session : Session) : Receiver where
  remoteFin := .new
  session
  sending := none
  handling := none
  queue := []
  pendingWindowUpdate := 0
  finAcked := false
  held := true

/-- A segment is accepted, and a SACK derived from what is held then. -/
def accept (r : Receiver) (rx : Stream) (streamOffset : Nat) (data : Bytes) (fin : Bool)
    (pathId : UInt8) (now : Nat) : Stream × Receiver :=
  let accepted := rx.acceptInOrder streamOffset [data] now
  match accepted.1.receivedSack 0 now with
  | none => (accepted.1, r)
  | some sack =>
    let ackFrame := sendStreamSack sack streamId pathId
    (accepted.1, { r with
      handling := some
        { streamOffset, run := accepted.2, isPersistProbe := data.isEmpty && !fin, fin, ackFrame
          ack := .start ackFrame } })

def retireStream (r : Receiver) : Receiver :=
  if streamId ≤ rawAppStreamId ∨ r.held = false then r
  else { r with held := false, queue := r.queue ++ [.retire] }

/-- A FIN is noted, and the end of the stream taken if the cursor is past it. -/
def takeFin (r : Receiver) (rx : Stream) (h : Handling) : RemoteFin × Bool :=
  let noted := if h.fin then r.remoteFin.noteRemoteFin h.streamOffset else r.remoteFin
  noted.takeInOrderFin rx.recvSequence

/-- What is left of `handle_packet` after the acknowledgement. -/
def finish (r : Receiver) (rx : Stream) (h : Handling) : Receiver :=
  let taken := r.takeFin rx h
  let r' := { r with
    handling := none
    queue := r.queue ++ handOn h.run
    pendingWindowUpdate :=
      if h.isPersistProbe then Stream.stageWindowUpdateLimit r.pendingWindowUpdate rx.recvLimit
      else r.pendingWindowUpdate
    remoteFin := taken.1 }
  if taken.2 then
    let closed := { r' with queue := r'.queue ++ [.close] }
    if r.finAcked then closed.retireStream streamId else closed
  else r'

/-- A step of `send_stream_sack`. It returns `false` when the rekey fails, and then so does
`handle_packet`; that the seal has failed is only logged. -/
def ackStep (r : Receiver) (rx : Stream) (ciphertext : Bytes) : Option Receiver :=
  r.handling.map fun h =>
    let stepped := Session.buildStep kdf sessionId h.ackFrame ciphertext r.session h.ack
    let r' := { r with session := stepped.1 }
    match h.ack, stepped.2 with
    | .rekeying, .done _ => { r' with handling := none }
    | _, .done _ => r'.finish streamId rx h
    | _, ack => { r' with handling := some { h with ack } }

def sendStep (r : Receiver) (ciphertext : Bytes) : Option Receiver :=
  r.sending.map fun (f, build) =>
    let stepped := Session.buildStep kdf sessionId f ciphertext r.session build
    { r with
      session := stepped.1
      sending :=
        match stepped.2 with
        | .done _ => none
        | build' => some (f, build') }

/-- The peer acknowledges this side's FIN. -/
def fullyAcked (r : Receiver) : Receiver :=
  let r' := { r with finAcked := true }
  if r.remoteFin.finished then r'.retireStream streamId else r'

end Receiver

/-! ## The receiver under any frames -/

namespace StreamReceive

structure State where
  rx : Stream
  tuning : SharedRecvTuning
  recv : Receiver

inductive Event where
  | frame (streamOffset : Nat) (data : Bytes) (fin : Bool) (pathId : UInt8) (now : Nat)
  | ackStep (ciphertext : Bytes)
  | sendFrame (f : OutFrame)
  | sendStep (ciphertext : Bytes)
  /-- The delivery task credits a payload. -/
  | consumed (n : Nat) (reliable : Bool) (now : Nat)
  | finAcked

def init (session : Session) : State where
  rx := .new
  tuning := ⟨sessionRecvWindowGrowthBudget⟩
  recv := .new session

/-- Frames are handled one after the other, acknowledgements among them. A frame of a stream that
has been dropped is acknowledged and not looked at. -/
def step (kdf : Kdf) (sessionId : SessionId) (streamId : UInt16) (s : State) : Event → Option State
  | .frame streamOffset data fin pathId now =>
    if s.recv.handling.isSome ∨ u32Max < streamOffset then none
    else if s.recv.held then
      let r := s.recv.accept streamId s.rx streamOffset data fin pathId now
      some { s with rx := r.1, recv := r.2 }
    else some s
  | .ackStep ct => (s.recv.ackStep kdf sessionId streamId s.rx ct).map fun r => { s with recv := r }
  | .sendFrame f =>
    if s.recv.sending.isSome then none
    else some { s with recv := { s.recv with sending := some (f, .start f) } }
  | .sendStep ct => (s.recv.sendStep kdf sessionId ct).map fun r => { s with recv := r }
  | .consumed n reliable now =>
    let r := s.rx.recordAppConsumed s.tuning n reliable now
    some { s with rx := r.1, tuning := r.2.1 }
  | .finAcked =>
    if s.recv.handling.isSome then none else some { s with recv := s.recv.fullyAcked streamId }

end StreamReceive

/-! ## The receiver of a stream that is closed -/

namespace EndOfStream

structure State where
  link : ReliableDelivery.State
  recv : Receiver

inductive Event where
  /-- A call on the sender, the arrival of an acknowledgement, or the delivery task. -/
  | transport (e : ReliableDelivery.Event)
  | segment (i : Nat) (pathId : UInt8) (now : Nat)
  /-- Another step of the receiver's tasks. -/
  | receiver (e : StreamReceive.Event)

def init (session : Session) : State where
  link := ReliableDelivery.init
  recv := .new session

def State.receiver (s : State) : StreamReceive.State := ⟨s.link.rx, s.link.tuning, s.recv⟩

/-- Nothing is admitted behind a FIN (`flush_deferred_sends`). -/
def offers (tx : Stream) : ReliableDelivery.Event → Bool
  | .offer _ => !tx.localFinished
  | .segment .. => false
  | _ => true

/-- The events of `StreamReceive` that neither bring a frame nor touch the `Stream`. -/
def ofReceiver : StreamReceive.Event → Bool
  | .frame .. | .consumed .. => false
  | _ => true

/-- A SACK counts as sent when it is derived; one whose sealing fails is among those that never
arrive. -/
def step (kdf : Kdf) (sessionId : SessionId) (streamId : UInt16) (s : State) : Event → Option State
  | .transport e =>
    if offers s.link.tx e then (ReliableDelivery.step s.link e).map fun link => { s with link }
    else none
  | .segment i pathId now =>
    match s.link.segments[i]? with
    | none => none
    | some seg =>
      if seg.reliable then
        (StreamReceive.step kdf sessionId streamId s.receiver
            (.frame seg.streamOffset seg.data seg.fin pathId now)).map fun r =>
          { link := if s.recv.held then ReliableDelivery.arrive s.link seg now else s.link
            recv := r.recv }
      else none
  | .receiver e =>
    if ofReceiver e then
      (StreamReceive.step kdf sessionId streamId s.receiver e).map fun r => { s with recv := r.recv }
    else none

end EndOfStream

end PhantomProtocol
