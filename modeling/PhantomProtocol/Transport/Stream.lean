import PhantomProtocol.Lib.Scan
import PhantomProtocol.Transport.Rto
import PhantomProtocol.Transport.Sack

/-!
# Streams

`transport::stream::Stream`: the send buffer with its three transmission passes, acknowledgement and
loss detection, the sender's half of flow control, and the in-order reassembly of the receiver.

A function that takes a lock for its whole body is one step here. Every function that reads the
clock takes the reading as `now`. Offsets and byte counts are natural numbers; where the source
saturates, checks or wraps at the width of its type, so does the definition.
-/

namespace PhantomProtocol

def maxPendingPackets : Nat := 1024
def maxRecvReorder : Nat := 2048
def packetThreshold : Nat := 3
def initialStreamWindow : Nat := 64 * 1024
def maxSendWindow : Nat := 16 * initialStreamWindow
def maxRecvWindow : Nat := maxSendWindow

inductive LossCause where
  | packetThreshold
  | timeThreshold
  | bothThresholds
  | rto
deriving DecidableEq, Repr

/-- A reliable segment in the send buffer. -/
structure PendingData where
  streamOffset : Nat
  data : Bytes
  sentAt : Option Nat
  deliveredAtSend : Nat
  deliveredTimeAtSend : Option Nat
  appLimitedAtSend : Bool
  retries : UInt32
  lost : Option LossCause
  fin : Bool
  charged : Bool
deriving DecidableEq, Repr

/-- A segment an acknowledgement has removed from the send buffer. -/
structure RetiredSegment where
  sentAt : Option Nat
  size : Nat
  wasRetransmit : Bool
  deliveredAtSend : Nat
  deliveredTimeAtSend : Option Nat
  appLimitedAtSend : Bool
deriving DecidableEq, Repr

structure LostSegment where
  streamOffset : Nat
  size : Nat
deriving DecidableEq, Repr

structure SackResult where
  retired : List RetiredSegment
  lost : List LostSegment
deriving DecidableEq, Repr

/-- A segment handed out for transmission. -/
structure OutboundSegment where
  streamOffset : Nat
  data : Bytes
  reliable : Bool
  retransmit : Bool
  firstRetransmit : Bool
  lossCause : Option LossCause
  fin : Bool
deriving DecidableEq, Repr

inductive SendBlocked where
  | idle
  | congestionWindow
  | flowControl
deriving DecidableEq, Repr

/-- The open measurement interval of the receive-window tuner. -/
structure RecvWindowProbe where
  startedAt : Option Nat
  bytes : Nat
deriving DecidableEq, Repr

structure Stream where
  /-- The next offset to assign; `u32::MAX` when the space is exhausted. -/
  reliableOffset : Nat
  /-- The next offset to deliver. -/
  recvSequence : Nat
  sendBuffer : List PendingData
  unreliableBuffer : List Bytes
  /-- Segments received ahead of `recvSequence`, in the order of their arrival. -/
  recvBuffer : List (Nat × List Bytes)
  recvBufferBytes : Nat
  localFinished : Bool
  /-- Available permits. -/
  sendSemaphore : Nat
  bytesSent : Nat
  peerSendLimit : Nat
  bytesConsumed : Nat
  advertisedRecvWindow : Nat
  recvWindowProbe : RecvWindowProbe
  bytesSinceLastUpdate : Nat
  rto : RtoEstimator
  lastDataRecvAt : Option Nat
  persistProbeAt : Option Nat
  /-- One past the highest offset acknowledged, or zero. -/
  highestAckedPlusOne : Nat
deriving DecidableEq, Repr

namespace Stream

def new : Stream where
  reliableOffset := 0
  recvSequence := 0
  sendBuffer := []
  unreliableBuffer := []
  recvBuffer := []
  recvBufferBytes := 0
  localFinished := false
  sendSemaphore := maxPendingPackets
  bytesSent := 0
  peerSendLimit := initialStreamWindow
  bytesConsumed := 0
  advertisedRecvWindow := initialStreamWindow
  recvWindowProbe := ⟨none, 0⟩
  bytesSinceLastUpdate := 0
  rto := .new
  lastDataRecvAt := none
  persistProbeAt := none
  highestAckedPlusOne := 0

/-! ## Admission -/

/-- `next_reliable_offset`: the offset assigned, and the cursor after it. -/
def nextReliableOffset (s : Stream) : Except CoreError (Nat × Nat) :=
  if s.reliableOffset + 1 ≤ u32Max then .ok (s.reliableOffset, s.reliableOffset + 1)
  else .error (.streamError "reliable stream offset space exhausted (u32); reconnect required")

/-- A segment as it enters the send buffer. -/
def pendingData (streamOffset : Nat) (data : Bytes) (fin : Bool) : PendingData where
  streamOffset
  data
  sentAt := none
  deliveredAtSend := 0
  deliveredTimeAtSend := none
  appLimitedAtSend := false
  retries := 0
  lost := none
  fin
  charged := false

/-- What the four admitting functions do once they hold a permit. The permit is kept only when an
offset could be assigned. Assigning the offset and pushing the segment is one step. -/
def enqueue (s : Stream) (data : Bytes) (fin : Bool) : Stream × Except CoreError Nat :=
  match s.nextReliableOffset with
  | .error e => (s, .error e)
  | .ok (offset, next) =>
    ({ s with
        reliableOffset := next
        sendSemaphore := s.sendSemaphore - 1
        sendBuffer := s.sendBuffer ++ [pendingData offset data fin]
        localFinished := s.localFinished || fin }, .ok offset)

/-- `send_reliable`. `none`: the call waits for a permit. -/
def sendReliable (s : Stream) (data : Bytes) : Option (Stream × Except CoreError Nat) :=
  if s.sendSemaphore = 0 then none else some (s.enqueue data false)

def trySendReliable (s : Stream) (data : Bytes) : Stream × Except CoreError Bool :=
  if s.sendSemaphore = 0 then (s, .ok false)
  else ((s.enqueue data false).1, (s.enqueue data false).2.map fun _ => true)

/-- `queue_fin`. `none`: the call waits for a permit. -/
def queueFin (s : Stream) : Option (Stream × Except CoreError Unit) :=
  if s.sendSemaphore = 0 then none
  else some ((s.enqueue [] true).1, (s.enqueue [] true).2.map fun _ => ())

def tryQueueFin (s : Stream) : Stream × Except CoreError Bool :=
  if s.sendSemaphore = 0 then (s, .ok false)
  else ((s.enqueue [] true).1, (s.enqueue [] true).2.map fun _ => true)

def taken : Except CoreError Bool → Bool
  | .ok b => b
  | .error _ => false

/-- A call of one of the four admitting functions. -/
inductive Offer where
  | sendReliable (data : Bytes)
  | trySendReliable (data : Bytes)
  | queueFin
  | tryQueueFin
deriving DecidableEq

namespace Offer

def data : Offer → Bytes
  | sendReliable data | trySendReliable data => data
  | queueFin | tryQueueFin => []

def fin : Offer → Bool
  | sendReliable _ | trySendReliable _ => false
  | queueFin | tryQueueFin => true

theorem data_of_fin {o : Offer} (h : o.fin = true) : o.data = [] := by
  cases o with
  | sendReliable | trySendReliable => cases h
  | queueFin | tryQueueFin => rfl

end Offer

/-- The stream after the call, and whether the offer was admitted. `none`: the call waits for a
permit. -/
def offer (s : Stream) : Offer → Option (Stream × Bool)
  | .sendReliable data => (s.sendReliable data).map fun r => (r.1, r.2.isOk)
  | .trySendReliable data => some ((s.trySendReliable data).1, taken (s.trySendReliable data).2)
  | .queueFin => s.queueFin.map fun r => (r.1, r.2.isOk)
  | .tryQueueFin => some (s.tryQueueFin.1, taken s.tryQueueFin.2)

def sendUnreliable (s : Stream) (data : Bytes) : Stream :=
  { s with unreliableBuffer := s.unreliableBuffer ++ [data] }

/-! ## Flow control, sending side -/

def noteAckedOffset (s : Stream) (offset : Nat) : Stream :=
  { s with highestAckedPlusOne := max s.highestAckedPlusOne (min (offset + 1) u32Max) }

def lastAckedOffset (s : Stream) : Option Nat :=
  if s.highestAckedPlusOne = 0 then none else some (s.highestAckedPlusOne - 1)

/-- `try_consume_send_window`: the sent total after the charge, or `none` when it does not fit. -/
def tryConsumeSendWindow (s : Stream) (n : Nat) : Option Nat :=
  if s.bytesSent + n ≤ u64Max ∧ s.bytesSent + n ≤ s.peerSendLimit then some (s.bytesSent + n)
  else none

def applyPeerWindowLimit (s : Stream) (limit : Nat) : Stream :=
  { s with
    peerSendLimit := max s.peerSendLimit (min limit (min (s.bytesSent + maxSendWindow) u64Max)) }

def resetRto (s : Stream) : Stream := { s with rto := s.rto.reset }

/-! ## Transmission -/

def tryPersistProbe (s : Stream) (now : Nat) (anythingInFlight : Bool) :
    Option (Stream × OutboundSegment) :=
  if anythingInFlight then none
  else
    match s.lastAckedOffset with
    | none => none
    | some streamOffset =>
      if s.persistProbeAt.any (now - · < s.rto.rto) then none
      else
        some ({ s with persistProbeAt := some now },
          { streamOffset, data := [], reliable := true, retransmit := false,
            firstRetransmit := false, lossCause := none, fin := false })

/-- The copy of a segment the two retransmitting passes hand out. -/
def retransmission (p : PendingData) (cause : Option LossCause) : OutboundSegment where
  streamOffset := p.streamOffset
  data := p.data
  reliable := true
  retransmit := true
  firstRetransmit := p.retries == 0
  lossCause := cause
  fin := p.fin

/-- Pass 0 of `poll_send`: the first segment flagged lost. -/
def fastRetransmit (s : Stream) (now : Nat) : Option (Stream × OutboundSegment) :=
  (Scan.updateFirst (fun p => p.lost.isSome && p.sentAt.isSome)
      (fun p => { p with lost := none, sentAt := some now, retries := p.retries + 1 })
      s.sendBuffer).map fun r =>
    ({ s with sendBuffer := r.2 }, retransmission r.1 r.1.lost)

/-- Pass 1 of `poll_send`: the first segment whose timer has expired. -/
def timeoutRetransmit (s : Stream) (now : Nat) : Option (Stream × OutboundSegment) :=
  (Scan.updateFirst (fun p => p.sentAt.any (s.rto.rto ≤ now - ·))
      (fun p => { p with sentAt := some now, retries := p.retries + 1 }) s.sendBuffer).map fun r =>
    ({ s with sendBuffer := r.2, rto := s.rto.onTimeout }, retransmission r.1 (some .rto))

/-- Pass 2 of `poll_send`: the first segment that is not on the wire, if it fits the congestion
budget and the peer's window. A FIN, and a segment that still holds its charge, need no room in the
window. -/
def firstTransmit (s : Stream) (cwndBudget deliveredNow deliveredTimeNow : Nat)
    (appLimitedNow : Bool) (now : Nat) : Stream × Except SendBlocked OutboundSegment :=
  let stamp (p : PendingData) : PendingData :=
    { p with
      charged := p.charged || !p.fin
      sentAt := some now
      deliveredAtSend := deliveredNow
      deliveredTimeAtSend := some deliveredTimeNow
      appLimitedAtSend := appLimitedNow }
  match Scan.updateFirst (·.sentAt.isNone) stamp s.sendBuffer with
  | none => (s, .error .idle)
  | some (p, buffer) =>
    let segment : OutboundSegment :=
      { streamOffset := p.streamOffset, data := p.data, reliable := true, retransmit := false,
        firstRetransmit := false, lossCause := none, fin := p.fin }
    if cwndBudget < p.data.length then (s, .error .congestionWindow)
    else if p.fin || p.charged then ({ s with sendBuffer := buffer }, .ok segment)
    else
      match s.tryConsumeSendWindow (p.data.length % (u32Max + 1)) with
      | some sent => ({ s with sendBuffer := buffer, bytesSent := sent }, .ok segment)
      | none =>
        match s.tryPersistProbe now (s.sendBuffer.any (·.sentAt.isSome)) with
        | some (s', probe) => (s', .ok probe)
        | none => (s, .error .flowControl)

def pollSend (s : Stream) (cwndBudget deliveredNow deliveredTimeNow : Nat) (appLimitedNow : Bool)
    (now : Nat) : Stream × Except SendBlocked OutboundSegment :=
  match s.unreliableBuffer with
  | data :: rest =>
    ({ s with unreliableBuffer := rest },
      .ok { streamOffset := 0, data, reliable := false, retransmit := false,
            firstRetransmit := false, lossCause := none, fin := false })
  | [] =>
    match s.fastRetransmit now with
    | some (s', segment) => (s', .ok segment)
    | none =>
      match s.timeoutRetransmit now with
      | some (s', segment) => (s', .ok segment)
      | none => s.firstTransmit cwndBudget deliveredNow deliveredTimeNow appLimitedNow now

/-- `mark_unsent`: the write of a segment was refused. Its charge is given back when no copy of it
has ever left. -/
def markUnsent (s : Stream) (streamOffset : Nat) : Stream :=
  let giveBack (p : PendingData) : Bool := p.charged && p.retries == 0
  match Scan.updateFirst (·.streamOffset == streamOffset)
      (fun p => { p with sentAt := none, charged := p.charged && !giveBack p }) s.sendBuffer with
  | none => s
  | some (p, buffer) =>
    { s with
      sendBuffer := buffer
      bytesSent := if giveBack p then s.bytesSent - p.data.length else s.bytesSent }

/-! ## Acknowledgements -/

def retiredSegment (p : PendingData) : RetiredSegment where
  sentAt := p.sentAt
  size := p.data.length
  wasRetransmit := p.retries != 0
  deliveredAtSend := p.deliveredAtSend
  deliveredTimeAtSend := p.deliveredTimeAtSend
  appLimitedAtSend := p.appLimitedAtSend

/-- What retiring one segment does besides removing it: the acknowledged high-water mark, and an RTT
sample when the segment was sent once (Karn). -/
def retire (now : Nat) (s : Stream) (p : PendingData) : Stream :=
  let s := s.noteAckedOffset p.streamOffset
  match p.sentAt with
  | some sentAt => if p.retries == 0 then { s with rto := s.rto.onRttSample (now - sentAt) } else s
  | none => s

/-- `ack`: retire one segment. Returned is when it was sent, and its size. -/
def ack (s : Stream) (streamOffset now : Nat) : Stream × Option (Nat × Nat) :=
  match s.sendBuffer.find? (·.streamOffset == streamOffset) with
  | none => (s, none)
  | some p =>
    ({ retire now s p with
        sendBuffer := s.sendBuffer.eraseP (·.streamOffset == streamOffset)
        sendSemaphore := s.sendSemaphore + 1 },
      p.sentAt.map fun sentAt => (sentAt, p.data.length))

/-- The arm of the loss detector that fires on a segment, if any. -/
def lossOf (largestAcked : Nat) (timeThreshold : Option Nat) (now : Nat) (p : PendingData) :
    Option LossCause :=
  match p.lost, p.sentAt with
  | none, some sentAt =>
    if largestAcked ≤ p.streamOffset then none
    else
      let packetLost := p.retries == 0 &&
        decide (min (p.streamOffset + packetThreshold) u32Max ≤ largestAcked)
      let timeLost := timeThreshold.any (· ≤ now - sentAt)
      match packetLost, timeLost with
      | true, true => some .bothThresholds
      | true, false => some .packetThreshold
      | false, true => some .timeThreshold
      | false, false => none
  | _, _ => none

/-- The time threshold of the loss detector: from the smoothed RTT once the segments that the
acknowledgement covers have been sampled. -/
def timeThreshold (s : Stream) (sack : Sack) (now : Nat) : Option Nat :=
  ((s.sendBuffer.filter fun p => sack.acks p.streamOffset).foldl (retire now) s).rto.srtt.map
    fun r => max (millis 1) (r * 9 / 8)

def detector (s : Stream) (sack : Sack) (now : Nat) : PendingData → Option LossCause :=
  lossOf (min sack.largestAcked s.reliableOffset) (s.timeThreshold sack now) now

/-- What `on_sack` keeps in the send buffer. -/
def kept (s : Stream) (sack : Sack) : List PendingData :=
  s.sendBuffer.filter fun p => !sack.acks p.streamOffset

/-- `on_sack` with its loss detector as an argument: retire what is covered, flag what is lost,
return the permits. -/
def flag (s : Stream) (sack : Sack) (now : Nat) (loss : PendingData → Option LossCause) :
    Stream × SackResult :=
  let covered := s.sendBuffer.filter fun p => sack.acks p.streamOffset
  ({ covered.foldl (retire now) s with
      sendBuffer := (s.kept sack).map fun p => { p with lost := p.lost.or (loss p) }
      sendSemaphore := s.sendSemaphore + covered.length },
    { retired := covered.map retiredSegment
      lost := ((s.kept sack).filter fun p => (loss p).isSome).map
        fun p => ⟨p.streamOffset, p.data.length⟩ })

/-- `on_sack`. -/
def onSack (s : Stream) (sack : Sack) (now : Nat) : Stream × SackResult :=
  s.flag sack now (s.detector sack now)

/-! ## Reassembly -/

def payloadBytes (payloads : List Bytes) : Nat := (payloads.map List.length).sum

def recvReorderByteLimit (s : Stream) : Nat := s.advertisedRecvWindow + initialStreamWindow

/-- Release the buffered segment at the cursor. -/
def release (s : Stream) (payloads : List Bytes) : Stream :=
  { s with
    recvBuffer := s.recvBuffer.eraseP (·.1 == s.recvSequence)
    recvBufferBytes := (s.recvBufferBytes + (u64Max + 1) - payloadBytes payloads) % (u64Max + 1)
    recvSequence := (s.recvSequence + 1) % (u32Max + 1) }

/-- The draining loop of `accept_in_order`. Each turn removes an entry of `recv_buffer`, which
bounds their number. -/
def drain : Nat → Stream → List Bytes → Stream × List Bytes
  | 0, s, out => (s, out)
  | fuel + 1, s, out =>
    match s.recvBuffer.find? (·.1 == s.recvSequence) with
    | none => (s, out)
    | some entry => drain fuel (s.release entry.2) (out ++ entry.2)

/-- `accept_in_order`: the run of payloads now deliverable. -/
def acceptInOrder (s : Stream) (sequence : Nat) (payloads : List Bytes) (now : Nat) :
    Stream × List Bytes :=
  let s := { s with lastDataRecvAt := some now }
  if sequence < s.recvSequence then (s, [])
  else if sequence ≠ s.recvSequence then
    if !s.recvBuffer.any (·.1 == sequence) && s.recvBuffer.length < maxRecvReorder &&
        min (s.recvBufferBytes + payloadBytes payloads) u64Max ≤ s.recvReorderByteLimit then
      ({ s with
          recvBuffer := s.recvBuffer ++ [(sequence, payloads)]
          recvBufferBytes := s.recvBufferBytes + payloadBytes payloads }, [])
    else (s, [])
  else
    drain s.recvBuffer.length { s with recvSequence := (s.recvSequence + 1) % (u32Max + 1) } payloads

/-- `received_sack`: the delivered run and the buffered islands. -/
def receivedSack (s : Stream) (ackDelayUs now : Nat) : Option Sack :=
  if s.recvSequence = 0 ∧ s.recvBuffer = [] then none
  else
    let run := if 0 < s.recvSequence then [(0, s.recvSequence - 1)] else []
    let islands := (s.recvBuffer.map (·.1)).insertionSort (· ≤ ·)
    let ranges := ((islands.map fun o => (o, o)).foldl (Ranges.push u32Max) run).reverse
    let delay :=
      if ackDelayUs ≠ 0 then ackDelayUs
      else (s.lastDataRecvAt.map fun t => min ((now - t) / 1000) u32Max).getD 0
    Sack.fromInclusiveRanges ranges delay

end Stream

end PhantomProtocol
