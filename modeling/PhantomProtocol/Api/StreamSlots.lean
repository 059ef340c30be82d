import PhantomProtocol.Api.StreamReceive
import PhantomProtocol.Api.StreamTable

/-!
# The slots of two endpoints

Two endpoints of a session, one of which opens all the streams. Each has the table of `StreamTable`
and, for every id, the `Stream` behind it; what they put on the wire can arrive any number of times,
in any order, or never. The opener takes a slot when it opens a stream, the acceptor when the first
segment of the stream arrives and finds one free. Either gives its slot back when it drops the
stream: when its own half is closed and acknowledged, and the peer's half has ended or the handle
of the application is gone.

A write or a close stands here for its admission to the send buffer by the pump
(`flush_deferred_sends`).
-/

namespace PhantomProtocol

namespace StreamSlots

/-- A `Stream` with the flags that decide when it is dropped. -/
structure Half where
  stream : Stream
  remoteFin : RemoteFin
  appReleased : Bool
deriving DecidableEq

namespace Half

def new : Half := ⟨.new, .new, false⟩

def hasSentReliable (h : Half) : Bool := decide (0 < h.stream.reliableOffset)

def isFinAcked (h : Half) : Bool := h.stream.localFinished && h.stream.sendBuffer.isEmpty

def isRetirable (h : Half) : Bool := (h.remoteFin.finished || h.appReleased) && h.isFinAcked

/-- The reliable branch of `handle_packet` on a stream that has been found, and the SACK that it
sends. -/
def accept (h : Half) (seg : OutboundSegment) (now : Nat) (acked : Bool) : Half × Option Sack :=
  let accepted := h.stream.acceptInOrder seg.streamOffset [seg.data] now
  let h := { h with stream := accepted.1 }
  match accepted.1.receivedSack 0 now with
  | none => (h, none)
  | some sack =>
    if acked then
      let noted := if seg.fin then h.remoteFin.noteRemoteFin seg.streamOffset else h.remoteFin
      ({ h with remoteFin := (noted.takeInOrderFin accepted.1.recvSequence).1 }, some sack)
    else (h, none)

end Half

/-- The FIN of a stream whose offset space is used up. -/
def bareFin : OutboundSegment where
  streamOffset := 0
  data := []
  reliable := false
  retransmit := false
  firstRetransmit := false
  lossCause := none
  fin := true

structure Endpoint where
  table : StreamTable.State
  streams : UInt16 → Half
  /-- The segment that the receive task is handling. -/
  handling : Option (UInt16 × OutboundSegment)
  segments : List (UInt16 × OutboundSegment)
  acks : List (UInt16 × Sack)

/-- What a task of one endpoint does. -/
inductive Action where
  /-- The steps of `open_stream`. -/
  | claim
  | allocate
  | undo
  | insert (id : UInt16)
  /-- A write, or the FIN behind a `disconnect` or a drop, is admitted. -/
  | write (id : UInt16) (data : Bytes)
  | close (id : UInt16)
  /-- The pump notes that the handle of a stream is gone. -/
  | release (id : UInt16)
  /-- The pump drops such a stream, or the drop of the handle does. -/
  | retireReleased (id : UInt16)
  /-- The pump sends what is due on a stream. -/
  | transmit (id : UInt16) (cwndBudget deliveredNow deliveredTimeNow : Nat) (appLimitedNow : Bool)
      (now : Nat)
  /-- The `i`-th segment of the peer arrives. -/
  | arrive (i : Nat)
  /-- The steps of the receive task on an id that is not in the table. -/
  | classify
  | check
  | insertPeer
  | markSeen
  | countPeer
  /-- The segment is accepted; `acked` says whether `send_stream_sack` goes through. -/
  | accept (now : Nat) (acked : Bool)
  | ackArrive (i : Nat) (now : Nat)
  | retire (id : UInt16)
  /-- A stream that was dropped is counted out. -/
  | countRetired
  | countReleased (id : UInt16)
deriving DecidableEq

/-- A step of `open_stream`. -/
def Action.opens : Action → Bool
  | .claim | .allocate | .undo | .insert _ => true
  | _ => false

namespace Endpoint

def new (side : Side) : Endpoint where
  table := StreamTable.init side
  streams _ := .new
  handling := none
  segments := []
  acks := []

def holds (ep : Endpoint) (id : UInt16) : Prop := id.toNat ∈ ep.table.table

instance (ep : Endpoint) (id : UInt16) : Decidable (ep.holds id) :=
  inferInstanceAs (Decidable (_ ∈ _))

def onTable (ep : Endpoint) (e : StreamTable.Event) : Option Endpoint :=
  (StreamTable.step ep.table e).map fun table => { ep with table }

def setHalf (ep : Endpoint) (id : UInt16) (h : Half) : Endpoint :=
  { ep with streams := Function.update ep.streams id h }

def setStream (ep : Endpoint) (id : UInt16) (stream : Stream) : Endpoint :=
  ep.setHalf id { ep.streams id with stream }

/-- The FIN is queued; once the offsets are used up, the stream is dropped with a bare FIN. -/
def close (ep : Endpoint) (id : UInt16) : Option Endpoint :=
  match (ep.streams id).stream.tryQueueFin with
  | (stream, .ok _) => some (ep.setStream id stream)
  | (_, .error _) =>
    (ep.onTable (.exhaust id.toNat)).map fun ep =>
      { ep with segments := ep.segments ++ [(id, bareFin)] }

def transmit (ep : Endpoint) (id : UInt16) (polled : Stream × Except SendBlocked OutboundSegment) :
    Endpoint :=
  match polled with
  | (stream, .ok seg) => { ep.setStream id stream with segments := ep.segments ++ [(id, seg)] }
  | (stream, .error _) => ep.setStream id stream

/-- A reliable segment is looked up; another one can only end the peer's half. -/
def arrive (ep : Endpoint) (id : UInt16) (seg : OutboundSegment) : Option Endpoint :=
  if seg.reliable then
    (ep.onTable (.segment id)).map fun ep => { ep with handling := some (id, seg) }
  else if ep.holds id ∧ seg.fin then
    let h := ep.streams id
    some (ep.setHalf id { h with remoteFin := { h.remoteFin with finished := true } })
  else some ep

/-- The receive task is done with the segment unless it has a stream to open. -/
def unlessOpening (ep : Endpoint) : Endpoint :=
  if ep.table.reader = .idle then { ep with handling := none } else ep

/-- A segment of a stream that was dropped is acknowledged. -/
def classify (ep : Endpoint) (id : UInt16) (seg : OutboundSegment) : Option Endpoint :=
  (ep.onTable .classify).map fun ep' =>
    let retired := classifyUnheldStream id.toNat ep.table.demux ep.table.peerStreams = .retired
    let sack := if retired then Sack.fromInclusiveRanges [(0, seg.streamOffset)] 0 else none
    { ep'.unlessOpening with acks := ep.acks ++ (sack.map (id, ·)).toList }

def accept (ep : Endpoint) (id : UInt16) (seg : OutboundSegment) (now : Nat) (acked : Bool) :
    Endpoint :=
  let accepted := (ep.streams id).accept seg now acked
  { ep.setHalf id accepted.1 with
    handling := none
    acks := ep.acks ++ (accepted.2.map (id, ·)).toList }

/-- The receive task waits for the next frame. -/
def awaits (ep : Endpoint) : Bool := ep.handling.isNone && decide (ep.table.reader = .idle)

def act (ep peer : Endpoint) : Action → Option Endpoint
  | .claim => ep.onTable .claim
  | .allocate => ep.onTable .allocate
  | .undo => ep.onTable .undo
  | .insert id => (ep.onTable (.insertLocal id.toNat)).map fun ep => ep.setHalf id .new
  | .write id data =>
    if ep.holds id ∧ (ep.streams id).stream.localFinished = false then
      some (ep.setStream id ((ep.streams id).stream.trySendReliable data).1)
    else none
  | .close id => if ep.holds id then ep.close id else none
  | .release id =>
    if ep.holds id then some (ep.setHalf id { ep.streams id with appReleased := true }) else none
  | .retireReleased id =>
    let h := ep.streams id
    if h.appReleased && h.isRetirable ||
        ep.table.demux.isLocalStreamId id.toNat && !h.hasSentReliable then
      ep.onTable (.release id.toNat)
    else none
  | .transmit id cwndBudget deliveredNow deliveredTimeNow appLimitedNow now =>
    if ep.holds id then
      some (ep.transmit id ((ep.streams id).stream.pollSend cwndBudget deliveredNow deliveredTimeNow
        appLimitedNow now))
    else none
  | .arrive i =>
    if ep.awaits then peer.segments[i]?.bind fun (id, seg) => ep.arrive id seg else none
  | .classify => ep.handling.bind fun (id, seg) => ep.classify id seg
  | .check => (ep.onTable .check).map unlessOpening
  | .insertPeer =>
    ep.handling.bind fun (id, _) => (ep.onTable .insertPeer).map fun ep => ep.setHalf id .new
  | .markSeen => ep.onTable .markSeen
  | .countPeer => ep.onTable .countPeer
  | .accept now acked =>
    if ep.table.reader = .idle then
      ep.handling.map fun (id, seg) => ep.accept id seg now acked
    else none
  | .ackArrive i now =>
    if ep.awaits then
      peer.acks[i]?.map fun (id, sack) =>
        if ep.holds id then ep.setStream id ((ep.streams id).stream.onSack sack now).1 else ep
    else none
  | .retire id =>
    if ep.handling.isNone && (ep.streams id).isRetirable then ep.onTable (.retire id.toNat)
    else none
  | .countRetired => ep.onTable .countRetired
  | .countReleased id => ep.onTable (.countReleased id.toNat)

end Endpoint

structure State where
  opener : Endpoint
  acceptor : Endpoint

inductive Event where
  | opener (a : Action)
  | acceptor (a : Action)
deriving DecidableEq

def init (side : Side) : State := ⟨.new side, .new side.other⟩

def step (s : State) : Event → Option State
  | .opener a => (s.opener.act s.acceptor a).map fun ep => { s with opener := ep }
  | .acceptor a =>
    if a.opens then none
    else (s.acceptor.act s.opener a).map fun ep => { s with acceptor := ep }

/-- The acceptor refuses to open the stream of a segment. -/
def Refuses (s : State) : Event → Prop
  | .acceptor .check =>
    (∃ id, s.acceptor.table.reader = .opens id) ∧ maxStreams ≤ s.acceptor.table.gauge.peerOpen
  | _ => False

/-- The stream has a slot: it is in the table, or dropped and not counted out. -/
def Occupies (t : StreamTable.State) (id : Nat) : Prop :=
  id ∈ t.table ∨ id ∈ t.releasing ∨ t.reader = .retiring id

instance (t : StreamTable.State) (id : Nat) : Decidable (Occupies t id) :=
  inferInstanceAs (Decidable (_ ∨ _ ∨ _))

/-- The acceptor has opened the stream and given its slot back. -/
def Finished (s : State) (id : Nat) : Prop :=
  id ∈ s.acceptor.table.entered.map (·.1) ∧ ¬Occupies s.acceptor.table id

instance (s : State) (id : Nat) : Decidable (Finished s id) := inferInstanceAs (Decidable (_ ∧ _))

/-- The streams on the wire whose slot the opener has given back and the acceptor has not, or will
yet take. -/
def givenBackEarly (s : State) : Finset Nat :=
  (s.opener.segments.map (·.1.toNat)).toFinset.filter fun id =>
    ¬Occupies s.opener.table id ∧ ¬Finished s id

/-- When `open_stream` claims a slot, these and the streams it counts are fewer than the limit. -/
def ClaimsWithRoom (s : State) (e : Event) (_ : State) : Prop :=
  e = .opener .claim → s.opener.table.gauge.localOpen < maxStreams →
    s.opener.table.gauge.localOpen + (givenBackEarly s).card < maxStreams

instance (s : State) (e : Event) (s' : State) : Decidable (ClaimsWithRoom s e s') :=
  inferInstanceAs (Decidable (_ → _))

end StreamSlots

end PhantomProtocol
