import PhantomProtocol.Api.DeliveryBacklog
import PhantomProtocol.Transport.Proof.SendLedger

/-!
# A stream its peer has dropped

One direction of a stream whose receiver has let go of it while the sender is still writing: the
sender of `SendLedger`, and the branch of `handle_packet` for a retired stream, which keeps no state
and answers a segment from the segment alone. What was written while the stream was held can still
be under way. Once written, a SACK or a `WINDOW_UPDATE` stays on the network and can arrive any
number of times, or never; so an answer that could not be sent is one that never arrives.
-/

namespace PhantomProtocol

def maxRecvReliableChunk : Nat := maxRecvPayload - reliableOffsetLen
def releasedGrantStride : Nat := 16

def releasedStreamGrant (streamOffset : Nat) (isPersistProbe fin : Bool) : Option Nat :=
  if fin || (!isPersistProbe && streamOffset % releasedGrantStride != 0) then none
  else
    some (min (min ((streamOffset + 1) * maxRecvReliableChunk) u64Max + maxRecvWindow) u64Max)

namespace ReleasedStream

/-- How the receiver tells the probe: an empty segment that is not a FIN. -/
def isPersistProbe (seg : OutboundSegment) : Bool := seg.data.isEmpty && !seg.fin

structure State where
  sender : SendLedger.State
  sacks : List Sack
  /-- Every `WINDOW_UPDATE` that has been written, with the offset it answers. -/
  updates : List (Nat × Nat)
  /-- The offsets whose grants the sender has applied. -/
  applied : List Nat
deriving DecidableEq

inductive Event where
  | sender (e : SendLedger.Event)
  /-- An acknowledgement arrives from the time the stream was held. -/
  | heldSack (sack : Sack) (now : Nat)
  /-- A limit arrives from that time. -/
  | heldLimit (limit : Nat)
  | segment (i : Nat)
  | sack (i now : Nat)
  | windowUpdate (i : Nat)
deriving DecidableEq

def init : State where
  sender := SendLedger.init
  sacks := []
  updates := []
  applied := []

/-- The application's chunks fit a frame, and it offers nothing after the FIN. -/
def calls (tx : Stream) : SendLedger.Event → Bool
  | .offer o => decide (o.data.length ≤ maxRecvReliableChunk) && !tx.localFinished
  | .sendUnreliable _ | .pollSend .. | .written | .refused | .resetRto => true
  | .ack .. | .onSack .. | .windowUpdate _ => false

/-- While it held the stream, the receiver acknowledged what had arrived. -/
def acksWritten (s : SendLedger.State) (sack : Sack) : Bool :=
  s.tx.sendBuffer.all fun p => !sack.acks p.streamOffset ||
    s.written.any fun seg => seg.reliable && seg.streamOffset == p.streamOffset

/-- The branch of `handle_packet` for a retired stream: every offset up to this one is
acknowledged, and where `released_stream_grant` says so a limit is granted. -/
def answer (s : State) (seg : OutboundSegment) : State :=
  { s with
    sacks := s.sacks ++ (Sack.fromInclusiveRanges [(0, seg.streamOffset)] 0).toList
    updates := s.updates ++ ((releasedStreamGrant seg.streamOffset (isPersistProbe seg) seg.fin).map
      (seg.streamOffset, ·)).toList }

def step (s : State) : Event → Option State
  | .sender e =>
    if calls s.sender.tx e then (SendLedger.step s.sender e).map fun snd => { s with sender := snd }
    else none
  | .heldSack sack now =>
    if acksWritten s.sender sack then
      (SendLedger.step s.sender (.onSack sack now)).map fun snd => { s with sender := snd }
    else none
  | .heldLimit limit =>
    (SendLedger.step s.sender (.windowUpdate limit)).map fun snd => { s with sender := snd }
  | .segment i =>
    match s.sender.written[i]? with
    | none => none
    | some seg => if seg.reliable then some (answer s seg) else none
  | .sack i now =>
    match s.sacks[i]? with
    | none => none
    | some k => (SendLedger.step s.sender (.onSack k now)).map fun snd => { s with sender := snd }
  | .windowUpdate i =>
    match s.updates[i]? with
    | none => none
    | some (offset, limit) =>
      (SendLedger.step s.sender (.windowUpdate limit)).map fun snd =>
        { s with sender := snd, applied := s.applied ++ [offset] }

end ReleasedStream

end PhantomProtocol
