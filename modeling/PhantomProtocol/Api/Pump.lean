import PhantomProtocol.Transport.BandwidthEstimator
import PhantomProtocol.Transport.Stream

/-!
# The data pump and congestion control

`drain_streams_inner` and `send_app_data` for one stream, cut at the points where the receive task
can run in between, and the receive task's handling of an acknowledgement (the ACK branch of
`handle_packet`), cut in the same way.
-/

namespace PhantomProtocol

/-- `MAX_APP_CHUNK`: what one datagram carries of an application's write. -/
def maxAppChunk : Nat := 1156

namespace Pump

/-- Where the pump is with the segment it has taken from `poll_send`. -/
inductive Task where
  | idle
  | polled (seg : OutboundSegment)
  /-- A retransmission has been taken off the flight. -/
  | booked (seg : OutboundSegment)
  /-- The transport has accepted the write. -/
  | written (seg : OutboundSegment)
  /-- The transport has refused it. -/
  | refused (seg : OutboundSegment)
deriving DecidableEq, Repr

/-- Where `poll_send` leaves the pump. -/
def Task.ofPoll : Except SendBlocked OutboundSegment → Task
  | .ok seg => .polled seg
  | .error _ => .idle

structure State where
  stream : Stream
  estimator : BandwidthEstimator
  task : Task
  /-- The retired segments the receive task has still to report to the estimator. -/
  reports : List RetiredSegment
deriving DecidableEq, Repr

inductive Event where
  /-- The pump admits a chunk of an application's write. -/
  | trySendReliable (data : Bytes)
  | tryQueueFin
  | sendUnreliable (data : Bytes)
  | windowUpdate (limit : Nat)
  /-- `poll_send`, with the congestion window and the application-limited phase the estimator
  states. -/
  | pollSend (cwnd : Nat) (appLimited : Bool) (now : Nat)
  | book
  | write (accepted : Bool)
  | settle
  /-- The receive task processes an acknowledgement. -/
  | onSack (sack : Sack) (now : Nat)
  /-- The receive task reports the next retired segment. -/
  | onPacketAcked (now : Nat)

def init : State := ⟨.new, .new 0, .idle, []⟩

/-- The block `if seg.retransmit { .. }` of the drain loop. -/
def book (e : BandwidthEstimator) (seg : OutboundSegment) : BandwidthEstimator :=
  if seg.retransmit then e.bookCopy seg.data.length seg.firstRetransmit else e

def step (s : State) : Event → Option State
  | .trySendReliable data =>
    if data.length ≤ maxAppChunk then some { s with stream := (s.stream.trySendReliable data).1 }
    else none
  | .tryQueueFin => some { s with stream := s.stream.tryQueueFin.1 }
  | .sendUnreliable data => some { s with stream := s.stream.sendUnreliable data }
  | .windowUpdate limit => some { s with stream := s.stream.applyPeerWindowLimit limit }
  | .pollSend cwnd appLimited now =>
    match s.task with
    | .idle =>
      let r := s.stream.pollSend (cwnd - s.estimator.inflightBytes) s.estimator.deliveredBytes
        s.estimator.lastDelivery appLimited now
      some { s with stream := r.1, task := .ofPoll r.2 }
    | _ => none
  | .book =>
    match s.task with
    | .polled seg => some { s with task := .booked seg, estimator := book s.estimator seg }
    | _ => none
  | .write accepted =>
    match s.task with
    | .booked seg => some { s with task := if accepted then .written seg else .refused seg }
    | _ => none
  | .settle =>
    match s.task with
    | .written seg =>
      some { s with
        task := .idle
        estimator := if seg.reliable then s.estimator.onSend seg.data.length else s.estimator }
    | .refused seg =>
      some { s with
        task := .idle
        stream := if seg.reliable then s.stream.markUnsent seg.streamOffset else s.stream }
    | _ => none
  | .onSack sack now =>
    match s.reports with
    | [] =>
      let r := s.stream.onSack sack now
      some { s with stream := r.1, reports := r.2.retired.filter (·.sentAt.isSome) }
    | _ :: _ => none
  | .onPacketAcked now =>
    match s.reports with
    | [] => none
    | r :: rest => some { s with reports := rest, estimator := s.estimator.onAck r.size now }

end Pump

end PhantomProtocol
