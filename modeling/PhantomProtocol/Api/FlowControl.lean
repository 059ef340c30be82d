import PhantomProtocol.Api.Pump
import PhantomProtocol.Transport.Proof.ReliableDelivery

/-!
# Flow control between two endpoints

One direction of one stream with its flow control: the reliable delivery of `ReliableDelivery`, the
channel of the receiver's delivery task, the slot in which limits are staged, and the send loop that
flushes it (`flush_pending_window_updates`). Once written, a `WINDOW_UPDATE` stays on the network
and can arrive any number of times, or never.
-/

namespace PhantomProtocol.FlowControl

structure State where
  link : ReliableDelivery.State
  /-- The delivery task's channel: payloads, and whether they came on the reliable path. -/
  queue : List (Bytes × Bool)
  pendingWindowUpdate : Nat
  /-- The limit the send loop has taken from the slot and is writing. -/
  flushing : Option Nat
  updates : List Nat
  issued : List Nat
  applied : List Nat

inductive Event where
  /-- A call on the sender, or the arrival of an acknowledgement. -/
  | transport (e : ReliableDelivery.Event)
  /-- The `i`-th segment written arrives; `acked` says whether `send_stream_sack` goes through. -/
  | segment (i now : Nat) (acked : Bool)
  | consume (now : Nat)
  | flush
  | flushed (ok : Bool)
  | windowUpdate (i : Nat)
deriving DecidableEq

/-- The initial window counts as issued, and as applied. -/
def init : State where
  link := ReliableDelivery.init
  queue := []
  pendingWindowUpdate := 0
  flushing := none
  updates := []
  issued := [initialStreamWindow]
  applied := [initialStreamWindow]

/-- The receiver states a limit: it is staged for the send loop. -/
def issue (s : State) (limit : Nat) : State :=
  { s with
    pendingWindowUpdate := Stream.stageWindowUpdateLimit s.pendingWindowUpdate limit
    issued := limit :: s.issued }

/-- `deliver_in_order_run`: empty payloads are dropped. -/
def deliverInOrderRun (run : List Bytes) : List (Bytes × Bool) :=
  (run.filter fun data => !data.isEmpty).map fun data => (data, true)

/-- The reliable branch of `handle_packet`. When the acknowledgement cannot be sent, the function
returns before it delivers; an empty segment that is not a FIN asks for the limit. -/
def arrive (s : State) (seg : OutboundSegment) (now : Nat) (acked : Bool) : State :=
  let link := ReliableDelivery.arrive s.link seg now
  if acked then
    let run := (s.link.rx.acceptInOrder seg.streamOffset [seg.data] now).2
    let s' := { s with link, queue := s.queue ++ deliverInOrderRun run }
    if seg.data.isEmpty && !seg.fin then issue s' link.rx.recvLimit else s'
  else { s with link }

/-- Unreliable data goes to the delivery task as it arrives. -/
def arriveUnreliable (s : State) (seg : OutboundSegment) : State :=
  if seg.data.isEmpty then s else { s with queue := s.queue ++ [(seg.data, false)] }

/-- The delivery task credits a payload before it hands it on. -/
def consume (s : State) (data : Bytes) (reliable : Bool) (now : Nat) : State :=
  let r := s.link.rx.recordAppConsumed s.link.tuning (data.length % (u32Max + 1)) reliable now
  let s' := { s with link := { s.link with rx := r.1, tuning := r.2.1 } }
  match r.2.2 with
  | some limit => issue s' limit
  | none => s'

/-- The transport's events that are not replaced by one of this system. Chunks are cut before they
are offered to a stream. -/
def offers : ReliableDelivery.Event → Bool
  | .offer o => o.data.length ≤ maxAppChunk
  | .segment .. => false
  | .windowUpdate _ => false
  | .consumed .. => false
  | _ => true

def step (s : State) : Event → Option State
  | .transport e =>
    if offers e then (ReliableDelivery.step s.link e).map fun link => { s with link }
    else none
  | .segment i now acked =>
    s.link.segments[i]?.map fun seg =>
      if seg.reliable then arrive s seg now acked else arriveUnreliable s seg
  | .consume now =>
    match s.queue with
    | [] => none
    | (data, reliable) :: rest => some (consume { s with queue := rest } data reliable now)
  | .flush =>
    if s.flushing.isSome then none
    else
      let r := Stream.takePendingWindowUpdate s.pendingWindowUpdate
      some { s with pendingWindowUpdate := r.1, flushing := r.2 }
  | .flushed ok =>
    s.flushing.map fun limit =>
      if ok then { s with flushing := none, updates := s.updates ++ [limit] }
      else
        { s with
          flushing := none
          pendingWindowUpdate := Stream.stageWindowUpdateLimit s.pendingWindowUpdate limit }
  | .windowUpdate i =>
    s.updates[i]?.map fun limit =>
      { s with
        link := { s.link with tx := s.link.tx.applyPeerWindowLimit limit }
        applied := limit :: s.applied }

section

variable (s : State)
include s

section

variable (seg : OutboundSegment)
include seg

@[simp] theorem arrive_link (now : Nat) (acked : Bool) :
    (arrive s seg now acked).link = ReliableDelivery.arrive s.link seg now := by
  unfold arrive
  dsimp only
  split <;> [split; skip] <;> rfl

@[simp] theorem arrive_applied (now : Nat) (acked : Bool) :
    (arrive s seg now acked).applied = s.applied := by
  unfold arrive
  dsimp only
  split <;> [split; skip] <;> rfl

@[simp] theorem arriveUnreliable_link : (arriveUnreliable s seg).link = s.link := by
  unfold arriveUnreliable
  split <;> rfl

@[simp] theorem arriveUnreliable_applied : (arriveUnreliable s seg).applied = s.applied := by
  unfold arriveUnreliable
  split <;> rfl

end

@[simp] theorem consume_link (data : Bytes) (reliable : Bool) (now : Nat) :
    (consume s data reliable now).link =
      { s.link with
        rx := (s.link.rx.recordAppConsumed s.link.tuning (data.length % (u32Max + 1)) reliable now).1
        tuning := (s.link.rx.recordAppConsumed s.link.tuning (data.length % (u32Max + 1))
          reliable now).2.1 } := by
  unfold consume
  dsimp only
  split <;> rfl

@[simp] theorem consume_applied (data : Bytes) (reliable : Bool) (now : Nat) :
    (consume s data reliable now).applied = s.applied := by
  unfold consume
  dsimp only
  split <;> rfl

end

end PhantomProtocol.FlowControl
