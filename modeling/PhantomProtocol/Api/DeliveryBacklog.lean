import PhantomProtocol.Api.StreamReceive
import PhantomProtocol.Transport.PacketCoalescer

/-!
# Delivery backlog

The receive task hands what it has taken off the wire to the delivery tasks through an unbounded
channel. `undelivered_bytes` counts what is waiting there, each item charged for its payload and its
structure; the receive task looks at the counter before it reads a frame and ends the session above
`RECV_DELIVERY_HARD_CAP`.

Modelled are the receive task with the branches of `handle_packet` that can enqueue something, the
delivery tasks that take items off, and the pump where it adds a stream to the table or drops one.
What concerns only the sending half of a stream is left out: whether that half is done, whether the
table takes a new stream and whether the acknowledgement can be sent are inputs (`Env`).
-/

namespace PhantomProtocol

/-! ## Bounds -/

def reliableOffsetLen : Nat := 4
def perPacketOverhead : Nat := PacketHeader.size + reliableOffsetLen + aeadOverhead
def legacyAppChunk : Nat := 1300
def maxRecvFrame : Nat := legacyAppChunk + perPacketOverhead
def maxRecvPayload : Nat := maxRecvFrame - PacketHeader.size - aeadOverhead

def recvDeliveryHardCap : Nat := 4 * 1024 * 1024
def deliveryItemOverheadBytes : Nat := 128

def deliveryCharge (payloadLen : Nat) : Nat := payloadLen + deliveryItemOverheadBytes

/-! ## Bundles -/

/-- `unwrap_coalesced_packet` on the payload of a frame that has the flag. `none`: a parse error. -/
def unwrapCoalescedPacket : Bytes → Option (List Bytes)
  | hi :: lo :: rest =>
    let claimedCount := beNat [hi, lo]
    let out := Decoalescer.subs claimedCount rest
    if out.length = claimedCount then some out else none
  | _ => none

open Decoalescer in
def maxDeliveryChargePerFrame : Nat :=
  let bundle := maxRecvPayload - headerSize
  let perSub := subHeaderSize + 1
  bundle / perSub * (1 + deliveryItemOverheadBytes)

/-- What an item is charged when it is enqueued, and released when it is taken off. -/
def DeliverItem.charge : DeliverItem → Nat
  | .data payload _ => deliveryCharge payload.length
  | .close => deliveryCharge 0
  | .retire => 0

def DeliverItem.charges (items : List DeliverItem) : Nat := (items.map charge).sum

def RemoteFin.noteUnorderedRemoteFin (f : RemoteFin) : RemoteFin × Bool :=
  ({ f with finished := true }, !f.finished)

namespace DeliveryBacklog

structure Inbound where
  wireLen : Nat
  flags : PacketFlags
  streamId : UInt16
  /-- The plaintext behind the AEAD and the padding, of a frame that passes both. -/
  plaintext : Option Bytes
  /-- A header and an authentication tag are around it. -/
  fits : ∀ p ∈ plaintext, PacketHeader.size + p.length + aeadOverhead ≤ wireLen

/-- What the code around this part decides while a frame is handled. -/
structure Env where
  now : Nat
  /-- The SACK of an acknowledgement is well formed. -/
  sackOk : Bool
  /-- An id that is not in the table opens a stream. -/
  opens : Bool
  /-- `send_stream_sack` goes through. -/
  acked : Bool
  /-- This side's half is done, so that the stream is dropped when the peer's half is. -/
  retirable : Bool

structure Held where
  rx : Stream
  remoteFin : RemoteFin

structure State where
  streams : UInt16 → Option Held
  tuning : SharedRecvTuning
  /-- The items that are in the channels of the delivery tasks. -/
  queue : List (UInt16 × DeliverItem)
  undelivered : Nat
  /-- The channel has a receiver. -/
  taking : Bool
  ended : Bool

def Held.new : Held := ⟨.new, .new⟩

def init : State where
  streams _ := none
  tuning := ⟨sessionRecvWindowGrowthBudget⟩
  queue := []
  undelivered := 0
  taking := true
  ended := false

namespace State

def put (s : State) (id : UInt16) (held : Option Held) : State :=
  { s with streams := Function.update s.streams id held }

/-- `deliver_tx.send`, and the charge when that succeeds. No one else reads the counter while a
frame is handled, so that the two are one step. -/
def enqueue (s : State) (id : UInt16) (items : List DeliverItem) : State :=
  if s.taking then
    { s with
      queue := s.queue ++ items.map (id, ·)
      undelivered := s.undelivered + DeliverItem.charges items }
  else s

/-- `retire_stream`, for a stream that is in the table. -/
def retireStream (s : State) (id : UInt16) : State :=
  if id ≤ rawAppStreamId then s else (s.put id none).enqueue id [.retire]

def retireIf (s : State) (id : UInt16) (retirable : Bool) : State :=
  if retirable then s.retireStream id else s

def takeUnorderedRemoteFin (s : State) (id : UInt16) (held : Held) : State :=
  if rawAppStreamId < id then
    let noted := held.remoteFin.noteUnorderedRemoteFin
    let s := s.put id (some { held with remoteFin := noted.1 })
    if noted.2 then s.enqueue id [.close] else s
  else s

/-- A FIN outside the reliable stream, on a stream that is in the table. The stream is dropped when
both halves are done. -/
def unorderedFin (s : State) (id : UInt16) (fin : Bool) (env : Env) : State :=
  match s.streams id with
  | none => s
  | some held =>
    (if fin then s.takeUnorderedRemoteFin id held else s).retireIf id env.retirable

/-- The stream a reliable segment is for. -/
def target (s : State) (id : UInt16) (opens : Bool) : Option Held :=
  (s.streams id).or (if opens then some .new else none)

/-- The peer's FIN is noted, and taken if the cursor is past it. -/
def takeFin (held : Held) (streamOffset : Nat) (fin : Bool) (cursor : Nat) : RemoteFin × Bool :=
  (if fin then held.remoteFin.noteRemoteFin streamOffset else held.remoteFin).takeInOrderFin cursor

/-- A reliable segment on its stream. -/
def reliableSegment (s : State) (id : UInt16) (held : Held) (streamOffset : Nat) (data : Bytes)
    (fin : Bool) (env : Env) : State :=
  let accepted := held.rx.acceptInOrder streamOffset [data] env.now
  let s := s.put id (some { held with rx := accepted.1 })
  if (accepted.1.receivedSack 0 env.now).isNone || !env.acked then s
  else
    let taken := takeFin held streamOffset fin accepted.1.recvSequence
    let s := (s.put id (some ⟨accepted.1, taken.1⟩)).enqueue id (handOn accepted.2)
    if taken.2 then (s.enqueue id [.close]).retireIf id env.retirable else s

def reliableFrame (s : State) (id : UInt16) (plaintext : Bytes) (fin : Bool) (env : Env) : State :=
  if plaintext.length < reliableOffsetLen then s
  else
    match s.target id env.opens with
    | none => s
    | some held =>
      s.reliableSegment id held (beNat (plaintext.take reliableOffsetLen))
        (plaintext.drop reliableOffsetLen) fin env

open PacketFlags in
/-- `handle_packet` from the point where the frame is open. -/
def dispatch (s : State) (flags : PacketFlags) (id : UInt16) (plaintext : Bytes) (env : Env) :
    State :=
  if flags.contains keepalive || flags.contains control || flags.contains cover then s
  else if flags.contains PacketFlags.ack then
    if env.sackOk then s.unorderedFin id (flags.contains PacketFlags.fin) env else s
  else if flags.contains windowUpdate || flags.contains PacketFlags.pathValidation then s
  else if flags.contains coalesced then
    match unwrapCoalescedPacket plaintext with
    | none => s
    | some subs => s.enqueue id (handOn subs)
  else if flags.contains reliable then
    s.reliableFrame id plaintext (flags.contains PacketFlags.fin) env
  else
    let s := if plaintext.isEmpty then s else s.enqueue id [.data plaintext false]
    if flags.contains PacketFlags.fin then s.unorderedFin id true env else s

def handlePacket (s : State) (f : Inbound) (env : Env) : State :=
  match f.plaintext with
  | none => s
  | some plaintext =>
    if f.flags.contains PacketFlags.encrypted then s.dispatch f.flags f.streamId plaintext env
    else s

def receive (s : State) (f : Inbound) (env : Env) : State :=
  if recvDeliveryHardCap < s.undelivered then { s with ended := true }
  else if maxRecvFrame < f.wireLen then s
  else s.handlePacket f env

/-- A delivery task credits the payload it has taken. What came on id 0 or 1 counts for the stream
of the raw application. -/
def credit (s : State) (id : UInt16) (item : DeliverItem) (now : Nat) : State :=
  let id := if id ≤ rawAppStreamId then rawAppStreamId else id
  match item, s.streams id with
  | .data payload reliable, some held =>
    let r := held.rx.recordAppConsumed s.tuning (payload.length % (u32Max + 1)) reliable now
    { s.put id (some { held with rx := r.1 }) with tuning := r.2.1 }
  | _, _ => s

end State

inductive Event where
  | frame (f : Inbound) (env : Env)
  /-- An item leaves the channels. The tasks serve the ids side by side, in any order. -/
  | deliver (i : Nat) (now : Nat)
  /-- An item is lost with the task it was for, and its charge with it. -/
  | strand (i : Nat)
  /-- `open_stream`, or the pump's own stream. -/
  | open (id : UInt16)
  | drop (id : UInt16)
  | hangUp

def step (s : State) : Event → Option State
  | .frame f env => if s.ended then none else some (s.receive f env)
  | .deliver i now =>
    s.queue[i]?.map fun (id, item) =>
      { s.credit id item now with
        queue := s.queue.eraseIdx i, undelivered := s.undelivered - item.charge }
  | .strand i => s.queue[i]?.map fun _ => { s with queue := s.queue.eraseIdx i }
  | .open id => if (s.streams id).isSome then none else some (s.put id (some .new))
  | .drop id => if id ≤ rawAppStreamId then none else some (s.put id none)
  | .hangUp => some { s with taking := false }

/-! ## What a segment sets free -/

/-- The buffered segments that follow on each other from offset `o` on. -/
def behind (buf : List (Nat × List Bytes)) : Nat → Nat → List (Nat × List Bytes)
  | 0, _ => []
  | fuel + 1, o =>
    match buf.find? (·.1 == o) with
    | none => []
    | some e => e :: behind buf fuel (o + 1)

/-- The segments that are buffered right behind the one the cursor is waiting for. -/
def nextRun (rx : Stream) : List (Nat × List Bytes) :=
  behind rx.recvBuffer rx.recvBuffer.length (rx.recvSequence + 1)

/-- With the segment that the cursor of a stream is waiting for, those right behind it go to the
application, and the end of the stream if the peer's FIN is among them. -/
def setFree (held : Held) (data : Bytes) (fin : Bool) : List DeliverItem :=
  let o := held.rx.recvSequence
  handOn (data :: (nextRun held.rx).flatMap (·.2)) ++
    if (State.takeFin held o fin (o + 1 + (nextRun held.rx).length)).2 then [.close] else []

/-- They leave the cursor below the end of the offset space. -/
def StaysBelow (rx : Stream) : Prop := rx.recvSequence + 1 + (nextRun rx).length ≤ u32Max

instance (rx : Stream) : Decidable (StaysBelow rx) := inferInstanceAs (Decidable (_ ≤ _))

open PacketFlags in
/-- The frame gets as far as the reliable branch. -/
def Inbound.isSegment (f : Inbound) : Bool :=
  f.flags.contains encrypted && f.flags.contains reliable &&
    ! [keepalive, control, cover, PacketFlags.ack, windowUpdate, PacketFlags.pathValidation,
      coalesced].any f.flags.contains

/-- What is set free by a segment that the cursor is waiting for, and that is acknowledged, is
within the allowance of a frame. -/
def Modest (s : State) (f : Inbound) (env : Env) : Prop :=
  ∀ p ∈ f.plaintext, ∀ held ∈ s.target f.streamId env.opens,
    f.isSegment → reliableOffsetLen ≤ p.length → s.taking → env.acked →
    beNat (p.take reliableOffsetLen) = held.rx.recvSequence → StaysBelow held.rx →
    DeliverItem.charges
        (setFree held (p.drop reliableOffsetLen) (f.flags.contains PacketFlags.fin)) ≤
      maxDeliveryChargePerFrame

/-- The receive loop passes the frame to `handle_packet`. -/
def State.Handles (s : State) (f : Inbound) : Prop :=
  s.undelivered ≤ recvDeliveryHardCap ∧ f.wireLen ≤ maxRecvFrame

/-- The call that the step makes, if any, adds no more than the allowance of a frame. -/
def AddsWithin (s : State) (e : Event) (_ : State) : Prop :=
  match e with
  | .frame f env =>
    s.Handles f → (s.handlePacket f env).undelivered ≤ s.undelivered + maxDeliveryChargePerFrame
  | _ => True

/-- The frame that the step handles, if any, is a modest one. -/
def SetsFreeWithin (s : State) (e : Event) (_ : State) : Prop :=
  match e with
  | .frame f env => s.Handles f → Modest s f env
  | _ => True

end DeliveryBacklog

end PhantomProtocol
