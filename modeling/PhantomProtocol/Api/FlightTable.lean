import Mathlib.Data.List.AList
import Mathlib.Data.List.MinMax
import PhantomProtocol.Transport.Datagram
import PhantomProtocol.Transport.Rto
import PhantomProtocol.Transport.Types

/-!
# Retained handshake replies

`HandshakeFlight` of `api/udp_transport.rs`, as the server transport records it, and `FlightTable`
of `api/udp_listener.rs`: the reply flights a listener can still repeat.

SHA-256 is a parameter. A `delivered` latch is a name, and its reading an argument of the functions
that load it. A `HashMap` is iterated in an order that is an argument too. Times are nanoseconds.
-/

namespace PhantomProtocol

def maxFlightRepeats : Nat := 3
def handshakeFlightRetention : Nat := millis 8000
def retainedFlightBudget : Nat := 8 * 1024 * 1024
def flightAmplificationLimit : Nat := 3

/-- `size_of::<Vec<u8>>()`. -/
def sizeOfVec : Nat := 24

/-- `RETAINED_FLIGHT_ENTRY_OVERHEAD`, where a `ConnId` takes 8 bytes and a `RetainedFlight` 128: the
map's slot at its load factor, and the `Arc` box of the datagram vector. -/
def retainedFlightEntryOverhead : Nat := (8 + 128 + 1) * 8 / 7 + (2 * 8 + sizeOfVec)

/-- The shared flag a session sets when a packet of its peer authenticates, by name. -/
abbrev Latch := Nat

/-- A server handshake reply as it went on the wire, with the question it answers. The question's
frame is not kept by the source. -/
structure HandshakeFlight (Addr : Type) {Digest : Type} (sha256 : Bytes → Digest) where
  datagrams : List Datagram
  peer : Addr
  question : Digest
  wireBytes : Nat
  questionWireBytes : Nat
  delivered : Latch
  questionFrame : Bytes
  wireBytes_eq : wireBytes = PhantomProtocol.wireBytes datagrams
  question_eq : question = sha256 questionFrame
  questionWireBytes_eq : questionWireBytes = wireLen questionFrame.length

/-! ## The server transport -/

/-- What `UdpServerTransport` keeps for the handshake. -/
structure ServerHandshake (Addr : Type) {Digest : Type} (sha256 : Bytes → Digest) where
  peer : Addr
  cid : ConnId
  establishedCid : Option ConnId
  /-- `phase == PHASE_HANDSHAKE`. -/
  inHandshake : Bool
  nextPacketId : UInt32
  /-- `last_handshake_question`: of the frame, its digest and its wire length. -/
  lastHandshakeQuestion : Option Bytes
  handshakeFlight : Option (HandshakeFlight Addr sha256)
  peerAuthenticated : Latch

namespace ServerHandshake

variable {Addr Digest : Type} {sha256 : Bytes → Digest}

def recvBytes (t : ServerHandshake Addr sha256) (frame : Bytes) : ServerHandshake Addr sha256 :=
  if t.inHandshake then { t with lastHandshakeQuestion := some frame } else t

/-- The flight `send_bytes` records when it has sent a handshake reply. -/
def record (t : ServerHandshake Addr sha256) (datagrams : List Datagram) :
    Option (HandshakeFlight Addr sha256) :=
  t.lastHandshakeQuestion.map fun frame =>
    { datagrams
      peer := t.peer
      question := sha256 frame
      wireBytes := wireBytes datagrams
      questionWireBytes := wireLen frame.length
      delivered := t.peerAuthenticated
      questionFrame := frame
      wireBytes_eq := rfl
      question_eq := rfl
      questionWireBytes_eq := rfl }

/-- `send_bytes`. `socketError` is what the socket answers, if it fails. -/
def sendBytes (t : ServerHandshake Addr sha256) (data : Bytes) (socketError : Option String) :
    ServerHandshake Addr sha256 × Except String Unit :=
  let ty := if t.inHandshake then PacketType.initial else .oneRtt
  let sent := { t with nextPacketId := t.nextPacketId + 1 }
  match encodeDatagrams ty (t.establishedCid.getD t.cid) t.nextPacketId data with
  | .error _ =>
    (sent, .error
      "frame too large to fragment: frame exceeds the maximum fragmentable size")
  | .ok datagrams =>
    match socketError with
    | some e => (sent, .error ("udp send_to: " ++ e))
    | none =>
      if ty = .initial then
        ({ sent with handshakeFlight := (t.record datagrams).or t.handshakeFlight }, .ok ())
      else (sent, .ok ())

def takeHandshakeFlight (t : ServerHandshake Addr sha256) :
    ServerHandshake Addr sha256 × Option (HandshakeFlight Addr sha256) :=
  ({ t with handshakeFlight := none, lastHandshakeQuestion := none }, t.handshakeFlight)

end ServerHandshake

/-! ## The table -/

structure RetainedFlight (Addr : Type) {Digest : Type} (sha256 : Bytes → Digest) where
  flight : HandshakeFlight Addr sha256
  repeatsLeft : Nat
  expiresAt : Nat
  chargedBytes : Nat

structure FlightTable (Addr : Type) {Digest : Type} (sha256 : Bytes → Digest) where
  flights : AList fun _ : ConnId => RetainedFlight Addr sha256
  retainedBytes : Nat
  occupancy : Nat

variable {Addr Digest : Type} {sha256 : Bytes → Digest}

def retainedCost (flight : HandshakeFlight Addr sha256) : Nat :=
  retainedFlightEntryOverhead + (flight.datagrams.map fun d => d.capacity + sizeOfVec).sum

namespace FlightTable

abbrev Entry (Addr : Type) {Digest : Type} (sha256 : Bytes → Digest) : Type :=
  Sigma fun _ : ConnId => RetainedFlight Addr sha256

def new : FlightTable Addr sha256 := ⟨∅, 0, 0⟩

/-- `flights.len()`. -/
def len (t : FlightTable Addr sha256) : Nat := t.flights.entries.length

def sync (t : FlightTable Addr sha256) : FlightTable Addr sha256 := { t with occupancy := t.len }

def forget (t : FlightTable Addr sha256) (cid : ConnId) : FlightTable Addr sha256 :=
  match t.flights.lookup cid with
  | none => t
  | some e =>
    { t with flights := t.flights.erase cid, retainedBytes := t.retainedBytes - e.chargedBytes }

/-- What `sweep` keeps. -/
def live (delivered : Latch → Bool) (now : Nat) (e : RetainedFlight Addr sha256) : Bool :=
  !delivered e.flight.delivered && now < e.expiresAt

def sweep (t : FlightTable Addr sha256) (delivered : Latch → Bool) (now : Nat) :
    FlightTable Addr sha256 :=
  let kept := t.flights.entries.filter fun r => live delivered now r.2
  { t with
    flights := ⟨kept, t.flights.nodupKeys.sublist List.filter_sublist⟩
    retainedBytes := (kept.map fun r : Entry Addr sha256 => r.2.chargedBytes).sum }.sync

def oldest (t : FlightTable Addr sha256) (iter : IterOrder (Entry Addr sha256)) : Option ConnId :=
  (List.argmin (fun r : Entry Addr sha256 => r.2.expiresAt)
    (iter.order t.flights.entries)).map (·.1)

/-- The loop of `retain` that makes room for `cost` bytes. Each turn drops an entry, which bounds
their number. -/
def evict (iter : IterOrder (Entry Addr sha256)) (cost : Nat) :
    Nat → FlightTable Addr sha256 → FlightTable Addr sha256
  | 0, t => t
  | fuel + 1, t =>
    if t.len ≠ 0 ∧ retainedFlightBudget < t.retainedBytes + cost then
      match t.oldest iter with
      | none => t
      | some cid => evict iter cost fuel (t.forget cid)
    else t

/-- The table once there is room for a flight under `cid` that costs `cost` bytes. -/
def makeRoom (t : FlightTable Addr sha256) (delivered : Latch → Bool)
    (iter : IterOrder (Entry Addr sha256)) (cid : ConnId) (cost now : Nat) :
    FlightTable Addr sha256 :=
  let t := t.forget cid
  let t := if retainedFlightBudget < t.retainedBytes + cost then t.sweep delivered now else t
  evict iter cost t.len t

def retain (t : FlightTable Addr sha256) (delivered : Latch → Bool)
    (iter : IterOrder (Entry Addr sha256)) (cid : ConnId) (flight : HandshakeFlight Addr sha256)
    (now : Nat) : FlightTable Addr sha256 × Bool :=
  if flight.wireBytes > min (flight.questionWireBytes * flightAmplificationLimit) u64Max then
    (t, false)
  else
    let cost := retainedCost flight
    let t := t.makeRoom delivered iter cid cost now
    ({ t with
        retainedBytes := t.retainedBytes + cost
        flights := t.flights.insert cid
          { flight
            repeatsLeft := maxFlightRepeats
            expiresAt := now + handshakeFlightRetention
            chargedBytes := cost } }.sync, true)

/-- `repeat`: the datagrams to repeat, and the address they go to. -/
def repeatFlight [DecidableEq Digest] (t : FlightTable Addr sha256) (delivered : Latch → Bool)
    (cid : ConnId) (question : Bytes) (now : Nat) :
    FlightTable Addr sha256 × Option (List Datagram × Addr) :=
  match t.flights.lookup cid with
  | none => (t, none)
  | some e =>
    if delivered e.flight.delivered || e.expiresAt ≤ now then ((t.forget cid).sync, none)
    else if sha256 question ≠ e.flight.question then (t, none)
    else
      let left := e.repeatsLeft - 1
      let t := { t with flights := t.flights.insert cid { e with repeatsLeft := left } }
      let t := if left = 0 then t.forget cid else t
      (t.sync, some (e.flight.datagrams, e.flight.peer))

end FlightTable

end PhantomProtocol
