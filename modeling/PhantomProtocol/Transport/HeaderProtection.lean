import PhantomProtocol.Lib.Run
import PhantomProtocol.Transport.Session

/-!
# Packets on the wire

The header as it is sent and its protection (`transport::types`, `crypto::header_protection`,
`Session::protect_packet` and `parse_protected`). The fifteen bytes of the header are XORed with a mask
that is computed from the first sixteen bytes of the payload; the session id is not sent.

The mask is a parameter. AES-256 and ChaCha20 take every key of 32 bytes, so that computing it does not
fail.
-/

namespace PhantomProtocol

inductive WireError where
  | truncated
deriving DecidableEq, Repr

/-- `Display for WireError`. -/
def WireError.display : WireError → String
  | .truncated => "truncated packet"

namespace PacketHeader

def toWire (h : PacketHeader) : Bytes :=
  h.version :: beBytes 8 h.packetNumber.toNat ++ beBytes 2 h.flags.toNat ++
    beBytes 2 h.streamId.toNat ++ [h.epoch, h.pathId]

/-- The session id of a header that has only been parsed. -/
def noSessionId : SessionId := ⟨List.replicate 32 0, List.length_replicate⟩

def fromWire (bytes : Bytes) : Except WireError PacketHeader :=
  if bytes.length < size then .error .truncated
  else
    .ok
      { version := bytes.getD 0 0
        sessionId := noSessionId
        packetNumber := UInt64.ofNat (beAt bytes 1 8)
        flags := UInt16.ofNat (beAt bytes 9 2)
        streamId := UInt16.ofNat (beAt bytes 11 2)
        epoch := bytes.getD 13 0
        pathId := bytes.getD 14 0 }

end PacketHeader

/-- The loop that masks: it stops at the end of the shorter. -/
def applyMask : Bytes → Bytes → Bytes
  | b :: bytes, m :: mask => (b ^^^ m) :: applyMask bytes mask
  | bytes, _ => bytes

structure PhantomPacket where
  header : PacketHeader
  payload : Bytes
  extensions : Bytes
deriving DecidableEq, Repr

namespace PhantomPacket

/-- `to_wire`. The extensions are not sent. -/
def toWire (packet : PhantomPacket) : Bytes := packet.header.toWire ++ packet.payload

def toWireMasked (packet : PhantomPacket) (mask : Bytes) : Bytes :=
  applyMask (packet.toWire.take PacketHeader.size) mask ++ packet.toWire.drop PacketHeader.size

end PhantomPacket

structure RawPacket where
  maskedHeader : { b : Bytes // b.length = PacketHeader.size }
  payload : Bytes
  extensions : Bytes

namespace RawPacket

def fromWire (bytes : Bytes) : Except WireError RawPacket :=
  if h : bytes.length < PacketHeader.size then .error .truncated
  else
    .ok
      { maskedHeader := ⟨bytes.take PacketHeader.size, List.length_take_of_le (Nat.not_lt.1 h)⟩
        payload := bytes.drop PacketHeader.size
        extensions := [] }

def unmaskHeader (raw : RawPacket) (mask : Bytes) : Except WireError PacketHeader :=
  if mask.length < PacketHeader.size then .error .truncated
  else PacketHeader.fromWire (applyMask raw.maskedHeader.1 mask)

def intoPacket (raw : RawPacket) (header : PacketHeader) : PhantomPacket :=
  ⟨header, raw.payload, raw.extensions⟩

end RawPacket

/-! ## Header protection -/

def hpSampleLen : Nat := 16

/-- `[u8; HP_SAMPLE_LEN]`. -/
abbrev Block := { b : Bytes // b.length = hpSampleLen }

/-- `compute_mask`: the mask of a key and a sample, for a suite. -/
abbrev ComputeMask := CipherSuite → Bytes → Block → Block

structure HeaderProtector where
  suite : CipherSuite
  hpSend : Bytes
  hpRecv : Bytes
deriving DecidableEq, Repr

namespace HeaderProtector

def derive (kdf : Kdf) (suite : CipherSuite) (initialSecret : Bytes) (swap : Bool) :
    HeaderProtector :=
  let hpA := kdf.deriveKey32 "phantom-hp-send-v1" initialSecret
  let hpB := kdf.deriveKey32 "phantom-hp-recv-v1" initialSecret
  if swap then ⟨suite, hpB, hpA⟩ else ⟨suite, hpA, hpB⟩

variable (computeMask : ComputeMask) (p : HeaderProtector)

def maskSend (sample : Block) : Block := computeMask p.suite p.hpSend sample

def maskRecv (sample : Block) : Block := computeMask p.suite p.hpRecv sample

end HeaderProtector

/-- The fields of `Session` that packets are framed with. -/
structure Framing where
  id : SessionId
  headerProtection : HeaderProtector

def hpSample (payload : Bytes) : Except CoreError Block :=
  if h : hpSampleLen ≤ payload.length then
    .ok ⟨payload.take hpSampleLen, List.length_take_of_le h⟩
  else .error (.cryptoError "HP: packet payload shorter than the AEAD tag")

namespace Framing

variable (computeMask : ComputeMask) (s : Framing)

def protectPacket (packet : PhantomPacket) : Except CoreError Bytes := do
  let sample ← hpSample packet.payload
  let mask := s.headerProtection.maskSend computeMask sample
  .ok (packet.toWireMasked mask)

def parseProtected (bytes : Bytes) : Except CoreError PhantomPacket := do
  let raw ← (RawPacket.fromWire bytes).mapError fun e =>
    .cryptoError ("HP: malformed wire packet: " ++ e.display)
  let sample ← hpSample raw.payload
  let mask := s.headerProtection.maskRecv computeMask sample
  let header ← (raw.unmaskHeader mask).mapError fun e =>
    .cryptoError ("HP: header unmask failed: " ++ e.display)
  .ok (raw.intoPacket { header with sessionId := s.id })

end Framing

/-! ## What a packet gives to the AEAD -/

/-- The nonce, the associated data and the ciphertext. -/
def PhantomPacket.aeadInput (noncePrefix : Bytes) (packet : PhantomPacket) : Bytes × Bytes × Bytes :=
  (Session.buildPacketNonce noncePrefix packet.header,
    Session.packetAad packet.header packet.extensions, packet.payload)

/-- An endpoint that sends. -/
structure Sender where
  session : Session
  log : List Sealed
  emitted : List Bytes

namespace Sender

inductive Event where
  /-- A packet is sealed and sent; `ciphertext` is what the cipher returns. -/
  | send (header : PacketHeader) (plaintext extensions ciphertext : Bytes)
  /-- Whatever else changes the session: it rekeys, receives, counts. -/
  | change (session : Session)

def step (computeMask : ComputeMask) (framing : Framing) (s : Sender) : Event → Option Sender
  | .change session => some { s with session }
  | .send header plaintext extensions ciphertext =>
    let out := s.session.encryptPacket header plaintext extensions ciphertext
    match out.2 with
    | .error _ => some { s with session := out.1 }
    | .ok r =>
      match framing.protectPacket computeMask ⟨header, r.ciphertext, extensions⟩ with
      | .error _ => some { s with session := out.1, log := r :: s.log }
      | .ok wire =>
        some { s with session := out.1, log := r :: s.log, emitted := wire :: s.emitted }

end Sender

end PhantomProtocol
