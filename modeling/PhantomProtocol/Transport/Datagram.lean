import PhantomProtocol.Crypto.KeySchedule
import PhantomProtocol.Lib.Chunks

/-!
# Datagrams

`transport::mtu`, `transport::phantom_udp::envelope` and `transport::phantom_udp::datagram`: the
outer envelope, the encoder that maps a logical frame to one or more UDP datagrams, and the number
of bytes it spends.
-/

namespace PhantomProtocol

def pathMtu : Nat := 1200
/-- `DATAGRAM_HDR_LEN`, `HDR_LEN`: a flags byte and the connection ID. -/
def hdrLen : Nat := 1 + cidLen
def maxInnerUnfragmented : Nat := pathMtu - hdrLen
def fragSubhdrLen : Nat := 8
def maxInnerFragChunk : Nat := pathMtu - hdrLen - fragSubhdrLen
def maxUdpPayload : Nat := 1200
def maxReassembledLen : Nat := 256 * 1024
def maxTotalChunks : Nat := maxReassembledLen / maxUdpPayload + 1

abbrev ConnId := Vector UInt8 cidLen

inductive PacketType where
  | initial
  | oneRtt
  | retry
deriving DecidableEq, Repr

inductive EnvelopeError where
  | truncated
  | reservedType
  | reservedBitsSet
  | frameTooLarge
deriving DecidableEq, Repr

def encodeHeader (ty : PacketType) (fragmented : Bool) (cid : ConnId) : Bytes :=
  let typeBits : UInt8 :=
    match ty with
    | .initial => 0b00
    | .oneRtt => 0b01
    | .retry => 0b10
  let flags := typeBits <<< 6
  (if fragmented then flags ||| 0b00100000 else flags) :: cid.toList

/-- A byte vector with what it holds of the allocator. -/
structure Datagram where
  bytes : Bytes
  capacity : Nat
  fits : bytes.length ≤ capacity
deriving DecidableEq

/-- `Vec::with_capacity`, then the bytes appended: it grows when they are more. -/
def Datagram.withCapacity (capacity : Nat) (bytes : Bytes) : Datagram where
  bytes
  capacity := max capacity bytes.length
  fits := Nat.le_max_right ..

def encodeDatagrams (ty : PacketType) (cid : ConnId) (packetId : UInt32) (frame : Bytes) :
    Except EnvelopeError (List Datagram) :=
  if frame.length ≤ maxInnerUnfragmented then
    .ok [.withCapacity (hdrLen + frame.length) (encodeHeader ty false cid ++ frame)]
  else
    let chunks := chunksOf maxInnerFragChunk frame
    if maxTotalChunks < chunks.length then .error .frameTooLarge
    else
      .ok (chunks.zipIdx.map fun (chunk, i) =>
        .withCapacity pathMtu (encodeHeader ty true cid ++ beBytes 4 packetId.toNat ++
          beBytes 2 i ++ beBytes 2 chunks.length ++ chunk))

def wireLen (frameLen : Nat) : Nat :=
  if frameLen ≤ maxInnerUnfragmented then hdrLen + frameLen
  else
    let chunks := (frameLen + maxInnerFragChunk - 1) / maxInnerFragChunk
    frameLen + chunks * (hdrLen + fragSubhdrLen)

/-- The bytes a number of datagrams put on the path. -/
def wireBytes (datagrams : List Datagram) : Nat := (datagrams.map (·.bytes.length)).sum

end PhantomProtocol
