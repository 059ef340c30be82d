import Mathlib.Data.List.AList
import Mathlib.Data.List.MinMax
import PhantomProtocol.Transport.Datagram
import PhantomProtocol.Transport.Types

/-!
# Reassembly

The receiving half of `transport::phantom_udp`: `decode_header`, `push_datagram`, and
`transport::fragmentation::FragmentAssembler`, which collects the chunks of a fragmented frame under
the key `(session_id, packet_id)`.

An `Instant` is a number. A call reads the clock twice, for a new assembly and for the update, and the
second reading replaces the first. A `HashMap` is iterated in an order that is an argument.
-/

namespace PhantomProtocol

/-! ## The envelope -/

structure OuterHeader where
  ty : PacketType
  fragmented : Bool
  cid : ConnId
deriving DecidableEq

def decodeHeader (buf : Bytes) : Except EnvelopeError (OuterHeader × Bytes) :=
  match buf with
  | [] => .error .truncated
  | flags :: rest =>
    if h : cidLen ≤ rest.length then
      if flags &&& 0b00011111 ≠ 0 then .error .reservedBitsSet
      else
        let fragmented := flags &&& 0b00100000 ≠ 0
        let cid : ConnId := ⟨(rest.take cidLen).toArray, by simpa using h⟩
        match flags >>> 6 with
        | 0b00 => .ok (⟨.initial, fragmented, cid⟩, rest.drop cidLen)
        | 0b01 => .ok (⟨.oneRtt, fragmented, cid⟩, rest.drop cidLen)
        | 0b10 => .ok (⟨.retry, fragmented, cid⟩, rest.drop cidLen)
        | _ => .error .reservedType
    else .error .truncated

/-! ## The assembler -/

def maxConcurrentAssemblies : Nat := 256

abbrev AssemblyKey := Vector UInt8 16 × UInt32

/-- A chunk of a fragmented frame; `chunk_index` and `total_chunks` are `u16`. -/
structure CryptoFrame where
  sessionId : Vector UInt8 16
  packetId : UInt32
  chunkIndex : Nat
  totalChunks : Nat
  payload : Bytes
deriving DecidableEq

namespace CryptoFrame

def key (frame : CryptoFrame) : AssemblyKey := (frame.sessionId, frame.packetId)

/-- The checks that `process_chunk` drops a fragment on. -/
def Malformed (frame : CryptoFrame) : Prop :=
  frame.totalChunks = 0 ∨ maxTotalChunks < frame.totalChunks ∨
    frame.totalChunks ≤ frame.chunkIndex ∨ maxUdpPayload < frame.payload.length

instance (frame : CryptoFrame) : Decidable frame.Malformed :=
  inferInstanceAs (Decidable (_ ∨ _ ∨ _ ∨ _))

end CryptoFrame

/-- The payloads of an assembly, by index. -/
abbrev Chunks := AList fun _ : Nat => Bytes

namespace Chunks

/-- `chunks.len()`. -/
def len (chunks : Chunks) : Nat := chunks.entries.length

def bytes (chunks : Chunks) : Nat := (chunks.entries.map fun r => r.2.length).sum

/-- `entry(index).or_insert(payload)`. -/
def orInsert (chunks : Chunks) (index : Nat) (payload : Bytes) : Chunks :=
  if index ∈ chunks then chunks else chunks.insert index payload

/-- The two loops over the indices: nothing if one is missing, and otherwise the payloads in order. -/
def join (chunks : Chunks) (total : Nat) : Option Bytes :=
  ((List.range total).mapM fun i => chunks.lookup i).map List.flatten

theorem len_orInsert (chunks : Chunks) (index : Nat) (payload : Bytes) :
    (chunks.orInsert index payload).len =
      if index ∈ chunks then chunks.len else chunks.len + 1 := by
  unfold orInsert len
  split
  · rfl
  · rw [AList.entries_insert_of_notMem ‹_›, List.length_cons]

theorem mem_orInsert_payload {chunks : Chunks} {index : Nat} {payload : Bytes} {r : Sigma fun _ => Bytes}
    (h : r ∈ (chunks.orInsert index payload).entries) : r ∈ chunks.entries ∨ r.2 = payload := by
  unfold orInsert at h
  split at h
  · exact .inl h
  · rw [AList.entries_insert_of_notMem ‹_›] at h
    rcases List.mem_cons.1 h with rfl | h
    · exact .inr rfl
    · exact .inl h

end Chunks

/-- An assembly as it stands in the table: at least one chunk is missing. -/
structure AssemblyState where
  chunks : Chunks
  totalChunks : Nat
  lastUpdate : Nat
  total_le : totalChunks ≤ maxTotalChunks
  incomplete : chunks.len < totalChunks
  payload_le : ∀ r ∈ chunks.entries, r.2.length ≤ maxUdpPayload

namespace AssemblyState

variable (frame : CryptoFrame) (h : ¬frame.Malformed) (now : Nat)

/-- `AssemblyState` as `or_insert_with` makes it. -/
def opened : AssemblyState where
  chunks := ∅
  totalChunks := frame.totalChunks
  lastUpdate := now
  total_le := by
    unfold CryptoFrame.Malformed at h
    omega
  incomplete := by
    unfold CryptoFrame.Malformed at h
    show 0 < frame.totalChunks
    omega
  payload_le := by simp

/-- The chunks with the fragment among them. The first payload for an index stays. -/
def stored (state : AssemblyState) : Chunks := state.chunks.orInsert frame.chunkIndex frame.payload

/-- The assembly that waits for more. -/
def updated (state : AssemblyState) (hcount : (state.stored frame).len ≠ state.totalChunks) :
    AssemblyState where
  chunks := state.stored frame
  totalChunks := state.totalChunks
  lastUpdate := now
  total_le := state.total_le
  incomplete := by
    have hlen : (state.stored frame).len = _ :=
      state.chunks.len_orInsert frame.chunkIndex frame.payload
    have hlt := state.incomplete
    split at hlen <;> omega
  payload_le := by
    intro r hr
    rcases Chunks.mem_orInsert_payload hr with hr | hr
    · exact state.payload_le r hr
    · unfold CryptoFrame.Malformed at h
      rw [hr]
      omega

end AssemblyState

structure FragmentAssembler where
  assemblies : AList fun _ : AssemblyKey => AssemblyState

namespace FragmentAssembler

abbrev Entry : Type := Sigma fun _ : AssemblyKey => AssemblyState

def new : FragmentAssembler := ⟨∅⟩

def len (asm : FragmentAssembler) : Nat := asm.assemblies.entries.length

/-- `evict_stalest`: of several that were updated last at the same time, the first one met. -/
def evictStalest (asm : FragmentAssembler) (iter : IterOrder Entry) : FragmentAssembler :=
  match List.argmin (fun r : Entry => r.2.lastUpdate) (iter.order asm.assemblies.entries) with
  | none => asm
  | some stalest => ⟨asm.assemblies.erase stalest.1⟩

/-- The table once there is room for an assembly under `key`. -/
def makeRoom (asm : FragmentAssembler) (iter : IterOrder Entry) (key : AssemblyKey) :
    FragmentAssembler :=
  if key ∉ asm.assemblies ∧ maxConcurrentAssemblies ≤ asm.len then asm.evictStalest iter else asm

/-- The assembly a fragment goes to. -/
def assembly (asm : FragmentAssembler) (frame : CryptoFrame) (h : ¬frame.Malformed) (now : Nat) :
    AssemblyState :=
  (asm.assemblies.lookup frame.key).getD (.opened frame h now)

def processChunk (asm : FragmentAssembler) (iter : IterOrder Entry) (frame : CryptoFrame)
    (now : Nat) : FragmentAssembler × Option Bytes :=
  if h : frame.Malformed then (asm, none)
  else
    let asm := asm.makeRoom iter frame.key
    let state := asm.assembly frame h now
    if hcount : (state.stored frame).len = state.totalChunks then
      (⟨asm.assemblies.erase frame.key⟩, (state.stored frame).join state.totalChunks)
    else (⟨asm.assemblies.insert frame.key (.updated frame h now state hcount)⟩, none)

end FragmentAssembler

def cid16 (cid : ConnId) : Vector UInt8 16 := (cid ++ Vector.replicate 8 (0 : UInt8)).cast rfl

def pushDatagram (asm : FragmentAssembler) (iter : IterOrder FragmentAssembler.Entry)
    (datagram : Bytes) (now : Nat) :
    FragmentAssembler × Except EnvelopeError (OuterHeader × Option Bytes) :=
  match decodeHeader datagram with
  | .error e => (asm, .error e)
  | .ok (hdr, rest) =>
    if hdr.fragmented = false then (asm, .ok (hdr, some rest))
    else if rest.length < fragSubhdrLen then (asm, .error .truncated)
    else
      let frame : CryptoFrame :=
        { sessionId := cid16 hdr.cid
          packetId := UInt32.ofNat (beAt rest 0 4)
          chunkIndex := beAt rest 4 2
          totalChunks := beAt rest 6 2
          payload := rest.drop fragSubhdrLen }
      let r := asm.processChunk iter frame now
      (r.1, .ok (hdr, r.2))

end PhantomProtocol
