import PhantomProtocol.Crypto.KeySchedule

/-!
# Wire types

`transport::types`: the flag bits and the cleartext header of a packet, and the 47-byte image of the
header that the AEAD authenticates. Also the errors of the transport layer, the two sides of a
session, the depth of its command channel and the iteration order of a hash map.
-/

namespace PhantomProtocol

/-- `mpsc::channel(256)` of `api::session`. -/
def commandChannelDepth : Nat := 256

/-- `PacketFlags`, a 16-bit set. -/
abbrev PacketFlags := UInt16

namespace PacketFlags

def reliable : PacketFlags := 0x0001
def ack : PacketFlags := 0x0002
def fin : PacketFlags := 0x0004
def unreliable : PacketFlags := 0x0008
def encrypted : PacketFlags := 0x0020
def control : PacketFlags := 0x0080
def rekey : PacketFlags := 0x0100
def pathValidation : PacketFlags := 0x0200
def coalesced : PacketFlags := 0x0400
def windowUpdate : PacketFlags := 0x0800
def keepalive : PacketFlags := 0x1000
def padded : PacketFlags := 0x2000
def cover : PacketFlags := 0x4000

/-- `contains`: every bit of `flag` is set. -/
def contains (bits flag : PacketFlags) : Bool := bits &&& flag == flag

theorem contains_or {a b flag : PacketFlags} (h : contains b flag = true) :
    contains (a ||| b) flag = true := by
  unfold contains at h ⊢
  rw [beq_iff_eq] at h ⊢
  apply UInt16.toBitVec_inj.1
  ext i hi
  have hbit : (b &&& flag).toBitVec[i] = flag.toBitVec[i] := by rw [h]
  simp only [UInt16.toBitVec_and, UInt16.toBitVec_or, BitVec.getElem_and, BitVec.getElem_or]
    at hbit ⊢
  cases hf : flag.toBitVec[i] with
  | false => simp
  | true => simp_all

theorem contains_or_right (a b : PacketFlags) : contains (a ||| b) b = true :=
  contains_or (by simp [contains])

end PacketFlags

inductive Side where
  | client
  | server
deriving DecidableEq, Repr

namespace Side

def other : Side → Side
  | client => server
  | server => client

@[simp] theorem other_other (d : Side) : d.other.other = d := by cases d <;> rfl

@[simp] theorem other_ne (d : Side) : d.other ≠ d := by cases d <;> simp [other]

theorem eq_or_eq_other (d e : Side) : e = d ∨ e = d.other := by cases d <;> cases e <;> simp [other]

end Side

/-- The variants of `CoreError` the transport layer returns. -/
inductive CoreError where
  | cryptoError (message : String)
  | replayDetected (message : String)
  | streamError (message : String)
deriving DecidableEq, Repr

/-- `u32::MAX`. -/
def u32Max : Nat := 2 ^ 32 - 1

/-- `u64::MAX`, and `usize::MAX`. -/
def u64Max : Nat := 2 ^ 64 - 1

def wireVersion : UInt8 := 8

/-- `SessionId`, `[u8; 32]`. -/
abbrev SessionId := { b : Bytes // b.length = 32 }

structure PacketHeader where
  version : UInt8
  sessionId : SessionId
  streamId : UInt16
  packetNumber : UInt64
  flags : PacketFlags
  epoch : UInt8
  pathId : UInt8
deriving DecidableEq, Repr

namespace PacketHeader

def size : Nat := 15

/-- `to_aad_image`: `version ‖ session_id ‖ packet_number ‖ flags ‖ stream_id ‖ epoch ‖ path_id`. -/
def toAadImage (h : PacketHeader) : Bytes :=
  h.version :: h.sessionId.1 ++ beBytes 8 h.packetNumber.toNat ++ beBytes 2 h.flags.toNat ++
    beBytes 2 h.streamId.toNat ++ [h.epoch, h.pathId]

@[simp] theorem toAadImage_length (h : PacketHeader) : h.toAadImage.length = 47 := by
  simp [toAadImage, h.sessionId.2]

theorem epoch_of_aad {h k : PacketHeader} {x y : Bytes}
    (heq : h.toAadImage ++ x = k.toAadImage ++ y) : h.epoch = k.epoch := by
  have himg : h.toAadImage = k.toAadImage := (List.append_inj heq (by simp)).1
  unfold toAadImage at himg
  have htail := (List.append_inj himg (by simp [h.sessionId.2, k.sessionId.2])).2
  exact (List.cons.inj htail).1

end PacketHeader

/-- The order in which a `HashMap` is iterated. -/
structure IterOrder (α : Type) where
  order : List α → List α
  perm : ∀ l, (order l).Perm l

end PhantomProtocol
