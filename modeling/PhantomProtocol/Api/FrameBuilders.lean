import PhantomProtocol.Transport.HeaderProtection
import PhantomProtocol.Transport.Sack

/-!
# Frame builders

The functions of `api/session.rs` that seal a frame after the handshake, and the size padding of
`transport/shaping.rs` that three of them use. A builder is an `OutFrame` (what it puts into the
header and the plaintext) and the steps it takes on the session, between which the session's other
task may run. `Session.build` is the uninterrupted call; `Session.buildNext_build` says that it is
its steps one after the other.
-/

namespace PhantomProtocol

/-! ## Size padding -/

def maxShapedWire : Nat := 1184
def padLenField : Nat := 2

inductive PaddingPolicy where
  | none
  | padme
deriving DecidableEq, Repr

/-- `padme`: round up so that the low bits are zero. -/
def padme (l : Nat) : Nat :=
  if l ≤ 2 then l
  else
    let e := l.log2
    let s := if e = 0 then 1 else e.log2 + 1
    let maskBits := e - s
    let mask := 2 ^ maskBits - 1
    (l + mask) / 2 ^ maskBits * 2 ^ maskBits

example : [0, 1, 2, 3, 63, 64, 100, 1000].map padme = [0, 1, 2, 3, 64, 64, 104, 1024] := by decide

def paddingTrailerLen (plaintextLen : Nat) : PaddingPolicy → Nat
  | .none => 0
  | .padme =>
    let wire := PacketHeader.size + plaintextLen + aeadOverhead
    let target := min (padme (wire + padLenField)) maxShapedWire
    if target ≥ wire + padLenField then target - wire else 0

def appendPadding (plaintext : Bytes) (trailer : Nat) : Bytes :=
  if trailer < padLenField then plaintext
  else
    let padN := (trailer - padLenField) % 2 ^ 16
    plaintext ++ List.replicate padN 0 ++ beBytes 2 padN

def stripPadding (plaintext : Bytes) : Except WireError Bytes :=
  if plaintext.length < padLenField then .error .truncated
  else
    let split := plaintext.length - padLenField
    let padN := beNat (plaintext.drop split)
    if split < padN then .error .truncated else .ok (plaintext.take (split - padN))

/-! ## The frames -/

/-- What a builder fixes before it touches the session; `ENCRYPTED` is added to the flags by all. -/
structure OutFrame where
  streamId : UInt16
  flags : PacketFlags
  pathId : UInt8
  plaintext : Bytes
  /-- Whether the builder calls `rekey_before_stamp`. -/
  rekeysBeforeStamp : Bool
deriving DecidableEq

/-- A padded plaintext is flagged `PADDED`. -/
def OutFrame.pad (f : OutFrame) (policy : PaddingPolicy) : OutFrame :=
  let trailer := paddingTrailerLen f.plaintext.length policy
  if trailer > 0 then
    { f with
      plaintext := appendPadding f.plaintext trailer
      flags := f.flags ||| PacketFlags.padded }
  else f

def rawAppStreamId : UInt16 := 1

/-- `ControlSubtype::CLOSE`. -/
def controlClose : UInt8 := 0x01

/-- `send_app_data`. The padding policy and the send path are the session's. -/
def sendAppData (policy : PaddingPolicy) (sendPathId : UInt8) (streamId : UInt16) (payload : Bytes)
    (baseFlags : PacketFlags) (reliableOffset : Option UInt32) : OutFrame :=
  let plaintext :=
    match reliableOffset with
    | some offset => beBytes 4 offset.toNat ++ payload
    | none => payload
  OutFrame.pad ⟨streamId, baseFlags, sendPathId, plaintext, true⟩ policy

def sendWindowUpdate (streamId : UInt16) (limit : UInt64) : OutFrame :=
  ⟨streamId, PacketFlags.windowUpdate, 0, beBytes 8 limit.toNat, true⟩

/-- `send_stream_sack`, on the path the acknowledged segment arrived on. -/
def sendStreamSack (sack : Sack) (streamId : UInt16) (pathId : UInt8) : OutFrame :=
  ⟨streamId, PacketFlags.ack, pathId, sack.toWire, true⟩

def sendKeepalive (sendPathId : UInt8) (isPong : Bool) : OutFrame :=
  let flags := if isPong then PacketFlags.keepalive ||| PacketFlags.ack else PacketFlags.keepalive
  ⟨rawAppStreamId, flags, sendPathId, [], true⟩

/-- `send_cover`: padded whatever the session's policy is. -/
def sendCover (sendPathId : UInt8) : OutFrame :=
  OutFrame.pad ⟨rawAppStreamId, PacketFlags.cover, sendPathId, [], true⟩ .padme

def sendControlClose (sendPathId : UInt8) : OutFrame :=
  OutFrame.pad ⟨rawAppStreamId, PacketFlags.control, sendPathId, [controlClose], true⟩ .padme

/-- `encrypt_path_validation`, around the packet of `build_path_validation_packet`. -/
def pathValidation (pathId : UInt8) (payload : Bytes) : OutFrame :=
  ⟨0, PacketFlags.pathValidation, pathId, payload, false⟩

/-- The builders with their arguments. -/
inductive FrameBuilder where
  | sendAppData (policy : PaddingPolicy) (sendPathId : UInt8) (streamId : UInt16) (payload : Bytes)
      (baseFlags : PacketFlags) (reliableOffset : Option UInt32)
  | sendWindowUpdate (streamId : UInt16) (limit : UInt64)
  | sendStreamSack (sack : Sack) (streamId : UInt16) (pathId : UInt8)
  | sendKeepalive (sendPathId : UInt8) (isPong : Bool)
  | sendCover (sendPathId : UInt8)
  | sendControlClose (sendPathId : UInt8)
  | encryptPathValidation (pathId : UInt8) (payload : Bytes)
deriving DecidableEq

namespace FrameBuilder

def frame : FrameBuilder → OutFrame
  | sendAppData policy sendPathId streamId payload baseFlags reliableOffset =>
    PhantomProtocol.sendAppData policy sendPathId streamId payload baseFlags reliableOffset
  | sendWindowUpdate streamId limit => PhantomProtocol.sendWindowUpdate streamId limit
  | sendStreamSack sack streamId pathId => PhantomProtocol.sendStreamSack sack streamId pathId
  | sendKeepalive sendPathId isPong => PhantomProtocol.sendKeepalive sendPathId isPong
  | sendCover sendPathId => PhantomProtocol.sendCover sendPathId
  | sendControlClose sendPathId => PhantomProtocol.sendControlClose sendPathId
  | encryptPathValidation pathId payload => pathValidation pathId payload

def isPathValidation : FrameBuilder → Bool
  | encryptPathValidation .. => true
  | _ => false

end FrameBuilder

@[simp] theorem OutFrame.pad_rekeysBeforeStamp (f : OutFrame) (policy : PaddingPolicy) :
    (f.pad policy).rekeysBeforeStamp = f.rekeysBeforeStamp := by
  unfold OutFrame.pad
  dsimp only
  split
  · rfl
  · rfl

theorem FrameBuilder.rekeysBeforeStamp_eq (b : FrameBuilder) :
    b.frame.rekeysBeforeStamp = !b.isPathValidation := by
  cases b <;>
    simp [frame, isPathValidation, PhantomProtocol.sendAppData, PhantomProtocol.sendCover,
      PhantomProtocol.sendControlClose, PhantomProtocol.sendWindowUpdate,
      PhantomProtocol.sendStreamSack, PhantomProtocol.sendKeepalive, pathValidation]

/-! ## The steps of a builder -/

namespace Session

/-- Where a builder stands, between two of its steps. -/
inductive Build where
  /-- In `rekey_before_stamp`, about to ask `send_needs_rekey`. -/
  | checking
  | rekeying
  /-- About to read `rekey_unconfirmed`. -/
  | reading
  /-- With the extra flag bits in hand, about to draw the packet number and read the epoch. -/
  | stamping (extra : PacketFlags)
  | sealing (header : PacketHeader)
  | done (result : Option (PacketHeader × Sealed))
deriving DecidableEq

def Build.start (f : OutFrame) : Build := if f.rekeysBeforeStamp then .checking else .stamping 0

/-- One step of a builder. `ciphertext` is what the cipher returns. -/
def buildStep (kdf : Kdf) (sessionId : SessionId) (f : OutFrame) (ciphertext : Bytes)
    (s : Session) : Build → Session × Build
  | .checking => (s, if s.sendNeedsRekey then .rekeying else .reading)
  | .rekeying =>
    let rekeyed := s.rekey kdf
    match rekeyed.2 with
    | .error _ => (rekeyed.1, .done none)
    | .ok _ => (rekeyed.1, .reading)
  | .reading => (s, .stamping (if s.rekeyUnconfirmed then PacketFlags.rekey else 0))
  | .stamping extra =>
    let numbered := s.nextSendPn
    (numbered.1, .sealing
      { version := wireVersion, sessionId, streamId := f.streamId, packetNumber := numbered.2
        flags := f.flags ||| PacketFlags.encrypted ||| extra, epoch := numbered.1.epoch
        pathId := f.pathId })
  | .sealing header =>
    let out := s.encryptPacket header f.plaintext [] ciphertext
    (out.1, .done (out.2.toOption.map (header, ·)))
  | .done result => (s, .done result)

/-- The steps of a builder, as a map on the session and the place in the code. -/
def buildNext (kdf : Kdf) (sessionId : SessionId) (f : OutFrame) (ciphertext : Bytes)
    (x : Session × Build) : Session × Build :=
  buildStep kdf sessionId f ciphertext x.1 x.2

/-- The uninterrupted call of a builder. -/
def build (kdf : Kdf) (sessionId : SessionId) (f : OutFrame) (ciphertext : Bytes) (s : Session) :
    Session × Option (PacketHeader × Sealed) :=
  if f.rekeysBeforeStamp then
    s.sealFrame kdf sessionId f.streamId f.flags f.pathId f.plaintext ciphertext
  else
    let numbered := s.nextSendPn
    let header : PacketHeader :=
      { version := wireVersion, sessionId, streamId := f.streamId, packetNumber := numbered.2
        flags := f.flags ||| PacketFlags.encrypted, epoch := numbered.1.epoch, pathId := f.pathId }
    let out := numbered.1.encryptPacket header f.plaintext [] ciphertext
    (out.1, out.2.toOption.map (header, ·))

theorem buildNext_build (kdf : Kdf) (sessionId : SessionId) (f : OutFrame) (ct : Bytes)
    (s : Session) :
    (buildNext kdf sessionId f ct)^[5] (s, Build.start f) =
      ((s.build kdf sessionId f ct).1, .done (s.build kdf sessionId f ct).2) := by
  simp only [Function.iterate_succ_apply, Function.iterate_zero_apply, Build.start, build]
  cases f.rekeysBeforeStamp with
  | false => simp [buildNext, buildStep]
  | true =>
    simp only [if_true, buildNext, buildStep, sealFrame, rekeyBeforeStamp]
    cases s.sendNeedsRekey with
    | false => simp
    | true =>
      simp only [if_true]
      rcases hr : s.rekey kdf with ⟨s₁, e | n⟩
      · rfl
      · rfl

end Session

end PhantomProtocol
