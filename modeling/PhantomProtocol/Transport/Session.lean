import PhantomProtocol.Crypto.Aead
import PhantomProtocol.Security.ReplayWindow

/-!
# Session keys

`transport::session::Session` as far as its keys go: the HKDF chain of traffic secrets, the epoch
counter, sealing and opening packets, and the catch-up with a peer that has rekeyed.
`decrypt_packet_accepting_rekey` is given twice: as the source's straight line of code, and cut at
the points where the send task may run in between (`recvStep`); `decryptPacketAcceptingRekey_eq`
says that they agree.
-/

namespace PhantomProtocol

open Function

def maxRekeyCatchup : UInt8 := 16

def rekeySoftLimit : Nat := 2 ^ 32

structure Session where
  isServer : Bool
  crypto : CryptoState
  trafficSecret : Bytes
  epoch : UInt8
  rekeyUnconfirmed : Bool
  rekeyAfter : Nat
  sendPacketNumber : UInt64
  recvReplay : ReplayWindow
  replayRejectedTotal : Nat
deriving DecidableEq

namespace Session

variable (kdf : Kdf)

def new (suite : CipherSuite) (sharedSecret : Bytes) (peerSide : Bool) : Session :=
  { isServer := peerSide
    crypto := CryptoState.new kdf suite sharedSecret peerSide
    trafficSecret := sharedSecret
    epoch := 0
    rekeyUnconfirmed := false
    rekeyAfter := rekeySoftLimit
    sendPacketNumber := 0
    recvReplay := .new
    replayRejectedTotal := 0 }

/-! ## Rekeying -/

/-- One step of the chain of traffic secrets. -/
def nextSecret (secret : Bytes) : Bytes := kdf.hkdfExpand secret "phantom-rekey-v1"

/-- `derive_forward_crypto`. The cipher suite is the host's, which does not change. -/
def deriveForwardCrypto (s : Session) (steps : UInt8) : Bytes × CryptoState :=
  let secret := (nextSecret kdf)^[steps.toNat] s.trafficSecret
  (secret, CryptoState.new kdf s.crypto.suite secret s.isServer)

def commitForwardCrypto (s : Session) (steps : UInt8) (finalSecret : Bytes)
    (newCrypto : CryptoState) : Session :=
  { s with
    crypto := newCrypto
    trafficSecret := finalSecret
    epoch := if s.epoch.toNat + steps.toNat > 255 then 255 else s.epoch + steps }

def rekey (s : Session) : Session × Except CoreError UInt8 :=
  if s.epoch = 255 then
    (s, .error (.cryptoError "session epoch saturated (u8::MAX); reconnect required"))
  else
    let derived := s.deriveForwardCrypto kdf 1
    ({ s.commitForwardCrypto 1 derived.1 derived.2 with rekeyUnconfirmed := true },
      .ok (s.epoch + 1))

theorem rekey_epoch {s : Session} (h : s.epoch ≠ 255) :
    (s.rekey kdf).1.epoch.toNat = s.epoch.toNat + 1 := by
  have hlt : s.epoch.toNat < 255 := by
    have h' : s.epoch.toNat ≠ 255 := fun he => h (UInt8.toNat_inj.1 he)
    have := s.epoch.toNat_lt
    omega
  have h1 : (1 : UInt8).toNat = 1 := rfl
  simp only [rekey, if_neg h, commitForwardCrypto, h1]
  rw [if_neg (by omega), UInt8.toNat_add, h1]
  omega

/-- `ratchet_to_epoch`: rekey until the target is reached. -/
def ratchetToEpoch (s : Session) (target : UInt8) : Session × Except CoreError Unit :=
  if _h : s.epoch < target then
    match (s.rekey kdf).2 with
    | .error e => ((s.rekey kdf).1, .error e)
    | .ok _ => (s.rekey kdf).1.ratchetToEpoch target
  else (s, .ok ())
termination_by target.toNat - s.epoch.toNat
decreasing_by
  have hlt := UInt8.lt_iff_toNat_lt.1 _h
  have hmax := target.toNat_lt
  have hne : s.epoch ≠ 255 := fun he => by
    rw [he] at hlt
    have : (255 : UInt8).toNat = 255 := rfl
    omega
  have := rekey_epoch kdf hne
  omega

def setRekeyThreshold (s : Session) (n : Nat) : Session := { s with rekeyAfter := max n 1 }

def sendNeedsRekey (s : Session) : Bool := s.epoch < 255 && s.crypto.sendCounter ≥ s.rekeyAfter

/-- `rekey_before_stamp` (`api/session.rs`): the extra flag bits of the header, or `none` when a
rekey was due and failed. -/
def rekeyBeforeStamp (s : Session) : Session × Option PacketFlags :=
  let rekeyed := if s.sendNeedsRekey then s.rekey kdf else (s, .ok s.epoch)
  match rekeyed.2 with
  | .error _ => (rekeyed.1, none)
  | .ok _ => (rekeyed.1, some (if rekeyed.1.rekeyUnconfirmed then PacketFlags.rekey else 0))

/-! ## Packets -/

def buildPacketNonce (noncePrefix : Bytes) (header : PacketHeader) : Bytes :=
  noncePrefix ++ beBytes 8 header.packetNumber.toNat

/-- `with_packet_aad`. -/
def packetAad (header : PacketHeader) (extensions : Bytes) : Bytes :=
  header.toAadImage ++ extensions

def nextSendPn (s : Session) : Session × UInt64 :=
  ({ s with sendPacketNumber := s.sendPacketNumber + 1 }, s.sendPacketNumber)

def encryptPacket (s : Session) (header : PacketHeader) (plaintext extensions ciphertext : Bytes) :
    Session × Except CoreError Sealed :=
  let out := s.crypto.encryptWithNonce (buildPacketNonce s.crypto.noncePrefix header)
    (packetAad header extensions) plaintext ciphertext
  ({ s with crypto := out.1 }, out.2)

/-- The part that the frame builders of `api/session.rs` share: rekey if it is due, stamp the header
with the epoch and the re-advertised flag, and seal. -/
def sealFrame (s : Session) (sessionId : SessionId) (streamId : UInt16) (baseFlags : PacketFlags)
    (pathId : UInt8) (plaintext ciphertext : Bytes) : Session × Option (PacketHeader × Sealed) :=
  let stamped := s.rekeyBeforeStamp kdf
  match stamped.2 with
  | none => (stamped.1, none)
  | some extra =>
    let numbered := stamped.1.nextSendPn
    let header : PacketHeader :=
      { version := wireVersion, sessionId, streamId, packetNumber := numbered.2
        flags := baseFlags ||| PacketFlags.encrypted ||| extra, epoch := numbered.1.epoch, pathId }
    let out := numbered.1.encryptPacket header plaintext [] ciphertext
    (out.1, out.2.toOption.map (header, ·))

/-- `encrypt_path_validation`: the one builder that does not call `rekey_before_stamp`. -/
def encryptPathValidation (s : Session) (sessionId : SessionId) (pathId : UInt8)
    (payload ciphertext : Bytes) : Session × Option (PacketHeader × Sealed) :=
  let numbered := s.nextSendPn
  let header : PacketHeader :=
    { version := wireVersion, sessionId, streamId := 0, packetNumber := numbered.2
      flags := PacketFlags.pathValidation ||| PacketFlags.encrypted, epoch := numbered.1.epoch
      pathId }
  let out := numbered.1.encryptPacket header payload [] ciphertext
  (out.1, out.2.toOption.map (header, ·))

/-- The AEAD open of a packet under the installed keys. -/
def openPacket (log : List Sealed) (s : Session) (header : PacketHeader)
    (ciphertext extensions : Bytes) : Session × Except CoreError Bytes :=
  let out := CryptoState.decryptWithNonce log s.crypto
    (buildPacketNonce s.crypto.noncePrefix header) (packetAad header extensions) ciphertext
  ({ s with crypto := out.1 }, out.2)

/-- The replay window, consulted after the AEAD. -/
def acceptPacketNumber (s : Session) (pn : UInt64) : Session × Except CoreError Unit :=
  let accepted := s.recvReplay.accept pn
  let s := { s with recvReplay := accepted.1 }
  if accepted.2 then (s, .ok ())
  else
    ({ s with replayRejectedTotal := (s.replayRejectedTotal + 1) % 2 ^ 64 },
      .error (.replayDetected
        ("packet_number " ++ toString pn ++ " already seen or beyond window")))

def decryptPacket (log : List Sealed) (s : Session) (header : PacketHeader)
    (ciphertext extensions : Bytes) : Session × Except CoreError Bytes :=
  let opened := s.openPacket log header ciphertext extensions
  match opened.2 with
  | .error e => (opened.1, .error e)
  | .ok plaintext =>
    let accepted := opened.1.acceptPacketNumber header.packetNumber
    (accepted.1, accepted.2.map fun _ => plaintext)

def confirmRekeyCaughtUp (s : Session) : Session := { s with rekeyUnconfirmed := false }

/-! ## Following a rekey of the peer -/

def behindError (epoch cur : UInt8) : CoreError :=
  .cryptoError ("packet epoch " ++ toString epoch ++ " is behind the current epoch " ++
    toString cur)

def unflaggedError (epoch cur : UInt8) : CoreError :=
  .cryptoError ("forward epoch " ++ toString epoch ++
    " without the REKEY flag; rejected before catch-up (current " ++ toString cur ++ ")")

def aheadError (epoch cur : UInt8) : CoreError :=
  .cryptoError ("packet epoch " ++ toString epoch ++ " is more than " ++
    toString maxRekeyCatchup ++ " epochs ahead of current " ++ toString cur)

/-- The forward part of `decrypt_packet_accepting_rekey`, under the rekey lock: derive the keys of
the packet's epoch, open the packet under them, and only then install them. -/
def catchUp (log : List Sealed) (s : Session) (header : PacketHeader)
    (ciphertext extensions : Bytes) : Session × Except CoreError Bytes :=
  let steps := header.epoch - s.epoch
  if steps > maxRekeyCatchup then (s, .error (aheadError header.epoch s.epoch))
  else
    let derived := s.deriveForwardCrypto kdf steps
    let opened := CryptoState.decryptWithNonce log derived.2
      (buildPacketNonce derived.2.noncePrefix header) (packetAad header extensions) ciphertext
    match opened.2 with
    | .error e => (s, .error e)
    | .ok plaintext => (s.commitForwardCrypto steps derived.1 opened.1, .ok plaintext)

/-- Where `decrypt_packet_accepting_rekey` stands, between two of its steps. -/
inductive Recv where
  /-- About to read the epoch. -/
  | reading
  /-- The packet is ahead and flagged: about to take the rekey lock. -/
  | locking
  /-- In `decrypt_packet`, about to load the keys. -/
  | opening
  | accepting (plaintext : Bytes)
  | confirming (plaintext : Bytes)
  | done (result : Except CoreError Bytes)

/-- One step of `decrypt_packet_accepting_rekey`. The locked part is one step. -/
def recvStep (log : List Sealed) (header : PacketHeader) (ciphertext extensions : Bytes)
    (s : Session) : Recv → Session × Recv
  | .reading =>
    if header.epoch = s.epoch then (s, .opening)
    else if header.epoch < s.epoch then (s, .done (.error (behindError header.epoch s.epoch)))
    else if !header.flags.contains PacketFlags.rekey then
      (s, .done (.error (unflaggedError header.epoch s.epoch)))
    else (s, .locking)
  | .locking =>
    -- a concurrent rekey may have advanced the epoch
    if header.epoch = s.epoch then (s, .opening)
    else if header.epoch < s.epoch then (s, .done (.error (behindError header.epoch s.epoch)))
    else
      let caught := s.catchUp kdf log header ciphertext extensions
      match caught.2 with
      | .error e => (caught.1, .done (.error e))
      | .ok plaintext => (caught.1, .accepting plaintext)
  | .opening =>
    let opened := s.openPacket log header ciphertext extensions
    match opened.2 with
    | .error e => (opened.1, .done (.error e))
    | .ok plaintext => (opened.1, .accepting plaintext)
  | .accepting plaintext =>
    let accepted := s.acceptPacketNumber header.packetNumber
    match accepted.2 with
    | .error e => (accepted.1, .done (.error e))
    | .ok _ => (accepted.1, .confirming plaintext)
  | .confirming plaintext => (s.confirmRekeyCaughtUp, .done (.ok plaintext))
  | .done result => (s, .done result)

/-- `decrypt_packet`, and on success the confirmation. -/
def decryptConfirming (log : List Sealed) (s : Session) (header : PacketHeader)
    (ciphertext extensions : Bytes) : Session × Except CoreError Bytes :=
  let out := s.decryptPacket log header ciphertext extensions
  match out.2 with
  | .error e => (out.1, .error e)
  | .ok plaintext => (out.1.confirmRekeyCaughtUp, .ok plaintext)

/-- `decrypt_packet_accepting_rekey`, run without interruption: the epoch read again under the lock
is then the one read before. -/
def decryptPacketAcceptingRekey (log : List Sealed) (s : Session) (header : PacketHeader)
    (ciphertext extensions : Bytes) : Session × Except CoreError Bytes :=
  if header.epoch = s.epoch then s.decryptConfirming log header ciphertext extensions
  else if header.epoch < s.epoch then (s, .error (behindError header.epoch s.epoch))
  else if !header.flags.contains PacketFlags.rekey then
    (s, .error (unflaggedError header.epoch s.epoch))
  else
    let caught := s.catchUp kdf log header ciphertext extensions
    match caught.2 with
    | .error e => (caught.1, .error e)
    | .ok plaintext =>
      let accepted := caught.1.acceptPacketNumber header.packetNumber
      match accepted.2 with
      | .error e => (accepted.1, .error e)
      | .ok _ => (accepted.1.confirmRekeyCaughtUp, .ok plaintext)

variable {kdf} {log : List Sealed} {s : Session} {header : PacketHeader} {ct exts : Bytes}

/-- The steps of the receive task, as a map on the session and the place in the code. -/
def recvNext (kdf : Kdf) (log : List Sealed) (header : PacketHeader) (ct exts : Bytes)
    (x : Session × Recv) : Session × Recv :=
  recvStep kdf log header ct exts x.1 x.2

theorem recvNext_opening : (recvNext kdf log header ct exts)^[3] (s, .opening) =
      ((s.decryptConfirming log header ct exts).1,
        .done (s.decryptConfirming log header ct exts).2) := by
  simp only [iterate_succ_apply, iterate_zero_apply, recvNext, recvStep,
    decryptConfirming, decryptPacket]
  rcases h : s.openPacket log header ct exts with ⟨s₁, e | pt⟩
  · rfl
  · simp only
    rcases h' : s₁.acceptPacketNumber header.packetNumber with ⟨s₂, e | u⟩
    · rfl
    · rfl

theorem recvNext_done (n : Nat) (r : Except CoreError Bytes) :
    (recvNext kdf log header ct exts)^[n] (s, .done r) = (s, .done r) :=
  iterate_fixed rfl n

theorem decryptPacketAcceptingRekey_eq : (recvNext kdf log header ct exts)^[4] (s, .reading) =
      ((s.decryptPacketAcceptingRekey kdf log header ct exts).1,
        .done (s.decryptPacketAcceptingRekey kdf log header ct exts).2) := by
  unfold decryptPacketAcceptingRekey
  rw [iterate_succ_apply]
  by_cases heq : header.epoch = s.epoch
  · simp only [recvNext, recvStep, heq, if_true]
    exact recvNext_opening
  by_cases hlt : header.epoch < s.epoch
  · simp only [recvNext, recvStep, if_neg heq, if_pos hlt]
    exact recvNext_done 3 _
  by_cases hflag : header.flags.contains PacketFlags.rekey
  · simp only [recvNext, recvStep, if_neg heq, if_neg hlt, hflag, Bool.not_true,
      Bool.false_eq_true, if_false]
    rw [iterate_succ_apply]
    simp only [recvNext, recvStep, if_neg heq, if_neg hlt]
    rcases hc : s.catchUp kdf log header ct exts with ⟨s₁, e | pt⟩
    · exact recvNext_done 2 _
    · simp only [iterate_succ_apply, iterate_zero_apply, recvNext, recvStep]
      rcases ha : s₁.acceptPacketNumber header.packetNumber with ⟨s₂, e | u⟩
      · rfl
      · rfl
  · simp only [recvNext, recvStep, if_neg heq, if_neg hlt, hflag, Bool.not_false, if_true]
    exact recvNext_done 3 _

end Session

end PhantomProtocol
