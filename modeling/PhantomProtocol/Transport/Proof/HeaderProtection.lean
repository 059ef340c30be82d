import PhantomProtocol.Transport.HeaderProtection

/-!
# Packets are not malleable

A packet that is parsed is the one whose protected form was read (`Framing.protect_of_parse`), and
what is given to the AEAD determines the packet (`PhantomPacket.eq_of_aeadInput`): the associated data
has every field of the header, and the mask depends on nothing but the payload.
-/

namespace PhantomProtocol

open List

/-! ## Masks -/

theorem applyMask_length (bytes mask : Bytes) : (applyMask bytes mask).length = bytes.length := by
  induction bytes generalizing mask with
  | nil => rfl
  | cons _ _ ih =>
    cases mask with
    | nil => rfl
    | cons => simp [applyMask, ih]

theorem applyMask_applyMask (bytes mask : Bytes) : applyMask (applyMask bytes mask) mask = bytes := by
  induction bytes generalizing mask with
  | nil => rfl
  | cons _ _ ih =>
    cases mask with
    | nil => rfl
    | cons =>
      rw [applyMask, applyMask, ih, UInt8.xor_assoc, UInt8.xor_self, UInt8.xor_zero]

/-! ## Headers -/

namespace PacketHeader

variable {h k : PacketHeader} {bytes : Bytes}

@[simp] theorem toWire_length (h : PacketHeader) : h.toWire.length = size := by
  simp [toWire, size]

/-- What is written is read, but for the session id. -/
theorem fromWire_toWire (h : PacketHeader) :
    fromWire h.toWire = .ok { h with sessionId := noSessionId } := by
  have hpn : beAt h.toWire 1 8 = h.packetNumber.toNat := by
    simpa [toWire] using beAt_append [h.version] (beBytes 2 h.flags.toNat ++
      (beBytes 2 h.streamId.toNat ++ [h.epoch, h.pathId])) rfl h.packetNumber.toNat_lt
  have hflags : beAt h.toWire 9 2 = h.flags.toNat := by
    simpa [toWire] using beAt_append (h.version :: beBytes 8 h.packetNumber.toNat)
      (beBytes 2 h.streamId.toNat ++ [h.epoch, h.pathId]) (by simp) h.flags.toNat_lt
  have hstream : beAt h.toWire 11 2 = h.streamId.toNat := by
    simpa [toWire] using beAt_append
      (h.version :: beBytes 8 h.packetNumber.toNat ++ beBytes 2 h.flags.toNat) [h.epoch, h.pathId]
      (by simp) h.streamId.toNat_lt
  rw [fromWire, if_neg (by simp), hpn, hflags, hstream, UInt64.ofNat_toNat, UInt16.ofNat_toNat,
    UInt16.ofNat_toNat]
  rfl

theorem fromWire_ok (h : size ≤ bytes.length) : ∃ header, fromWire bytes = .ok header :=
  ⟨_, if_neg (by omega)⟩

theorem toWire_of_fromWire {h : PacketHeader} (hlen : bytes.length = size)
    (hread : fromWire bytes = .ok h) : h.toWire = bytes := by
  have hpn : beBytes 8 (UInt64.ofNat (beAt bytes 1 8)).toNat = (bytes.drop 1).take 8 := by
    rw [UInt64.toNat_ofNat_of_lt' (beAt_lt bytes 1 8)]
    exact beBytes_beAt (by simp [hlen, size])
  have hflags : beBytes 2 (UInt16.ofNat (beAt bytes 9 2)).toNat = (bytes.drop 9).take 2 := by
    rw [UInt16.toNat_ofNat_of_lt' (beAt_lt bytes 9 2)]
    exact beBytes_beAt (by simp [hlen, size])
  have hstream : beBytes 2 (UInt16.ofNat (beAt bytes 11 2)).toNat = (bytes.drop 11).take 2 := by
    rw [UInt16.toNat_ofNat_of_lt' (beAt_lt bytes 11 2)]
    exact beBytes_beAt (by simp [hlen, size])
  rw [fromWire, if_neg (by omega)] at hread
  cases hread
  rw [toWire, hpn, hflags, hstream]
  match bytes, hlen with
  | [b0, b1, b2, b3, b4, b5, b6, b7, b8, b9, b10, b11, b12, b13, b14], _ => rfl

theorem toWire_of_aad (heq : h.toAadImage = k.toAadImage) :
    h.sessionId = k.sessionId ∧ h.toWire = k.toWire := by
  have hsplit : ∀ h : PacketHeader, h.toAadImage = h.version :: (h.sessionId.1 ++ h.toWire.tail) := by
    intro h
    simp [toAadImage, toWire]
  rw [hsplit, hsplit] at heq
  obtain ⟨hversion, hrest⟩ := List.cons.inj heq
  obtain ⟨hid, htail⟩ := append_inj hrest (by rw [h.sessionId.2, k.sessionId.2])
  have hcons : ∀ h : PacketHeader, h.toWire = h.version :: h.toWire.tail := fun _ => rfl
  exact ⟨Subtype.ext hid, by rw [hcons h, hcons k, hversion, htail]⟩

/-- The associated data determines the header. -/
theorem toAadImage_injective (heq : h.toAadImage = k.toAadImage) : h = k := by
  obtain ⟨hid, hwire⟩ := toWire_of_aad heq
  have hread := fromWire_toWire h
  rw [hwire, fromWire_toWire] at hread
  obtain ⟨version, sessionId, streamId, packetNumber, flags, epoch, pathId⟩ := h
  obtain ⟨version', sessionId', streamId', packetNumber', flags', epoch', pathId'⟩ := k
  cases hid
  cases hread
  rfl

end PacketHeader

/-! ## Packets -/

theorem PhantomPacket.eq_of_aeadInput {p q : PhantomPacket} {pre pre' : Bytes}
    (hp : p.extensions = []) (hq : q.extensions = []) (heq : p.aeadInput pre = q.aeadInput pre') :
    p = q := by
  obtain ⟨header, payload, extensions⟩ := p
  obtain ⟨header', payload', extensions'⟩ := q
  cases hp
  cases hq
  have haad : header.toAadImage ++ [] = header'.toAadImage ++ [] := congrArg (·.2.1) heq
  have hpayload : payload = payload' := congrArg (·.2.2) heq
  rw [append_nil, append_nil] at haad
  rw [PacketHeader.toAadImage_injective haad, hpayload]

theorem hpSample_ok {payload : Bytes} (h : hpSampleLen ≤ payload.length) :
    hpSample payload = .ok ⟨payload.take hpSampleLen, length_take_of_le h⟩ := by
  rw [hpSample, dif_pos h]

namespace Framing

variable {computeMask : ComputeMask} {mine peer : Framing} {packet : PhantomPacket} {bytes : Bytes}

/-- The mask of a packet received, by its payload. -/
def recvMask (computeMask : ComputeMask) (s : Framing) (payload : Bytes)
    (h : hpSampleLen ≤ payload.length) : Bytes :=
  (s.headerProtection.maskRecv computeMask
    ⟨payload.take hpSampleLen, length_take_of_le h⟩).1

theorem recvMask_length (s : Framing) (payload : Bytes) (h : hpSampleLen ≤ payload.length) :
    (recvMask computeMask s payload h).length = hpSampleLen :=
  (s.headerProtection.maskRecv computeMask
    ⟨payload.take hpSampleLen, length_take_of_le h⟩).2

/-- The two endpoints of a session. -/
structure Swapped (mine peer : Framing) : Prop where
  id : mine.id = peer.id
  suite : mine.headerProtection.suite = peer.headerProtection.suite
  recv : mine.headerProtection.hpRecv = peer.headerProtection.hpSend
  send : mine.headerProtection.hpSend = peer.headerProtection.hpRecv

theorem swapped_derive (kdf : Kdf) (suite : CipherSuite) (secret : Bytes) (id : SessionId)
    (swap : Bool) :
    Swapped ⟨id, .derive kdf suite secret swap⟩ ⟨id, .derive kdf suite secret !swap⟩ := by
  cases swap
  · exact ⟨rfl, rfl, rfl, rfl⟩
  · exact ⟨rfl, rfl, rfl, rfl⟩

theorem parseProtected_eq (h : hpSampleLen ≤ (bytes.drop PacketHeader.size).length) :
    ∃ header, PacketHeader.fromWire (applyMask (bytes.take PacketHeader.size)
        (recvMask computeMask mine (bytes.drop PacketHeader.size) h)) = .ok header ∧
      mine.parseProtected computeMask bytes =
        .ok ⟨{ header with sessionId := mine.id }, bytes.drop PacketHeader.size, []⟩ := by
  have hlen : ¬bytes.length < PacketHeader.size := by
    rw [length_drop] at h
    unfold hpSampleLen at h
    omega
  have hraw : RawPacket.fromWire bytes = .ok ⟨⟨bytes.take PacketHeader.size,
      length_take_of_le (Nat.not_lt.1 hlen)⟩, bytes.drop PacketHeader.size, []⟩ := by
    rw [RawPacket.fromWire, dif_neg hlen]
  have hmask : ¬(recvMask computeMask mine (bytes.drop PacketHeader.size) h).length <
      PacketHeader.size := by
    rw [recvMask_length]
    decide
  obtain ⟨header, hheader⟩ := PacketHeader.fromWire_ok (show PacketHeader.size ≤ (applyMask
      (bytes.take PacketHeader.size)
      (recvMask computeMask mine (bytes.drop PacketHeader.size) h)).length by
    rw [applyMask_length, length_take]
    omega)
  refine ⟨header, hheader, ?_⟩
  rw [parseProtected, hraw]
  show (hpSample (bytes.drop PacketHeader.size) >>= _) = _
  rw [hpSample_ok h]
  show ((if (recvMask computeMask mine (bytes.drop PacketHeader.size) h).length < PacketHeader.size
    then _ else PacketHeader.fromWire _).mapError _ >>= _) = _
  rw [if_neg hmask]
  show ((PacketHeader.fromWire (applyMask (bytes.take PacketHeader.size)
    (recvMask computeMask mine (bytes.drop PacketHeader.size) h))).mapError _ >>= _) = _
  rw [hheader]
  rfl

/-- What is parsed has a header and a sample. -/
theorem sample_of_parse (h : mine.parseProtected computeMask bytes = .ok packet) :
    hpSampleLen ≤ (bytes.drop PacketHeader.size).length := by
  by_contra hshort
  rw [parseProtected] at h
  by_cases hlen : bytes.length < PacketHeader.size
  · rw [RawPacket.fromWire, dif_pos hlen] at h
    cases h
  · rw [RawPacket.fromWire, dif_neg hlen] at h
    change (hpSample (bytes.drop PacketHeader.size) >>= _) = _ at h
    rw [hpSample, dif_neg hshort] at h
    cases h

theorem parseProtected_ok_iff :
    (∃ packet, mine.parseProtected computeMask bytes = .ok packet) ↔ 31 ≤ bytes.length := by
  have hiff : hpSampleLen ≤ (bytes.drop PacketHeader.size).length ↔ 31 ≤ bytes.length := by
    rw [length_drop]
    unfold hpSampleLen PacketHeader.size
    omega
  rw [← hiff]
  constructor
  · intro h
    obtain ⟨packet, h⟩ := h
    exact sample_of_parse h
  · intro h
    obtain ⟨header, -, hok⟩ := parseProtected_eq h
    exact ⟨_, hok⟩

theorem protectPacket_eq (hswap : Swapped mine peer) (h : hpSampleLen ≤ packet.payload.length) :
    peer.protectPacket computeMask packet = .ok (applyMask packet.header.toWire
      (recvMask computeMask mine packet.payload h) ++ packet.payload) := by
  rw [protectPacket, hpSample_ok h]
  show Except.ok (packet.toWireMasked (peer.headerProtection.maskSend computeMask _).1) = _
  rw [PhantomPacket.toWireMasked, PhantomPacket.toWire,
    take_left' (PacketHeader.toWire_length _), drop_left' (PacketHeader.toWire_length _),
    recvMask, HeaderProtector.maskSend, HeaderProtector.maskRecv, hswap.suite, hswap.recv]

theorem protect_of_parse (hswap : Swapped mine peer)
    (h : mine.parseProtected computeMask bytes = .ok packet) :
    packet.header.sessionId = mine.id ∧ packet.extensions = [] ∧
      peer.protectPacket computeMask packet = .ok bytes := by
  have hsample := sample_of_parse h
  obtain ⟨header, hheader, hok⟩ := parseProtected_eq hsample
  rw [hok] at h
  cases h
  refine ⟨rfl, rfl, ?_⟩
  have hlen : (applyMask (bytes.take PacketHeader.size)
      (recvMask computeMask mine (bytes.drop PacketHeader.size) hsample)).length =
      PacketHeader.size := by
    rw [length_drop] at hsample
    rw [applyMask_length, length_take]
    unfold hpSampleLen at hsample
    omega
  have hwire := PacketHeader.toWire_of_fromWire hlen hheader
  rw [protectPacket_eq hswap hsample]
  show Except.ok (applyMask header.toWire _ ++ _) = _
  rw [hwire, applyMask_applyMask, take_append_drop]

/-- `parse_protected` inverts the peer's `protect_packet`. -/
theorem parse_protect (hswap : Swapped mine peer)
    (hid : packet.header.sessionId = mine.id) (hpayload : hpSampleLen ≤ packet.payload.length)
    (hext : packet.extensions = []) :
    ∃ wire, peer.protectPacket computeMask packet = .ok wire ∧
      mine.parseProtected computeMask wire = .ok packet := by
  refine ⟨_, protectPacket_eq hswap hpayload, ?_⟩
  generalize hwire : applyMask packet.header.toWire
    (recvMask computeMask mine packet.payload hpayload) ++ packet.payload = wire
  have hlen : (applyMask packet.header.toWire
      (recvMask computeMask mine packet.payload hpayload)).length = PacketHeader.size := by
    rw [applyMask_length, PacketHeader.toWire_length]
  have hdrop : wire.drop PacketHeader.size = packet.payload := by
    rw [← hwire, drop_left' hlen]
  have htake : wire.take PacketHeader.size = applyMask packet.header.toWire
      (recvMask computeMask mine packet.payload hpayload) := by
    rw [← hwire, take_left' hlen]
  obtain ⟨header, hheader, hok⟩ := @parseProtected_eq computeMask mine wire (hdrop ▸ hpayload)
  simp only [hdrop, htake, applyMask_applyMask, PacketHeader.fromWire_toWire] at hheader
  rw [hok, ← Except.ok.inj hheader, hdrop, ← hid, ← hext]

end Framing

/-! ## What the peer has sent -/

namespace Sender

variable {computeMask : ComputeMask} {framing : Framing} {s s' : Sender} {e : Event}

/-- What has been sealed belongs to a packet, and the packet was put on the wire if it could be
protected. -/
def Emits (computeMask : ComputeMask) (framing : Framing) (s : Sender) : Prop :=
  ∀ r ∈ s.log, ∃ header extensions, r.aad = Session.packetAad header extensions ∧
    ∀ wire, framing.protectPacket computeMask ⟨header, r.ciphertext, extensions⟩ = .ok wire →
      wire ∈ s.emitted

theorem encryptPacket_aad {session : Session} {header : PacketHeader}
    {plaintext extensions ciphertext : Bytes} {r : Sealed}
    (h : (session.encryptPacket header plaintext extensions ciphertext).2 = .ok r) :
    r.aad = Session.packetAad header extensions := by
  unfold Session.encryptPacket CryptoState.encryptWithNonce at h
  split at h
  · cases h
  · cases h
    rfl

theorem emits_step (h : Emits computeMask framing s) (hstep : step computeMask framing s e = some s') :
    Emits computeMask framing s' := by
  cases e with
  | change =>
    cases hstep
    exact h
  | send header plaintext extensions ciphertext =>
    unfold step at hstep
    cases hout : (s.session.encryptPacket header plaintext extensions ciphertext).2 with
    | error =>
      simp only [hout] at hstep
      cases hstep
      exact h
    | ok r =>
      have haad := encryptPacket_aad hout
      simp only [hout] at hstep
      cases hwire : framing.protectPacket computeMask ⟨header, r.ciphertext, extensions⟩ with
      | error =>
        simp only [hwire] at hstep
        cases hstep
        intro q hq
        rcases mem_cons.1 hq with rfl | hq
        · grind
        · exact h q hq
      | ok =>
        simp only [hwire] at hstep
        cases hstep
        intro q hq
        rcases mem_cons.1 hq with rfl | hq
        · grind
        · obtain ⟨header', extensions', haad', hemitted⟩ := h q hq
          exact ⟨header', extensions', haad', fun wire' hok =>
            mem_cons_of_mem _ (hemitted wire' hok)⟩

theorem emits_run {es : List Event} (h : Emits computeMask framing s)
    (hrun : Lts.run (step computeMask framing) s es = some s') : Emits computeMask framing s' :=
  Lts.run_inv (fun _ _ _ hemits hstep => emits_step hemits hstep) es h hrun

end Sender

namespace Framing

/-- The AEAD opens what was parsed only if it was put on the wire. -/
theorem mem_emitted_of_open {computeMask : ComputeMask} {mine peer : Framing}
    (hswap : Swapped mine peer) {s : Sender} (hemits : s.Emits computeMask peer) {log : List Sealed}
    {c : CryptoState} {bytes plaintext : Bytes} {packet : PhantomPacket}
    (hlog : ∀ r ∈ log, r.key = c.recvKey → r ∈ s.log)
    (hparse : mine.parseProtected computeMask bytes = .ok packet)
    (hopen : (CryptoState.decryptWithNonce log c (packet.aeadInput c.noncePrefix).1
      (packet.aeadInput c.noncePrefix).2.1 (packet.aeadInput c.noncePrefix).2.2).2 = .ok plaintext) :
    bytes ∈ s.emitted := by
  obtain ⟨r, hr, hkey, -, haad, hct, -⟩ := CryptoState.decryptWithNonce_ok hopen
  obtain ⟨header, extensions, haad', hemitted⟩ := hemits r (hlog r hr hkey)
  obtain ⟨-, hext, hprotect⟩ := protect_of_parse hswap hparse
  have himage : header.toAadImage ++ extensions = packet.header.toAadImage ++ [] := by
    have heq : header.toAadImage ++ extensions = packet.header.toAadImage ++ packet.extensions :=
      haad'.symm.trans haad
    rwa [hext] at heq
  obtain ⟨hheader, hnone⟩ := append_inj himage (by simp)
  have hpacket : (⟨header, r.ciphertext, extensions⟩ : PhantomPacket) = packet := by
    have hct' : r.ciphertext = packet.payload := hct
    rw [PacketHeader.toAadImage_injective hheader, hct', hnone, ← hext]
  exact hemitted bytes (hpacket ▸ hprotect)

/-- **Packets are not malleable.** Between two endpoints with swapped keys, and whatever the mask:
`parse_protected` accepts the byte strings of at least 31 bytes; it inverts the peer's `protect_packet`;
no two byte strings give the same to the AEAD; and an ideal AEAD opens only what the peer put on the
wire, if nobody else seals under the key. -/
theorem wire_nonmalleable (computeMask : ComputeMask) (mine peer : Framing)
    (hswap : Swapped mine peer) :
    (∀ bytes, (∃ packet, mine.parseProtected computeMask bytes = .ok packet) ↔ 31 ≤ bytes.length) ∧
    (∀ packet : PhantomPacket, packet.header.sessionId = mine.id → 16 ≤ packet.payload.length →
      packet.extensions = [] → ∃ wire, peer.protectPacket computeMask packet = .ok wire ∧
        mine.parseProtected computeMask wire = .ok packet) ∧
    (∀ bytes bytes' packet packet' pre pre',
      mine.parseProtected computeMask bytes = .ok packet →
      mine.parseProtected computeMask bytes' = .ok packet' → bytes ≠ bytes' →
      packet.aeadInput pre ≠ packet'.aeadInput pre') ∧
    (∀ (session : Session) (es : List Sender.Event) (s : Sender),
      Lts.run (Sender.step computeMask peer) ⟨session, [], []⟩ es = some s →
      ∀ (log : List Sealed) (c : CryptoState), (∀ r ∈ log, r.key = c.recvKey → r ∈ s.log) →
      ∀ bytes packet plaintext, mine.parseProtected computeMask bytes = .ok packet →
        (CryptoState.decryptWithNonce log c (packet.aeadInput c.noncePrefix).1
          (packet.aeadInput c.noncePrefix).2.1 (packet.aeadInput c.noncePrefix).2.2).2 =
            .ok plaintext →
        bytes ∈ s.emitted) := by
  refine ⟨fun _ => parseProtected_ok_iff, fun _ hid hpayload hext => parse_protect hswap hid hpayload hext,
    ?_, ?_⟩
  · intro bytes bytes' packet packet' pre pre' hparse hparse' hne heq
    obtain ⟨-, hext, hprotect⟩ := protect_of_parse hswap hparse
    obtain ⟨-, hext', hprotect'⟩ := protect_of_parse hswap hparse'
    rw [PhantomPacket.eq_of_aeadInput hext hext' heq, hprotect'] at hprotect
    exact hne (Except.ok.inj hprotect).symm
  · intro session es s hrun log c hlog bytes packet plaintext hparse hopen
    have hemits : s.Emits computeMask peer := by
      apply Sender.emits_run _ hrun
      intro r hr
      cases hr
    exact mem_emitted_of_open hswap hemits hlog hparse hopen

def plainClient : Framing := ⟨PacketHeader.noSessionId, .derive Kdf.plain .aes256Gcm [1] false⟩

def plainServer : Framing := ⟨PacketHeader.noSessionId, .derive Kdf.plain .aes256Gcm [1] true⟩

def plainPacket : PhantomPacket where
  header := ⟨wireVersion, PacketHeader.noSessionId, 1, 2, PacketFlags.encrypted, 0, 0⟩
  payload := List.replicate 16 7
  extensions := []

/-- One packet from the server to the client: it is parsed and opened, and it is on the wire. -/
theorem wire_nonmalleable_plain :
    ∃ s wire, Lts.run (Sender.step (fun _ _ sample => sample) plainServer)
        ⟨.new Kdf.plain .aes256Gcm [1] true, [], []⟩
        [.send plainPacket.header [] [] plainPacket.payload] = some s ∧
      plainServer.protectPacket (fun _ _ sample => sample) plainPacket = .ok wire ∧
      plainClient.parseProtected (fun _ _ sample => sample) wire = .ok plainPacket ∧
      wire ∈ s.emitted := by
  have hwire := wire_nonmalleable (fun _ _ sample => sample) plainClient plainServer
    (swapped_derive Kdf.plain .aes256Gcm [1] PacketHeader.noSessionId false)
  obtain ⟨-, hinverts, -, hopens⟩ := hwire
  obtain ⟨wire, hprotect, hparse⟩ := hinverts plainPacket rfl (by decide) rfl
  obtain ⟨s, hrun, hlog⟩ : ∃ s, Lts.run (Sender.step (fun _ _ sample => sample) plainServer)
      ⟨.new Kdf.plain .aes256Gcm [1] true, [], []⟩
      [.send plainPacket.header [] [] plainPacket.payload] = some s ∧
      (CryptoState.decryptWithNonce s.log (.new Kdf.plain .aes256Gcm [1] false)
        (plainPacket.aeadInput (CryptoState.new Kdf.plain .aes256Gcm [1] false).noncePrefix).1
        (plainPacket.aeadInput (CryptoState.new Kdf.plain .aes256Gcm [1] false).noncePrefix).2.1
        (plainPacket.aeadInput (CryptoState.new Kdf.plain .aes256Gcm [1] false).noncePrefix).2.2).2 =
          .ok [] := ⟨_, rfl, by decide⟩
  exact ⟨s, wire, hrun, hprotect, hparse,
    hopens _ _ s hrun s.log _ (fun r hr _ => hr) wire plainPacket [] hparse hlog⟩

end Framing

end PhantomProtocol
