import PhantomProtocol.Security.Proof.ReplayWindow
import PhantomProtocol.Transport.Proof.RekeyTrigger

/-!
# Authenticated delivery

One session that is handed any packets at all, while its peer seals and it rekeys and seals itself.
-/

namespace PhantomProtocol

namespace Session

variable {kdf : Kdf} {log : List Sealed} {s : Session} {header : PacketHeader}
  {ct exts pt : Bytes}

/-- The keys that `decrypt_packet_accepting_rekey` tries on a packet: those of its epoch. -/
def trialCrypto (kdf : Kdf) (s : Session) (header : PacketHeader) : CryptoState :=
  if header.epoch = s.epoch then s.crypto
  else (s.deriveForwardCrypto kdf (header.epoch - s.epoch)).2

/-- What the AEAD makes of the packet under those keys. -/
def trialOpen (kdf : Kdf) (log : List Sealed) (s : Session) (header : PacketHeader)
    (ciphertext extensions : Bytes) : CryptoState × Except CoreError Bytes :=
  CryptoState.decryptWithNonce log (s.trialCrypto kdf header)
    (buildPacketNonce (s.trialCrypto kdf header).noncePrefix header)
    (packetAad header extensions) ciphertext

/-- The packet is behind, ahead without the flag, too far ahead, or does not open. -/
def Refused (kdf : Kdf) (log : List Sealed) (s : Session) (header : PacketHeader)
    (ciphertext extensions : Bytes) : Prop :=
  header.epoch < s.epoch ∨
  (s.epoch < header.epoch ∧ ¬header.flags.contains PacketFlags.rekey) ∨
  s.epoch.toNat + maxRekeyCatchup.toNat < header.epoch.toNat ∨
  ∃ e, (s.trialOpen kdf log header ciphertext extensions).2 = .error e

/-- The end of `decrypt_packet_accepting_rekey`, once the packet has opened. -/
def acceptOpened (s : Session) (pn : UInt64) (plaintext : Bytes) :
    Session × Except CoreError Bytes :=
  let accepted := s.acceptPacketNumber pn
  match accepted.2 with
  | .error e => (accepted.1, .error e)
  | .ok _ => (accepted.1.confirmRekeyCaughtUp, .ok plaintext)

theorem acceptOpened_cases (s : Session) (pn : UInt64) (pt : Bytes) :
    (s.acceptOpened pn pt).1.epoch = s.epoch ∧
    (s.acceptOpened pn pt).1.crypto = s.crypto ∧
    (s.acceptOpened pn pt).1.recvReplay = (s.recvReplay.accept pn).1 ∧
    (((s.recvReplay.accept pn).2 = true ∧ (s.acceptOpened pn pt).2 = .ok pt) ∨
      ((s.recvReplay.accept pn).2 = false ∧ ∃ e, (s.acceptOpened pn pt).2 = .error e)) := by
  unfold acceptOpened acceptPacketNumber
  cases h : (s.recvReplay.accept pn).2 with
  | true => simp [h, confirmRekeyCaughtUp]
  | false => simp [h]

/-! ## The two outcomes of the AEAD -/

theorem steps_gt_iff (h : s.epoch < header.epoch) : header.epoch - s.epoch > maxRekeyCatchup ↔
      s.epoch.toNat + maxRekeyCatchup.toNat < header.epoch.toNat := by
  have hlt := UInt8.lt_iff_toNat_lt.1 h
  grind [gt_iff_lt, UInt8.lt_iff_toNat_lt, UInt8.toNat_sub_of_le, UInt8.le_of_lt]

theorem decryptConfirming_eq (h : header.epoch = s.epoch) :
    (∀ e, (s.trialOpen kdf log header ct exts).2 = .error e →
      s.decryptConfirming log header ct exts = (s, .error e)) ∧
    (∀ pt, (s.trialOpen kdf log header ct exts).2 = .ok pt →
      s.decryptConfirming log header ct exts =
        { s with crypto := (s.trialOpen kdf log header ct exts).1 }.acceptOpened
          header.packetNumber pt) := by
  have htrial : s.trialCrypto kdf header = s.crypto := if_pos h
  have hopen : s.openPacket log header ct exts =
      ({ s with crypto := (s.trialOpen kdf log header ct exts).1 },
        (s.trialOpen kdf log header ct exts).2) := by
    rw [openPacket, trialOpen, htrial]
  unfold decryptConfirming decryptPacket
  rw [hopen]
  refine ⟨fun e he => ?_, fun pt hpt => ?_⟩
  · have hkeep : (s.trialOpen kdf log header ct exts).1 = s.crypto :=
      (CryptoState.decryptWithNonce_error he).trans htrial
    simp only [he, hkeep]
  · simp only [hpt, acceptOpened]
    cases (acceptPacketNumber { s with crypto := (s.trialOpen kdf log header ct exts).1 }
      header.packetNumber).2 with
    | error e => rfl
    | ok u => rfl

theorem trialOpen_ahead (h : s.epoch < header.epoch) : s.trialOpen kdf log header ct exts =
      CryptoState.decryptWithNonce log (s.deriveForwardCrypto kdf (header.epoch - s.epoch)).2
        (buildPacketNonce (s.deriveForwardCrypto kdf (header.epoch - s.epoch)).2.noncePrefix header)
        (packetAad header exts) ct := by
  have hne : ¬header.epoch = s.epoch := fun he => UInt8.lt_irrefl _ (he ▸ h)
  simp only [trialOpen, trialCrypto, if_neg hne]

theorem catchUp_refused (hfwd : s.epoch < header.epoch)
    (h : s.epoch.toNat + maxRekeyCatchup.toNat < header.epoch.toNat ∨
      ∃ e, (s.trialOpen kdf log header ct exts).2 = .error e) :
    ∃ e, s.catchUp kdf log header ct exts = (s, .error e) := by
  unfold catchUp
  dsimp only
  rw [← trialOpen_ahead hfwd]
  split
  · exact ⟨_, rfl⟩
  · grind [steps_gt_iff]

theorem catchUp_opened (hfwd : s.epoch < header.epoch)
    (h : ¬s.epoch.toNat + maxRekeyCatchup.toNat < header.epoch.toNat)
    (hpt : (s.trialOpen kdf log header ct exts).2 = .ok pt) :
    s.catchUp kdf log header ct exts =
      (s.commitForwardCrypto (header.epoch - s.epoch)
        (s.deriveForwardCrypto kdf (header.epoch - s.epoch)).1
        (s.trialOpen kdf log header ct exts).1, .ok pt) := by
  unfold catchUp
  dsimp only
  rw [if_neg (mt (steps_gt_iff hfwd).1 h), ← trialOpen_ahead hfwd, hpt]

/-- **Failure atomicity.** A refused packet changes nothing in the session. -/
theorem decryptPacketAcceptingRekey_refused (h : s.Refused kdf log header ct exts) :
    ∃ e, s.decryptPacketAcceptingRekey kdf log header ct exts = (s, .error e) := by
  unfold decryptPacketAcceptingRekey
  by_cases heq : header.epoch = s.epoch
  · rw [if_pos heq]
    rcases h with h | ⟨h, -⟩ | h | ⟨e, h⟩
    · exact absurd (heq ▸ h) (UInt8.lt_irrefl _)
    · exact absurd (heq ▸ h) (UInt8.lt_irrefl _)
    · rw [heq] at h
      omega
    · exact ⟨e, (decryptConfirming_eq heq).1 e h⟩
  rw [if_neg heq]
  by_cases hlt : header.epoch < s.epoch
  · rw [if_pos hlt]
    exact ⟨_, rfl⟩
  rw [if_neg hlt]
  have hfwd : s.epoch < header.epoch :=
    UInt8.lt_of_le_of_ne (UInt8.not_lt.1 hlt) fun he => heq he.symm
  by_cases hflag : header.flags.contains PacketFlags.rekey
  · obtain ⟨e, hc⟩ : ∃ e, s.catchUp kdf log header ct exts = (s, .error e) := by
      rcases h with h | ⟨-, h⟩ | h | h
      · exact absurd h hlt
      · exact absurd hflag h
      · exact catchUp_refused hfwd (.inl h)
      · exact catchUp_refused hfwd (.inr h)
    rw [if_neg (by simp [hflag]), hc]
    exact ⟨e, rfl⟩
  · rw [if_pos (by simp [hflag])]
    exact ⟨_, rfl⟩

/-- Whatever is not refused opens, the session is then at the packet's epoch with the keys that
opened it, and the replay window has the last word. -/
theorem decryptPacketAcceptingRekey_opened (h : ¬s.Refused kdf log header ct exts) :
    ∃ (s₁ : Session) (pt : Bytes), (s.trialOpen kdf log header ct exts).2 = .ok pt ∧
      s₁.epoch = header.epoch ∧ s₁.crypto = (s.trialOpen kdf log header ct exts).1 ∧
      s₁.recvReplay = s.recvReplay ∧
      s.decryptPacketAcceptingRekey kdf log header ct exts =
        s₁.acceptOpened header.packetNumber pt := by
  simp only [Refused, not_or, not_exists] at h
  obtain ⟨hbehind, hflag, hahead, hopen⟩ := h
  obtain ⟨pt, hpt⟩ : ∃ pt, (s.trialOpen kdf log header ct exts).2 = .ok pt := by
    cases hres : (s.trialOpen kdf log header ct exts).2 with
    | error e => exact absurd hres (hopen e)
    | ok pt => exact ⟨pt, rfl⟩
  unfold decryptPacketAcceptingRekey
  by_cases heq : header.epoch = s.epoch
  · rw [if_pos heq, (decryptConfirming_eq heq).2 pt hpt]
    exact ⟨{ s with crypto := (s.trialOpen kdf log header ct exts).1 }, pt, hpt, heq.symm, rfl,
      rfl, rfl⟩
  have hfwd : s.epoch < header.epoch :=
    UInt8.lt_of_le_of_ne (UInt8.not_lt.1 hbehind) fun he => heq he.symm
  have hset : header.flags.contains PacketFlags.rekey := by simp_all
  rw [if_neg heq, if_neg hbehind, if_neg (by simp [hset]), catchUp_opened hfwd hahead hpt]
  exact ⟨_, pt, hpt, commit_epoch hfwd, rfl, rfl, rfl⟩

end Session

/-! ## One session under any input -/

namespace AuthenticatedDelivery

open Session Lts

structure State where
  session : Session
  /-- What the peer has sealed; nothing else opens. -/
  peerSealed : List Sealed
  returned : List (UInt64 × Bytes)

inductive Event where
  | peerSeals (frame : Sealed)
  | rekey
  | ratchetToEpoch (target : UInt8)
  | setRekeyThreshold (n : Nat)
  | encryptPacket (header : PacketHeader) (plaintext extensions ciphertext : Bytes)
  /-- `decrypt_packet_accepting_rekey` on any input. -/
  | receive (header : PacketHeader) (ciphertext extensions : Bytes)

def init (kdf : Kdf) (suite : CipherSuite) (secret : Bytes) (isServer : Bool) : State :=
  { session := Session.new kdf suite secret isServer, peerSealed := [], returned := [] }

def step (kdf : Kdf) (x : State) : Event → Option State
  | .peerSeals frame => some { x with peerSealed := frame :: x.peerSealed }
  | .rekey => some { x with session := (x.session.rekey kdf).1 }
  | .ratchetToEpoch target => some { x with session := (x.session.ratchetToEpoch kdf target).1 }
  | .setRekeyThreshold n => some { x with session := x.session.setRekeyThreshold n }
  | .encryptPacket header plaintext extensions ciphertext =>
    some { x with session := (x.session.encryptPacket header plaintext extensions ciphertext).1 }
  | .receive header ciphertext extensions =>
    let out := x.session.decryptPacketAcceptingRekey kdf x.peerSealed header ciphertext extensions
    some { x with
      session := out.1
      returned := (out.2.toOption.map (header.packetNumber, ·)).toList ++ x.returned }

variable {kdf : Kdf} {x x' : State} {ev : Event} {header : PacketHeader} {ct exts : Bytes}

/-- The replay window stands for the packet numbers that have been returned. -/
def Tracks (x : State) : Prop :=
  x.session.recvReplay.Remembers { pn | pn ∈ x.returned.map (·.1) } ∧ (x.returned.map (·.1)).Nodup

theorem rekey_recvReplay (s : Session) : (s.rekey kdf).1.recvReplay = s.recvReplay := by
  unfold rekey
  split
  · rfl
  · rfl

theorem ratchetToEpoch_recvReplay (s : Session) (target : UInt8) :
    (s.ratchetToEpoch kdf target).1.recvReplay = s.recvReplay := by
  fun_induction Session.ratchetToEpoch kdf s target with
  | case1 s h e he => exact rekey_recvReplay s
  | case2 s h e he ih => exact ih.trans (rekey_recvReplay s)
  | case3 s h => rfl

/-- What a call of `decrypt_packet_accepting_rekey` does. -/
structure Receives (kdf : Kdf) (header : PacketHeader) (ct exts : Bytes) (x x' : State) : Prop where
  refused : x.session.Refused kdf x.peerSealed header ct exts →
    x'.session = x.session ∧ x'.returned = x.returned
  /-- The epoch moves only to that of a packet that opened. -/
  epoch : x'.session.epoch = x.session.epoch ∨ x'.session.epoch = header.epoch ∧
    ∃ pt, (x.session.trialOpen kdf x.peerSealed header ct exts).2 = .ok pt
  /-- What is returned was sealed by the peer, for the keys of its epoch, its packet number, header
  and extensions. -/
  sealed : x'.returned = x.returned ∨
    ∃ r ∈ x.peerSealed, x'.returned = (header.packetNumber, r.plaintext) :: x.returned ∧
      r.key = (x.session.trialCrypto kdf header).recvKey ∧
      r.nonce = buildPacketNonce (x.session.trialCrypto kdf header).noncePrefix header ∧
      r.aad = packetAad header exts ∧ r.ciphertext = ct

def Effect (kdf : Kdf) (x : State) (ev : Event) (x' : State) : Prop :=
  match ev with
  | .receive header ct exts => Receives kdf header ct exts x x'
  | _ => x'.returned = x.returned

theorem receive_receives
    (h : step kdf x (.receive header ct exts) = some x') : Receives kdf header ct exts x x' := by
  cases h
  by_cases href : x.session.Refused kdf x.peerSealed header ct exts
  · obtain ⟨e, he⟩ := decryptPacketAcceptingRekey_refused href
    rw [he]
    exact ⟨fun _ => ⟨rfl, rfl⟩, .inl rfl, .inl rfl⟩
  obtain ⟨s₁, pt, hpt, hep, -, -, heq⟩ := decryptPacketAcceptingRekey_opened href
  obtain ⟨hep', -, -, hres⟩ := acceptOpened_cases s₁ header.packetNumber pt
  obtain ⟨r, hr, hkey, hnonce, haad, hct, rfl⟩ := CryptoState.decryptWithNonce_ok hpt
  rw [heq]
  refine ⟨fun h => absurd h href, .inr ⟨hep'.trans hep, _, hpt⟩, ?_⟩
  rcases hres with ⟨-, hok⟩ | ⟨-, e, herr⟩
  · rw [hok]
    exact .inr ⟨r, hr, rfl, hkey, hnonce, haad, hct⟩
  · rw [herr]
    exact .inl rfl

theorem Tracks.receive (h : Tracks x)
    (hs : step kdf x (.receive header ct exts) = some x') : Tracks x' := by
  cases hs
  by_cases href : x.session.Refused kdf x.peerSealed header ct exts
  · obtain ⟨e, he⟩ := decryptPacketAcceptingRekey_refused href
    rw [he]
    exact h
  obtain ⟨s₁, pt, -, -, -, hreplay, heq⟩ := decryptPacketAcceptingRekey_opened href
  obtain ⟨-, -, hwin, hres⟩ := acceptOpened_cases s₁ header.packetNumber pt
  rw [hreplay] at hwin hres
  rw [heq]
  rcases hres with ⟨hacc, hok⟩ | ⟨hacc, e, herr⟩
  · have hnew : header.packetNumber ∉ x.returned.map (·.1) := ((h.1.accept_iff _).1 hacc).1
    obtain ⟨-, hrem⟩ | ⟨hrej, -⟩ := h.1.accept header.packetNumber
    · have hset : { pn | pn ∈ ((header.packetNumber, pt) :: x.returned).map (·.1) } =
          insert header.packetNumber { pn | pn ∈ x.returned.map (·.1) } :=
        Set.ext fun _ => List.mem_cons
      simp only [Tracks, hok, hwin]
      exact ⟨hset ▸ hrem, List.nodup_cons.2 ⟨hnew, h.2⟩⟩
    · rw [hacc] at hrej
      cases hrej
  · obtain ⟨hyes, -⟩ | ⟨-, hsame⟩ := h.1.accept header.packetNumber
    · rw [hacc] at hyes
      cases hyes
    · rw [hsame] at hwin
      simp only [Tracks, hwin, herr]
      exact h

theorem Tracks.step (h : Tracks x) (hs : AuthenticatedDelivery.step kdf x ev = some x') :
    Tracks x' := by
  cases ev with
  | receive => exact h.receive hs
  | peerSeals | setRekeyThreshold | encryptPacket =>
    cases hs
    exact h
  | rekey =>
    cases hs
    simp only [Tracks, rekey_recvReplay]
    exact h
  | ratchetToEpoch =>
    cases hs
    simp only [Tracks, ratchetToEpoch_recvReplay]
    exact h

theorem step_effect (hs : step kdf x ev = some x') : Effect kdf x ev x' := by
  cases ev with
  | receive => exact receive_receives hs
  | _ =>
    cases hs
    rfl

/-- **At most once.** Whatever a session is handed and however it is rekeyed in between, no packet
number is returned twice; a refused packet leaves no trace; the epoch follows only packets that
opened; and what is returned was sealed by the peer. -/
theorem returned_once (kdf : Kdf) (suite : CipherSuite) (secret : Bytes) (isServer : Bool)
    (es : List Event) (t : State)
    (hrun : run (step kdf) (init kdf suite secret isServer) es = some t) :
    (t.returned.map (·.1)).Nodup ∧
      Along (step kdf) (Effect kdf) (init kdf suite secret isServer) es := by
  have hinit : Tracks (init kdf suite secret isServer) :=
    ⟨by simpa [init, Session.new] using ReplayWindow.remembers_new, List.nodup_nil⟩
  have hinv : Tracks t := run_inv (fun _ _ _ h hs => h.step hs) es hinit hrun
  exact ⟨hinv.2, along_of_forall (fun _ _ _ => step_effect) es _⟩

/-- **Nothing else is dropped.** In every state reached, a packet is returned exactly when it is not
refused, its number has not been returned, and none returned is a window or more above it. -/
theorem receive_returns_iff (kdf : Kdf) (suite : CipherSuite) (secret : Bytes) (isServer : Bool)
    (es : List Event) {t : State}
    (hrun : run (step kdf) (init kdf suite secret isServer) es = some t) :
    (∃ pt, (t.session.decryptPacketAcceptingRekey kdf t.peerSealed header ct exts).2 = .ok pt) ↔
      ¬t.session.Refused kdf t.peerSealed header ct exts ∧
        header.packetNumber ∉ t.returned.map (·.1) ∧ ∀ pn ∈ t.returned.map (·.1),
          pn.toNat < header.packetNumber.toNat + windowBits := by
  have hinit : Tracks (init kdf suite secret isServer) :=
    ⟨by simpa [init, Session.new] using ReplayWindow.remembers_new, List.nodup_nil⟩
  have hinv : Tracks t := run_inv (fun _ _ _ h hs => h.step hs) es hinit hrun
  by_cases href : t.session.Refused kdf t.peerSealed header ct exts
  · obtain ⟨e, he⟩ := decryptPacketAcceptingRekey_refused href
    simp [he, href]
  · obtain ⟨s₁, pt, -, -, -, hreplay, heq⟩ := decryptPacketAcceptingRekey_opened href
    obtain ⟨-, -, -, hres⟩ := acceptOpened_cases s₁ header.packetNumber pt
    have hiff := hinv.1.accept_iff header.packetNumber
    rw [← hreplay] at hiff
    rw [heq]
    rcases hres with ⟨hacc, hok⟩ | ⟨hacc, e, herr⟩
    · simpa [hok, href] using hiff.1 hacc
    · simpa [herr, href, hacc] using hiff

/-- What the peer seals for a header, under the keys of the header's epoch. -/
def peerFrame (header : PacketHeader) : Sealed :=
  let crypto := CryptoState.new KeyAgreement.countingKdf .aes256Gcm
    ((nextSecret KeyAgreement.countingKdf)^[header.epoch.toNat] []) false
  ⟨crypto.sendKey, buildPacketNonce crypto.noncePrefix header, packetAad header [], [7], [9]⟩

def peerHeader (packetNumber : UInt64) (epoch : UInt8) : PacketHeader :=
  { version := wireVersion, sessionId := KeyAgreement.zeroSessionId, streamId := 0, packetNumber
    flags := PacketFlags.encrypted ||| PacketFlags.rekey, epoch, pathId := 0 }

/-- Packet 0 arrives twice, the session follows the peer's rekey with packet 1, and packet 0 comes
back sealed anew at the next epoch. -/
def repeatedPackets : List Event :=
  [.peerSeals (peerFrame (peerHeader 0 0)), .receive (peerHeader 0 0) [9] [],
    .receive (peerHeader 0 0) [9] [], .peerSeals (peerFrame (peerHeader 1 1)),
    .receive (peerHeader 1 1) [9] [], .peerSeals (peerFrame (peerHeader 0 1)),
    .receive (peerHeader 0 1) [9] [], .receive (peerHeader 0 0) [9] []]

theorem returned_once_repeatedPackets :
    ∃ t, run (step KeyAgreement.countingKdf)
        (init KeyAgreement.countingKdf .aes256Gcm [] true) repeatedPackets = some t ∧
      t.returned = [(1, [7]), (0, [7])] ∧ t.session.epoch = 1 ∧ (t.returned.map (·.1)).Nodup := by
  refine ⟨_, rfl, by decide, by decide, ?_⟩
  exact (returned_once KeyAgreement.countingKdf .aes256Gcm [] true repeatedPackets _ rfl).1

/-- A new packet of the peer is returned; a number returned before is not. -/
theorem receive_returns_iff_repeatedPackets :
    let events := repeatedPackets ++ [.peerSeals (peerFrame (peerHeader 2 1))]
    ∃ t, run (step KeyAgreement.countingKdf)
        (init KeyAgreement.countingKdf .aes256Gcm [] true) events = some t ∧
      (∃ pt, (t.session.decryptPacketAcceptingRekey KeyAgreement.countingKdf t.peerSealed
        (peerHeader 2 1) [9] []).2 = .ok pt) ∧
      ¬∃ pt, (t.session.decryptPacketAcceptingRekey KeyAgreement.countingKdf t.peerSealed
        (peerHeader 1 1) [9] []).2 = .ok pt := by
  intro events
  obtain ⟨t, hrun, hreturned, hopens⟩ : ∃ t, run (step KeyAgreement.countingKdf)
      (init KeyAgreement.countingKdf .aes256Gcm [] true) events = some t ∧
      t.returned.map (·.1) = [1, 0] ∧
      ¬t.session.Refused KeyAgreement.countingKdf t.peerSealed (peerHeader 2 1) [9] [] := by
    refine ⟨_, rfl, by decide, ?_⟩
    rintro (h | h | h | ⟨e, h⟩)
    · revert h; decide
    · revert h; decide
    · revert h; decide
    · cases h
  refine ⟨t, hrun, ?_, fun h => ?_⟩
  · exact (receive_returns_iff _ _ [] true events hrun).2 ⟨hopens, by
      simp [hreturned, peerHeader, windowBits]⟩
  · exact ((receive_returns_iff _ _ [] true events hrun).1 h).2.1 (by simp [hreturned, peerHeader])

end AuthenticatedDelivery

end PhantomProtocol
