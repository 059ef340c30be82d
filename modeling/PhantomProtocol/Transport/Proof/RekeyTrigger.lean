import PhantomProtocol.Transport.Proof.Rekey

/-!
# Lost rekey triggers

Two sessions that run whole operations over a network that loses, reorders, repeats and forges
packets. A session that is ahead of its peer keeps the `REKEY` flag on its frames until the peer has
been heard at its epoch, so any one of those frames brings the peer along.
-/

namespace PhantomProtocol

open List Function UInt8

namespace Session

variable {kdf : Kdf} {log : List Sealed} {s s' : Session} {header : PacketHeader}
  {ct exts pt : Bytes}

/-! ## What the operations do to epoch and flag -/

theorem acceptPacketNumber_flag (s : Session) (pn : UInt64) :
    (s.acceptPacketNumber pn).1.epoch = s.epoch ∧
      (s.acceptPacketNumber pn).1.rekeyUnconfirmed = s.rekeyUnconfirmed := by
  unfold acceptPacketNumber
  dsimp only
  split
  · exact ⟨rfl, rfl⟩
  · exact ⟨rfl, rfl⟩

theorem decryptConfirming_cases (log : List Sealed) (s : Session) (header : PacketHeader)
    (ct exts : Bytes) :
    (s.decryptConfirming log header ct exts).1.epoch = s.epoch ∧
      ((s.decryptConfirming log header ct exts).1.rekeyUnconfirmed = s.rekeyUnconfirmed ∨
        ∃ r ∈ log, r.aad = packetAad header exts) := by
  unfold decryptConfirming decryptPacket
  rcases hopen : s.openPacket log header ct exts with ⟨s₁, e | pt⟩
  · have hep : s₁.epoch = s.epoch := (congrArg (·.1.epoch) hopen).symm
    have hfl : s₁.rekeyUnconfirmed = s.rekeyUnconfirmed :=
      (congrArg (·.1.rekeyUnconfirmed) hopen).symm
    exact ⟨hep, .inl hfl⟩
  · have hep : s₁.epoch = s.epoch := (congrArg (·.1.epoch) hopen).symm
    obtain ⟨r, hr, -, -, haad, -⟩ := CryptoState.decryptWithNonce_ok (congrArg (·.2) hopen)
    refine ⟨?_, .inr ⟨r, hr, haad⟩⟩
    have hacc := (acceptPacketNumber_flag s₁ header.packetNumber).1.trans hep
    dsimp only
    cases (s₁.acceptPacketNumber header.packetNumber).2 with
    | error | ok => exact hacc

theorem commit_epoch {c : CryptoState} {secret : Bytes} (h : s.epoch < header.epoch) :
    (s.commitForwardCrypto (header.epoch - s.epoch) secret c).epoch = header.epoch := by
  have hlt := lt_iff_toNat_lt.1 h
  have hsub : (header.epoch - s.epoch).toNat = header.epoch.toNat - s.epoch.toNat :=
    UInt8.toNat_sub_of_le _ _ (UInt8.le_of_lt h)
  have hmax := header.epoch.toNat_lt
  unfold commitForwardCrypto
  dsimp only
  rw [if_neg (by omega)]
  apply UInt8.toNat_inj.1
  rw [UInt8.toNat_add, hsub]
  omega

theorem catchUp_cases (kdf : Kdf) (log : List Sealed) (h : s.epoch < header.epoch)
    (ct exts : Bytes) :
    (∃ e, s.catchUp kdf log header ct exts = (s, .error e)) ∨
    ∃ s' pt, s.catchUp kdf log header ct exts = (s', .ok pt) ∧ s'.epoch = header.epoch ∧
      ∃ r ∈ log, r.aad = packetAad header exts ∧ r.ciphertext = ct := by
  unfold catchUp
  dsimp only
  split
  · exact .inl ⟨_, rfl⟩
  · split
    · exact .inl ⟨_, rfl⟩
    · grind [CryptoState.decryptWithNonce_ok, commit_epoch]

theorem decryptPacketAcceptingRekey_cases (kdf : Kdf) (log : List Sealed) (s : Session)
    (header : PacketHeader) (ct exts : Bytes) :
    ((s.decryptPacketAcceptingRekey kdf log header ct exts).1.epoch = s.epoch ∧
      (s.decryptPacketAcceptingRekey kdf log header ct exts).1.rekeyUnconfirmed =
        s.rekeyUnconfirmed) ∨
    ((s.decryptPacketAcceptingRekey kdf log header ct exts).1.epoch = header.epoch ∧
      ∃ r ∈ log, r.aad = packetAad header exts) := by
  unfold decryptPacketAcceptingRekey
  by_cases heq : header.epoch = s.epoch
  · rw [if_pos heq]
    grind [decryptConfirming_cases]
  by_cases hlt : header.epoch < s.epoch
  · rw [if_neg heq, if_pos hlt]
    exact .inl ⟨rfl, rfl⟩
  by_cases hflag : header.flags.contains PacketFlags.rekey
  · rw [if_neg heq, if_neg hlt, if_neg (by simp [hflag])]
    have hfwd : s.epoch < header.epoch :=
      UInt8.lt_of_le_of_ne (UInt8.not_lt.1 hlt) fun he => heq he.symm
    obtain ⟨e, hc⟩ | ⟨s₁, pt, hc, hep, r, hr, haad, -⟩ := catchUp_cases kdf log hfwd ct exts
    · rw [hc]
      exact .inl ⟨rfl, rfl⟩
    · rw [hc]
      dsimp only
      have hacc := acceptPacketNumber_flag s₁ header.packetNumber
      split
      · exact .inr ⟨hacc.1.trans hep, r, hr, haad⟩
      · exact .inr ⟨hacc.1.trans hep, r, hr, haad⟩
  · simp [*]

theorem catchUp_opens (hsteps : ¬header.epoch - s.epoch > maxRekeyCatchup)
    (hopen : ∃ pt, openSealed log (s.deriveForwardCrypto kdf (header.epoch - s.epoch)).2.recvKey
      (buildPacketNonce (s.deriveForwardCrypto kdf (header.epoch - s.epoch)).2.noncePrefix header)
      (packetAad header exts) ct = some pt) :
    ∃ s' pt, s.catchUp kdf log header ct exts = (s', .ok pt) := by
  obtain ⟨pt, hpt⟩ := hopen
  have hcount : (s.deriveForwardCrypto kdf (header.epoch - s.epoch)).2.recvCounter = 0 := rfl
  simp [*, aeadMaxInvocations, catchUp, CryptoState.decryptWithNonce]

theorem decryptPacketAcceptingRekey_forward (h : s.epoch < header.epoch)
    (hflag : header.flags.contains PacketFlags.rekey)
    (hok : ∃ s' pt, s.catchUp kdf log header ct exts = (s', .ok pt)) :
    (s.decryptPacketAcceptingRekey kdf log header ct exts).1.epoch = header.epoch := by
  obtain ⟨s₁, pt, hcatch⟩ := hok
  have hep : s₁.epoch = header.epoch := by
    obtain ⟨e, hbad⟩ | ⟨s₂, pt', hok, hep, -⟩ := catchUp_cases kdf log h ct exts
    · rw [hbad] at hcatch
      cases hcatch
    · rw [hok] at hcatch
      cases hcatch
      exact hep
  have hne : ¬header.epoch = s.epoch := fun he => UInt8.lt_irrefl _ (he ▸ h)
  have hnlt : ¬header.epoch < s.epoch := UInt8.not_lt.2 (UInt8.le_of_lt h)
  have hacc := (acceptPacketNumber_flag s₁ header.packetNumber).1.trans hep
  rw [decryptPacketAcceptingRekey, if_neg hne, if_neg hnlt, if_neg (by simp [hflag]), hcatch]
  dsimp only
  split
  · exact hacc
  · exact hacc

theorem recvNext_advance (x : Session × Recv) (n : Nat) :
    Advance kdf x.1 ((recvNext kdf log header ct exts)^[n] x).1 := by
  induction n with
  | zero => exact .refl kdf x.1
  | succ n ih =>
    rw [iterate_succ_apply']
    exact ih.trans recvStep_advance

theorem decryptPacketAcceptingRekey_advance :
    Advance kdf s (s.decryptPacketAcceptingRekey kdf log header ct exts).1 := by
  have h : Advance kdf s ((recvNext kdf log header ct exts)^[4] (s, .reading)).1 :=
    recvNext_advance (s, .reading) 4
  rw [decryptPacketAcceptingRekey_eq] at h
  exact h

theorem rekey_flag (kdf : Kdf) (s : Session) :
    (s.rekey kdf).1 = s ∨ (s.rekey kdf).1.rekeyUnconfirmed = true := by
  unfold rekey
  split
  · exact .inl rfl
  · exact .inr rfl

/-- A rekey that is due goes through, and its flag is on the frame. -/
theorem rekeyBeforeStamp_cases (kdf : Kdf) (s : Session) :
    Advance kdf s (s.rekeyBeforeStamp kdf).1 ∧
      (((s.rekeyBeforeStamp kdf).1.epoch = s.epoch ∧
          (s.rekeyBeforeStamp kdf).1.rekeyUnconfirmed = s.rekeyUnconfirmed) ∨
        (s.rekeyBeforeStamp kdf).1.rekeyUnconfirmed = true) ∧
      (s.rekeyBeforeStamp kdf).2 =
        some (if (s.rekeyBeforeStamp kdf).1.rekeyUnconfirmed then PacketFlags.rekey else 0) := by
  unfold rekeyBeforeStamp
  by_cases hneed : s.sendNeedsRekey
  · have hne : s.epoch ≠ 255 := by
      intro he
      simp [sendNeedsRekey, he] at hneed
    have hok : (s.rekey kdf).2 = .ok (s.epoch + 1) := by rw [rekey, if_neg hne]
    have hflag : (s.rekey kdf).1.rekeyUnconfirmed = true := by rw [rekey, if_neg hne]
    simp only [hneed, if_true, hok]
    exact ⟨rekey_advance, .inr hflag, trivial⟩
  · simp only [hneed, Bool.false_eq_true, if_false]
    exact ⟨.refl kdf s, .inl ⟨trivial, trivial⟩, trivial⟩

/-- An unconfirmed rekey is re-advertised on the frame. -/
theorem sealFrame_flagged {sessionId : SessionId} {streamId : UInt16} {flags : PacketFlags}
    {pathId : UInt8} {frame : Sealed}
    (h : (s.sealFrame kdf sessionId streamId flags pathId pt ct).2 = some (header, frame))
    (hflag : s.rekeyUnconfirmed = true) : header.flags.contains PacketFlags.rekey := by
  obtain ⟨-, hcases, hextra⟩ := rekeyBeforeStamp_cases kdf s
  have hset : (s.rekeyBeforeStamp kdf).1.rekeyUnconfirmed = true := by grind
  rw [hset, if_pos rfl] at hextra
  grind [sealFrame, Option.map_eq_some_iff, Prod.mk.injEq, PacketFlags.contains_or_right]

theorem encryptPacket_ok {r : Sealed} (h : (s.encryptPacket header pt exts ct).2 = .ok r) :
    r = ⟨s.crypto.sendKey, buildPacketNonce s.crypto.noncePrefix header, packetAad header exts, pt,
      ct⟩ := by
  simp only [encryptPacket, CryptoState.encryptWithNonce] at h
  split at h
  · cases h
  · cases h
    rfl

end Session

/-! ## Two sessions -/

namespace RekeyTrigger

open Session Lts
open KeyAgreement (Derived)

structure State where
  session : Side → Session
  /-- What each side has sent: the header and what was sealed. -/
  sent : Side → List (PacketHeader × Sealed)

inductive Event where
  | rekey (d : Side)
  | setRekeyThreshold (d : Side) (n : Nat)
  | send (d : Side) (sessionId : SessionId) (streamId : UInt16) (flags : PacketFlags)
      (pathId : UInt8) (plaintext ciphertext : Bytes)
  | sendPathValidation (d : Side) (sessionId : SessionId) (pathId : UInt8)
      (payload ciphertext : Bytes)
  | deliver (d : Side) (header : PacketHeader) (ciphertext extensions : Bytes)

def init (kdf : Kdf) (suite : CipherSuite) (secret : Bytes) : State :=
  { session := fun d => Session.new kdf suite secret (d == .server), sent := fun _ => [] }

/-- What the AEAD of `d` opens. -/
def log (x : State) (d : Side) : List Sealed := (x.sent d.other).map (·.2)

/-- `d` is left in `s`, having sent `new`. -/
def update (x : State) (d : Side) (s : Session) (new : List (PacketHeader × Sealed)) : State :=
  { session := Function.update x.session d s
    sent := Function.update x.sent d (new ++ x.sent d) }

def step (kdf : Kdf) (x : State) : Event → Option State
  | .rekey d => some (update x d ((x.session d).rekey kdf).1 [])
  | .setRekeyThreshold d n => some (update x d ((x.session d).setRekeyThreshold n) [])
  | .send d sessionId streamId flags pathId plaintext ciphertext =>
    let out := (x.session d).sealFrame kdf sessionId streamId flags pathId plaintext ciphertext
    some (update x d out.1 out.2.toList)
  | .sendPathValidation d sessionId pathId payload ciphertext =>
    let out := (x.session d).encryptPathValidation sessionId pathId payload ciphertext
    some (update x d out.1 out.2.toList)
  | .deliver d header ciphertext extensions =>
    some (update x d ((x.session d).decryptPacketAcceptingRekey kdf (log x d) header ciphertext
      extensions).1 [])

variable {kdf : Kdf} {suite : CipherSuite} {secret : Bytes} {x x' : State} {d : Side}
  {r : PacketHeader × Sealed} {s : Session}

/-- Sealed by `d` under the keys of the epoch in the header. -/
structure Genuine (kdf : Kdf) (suite : CipherSuite) (secret : Bytes) (d : Side)
    (r : PacketHeader × Sealed) : Prop where
  key : r.2.key = (CryptoState.new kdf suite ((nextSecret kdf)^[r.1.epoch.toNat] secret)
    (d == .server)).sendKey
  nonce : r.2.nonce = buildPacketNonce (CryptoState.new kdf suite
    ((nextSecret kdf)^[r.1.epoch.toNat] secret) (d == .server)).noncePrefix r.1
  aad : r.2.aad = packetAad r.1 []

theorem genuine_of_encryptPacket {header : PacketHeader} {pt ct : Bytes} {r : Sealed}
    (h : Derived kdf suite secret d s) (hep : header.epoch = s.epoch)
    (hok : (s.encryptPacket header pt [] ct).2 = .ok r) : Genuine kdf suite secret d (header, r) := by
  cases encryptPacket_ok hok
  have hkey := congrArg CryptoState.sendKey h.crypto
  have hprefix := congrArg CryptoState.noncePrefix h.crypto
  rw [h.trafficSecret] at hkey hprefix
  refine ⟨?_, ?_, rfl⟩
  · rw [hep]
    exact hkey
  · rw [hep]
    exact congrArg (buildPacketNonce · header) hprefix

/-! ## The invariant -/

/-- Each session's keys are those of its epoch; what it sent was sealed at an epoch it has reached;
and while it is ahead of its peer, its rekey is unconfirmed. -/
structure Ahead (kdf : Kdf) (suite : CipherSuite) (secret : Bytes) (x : State) : Prop where
  derived : ∀ d, Derived kdf suite secret d (x.session d)
  genuine : ∀ d, ∀ r ∈ x.sent d, Genuine kdf suite secret d r ∧ r.1.epoch ≤ (x.session d).epoch
  flagged : ∀ d, (x.session d.other).epoch < (x.session d).epoch →
    (x.session d).rekeyUnconfirmed = true

theorem ahead_init : Ahead kdf suite secret (init kdf suite secret) :=
  ⟨fun _ => ⟨rfl, rfl, rfl⟩, fun _ _ hr => absurd hr not_mem_nil,
    fun _ h => absurd h (UInt8.lt_irrefl _)⟩

section

variable (h : Ahead kdf suite secret x)
include h

theorem Ahead.update {new : List (PacketHeader × Sealed)} (hadv : Advance kdf (x.session d) s)
    (hflag : (s.epoch = (x.session d).epoch ∧
        s.rekeyUnconfirmed = (x.session d).rekeyUnconfirmed) ∨
      s.rekeyUnconfirmed = true ∨ s.epoch ≤ (x.session d.other).epoch)
    (hnew : ∀ r ∈ new, Genuine kdf suite secret d r ∧ r.1.epoch ≤ s.epoch) :
    Ahead kdf suite secret (RekeyTrigger.update x d s new) := by
  have hself : (RekeyTrigger.update x d s new).session d = s := update_self ..
  have hother : (RekeyTrigger.update x d s new).session d.other = x.session d.other :=
    update_of_ne (Side.other_ne d) ..
  have hsent : (RekeyTrigger.update x d s new).sent d = new ++ x.sent d := update_self ..
  have hsent' : (RekeyTrigger.update x d s new).sent d.other = x.sent d.other :=
    update_of_ne (Side.other_ne d) ..
  have hle := hadv.epoch_le
  refine ⟨fun e => ?_, fun e r hr => ?_, fun e hlt => ?_⟩
  · rcases Side.eq_or_eq_other d e with rfl | rfl
    · rw [hself]
      exact (h.derived e).advance hadv
    · rw [hother]
      exact h.derived d.other
  · rcases Side.eq_or_eq_other d e with rfl | rfl
    · rw [hsent] at hr
      rw [hself]
      rcases mem_append.1 hr with hr | hr
      · exact hnew r hr
      · obtain ⟨hg, hep⟩ := h.genuine e r hr
        exact ⟨hg, UInt8.le_trans hep hle⟩
    · rw [hsent'] at hr
      rw [hother]
      exact h.genuine d.other r hr
  · rcases Side.eq_or_eq_other d e with rfl | rfl
    · rw [hself, hother] at hlt
      rw [hself]
      rcases hflag with ⟨hep, hfl⟩ | hfl | hbehind
      · rw [hfl]
        exact h.flagged e (hep ▸ hlt)
      · exact hfl
      · exact absurd hlt (UInt8.not_lt.2 hbehind)
    · rw [Side.other_other, hself, hother] at hlt
      rw [hother]
      refine h.flagged d.other ?_
      rw [Side.other_other]
      exact UInt8.lt_of_le_of_lt hle hlt

theorem Ahead.deliver (d : Side) (header : PacketHeader) (ct exts : Bytes) :
    Ahead kdf suite secret (RekeyTrigger.update x d
      ((x.session d).decryptPacketAcceptingRekey kdf (log x d) header ct exts).1 []) := by
  refine h.update decryptPacketAcceptingRekey_advance ?_ (by simp)
  obtain hsame | ⟨hep, r, hr, haad⟩ :=
    decryptPacketAcceptingRekey_cases kdf (log x d) (x.session d) header ct exts
  · exact .inl hsame
  · -- the packet was sealed by the peer, at an epoch the peer has reached
    obtain ⟨q, hq, rfl⟩ := mem_map.1 hr
    obtain ⟨hg, hle⟩ := h.genuine d.other q hq
    have heq : q.1.epoch = header.epoch := PacketHeader.epoch_of_aad (hg.aad.symm.trans haad)
    exact .inr (.inr (by rwa [hep, ← heq]))

theorem Ahead.rekey (d : Side) :
    Ahead kdf suite secret (RekeyTrigger.update x d ((x.session d).rekey kdf).1 []) := by
  refine h.update rekey_advance ?_ (by simp)
  rcases rekey_flag kdf (x.session d) with hs | hf
  · rw [hs]
    exact .inl ⟨rfl, rfl⟩
  · exact .inr (.inl hf)

/-- Sealing a frame that is stamped with the current epoch. -/
theorem Ahead.seal {header : PacketHeader} {pt ct : Bytes} (hadv : Advance kdf (x.session d) s)
    (hflag : (s.epoch = (x.session d).epoch ∧
        s.rekeyUnconfirmed = (x.session d).rekeyUnconfirmed) ∨ s.rekeyUnconfirmed = true)
    (hep : header.epoch = s.epoch) :
    Ahead kdf suite secret (RekeyTrigger.update x d (s.encryptPacket header pt [] ct).1
      ((s.encryptPacket header pt [] ct).2.toOption.map (header, ·)).toList) := by
  refine h.update (hadv.trans encryptPacket_advance) ?_ fun r hr => ?_
  · rcases hflag with hsame | hf
    · exact .inl hsame
    · exact .inr (.inl hf)
  · cases hout : (s.encryptPacket header pt [] ct).2 with
    | error => simp [hout, Except.toOption] at hr
    | ok q =>
      have hr' : r = (header, q) := by simpa [hout, Except.toOption] using hr
      subst hr'
      refine ⟨genuine_of_encryptPacket ((h.derived d).advance hadv) hep hout, ?_⟩
      exact UInt8.le_of_eq hep

theorem Ahead.send (d : Side) (sessionId : SessionId)
    (streamId : UInt16) (flags : PacketFlags) (pathId : UInt8) (pt ct : Bytes) :
    Ahead kdf suite secret (RekeyTrigger.update x d
      ((x.session d).sealFrame kdf sessionId streamId flags pathId pt ct).1
      ((x.session d).sealFrame kdf sessionId streamId flags pathId pt ct).2.toList) := by
  obtain ⟨hadv, hflag, hextra⟩ := rekeyBeforeStamp_cases kdf (x.session d)
  simp only [sealFrame, hextra]
  exact h.seal (hadv.trans (.stay rfl rfl rfl rfl)) hflag rfl

theorem Ahead.step {ev : Event}
    (hs : RekeyTrigger.step kdf x ev = some x') : Ahead kdf suite secret x' := by
  cases ev with
  | rekey d =>
    cases hs
    exact h.rekey d
  | setRekeyThreshold =>
    cases hs
    exact h.update (.stay rfl rfl rfl rfl) (.inl ⟨rfl, rfl⟩) (by simp)
  | send d sessionId streamId flags pathId pt ct =>
    cases hs
    exact h.send d sessionId streamId flags pathId pt ct
  | sendPathValidation =>
    cases hs
    exact h.seal (.stay rfl rfl rfl rfl) (.inl ⟨rfl, rfl⟩) rfl
  | deliver d header ct exts =>
    cases hs
    exact h.deliver d header ct exts

end

/-! ## Recovery -/

theorem Genuine.opens (hg : Genuine kdf suite secret d r)
    (hs : Derived kdf suite secret d.other s) (hlt : s.epoch < r.1.epoch)
    {log : List Sealed} (hr : r.2 ∈ log) :
    ∃ pt, openSealed log (s.deriveForwardCrypto kdf (r.1.epoch - s.epoch)).2.recvKey
      (buildPacketNonce (s.deriveForwardCrypto kdf (r.1.epoch - s.epoch)).2.noncePrefix r.1)
      (packetAad r.1 []) r.2.ciphertext = some pt := by
  have hsub : (r.1.epoch - s.epoch).toNat = r.1.epoch.toNat - s.epoch.toNat :=
    UInt8.toNat_sub_of_le _ _ (UInt8.le_of_lt hlt)
  have hlt' := lt_iff_toNat_lt.1 hlt
  have hsecret : (nextSecret kdf)^[(r.1.epoch - s.epoch).toNat] s.trafficSecret =
      (nextSecret kdf)^[r.1.epoch.toNat] secret := by
    rw [hs.trafficSecret, ← iterate_add_apply, hsub]
    congr 1
    omega
  have hsuite : s.crypto.suite = suite := congrArg CryptoState.suite hs.crypto
  have hside : s.isServer = !(d == .server) := by
    rw [hs.side]
    cases d <;> rfl
  have hderived : (s.deriveForwardCrypto kdf (r.1.epoch - s.epoch)).2 =
      CryptoState.new kdf suite ((nextSecret kdf)^[r.1.epoch.toNat] secret) !(d == .server) := by
    simp only [deriveForwardCrypto, hsecret, hsuite, hside]
  obtain ⟨pt, hpt⟩ := openSealed_isSome hr
  refine ⟨pt, ?_⟩
  rw [hderived, ← CryptoState.new_keys_agree, ← hg.key, ← hg.aad, ← hpt, hg.nonce]
  rfl

theorem Ahead.follows (h : Ahead kdf suite secret x)
    (hr : r ∈ x.sent d) (hflag : r.1.flags.contains PacketFlags.rekey)
    (hgap : r.1.epoch.toNat ≤ (x.session d.other).epoch.toNat + maxRekeyCatchup.toNat) :
    r.1.epoch ≤ ((x.session d.other).decryptPacketAcceptingRekey kdf (log x d.other) r.1
      r.2.ciphertext []).1.epoch := by
  by_cases hle : r.1.epoch ≤ (x.session d.other).epoch
  · exact UInt8.le_trans hle decryptPacketAcceptingRekey_advance.epoch_le
  · have hlt : (x.session d.other).epoch < r.1.epoch := UInt8.not_le.1 hle
    have hsub : (r.1.epoch - (x.session d.other).epoch).toNat =
        r.1.epoch.toNat - (x.session d.other).epoch.toNat :=
      UInt8.toNat_sub_of_le _ _ (UInt8.le_of_lt hlt)
    have hsteps : ¬r.1.epoch - (x.session d.other).epoch > maxRekeyCatchup := by
      intro hgt
      have := lt_iff_toNat_lt.1 hgt
      omega
    have hmem : r.2 ∈ log x d.other := by
      rw [log, Side.other_other]
      exact mem_map_of_mem hr
    have hopen := (h.genuine d r hr).1.opens (h.derived d.other) hlt hmem
    exact UInt8.le_of_eq
      (decryptPacketAcceptingRekey_forward hlt hflag (catchUp_opens hsteps hopen)).symm

theorem mem_update {e : Side} {new : List (PacketHeader × Sealed)} (hr : r ∈ x.sent d) :
    r ∈ (update x e s new).sent d := by
  unfold update
  dsimp only
  rw [update_apply]
  split
  · rename_i he
    exact mem_append_right _ (he ▸ hr)
  · exact hr

theorem mem_sent_step {ev : Event} (hr : r ∈ x.sent d)
    (hs : step kdf x ev = some x') : r ∈ x'.sent d := by
  cases ev <;>
    · cases hs
      exact mem_update hr

/-- **A lost trigger never strands the peer.** While `d` is ahead of its peer its rekey is
unconfirmed, so a frame it stamps carries `REKEY`; and whenever that frame reaches the peer at most
`MAX_REKEY_CATCHUP` epochs behind it, the peer is at the frame's epoch or beyond. -/
theorem lost_trigger_recovers (kdf : Kdf) (suite : CipherSuite) (secret : Bytes) (es : List Event)
    (x : State) (hrun : run (step kdf) (init kdf suite secret) es = some x) (d : Side)
    (hahead : (x.session d.other).epoch < (x.session d).epoch) :
    (x.session d).rekeyUnconfirmed = true ∧
    ∀ sessionId streamId flags pathId plaintext ciphertext header frame,
      ((x.session d).sealFrame kdf sessionId streamId flags pathId plaintext ciphertext).2 =
        some (header, frame) →
      header.flags.contains PacketFlags.rekey ∧
      ∀ es' x' y,
        step kdf x (.send d sessionId streamId flags pathId plaintext ciphertext) = some x' →
        run (step kdf) x' es' = some y →
        header.epoch.toNat ≤ (y.session d.other).epoch.toNat + maxRekeyCatchup.toNat →
        header.epoch ≤ ((y.session d.other).decryptPacketAcceptingRekey kdf (log y d.other) header
          frame.ciphertext []).1.epoch := by
  have h : Ahead kdf suite secret x := run_inv (fun _ _ _ h hs => h.step hs) es ahead_init hrun
  have hflag := h.flagged d hahead
  refine ⟨hflag, fun sessionId streamId flags pathId pt ct header frame hseal => ?_⟩
  have hrekey := sealFrame_flagged hseal hflag
  refine ⟨hrekey, fun es' x' y hs hrun' hgap => ?_⟩
  have hy : Ahead kdf suite secret y :=
    run_inv (fun _ _ _ h hs => h.step hs) es' (h.step hs) hrun'
  have hmem : (header, frame) ∈ x'.sent d := by
    cases hs
    simp [update, hseal]
  have hmem' : (header, frame) ∈ y.sent d :=
    run_inv (fun _ _ _ h hs => mem_sent_step h hs) es' hmem hrun'
  exact hy.follows hmem' hrekey hgap

/-- The client rekeys and the frame that says so is lost. -/
def lostTrigger : List Event :=
  [.rekey .client, .send .client KeyAgreement.zeroSessionId 1 PacketFlags.reliable 0 [7] [8]]

/-- The next frame of the client carries `REKEY`, and the server follows it. -/
theorem lost_trigger_recovers_lostTrigger :
    let kdf := KeyAgreement.countingKdf
    let next : Event := .send .client KeyAgreement.zeroSessionId 1 PacketFlags.reliable 0 [5] [6]
    ∃ x y header frame, run (step kdf) (init kdf .aes256Gcm []) lostTrigger = some x ∧
      (x.session .server).epoch = 0 ∧ (x.session .client).epoch = 1 ∧
      (x.session .client).rekeyUnconfirmed = true ∧
      step kdf x next = some y ∧ (header, frame) ∈ y.sent .client ∧
      header.flags.contains PacketFlags.rekey ∧
      1 ≤ ((y.session .server).decryptPacketAcceptingRekey kdf (log y .server) header
        frame.ciphertext []).1.epoch := by
  intro kdf next
  obtain ⟨x, y, header, frame, hrun, hserver, hclient, hseal, hstep, hsent, hepoch, hbehind⟩ :
      ∃ x y header frame, run (step kdf) (init kdf .aes256Gcm []) lostTrigger = some x ∧
        (x.session .server).epoch = 0 ∧ (x.session .client).epoch = 1 ∧
        ((x.session .client).sealFrame kdf KeyAgreement.zeroSessionId 1 PacketFlags.reliable 0 [5]
          [6]).2 = some (header, frame) ∧
        step kdf x next = some y ∧ (header, frame) ∈ y.sent .client ∧ header.epoch = 1 ∧
        (y.session .server).epoch = 0 :=
    ⟨_, _, _, _, rfl, by decide, by decide, rfl, rfl, .head _, by decide, by decide⟩
  obtain ⟨hflag, hframes⟩ := lost_trigger_recovers kdf .aes256Gcm [] lostTrigger x hrun .client
    (by rw [hclient, show (x.session Side.client.other).epoch = 0 from hserver]; decide)
  obtain ⟨hrekey, hraised⟩ := hframes _ _ _ _ _ _ header frame hseal
  refine ⟨x, y, header, frame, hrun, hserver, hclient, hflag, hstep, hsent, hrekey, ?_⟩
  have hfollows := hraised [] y y hstep rfl
    (by rw [hepoch, show (y.session Side.client.other).epoch = 0 from hbehind]; decide)
  rwa [hepoch] at hfollows

end RekeyTrigger

end PhantomProtocol
