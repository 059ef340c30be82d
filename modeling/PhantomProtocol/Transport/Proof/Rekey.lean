import PhantomProtocol.Lib.Run
import PhantomProtocol.Transport.Session

/-!
# Key agreement across rekeys

Two sessions that rekey, seal, and receive packets that may be forged. A receive call is cut into
its steps and the other task of the session, and the other session, run in between.
-/

namespace PhantomProtocol

open Function UInt8

namespace Session

variable {kdf : Kdf} {log : List Sealed} {s s' s'' : Session} {header : PacketHeader}
  {ct exts pt : Bytes}

/-- What an operation does to the keys: nothing but counting, or some steps along the chain. -/
inductive Advance (kdf : Kdf) (s s' : Session) : Prop
  | stay (hside : s'.isServer = s.isServer) (hepoch : s'.epoch = s.epoch)
      (hsecret : s'.trafficSecret = s.trafficSecret) (hcrypto : s'.crypto.fresh = s.crypto.fresh)
  | forward (n : Nat) (hside : s'.isServer = s.isServer)
      (hepoch : s'.epoch.toNat = s.epoch.toNat + n)
      (hsecret : s'.trafficSecret = (nextSecret kdf)^[n] s.trafficSecret)
      (hcrypto : s'.crypto.fresh = CryptoState.new kdf s.crypto.suite s'.trafficSecret s.isServer)

theorem Advance.refl (kdf : Kdf) (s : Session) : Advance kdf s s := .stay rfl rfl rfl rfl

theorem Advance.epoch_le (h : Advance kdf s s') : s.epoch ≤ s'.epoch := by
  rw [le_iff_toNat_le]
  cases h with
  | stay _ hepoch => exact Nat.le_of_eq (congrArg UInt8.toNat hepoch.symm)
  | forward => omega

theorem suite_of_fresh {c d : CryptoState} (h : c.fresh = d.fresh) : c.suite = d.suite :=
  show c.fresh.suite = d.fresh.suite by rw [h]

theorem Advance.trans (h : Advance kdf s s') (h' : Advance kdf s' s'') : Advance kdf s s'' := by
  cases h' with
  | stay hside' hepoch' hsecret' hcrypto' =>
    cases h with
    | stay hside hepoch hsecret hcrypto =>
      exact .stay (hside'.trans hside) (hepoch'.trans hepoch) (hsecret'.trans hsecret)
        (hcrypto'.trans hcrypto)
    | forward n hside hepoch hsecret hcrypto =>
      exact .forward n (hside'.trans hside) (hepoch' ▸ hepoch) (hsecret'.trans hsecret)
        (by rw [hcrypto', hcrypto, hsecret'])
  | forward m hside' hepoch' hsecret' hcrypto' =>
    cases h with
    | stay hside hepoch hsecret hcrypto =>
      refine .forward m (hside'.trans hside) (hepoch ▸ hepoch') (hsecret ▸ hsecret') ?_
      rw [hcrypto', hside, suite_of_fresh hcrypto]
    | forward n hside _ hsecret hcrypto =>
      refine .forward (m + n) (hside'.trans hside) (by omega) ?_ ?_
      · rw [hsecret', hsecret, ← iterate_add_apply]
      · have hsuite : s'.crypto.suite = s.crypto.suite := by
          have := congrArg CryptoState.suite hcrypto
          exact this
        rw [hcrypto', hside, hsuite]

/-! ## One lemma for each operation -/

/-- Committing what was derived, counters aside. -/
theorem commit_advance {steps : UInt8} {c : CryptoState}
    (hc : c.fresh = (s.deriveForwardCrypto kdf steps).2)
    (hle : s.epoch.toNat + steps.toNat ≤ 255) :
    Advance kdf s
      (s.commitForwardCrypto steps (s.deriveForwardCrypto kdf steps).1 c) := by
  refine .forward steps.toNat rfl ?_ rfl hc
  simp only [commitForwardCrypto, if_neg (show ¬s.epoch.toNat + steps.toNat > 255 by omega)]
  rw [UInt8.toNat_add]
  omega

theorem rekey_advance : Advance kdf s (s.rekey kdf).1 := by
  unfold rekey
  by_cases h : s.epoch = 255
  · rw [if_pos h]
    exact .refl kdf s
  · rw [if_neg h]
    have hlt : s.epoch.toNat < 255 := by
      have h' : s.epoch.toNat ≠ 255 := fun he => h (UInt8.toNat_inj.1 he)
      have := s.epoch.toNat_lt
      omega
    have hone : (1 : UInt8).toNat = 1 := rfl
    have hcommit : Advance kdf s (s.commitForwardCrypto 1 (s.deriveForwardCrypto kdf 1).1
        (s.deriveForwardCrypto kdf 1).2) := commit_advance rfl (by omega)
    exact hcommit.trans (.stay rfl rfl rfl rfl)

theorem ratchetToEpoch_advance {target : UInt8} :
    Advance kdf s (s.ratchetToEpoch kdf target).1 := by
  fun_induction ratchetToEpoch kdf s target with
  | case1 s h e he => exact rekey_advance
  | case2 s h e he ih => exact rekey_advance.trans ih
  | case3 s h => exact .refl kdf s

theorem encryptPacket_advance : Advance kdf s (s.encryptPacket header pt exts ct).1 :=
  .stay rfl rfl rfl CryptoState.encryptWithNonce_fresh

theorem openPacket_advance : Advance kdf s (s.openPacket log header ct exts).1 :=
  .stay rfl rfl rfl CryptoState.decryptWithNonce_fresh

theorem acceptPacketNumber_advance {pn : UInt64} : Advance kdf s (s.acceptPacketNumber pn).1 := by
  unfold acceptPacketNumber
  dsimp only
  split
  · exact .stay rfl rfl rfl rfl
  · exact .stay rfl rfl rfl rfl

theorem catchUp_advance (h : s.epoch < header.epoch) :
    Advance kdf s (s.catchUp kdf log header ct exts).1 := by
  have hlt := lt_iff_toNat_lt.1 h
  unfold catchUp
  dsimp only
  split
  · exact .refl kdf s
  · split
    · exact .refl kdf s
    · refine commit_advance (CryptoState.decryptWithNonce_fresh.trans rfl) ?_
      have hsub : (header.epoch - s.epoch).toNat = header.epoch.toNat - s.epoch.toNat :=
        UInt8.toNat_sub_of_le _ _ (UInt8.le_of_lt h)
      have := header.epoch.toNat_lt
      omega

theorem recvStep_advance {r : Recv} : Advance kdf s (recvStep kdf log header ct exts s r).1 := by
  cases r with
  | reading =>
    simp only [recvStep]
    split
    · exact .refl kdf s
    · split
      · exact .refl kdf s
      · split
        · exact .refl kdf s
        · exact .refl kdf s
  | locking =>
    simp only [recvStep]
    split
    · exact .refl kdf s
    · split
      · exact .refl kdf s
      · grind [catchUp_advance, lt_of_le_of_ne, not_lt]
  | opening => grind [recvStep, openPacket_advance]
  | accepting => grind [recvStep, acceptPacketNumber_advance]
  | confirming => exact .stay rfl rfl rfl rfl
  | done => exact .refl kdf s

end Session

/-! ## Two sessions -/

namespace KeyAgreement

open Session Lts

/-- A packet as it is handed to a session. -/
structure Packet where
  header : PacketHeader
  ciphertext : Bytes
  extensions : Bytes
deriving DecidableEq

/-- Two sessions, what each has sealed, and the receive call each is in. -/
structure State where
  session : Side → Session
  sealed : Side → List Sealed
  receiving : Side → Option (Packet × Recv)

inductive Event where
  | rekey (d : Side)
  | ratchetToEpoch (d : Side) (target : UInt8)
  | encryptPacket (d : Side) (header : PacketHeader) (plaintext extensions ciphertext : Bytes)
  /-- `d` calls `decrypt_packet_accepting_rekey` on any packet, its peer's or a forged one. -/
  | receive (d : Side) (packet : Packet)
  | advance (d : Side)

def init (kdf : Kdf) (suite : CipherSuite) (secret : Bytes) : State :=
  { session := fun d => Session.new kdf suite secret (d == .server)
    sealed := fun _ => []
    receiving := fun _ => none }

def step (kdf : Kdf) (x : State) : Event → Option State
  | .rekey d =>
    some { x with session := update x.session d ((x.session d).rekey kdf).1 }
  | .ratchetToEpoch d target =>
    some { x with
      session := update x.session d ((x.session d).ratchetToEpoch kdf target).1 }
  | .encryptPacket d header plaintext extensions ciphertext =>
    let out := (x.session d).encryptPacket header plaintext extensions ciphertext
    some { x with
      session := update x.session d out.1
      sealed := update x.sealed d (out.2.toOption.toList ++ x.sealed d) }
  | .receive d packet =>
    match x.receiving d with
    | some (_, .done _) | none =>
      some { x with receiving := update x.receiving d (some (packet, .reading)) }
    | some _ => none
  | .advance d =>
    match x.receiving d with
    | none => none
    | some (packet, phase) =>
      let out := recvStep kdf (x.sealed d.other) packet.header packet.ciphertext
        packet.extensions (x.session d) phase
      some { x with
        session := update x.session d out.1
        receiving := update x.receiving d (some (packet, out.2)) }

variable {kdf : Kdf} {suite : CipherSuite} {secret : Bytes} {x x' : State} {ev : Event}

/-- No step does more to the keys of either session than advance them. -/
theorem step_advance (h : step kdf x ev = some x') (d : Side) :
    Advance kdf (x.session d) (x'.session d) := by
  have hupdate : ∀ e s', Advance kdf (x.session e) s' →
      Advance kdf (x.session d) (update x.session e s' d) := by
    intro e s' hadv
    rw [update_apply]
    split
    · rename_i hde
      exact hde ▸ hadv
    · exact .refl kdf _
  cases ev with
  | rekey e =>
    cases h
    exact hupdate e _ rekey_advance
  | ratchetToEpoch e =>
    cases h
    exact hupdate e _ ratchetToEpoch_advance
  | encryptPacket e =>
    cases h
    exact hupdate e _ encryptPacket_advance
  | receive =>
    simp only [step] at h
    split at h
    · cases h
      exact .refl kdf _
    · cases h
      exact .refl kdf _
    · cases h
  | advance e =>
    simp only [step] at h
    split at h
    · cases h
    · cases h
      exact hupdate e _ recvStep_advance

/-- The keys of a session are those of its epoch. -/
structure Derived (kdf : Kdf) (suite : CipherSuite) (secret : Bytes) (d : Side) (s : Session) :
    Prop where
  side : s.isServer = (d == .server)
  trafficSecret : s.trafficSecret = (nextSecret kdf)^[s.epoch.toNat] secret
  crypto : s.crypto.fresh = CryptoState.new kdf suite s.trafficSecret (d == .server)

theorem Derived.advance {d : Side} {s s' : Session} (h : Derived kdf suite secret d s)
    (hadv : Advance kdf s s') : Derived kdf suite secret d s' := by
  obtain ⟨hside, hsecret, hcrypto⟩ := h
  have hsuite : s.crypto.suite = suite := congrArg CryptoState.suite hcrypto
  cases hadv with
  | stay hside' hepoch' hsecret' hcrypto' =>
    refine ⟨hside'.trans hside, ?_, ?_⟩
    · rw [hsecret', hsecret, hepoch']
    · rw [hcrypto', hcrypto, hsecret']
  | forward n hside' hepoch' hsecret' hcrypto' =>
    refine ⟨hside'.trans hside, ?_, ?_⟩
    · rw [hsecret', hsecret, ← iterate_add_apply, hepoch', Nat.add_comm]
    · rw [hcrypto', hsuite, hside]

def AllDerived (kdf : Kdf) (suite : CipherSuite) (secret : Bytes) (x : State) : Prop :=
  ∀ d, Derived kdf suite secret d (x.session d)

theorem AllDerived.step (h : AllDerived kdf suite secret x)
    (hs : KeyAgreement.step kdf x ev = some x') : AllDerived kdf suite secret x' :=
  fun d => (h d).advance (step_advance hs d)

/-- **Key agreement.** In every interleaving, each session's secret is the initial one advanced
`epoch` times and its keys are derived from it, epochs only grow (and stay in a byte), and sessions
at equal epochs hold equal secrets. -/
theorem keys_agree (kdf : Kdf) (suite : CipherSuite) (secret : Bytes) (es : List Event) (t : State)
    (hrun : run (step kdf) (init kdf suite secret) es = some t) :
    (∀ d, (t.session d).trafficSecret = (nextSecret kdf)^[(t.session d).epoch.toNat] secret ∧
      (t.session d).crypto.fresh =
        CryptoState.new kdf suite (t.session d).trafficSecret (d == .server) ∧
      (t.session d).epoch.toNat ≤ 255) ∧
    ((t.session .client).epoch = (t.session .server).epoch →
      (t.session .client).trafficSecret = (t.session .server).trafficSecret) ∧
    Along (step kdf) (fun s _ s' => ∀ d, (s.session d).epoch ≤ (s'.session d).epoch)
      (init kdf suite secret) es := by
  have hinv : AllDerived kdf suite secret t :=
    run_inv (fun _ _ _ h hs => h.step hs) es (fun _ => ⟨rfl, rfl, rfl⟩) hrun
  refine ⟨fun d => ⟨(hinv d).trafficSecret, (hinv d).crypto, ?_⟩, fun heq => ?_, ?_⟩
  · have := (t.session d).epoch.toNat_lt
    omega
  · rw [(hinv .client).trafficSecret, (hinv .server).trafficSecret, heq]
  · exact along_of_forall (fun _ _ _ hs d => (step_advance hs d).epoch_le) es _

/-- A chain on which every step shows. -/
def countingKdf : Kdf := ⟨fun _ ikm => ikm, fun secret _ => 1 :: secret⟩

def zeroSessionId : SessionId := ⟨List.replicate 32 0, rfl⟩

/-- The client rekeys twice, the second time while the server is following the first. -/
def crossingRekeys : List Event :=
  let header : PacketHeader :=
    { version := wireVersion, sessionId := zeroSessionId, streamId := 0
      packetNumber := 0, flags := PacketFlags.encrypted ||| PacketFlags.rekey, epoch := 1
      pathId := 0 }
  [.rekey .client, .encryptPacket .client header [7] [] [9], .receive .server ⟨header, [9], []⟩,
    .advance .server, .rekey .client, .advance .server, .advance .server, .advance .server,
    .rekey .server]

theorem keys_agree_crossingRekeys :
    ∃ t, run (step countingKdf) (init countingKdf .aes256Gcm []) crossingRekeys = some t ∧
      (t.session .client).epoch = 2 ∧ (t.session .server).epoch = 2 ∧
      (t.session .client).trafficSecret = (t.session .server).trafficSecret := by
  refine ⟨_, rfl, by decide, by decide, ?_⟩
  exact (keys_agree countingKdf .aes256Gcm [] crossingRekeys _ rfl).2.1 (by decide)

end KeyAgreement

end PhantomProtocol
