import PhantomProtocol.Transport.Proof.RekeyTrigger

/-!
# Confirming a rekey

The two sessions of `KeyAgreement`, with a record of the packets each has opened. A session that
rekeys between opening a packet and `confirm_rekey_caught_up` clears the flag of a rekey that the
packet says nothing about.
-/

namespace PhantomProtocol.RekeyConfirm

open List Option Function

open Session Lts
open KeyAgreement (Packet Event)

structure State where
  keys : KeyAgreement.State
  /-- The packets each session has opened, latest first. -/
  opened : Side → List Packet

/-- The packet that opens when the receive call moves from one place to the other. -/
def opens : Option (Packet × Recv) → Option (Packet × Recv) → List Packet
  | some (_, .opening), some (packet, .accepting _) => [packet]
  | some (_, .locking), some (packet, .accepting _) => [packet]
  | _, _ => []

def init (kdf : Kdf) (suite : CipherSuite) (secret : Bytes) : State :=
  { keys := KeyAgreement.init kdf suite secret, opened := fun _ => [] }

def step (kdf : Kdf) (x : State) (ev : Event) : Option State :=
  (KeyAgreement.step kdf x.keys ev).map fun keys =>
    { keys, opened := fun d => opens (x.keys.receiving d) (keys.receiving d) ++ x.opened d }

/-- Sealed by the peer: nothing else opens. -/
def FromPeer (sealed : List Sealed) (packet : Packet) : Prop :=
  ∃ r ∈ sealed, r.aad = packetAad packet.header packet.extensions ∧ r.ciphertext = packet.ciphertext

/-- A flag that is cleared is cleared on the evidence of a packet from the current epoch on. -/
def Confirms (x : State) (_ : Event) (x' : State) : Prop :=
  ∀ d, (x.keys.session d).rekeyUnconfirmed = true →
    (x'.keys.session d).rekeyUnconfirmed = false →
    ∃ packet ∈ x'.opened d, FromPeer (x'.keys.sealed d.other) packet ∧
      (x'.keys.session d).epoch ≤ packet.header.epoch

/-- When the receive call is about to clear a set flag, the session is still at the epoch of the
packet it opened. -/
def Timely (x : State) (ev : Event) (_ : State) : Prop :=
  ∀ d packet plaintext, ev = .advance d →
    x.keys.receiving d = some (packet, .confirming plaintext) →
    (x.keys.session d).rekeyUnconfirmed = true →
    (x.keys.session d).epoch = packet.header.epoch

/-! ## The receive call of one session -/

/-- Whether the call is past its epoch check, and whether it has opened its packet. -/
def pastCheck : Recv → Bool
  | .opening | .accepting _ | .confirming _ => true
  | _ => false

def pastOpen : Recv → Bool
  | .accepting _ | .confirming _ => true
  | _ => false

/-- What holds of one session, what its peer has sealed, what it has opened, and its receive call. -/
structure Tracked (s : Session) (sealed : List Sealed) (opened : List Packet)
    (receiving : Option (Packet × Recv)) : Prop where
  fromPeer : ∀ q ∈ opened, FromPeer sealed q
  reached : ∀ q ∈ opened, q.header.epoch ≤ s.epoch
  checked : ∀ p ph, receiving = some (p, ph) → pastCheck ph = true →
    p.header.epoch ≤ s.epoch ∧ ∀ q ∈ opened, q.header.epoch ≤ p.header.epoch
  current : ∀ p ph, receiving = some (p, ph) → pastOpen ph = true → p ∈ opened

variable {kdf : Kdf} {s s' : Session} {sealed : List Sealed} {opened : List Packet}
  {receiving : Option (Packet × Recv)} {p packet : Packet} {ph ph' : Recv} {x x' : State}
  {ev : Event} {d : Side}

/-- What a step of the receive call can do. -/
inductive Received (s : Session) (sealed : List Sealed) (p : Packet) : Recv → Session → Recv → Prop
  | fails {ph : Recv} {s' : Session} {e : CoreError} (hep : s'.epoch = s.epoch)
      (hflag : s'.rekeyUnconfirmed = s.rekeyUnconfirmed) :
      Received s sealed p ph s' (.done (.error e))
  | checked {ph : Recv} (heq : p.header.epoch = s.epoch) : Received s sealed p ph s .opening
  | locks : Received s sealed p .reading s .locking
  | caughtUp {s' : Session} {pt : Bytes} (hfwd : s.epoch < p.header.epoch)
      (hep : s'.epoch = p.header.epoch) (hflag : s'.rekeyUnconfirmed = s.rekeyUnconfirmed)
      (hpeer : FromPeer sealed p) : Received s sealed p .locking s' (.accepting pt)
  | opened {s' : Session} {pt : Bytes} (hep : s'.epoch = s.epoch)
      (hflag : s'.rekeyUnconfirmed = s.rekeyUnconfirmed) (hpeer : FromPeer sealed p) :
      Received s sealed p .opening s' (.accepting pt)
  | accepted {s' : Session} {pt : Bytes} (hep : s'.epoch = s.epoch)
      (hflag : s'.rekeyUnconfirmed = s.rekeyUnconfirmed) :
      Received s sealed p (.accepting pt) s' (.confirming pt)
  | confirmed (pt : Bytes) :
      Received s sealed p (.confirming pt) s.confirmRekeyCaughtUp (.done (.ok pt))
  | done (r : Except CoreError Bytes) : Received s sealed p (.done r) s (.done r)

theorem catchUp_flag (kdf : Kdf) (s : Session) (sealed : List Sealed) (header : PacketHeader)
    (ct exts : Bytes) :
    (s.catchUp kdf sealed header ct exts).1.rekeyUnconfirmed = s.rekeyUnconfirmed := by
  unfold catchUp
  dsimp only
  split
  · rfl
  · split
    · rfl
    · rfl

theorem locking_received (kdf : Kdf) (s : Session) (sealed : List Sealed) (p : Packet) :
    Received s sealed p .locking
      (recvStep kdf sealed p.header p.ciphertext p.extensions s .locking).1
      (recvStep kdf sealed p.header p.ciphertext p.extensions s .locking).2 := by
  by_cases heq : p.header.epoch = s.epoch
  · simp only [recvStep, if_pos heq]
    exact .checked heq
  by_cases hlt : p.header.epoch < s.epoch
  · simp only [recvStep, if_neg heq, if_pos hlt]
    exact .fails rfl rfl
  have hfwd : s.epoch < p.header.epoch :=
    UInt8.lt_of_le_of_ne (UInt8.not_lt.1 hlt) fun he => heq he.symm
  have hflag := catchUp_flag kdf s sealed p.header p.ciphertext p.extensions
  simp only [recvStep, if_neg heq, if_neg hlt]
  obtain ⟨e, hc⟩ | ⟨s₁, pt, hc, hep, hpeer⟩ :=
    catchUp_cases kdf sealed hfwd p.ciphertext p.extensions
  · rw [hc]
    exact .fails rfl rfl
  · rw [hc] at hflag ⊢
    exact .caughtUp hfwd hep hflag hpeer

theorem recvStep_received (kdf : Kdf) (s : Session) (sealed : List Sealed) (p : Packet) (ph : Recv) :
    Received s sealed p ph (recvStep kdf sealed p.header p.ciphertext p.extensions s ph).1
      (recvStep kdf sealed p.header p.ciphertext p.extensions s ph).2 := by
  cases ph with
  | reading =>
    by_cases heq : p.header.epoch = s.epoch
    · simp only [recvStep, if_pos heq]
      exact .checked heq
    · simp only [recvStep, if_neg heq]
      split
      · exact .fails rfl rfl
      · split
        · exact .fails rfl rfl
        · exact .locks
  | locking => exact locking_received kdf s sealed p
  | opening =>
    rcases hopen : s.openPacket sealed p.header p.ciphertext p.extensions with ⟨s₁, e | pt⟩
    · have hep : s₁.epoch = s.epoch := (congrArg (·.1.epoch) hopen).symm
      have hflag : s₁.rekeyUnconfirmed = s.rekeyUnconfirmed :=
        (congrArg (·.1.rekeyUnconfirmed) hopen).symm
      simp only [recvStep, hopen]
      exact .fails hep hflag
    · have hep : s₁.epoch = s.epoch := (congrArg (·.1.epoch) hopen).symm
      have hflag : s₁.rekeyUnconfirmed = s.rekeyUnconfirmed :=
        (congrArg (·.1.rekeyUnconfirmed) hopen).symm
      obtain ⟨r, hr, -, -, haad, hct, -⟩ := CryptoState.decryptWithNonce_ok (congrArg (·.2) hopen)
      simp only [recvStep, hopen]
      exact .opened hep hflag ⟨r, hr, haad, hct⟩
  | accepting =>
    obtain ⟨hep, hflag⟩ := acceptPacketNumber_flag s p.header.packetNumber
    simp only [recvStep]
    split
    · exact .fails hep hflag
    · exact .accepted hep hflag
  | confirming pt => exact .confirmed pt
  | done r => exact .done r

theorem Tracked.mono (h : Tracked s sealed opened receiving) (hle : s.epoch ≤ s'.epoch)
    (new : List Sealed) : Tracked s' (new ++ sealed) opened receiving := by
  refine ⟨fun q hq => ?_, fun q hq => ?_, fun p ph hr hc => ?_, h.current⟩
  · obtain ⟨r, hr, haad⟩ := h.fromPeer q hq
    exact ⟨r, mem_append_right _ hr, haad⟩
  · exact UInt8.le_trans (h.reached q hq) hle
  · obtain ⟨hp, hq⟩ := h.checked p ph hr hc
    exact ⟨UInt8.le_trans hp hle, hq⟩

theorem Tracked.open (h : Tracked s sealed opened (some (p, ph)))
    (hold : ∀ q ∈ opened, q.header.epoch ≤ p.header.epoch) (hle : s.epoch ≤ s'.epoch)
    (hp : p.header.epoch ≤ s'.epoch) (hpeer : FromPeer sealed p) (pt : Bytes) :
    Tracked s' sealed (p :: opened) (some (p, .accepting pt)) := by
  refine ⟨fun q hq => ?_, fun q hq => ?_, fun p' ph' hr _ => ?_, fun p' ph' hr _ => ?_⟩
  · rcases mem_cons.1 hq with rfl | hq
    · exact hpeer
    · exact h.fromPeer q hq
  · rcases mem_cons.1 hq with rfl | hq
    · exact hp
    · exact UInt8.le_trans (h.reached q hq) hle
  · cases hr
    refine ⟨hp, fun q hq => ?_⟩
    rcases mem_cons.1 hq with rfl | hq
    · exact UInt8.le_refl _
    · exact hold q hq
  · cases hr
    exact mem_cons_self

theorem Tracked.move (h : Tracked s sealed opened (some (p, ph)))
    (hep : s'.epoch = s.epoch) (hcheck : pastCheck ph' = true →
      pastCheck ph = true ∨ p.header.epoch = s.epoch)
    (hopen : pastOpen ph' = true → pastOpen ph = true) :
    Tracked s' sealed opened (some (p, ph')) := by
  refine ⟨h.fromPeer, fun q hq => hep ▸ h.reached q hq, fun p' ph'' hr hc => ?_,
    fun p' ph'' hr hc => ?_⟩
  · cases hr
    rw [hep]
    rcases hcheck hc with hpast | heq
    · exact h.checked p ph rfl hpast
    · exact ⟨UInt8.le_of_eq heq, fun q hq => heq ▸ h.reached q hq⟩
  · cases hr
    exact h.current p ph rfl (hopen hc)

theorem opens_eq_nil (r : Option (Packet × Recv)) (p : Packet) {ph : Recv}
    (h : pastOpen ph = false ∨ ∃ pt, ph = .confirming pt) : opens r (some (p, ph)) = [] := by
  unfold opens
  split
  · simp_all [pastOpen]
  · simp_all [pastOpen]
  · rfl

theorem Tracked.recv (h : Tracked s sealed opened (some (p, ph)))
    (hr : Received s sealed p ph s' ph') :
    Tracked s' sealed (opens (some (p, ph)) (some (p, ph')) ++ opened) (some (p, ph')) := by
  cases hr with
  | fails hep =>
    rw [opens_eq_nil _ p (.inl rfl)]
    exact h.move hep Bool.noConfusion Bool.noConfusion
  | checked heq =>
    rw [opens_eq_nil _ p (.inl rfl)]
    exact h.move rfl (fun _ => .inr heq) Bool.noConfusion
  | locks | confirmed | done => exact h.move rfl Bool.noConfusion Bool.noConfusion
  | @caughtUp _ pt hfwd hep _ hpeer =>
    refine h.open (fun q hq => ?_) ?_ (UInt8.le_of_eq hep.symm) hpeer pt
    · exact UInt8.le_trans (h.reached q hq) (UInt8.le_of_lt hfwd)
    · exact hep ▸ UInt8.le_of_lt hfwd
  | @opened _ pt hep _ hpeer =>
    obtain ⟨hp, hold⟩ := h.checked p .opening rfl rfl
    exact h.open hold (UInt8.le_of_eq hep.symm) (hep ▸ hp) hpeer pt
  | accepted hep => exact h.move hep (fun _ => .inl rfl) (fun _ => rfl)

theorem Received.flag (hr : Received s sealed p ph s' ph') :
    s'.rekeyUnconfirmed = s.rekeyUnconfirmed ∨
      ∃ pt, ph = .confirming pt ∧ s' = s.confirmRekeyCaughtUp := by
  cases hr with
  | fails _ hflag => exact .inl hflag
  | checked | locks | done => exact .inl rfl
  | caughtUp _ _ hflag => exact .inl hflag
  | opened _ hflag => exact .inl hflag
  | accepted _ hflag => exact .inl hflag
  | confirmed pt => exact .inr ⟨pt, rfl, rfl⟩

/-! ## Both sessions -/

/-- Each session's record is in order. -/
def AllTracked (x : State) : Prop :=
  ∀ d, Tracked (x.keys.session d) (x.keys.sealed d.other) (x.opened d) (x.keys.receiving d)

theorem opens_self (r : Option (Packet × Recv)) : opens r r = [] := by
  rcases r with _ | ⟨p, ph⟩
  · rfl
  · cases ph <;> rfl

theorem tracked_reading (h : Tracked s sealed opened receiving) :
    Tracked s sealed opened (some (packet, .reading)) := by
  refine ⟨h.fromPeer, h.reached, fun p ph hr hc => ?_, fun p ph hr hc => ?_⟩
  · cases hr
    cases hc
  · cases hr
    cases hc

theorem AllTracked.step (h : AllTracked x) (hs : step kdf x ev = some x') : AllTracked x' := by
  obtain ⟨keys, hk, rfl⟩ := map_eq_some_iff.1 hs
  intro d
  have hle := (KeyAgreement.step_advance hk d).epoch_le
  cases ev with
  | rekey | ratchetToEpoch =>
    cases hk
    simp only [opens_self]
    exact (h d).mono hle []
  | encryptPacket e =>
    cases hk
    simp only [opens_self]
    by_cases he : d.other = e
    · subst he
      simp only [update_self]
      exact (h d).mono hle _
    · simp only [update_of_ne he]
      exact (h d).mono hle []
  | receive e packet =>
    simp only [KeyAgreement.step] at hk
    split at hk
    all_goals cases hk
    all_goals
      by_cases he : d = e
      · subst he
        simp only [update_self]
        rw [opens_eq_nil _ packet (.inl rfl)]
        exact tracked_reading (h d)
      · simp only [update_of_ne he, opens_self]
        exact h d
  | advance e =>
    simp only [KeyAgreement.step] at hk
    split at hk
    · cases hk
    · rename_i packet phase hrec
      cases hk
      by_cases he : d = e
      · subst he
        have hd := h d
        rw [hrec] at hd
        simp only [update_self, hrec]
        exact hd.recv (recvStep_received kdf _ _ packet phase)
      · simp only [update_of_ne he, opens_self]
        exact h d

theorem rekey_keeps_flag (h : s.rekeyUnconfirmed = true) :
    (s.rekey kdf).1.rekeyUnconfirmed = true := by
  rcases rekey_flag kdf s with hsame | hset
  · rw [hsame]
    exact h
  · exact hset

theorem ratchetToEpoch_keeps_flag {target : UInt8} (h : s.rekeyUnconfirmed = true) :
    (s.ratchetToEpoch kdf target).1.rekeyUnconfirmed = true := by
  fun_induction Session.ratchetToEpoch kdf s target with
  | case1 s hlt e he => exact rekey_keeps_flag h
  | case2 s hlt e he ih => exact ih (rekey_keeps_flag h)
  | case3 s hlt => exact h

theorem step_clears (hs : step kdf x ev = some x')
    (hset : (x.keys.session d).rekeyUnconfirmed = true)
    (hclear : (x'.keys.session d).rekeyUnconfirmed = false) :
    ev = .advance d ∧ ∃ packet pt, x.keys.receiving d = some (packet, .confirming pt) := by
  obtain ⟨keys, hk, rfl⟩ := map_eq_some_iff.1 hs
  have hupdate : ∀ e s', (e = d → s'.rekeyUnconfirmed = true) →
      (Function.update x.keys.session e s' d).rekeyUnconfirmed = true := by
    intro e s' h
    rw [update_apply]
    split
    · rename_i hde
      exact h hde.symm
    · exact hset
  have hkept : ∀ {b : Bool}, b = true → b ≠ false := by simp
  cases ev with
  | rekey e =>
    cases hk
    exact absurd hclear (hkept (hupdate e _ fun he => rekey_keeps_flag (he ▸ hset)))
  | ratchetToEpoch e =>
    cases hk
    exact absurd hclear (hkept (hupdate e _ fun he => ratchetToEpoch_keeps_flag (he ▸ hset)))
  | encryptPacket e =>
    cases hk
    exact absurd hclear (hkept (hupdate e _ fun he => he ▸ hset))
  | receive =>
    simp only [KeyAgreement.step] at hk
    split at hk
    all_goals cases hk
    all_goals exact absurd hclear (hkept hset)
  | advance e =>
    simp only [KeyAgreement.step] at hk
    split at hk
    · cases hk
    · rename_i packet phase hrec
      cases hk
      by_cases hconf : e = d ∧ ∃ pt, phase = .confirming pt
      · obtain ⟨rfl, pt, rfl⟩ := hconf
        exact ⟨rfl, packet, pt, hrec⟩
      · refine absurd hclear (hkept (hupdate e _ ?_))
        rintro rfl
        obtain hsame | ⟨pt, hpt, -⟩ := (recvStep_received kdf (x.keys.session e)
          (x.keys.sealed e.other) packet phase).flag
        · rw [hsame]
          exact hset
        · exact absurd ⟨rfl, pt, hpt⟩ hconf

theorem step_confirming {pt : Bytes} (hrec : x.keys.receiving d = some (packet, .confirming pt))
    (hs : step kdf x (.advance d) = some x') :
    x'.keys.session d = (x.keys.session d).confirmRekeyCaughtUp ∧ x'.opened d = x.opened d ∧
      x'.keys.sealed = x.keys.sealed := by
  obtain ⟨keys, hk, rfl⟩ := map_eq_some_iff.1 hs
  simp only [KeyAgreement.step, hrec, recvStep] at hk
  cases hk
  simp only [update_self, hrec]
  exact ⟨trivial, rfl, trivial⟩

theorem allTracked_init (kdf : Kdf) (suite : CipherSuite) (secret : Bytes) :
    AllTracked (init kdf suite secret) := by
  intro d
  refine ⟨fun _ hq => absurd hq not_mem_nil, fun _ hq => absurd hq not_mem_nil,
    fun _ _ hr => ?_, fun _ _ hr => ?_⟩
  · cases hr
  · cases hr

/-- **Confirmation.** In every interleaving, the flag is cleared only on the evidence of a packet
that the peer sealed at the current epoch or later exactly if no rekey falls between the epoch check
of the call that clears a set flag and that clearing. -/
theorem confirms_iff_timely (kdf : Kdf) (suite : CipherSuite) (secret : Bytes) (es : List Event) :
    Along (step kdf) Timely (init kdf suite secret) es ↔
      Along (step kdf) Confirms (init kdf suite secret) es := by
  refine along_iff AllTracked (fun _ _ _ h hs _ => h.step hs) (fun x ev x' h hs => ?_) es
    (allTracked_init kdf suite secret)
  constructor
  · intro htimely d hset hclear
    obtain ⟨rfl, packet, pt, hrec⟩ := step_clears hs hset hclear
    obtain ⟨hsess, hopened, hsealed⟩ := step_confirming hrec hs
    have hmem := (h d).current packet _ hrec rfl
    refine ⟨packet, hopened ▸ hmem, hsealed ▸ (h d).fromPeer packet hmem, ?_⟩
    rw [hsess]
    exact UInt8.le_of_eq (htimely d packet pt rfl hrec hset)
  · rintro hconf d packet pt rfl hrec hset
    obtain ⟨hsess, hopened, -⟩ := step_confirming hrec hs
    obtain ⟨q, hq, -, hle⟩ := hconf d hset (by rw [hsess]; rfl)
    rw [hsess] at hle
    rw [hopened] at hq
    -- what was opened last was checked last, so no other packet can be the evidence
    obtain ⟨hreached, hlast⟩ := (h d).checked packet _ hrec rfl
    exact UInt8.le_antisymm (UInt8.le_trans hle (hlast q hq)) hreached

/-- The client rekeys after it has opened the server's packet of epoch 0 and before it confirms. -/
def overtakingRekey : List Event :=
  let header : PacketHeader :=
    { version := wireVersion, sessionId := KeyAgreement.zeroSessionId, streamId := 0
      packetNumber := 0, flags := PacketFlags.encrypted, epoch := 0, pathId := 0 }
  [.encryptPacket .server header [7] [] [9], .receive .client ⟨header, [9], []⟩,
    .advance .client, .advance .client, .advance .client, .rekey .client, .advance .client]

theorem not_confirms_overtakingRekey :
    ¬Along (step KeyAgreement.countingKdf) Confirms
      (init KeyAgreement.countingKdf .aes256Gcm []) overtakingRekey := by
  intro h
  obtain ⟨-, h⟩ := h _ rfl
  obtain ⟨-, h⟩ := h _ rfl
  obtain ⟨-, h⟩ := h _ rfl
  obtain ⟨-, h⟩ := h _ rfl
  obtain ⟨-, h⟩ := h _ rfl
  obtain ⟨-, h⟩ := h _ rfl
  obtain ⟨hconf, -⟩ := h _ rfl
  obtain ⟨q, hq, -, hle⟩ := hconf .client (by decide) (by decide)
  cases mem_singleton.1 hq
  exact absurd hle (by decide)

end PhantomProtocol.RekeyConfirm
