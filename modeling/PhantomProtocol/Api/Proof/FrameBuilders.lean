import PhantomProtocol.Api.FrameBuilders
import PhantomProtocol.Transport.Proof.RekeyConfirm

/-!
# Frames sealed ahead of the peer

Two sessions, each with a sending task and a receiving task that build frames, and a receive call
that is cut into its steps. A frame of a later epoch that does not carry `REKEY` is turned away by
the peer's gate. `encrypt_path_validation` never sets the flag; the other builders set it, unless a
rekey falls between their reading of `rekey_unconfirmed` and of the epoch.
-/

namespace PhantomProtocol.FrameBuilders

open List Function

open Session Lts
open KeyAgreement (Packet)
open RekeyConfirm (pastOpen recvStep_received Received)

inductive Task where
  | sender
  | receiver
deriving DecidableEq

/-- A builder's call: its arguments, what the cipher will return, and where it stands. -/
structure Call where
  builder : FrameBuilder
  ciphertext : Bytes
  phase : Build

structure State where
  session : Side → Session
  /-- What each side has sealed, with its header. -/
  sent : Side → List (PacketHeader × Sealed)
  receiving : Side → Option (Packet × Recv)
  building : Side → Task → Option Call

inductive Event where
  | rekey (d : Side)
  | setRekeyThreshold (d : Side) (n : Nat)
  | start (d : Side) (task : Task) (builder : FrameBuilder) (ciphertext : Bytes)
  | build (d : Side) (task : Task)
  | receive (d : Side) (packet : Packet)
  | advance (d : Side)

def init (kdf : Kdf) (suite : CipherSuite) (secret : Bytes) : State :=
  { session := fun d => Session.new kdf suite secret (d == .server)
    sent := fun _ => []
    receiving := fun _ => none
    building := fun _ _ => none }

/-- What a builder has sealed when it is done. -/
def sealedBy : Build → List (PacketHeader × Sealed)
  | .done result => result.toList
  | _ => []

def step (kdf : Kdf) (sessionId : SessionId) (x : State) : Event → Option State
  | .rekey d =>
    some { x with session := update x.session d ((x.session d).rekey kdf).1 }
  | .setRekeyThreshold d n =>
    some { x with session := update x.session d ((x.session d).setRekeyThreshold n) }
  | .start d task builder ciphertext =>
    match x.building d task with
    | none | some ⟨_, _, .done _⟩ =>
      some { x with
        building := update x.building d (update (x.building d) task
          (some ⟨builder, ciphertext, Build.start builder.frame⟩)) }
    | some _ => none
  | .build d task =>
    match x.building d task with
    | none | some ⟨_, _, .done _⟩ => none
    | some call =>
      let out := buildStep kdf sessionId call.builder.frame call.ciphertext (x.session d) call.phase
      some { x with
        session := update x.session d out.1
        sent := update x.sent d (sealedBy out.2 ++ x.sent d)
        building := update x.building d (update (x.building d) task
          (some { call with phase := out.2 })) }
  | .receive d packet =>
    match x.receiving d with
    | none | some (_, .done _) =>
      some { x with receiving := update x.receiving d (some (packet, .reading)) }
    | some _ => none
  | .advance d =>
    match x.receiving d with
    | none => none
    | some (packet, phase) =>
      let out := recvStep kdf ((x.sent d.other).map (·.2)) packet.header packet.ciphertext
        packet.extensions (x.session d) phase
      some { x with
        session := update x.session d out.1
        receiving := update x.receiving d (some (packet, out.2)) }

/-! ## The discipline -/

def Call.exposed (call : Call) : Bool :=
  match call.phase with
  | .stamping extra => !call.builder.isPathValidation && !extra.contains PacketFlags.rekey
  | _ => false

/-- No builder of the session is between reading an unset flag and stamping the epoch. -/
def noneExposed (building : Task → Option Call) : Bool :=
  (building .sender).all (!·.exposed) && (building .receiver).all (!·.exposed)

/-- Path-validation frames are stamped only while no rekey is unconfirmed, no rekey falls between a
builder's reading of the flag and of the epoch, and none between a receive call's epoch check and
its clearing of the flag. -/
def disciplined (x : State) : Event → Bool
  | .rekey d => noneExposed (x.building d)
  | .build d task =>
    match x.building d task with
    | some ⟨_, _, .rekeying⟩ => noneExposed (x.building d)
    | some ⟨builder, _, .stamping _⟩ =>
      !builder.isPathValidation || !(x.session d).rekeyUnconfirmed
    | _ => true
  | .advance d =>
    match x.receiving d with
    | some (packet, .confirming _) =>
      !(x.session d).rekeyUnconfirmed || (x.session d).epoch == packet.header.epoch
    | _ => true
  | _ => true

def Disciplined (x : State) (ev : Event) (_ : State) : Prop := disciplined x ev = true

def Passes (peerEpoch : UInt8) (header : PacketHeader) : Prop :=
  header.flags.contains PacketFlags.rekey ∨ header.epoch ≤ peerEpoch

def StampsFlag (x : State) (ev : Event) (x' : State) : Prop :=
  ∀ d task call extra call' header, ev = .build d task → x.building d task = some call →
    call.phase = .stamping extra → x'.building d task = some call' →
    call'.phase = .sealing header → (x.session d).rekeyUnconfirmed = true →
    header.flags.contains PacketFlags.rekey

/-! ## One session -/

/-- One session, the epoch of its peer, what it has sealed, its receive call and its builders. -/
structure SideOk (s : Session) (peerEpoch : UInt8) (sent : List (PacketHeader × Sealed))
    (receiving : Option (Packet × Recv)) (building : Task → Option Call) : Prop where
  flagged : peerEpoch < s.epoch → s.rekeyUnconfirmed = true
  sent : ∀ r ∈ sent, r.2.aad = packetAad r.1 [] ∧ r.1.epoch ≤ s.epoch ∧ Passes peerEpoch r.1
  sealing : ∀ task call header, building task = some call → call.phase = .sealing header →
    header.epoch ≤ s.epoch ∧ Passes peerEpoch header
  exposed : ∀ task call, building task = some call → call.exposed = true →
    s.rekeyUnconfirmed = false
  opened : ∀ p ph, receiving = some (p, ph) → pastOpen ph = true → p.header.epoch ≤ peerEpoch

variable {kdf : Kdf} {sessionId : SessionId} {s s' : Session} {peerEpoch : UInt8}
  {sent : List (PacketHeader × Sealed)} {receiving : Option (Packet × Recv)}
  {building : Task → Option Call} {task : Task} {call : Call} {x x' : State} {ev : Event} {d : Side}
  {header : PacketHeader}

theorem Passes.mono {e e' : UInt8} (h : Passes e header) (hle : e ≤ e') : Passes e' header := by
  rcases h with hflag | hep
  · exact .inl hflag
  · exact .inr (UInt8.le_trans hep hle)

section

variable (h : SideOk s peerEpoch sent receiving building)
include h

/-- The peer's epoch only grows. -/
theorem SideOk.peer {e' : UInt8} (hle : peerEpoch ≤ e') : SideOk s e' sent receiving building := by
  refine ⟨fun hlt => h.flagged (UInt8.lt_of_le_of_lt hle hlt), fun r hr => ?_,
    fun task call header hb hp => ?_, h.exposed, fun p ph hr hp => ?_⟩
  · obtain ⟨haad, hep, hpass⟩ := h.sent r hr
    exact ⟨haad, hep, hpass.mono hle⟩
  · obtain ⟨hep, hpass⟩ := h.sealing task call header hb hp
    exact ⟨hep, hpass.mono hle⟩
  · exact UInt8.le_trans (h.opened p ph hr hp) hle

theorem SideOk.session (hle : s.epoch ≤ s'.epoch)
    (hflag : peerEpoch < s'.epoch → s'.rekeyUnconfirmed = true)
    (hexp : s.rekeyUnconfirmed = false → s'.rekeyUnconfirmed = false ∨ noneExposed building = true) :
    SideOk s' peerEpoch sent receiving building := by
  refine ⟨hflag, fun r hr => ?_, fun task call header hb hp => ?_, fun task call hb hx => ?_,
    h.opened⟩
  · obtain ⟨haad, hep, hpass⟩ := h.sent r hr
    exact ⟨haad, UInt8.le_trans hep hle, hpass⟩
  · obtain ⟨hep, hpass⟩ := h.sealing task call header hb hp
    exact ⟨UInt8.le_trans hep hle, hpass⟩
  · rcases hexp (h.exposed task call hb hx) with hfalse | hnone
    · exact hfalse
    · obtain ⟨hs, hr⟩ := Bool.and_eq_true_iff.1 hnone
      cases task with
      | sender => simp [hb, hx] at hs
      | receiver => simp [hb, hx] at hr

/-- One of the builders moves on. -/
theorem SideOk.setCall {new : Call}
    (hseal : ∀ header, new.phase = .sealing header → header.epoch ≤ s.epoch ∧ Passes peerEpoch header)
    (hexp : new.exposed = true → s.rekeyUnconfirmed = false) :
    SideOk s peerEpoch sent receiving (update building task (some new)) := by
  refine ⟨h.flagged, h.sent, fun t c header hb hp => ?_, fun t c hb hx => ?_, h.opened⟩
  · rw [update_apply] at hb
    split at hb
    · cases hb
      exact hseal header hp
    · exact h.sealing t c header hb hp
  · rw [update_apply] at hb
    split at hb
    · cases hb
      exact hexp hx
    · exact h.exposed t c hb hx

end

theorem rekey_flagged (hflag : peerEpoch < s.epoch → s.rekeyUnconfirmed = true) :
    peerEpoch < (s.rekey kdf).1.epoch → (s.rekey kdf).1.rekeyUnconfirmed = true := by
  rcases rekey_flag kdf s with hsame | hset
  · rw [hsame]
    exact hflag
  · exact fun _ => hset

/-- A rekey while no builder is exposed. -/
theorem SideOk.rekey (kdf : Kdf) (h : SideOk s peerEpoch sent receiving building)
    (hnone : noneExposed building = true) :
    SideOk (s.rekey kdf).1 peerEpoch sent receiving building :=
  h.session rekey_advance.epoch_le (rekey_flagged h.flagged) fun _ => .inr hnone

section

variable (h : SideOk s peerEpoch sent receiving building)
include h

theorem SideOk.passes {extra flags : PacketFlags}
    (hb : building task = some call) (hp : call.phase = .stamping extra)
    (hpath : call.builder.isPathValidation = true → s.rekeyUnconfirmed = false)
    (hep : header.epoch = s.epoch) (hflags : header.flags = flags ||| extra) :
    Passes peerEpoch header ∧
      (s.rekeyUnconfirmed = true → header.flags.contains PacketFlags.rekey) := by
  by_cases hset : extra.contains PacketFlags.rekey
  · have hcontains : header.flags.contains PacketFlags.rekey := by
      rw [hflags]
      exact PacketFlags.contains_or hset
    exact ⟨.inl hcontains, fun _ => hcontains⟩
  · have hconf : s.rekeyUnconfirmed = false := by
      cases hv : call.builder.isPathValidation with
      | true => exact hpath hv
      | false => exact h.exposed task call hb (by simp [Call.exposed, hp, hv, hset])
    refine ⟨.inr ?_, fun hun => ?_⟩
    · rw [hep]
      by_contra hgt
      have hun := h.flagged (UInt8.not_le.1 hgt)
      rw [hconf] at hun
      cases hun
    · rw [hconf] at hun
      cases hun

/-- What the sealed frame adds to `sent`. -/
theorem SideOk.encryptPacket
    (pt ct : Bytes) (hep : header.epoch ≤ s.epoch) (hpass : Passes peerEpoch header) :
    SideOk (s.encryptPacket header pt [] ct).1 peerEpoch
      (((s.encryptPacket header pt [] ct).2.toOption.map (header, ·)).toList ++ sent) receiving
      building := by
  refine ⟨h.flagged, fun r hr => ?_, h.sealing, h.exposed, h.opened⟩
  rcases mem_append.1 hr with hnew | hold
  · cases hout : (s.encryptPacket header pt [] ct).2 with
    | error => simp [hout, Except.toOption] at hnew
    | ok q =>
      have hr' : r = (header, q) := by simpa [hout, Except.toOption] using hnew
      subst hr'
      exact ⟨by rw [encryptPacket_ok hout], hep, hpass⟩
  · exact h.sent r hold

theorem SideOk.build (hb : building task = some call)
    (hrekey : call.phase = .rekeying → noneExposed building = true)
    (hpath : ∀ extra, call.phase = .stamping extra → call.builder.isPathValidation = true →
      s.rekeyUnconfirmed = false) (hdone : ∀ r, call.phase ≠ .done r) :
    SideOk (buildStep kdf sessionId call.builder.frame call.ciphertext s call.phase).1 peerEpoch
      (sealedBy (buildStep kdf sessionId call.builder.frame call.ciphertext s call.phase).2 ++ sent)
      receiving (update building task (some { call with
        phase := (buildStep kdf sessionId call.builder.frame call.ciphertext s call.phase).2 })) := by
  cases hp : call.phase with
  | checking =>
    simp only [buildStep]
    split
    · exact h.setCall (fun _ hs => by cases hs) (by simp [Call.exposed])
    · exact h.setCall (fun _ hs => by cases hs) (by simp [Call.exposed])
  | rekeying =>
    have hs' := h.rekey kdf (hrekey hp)
    simp only [buildStep]
    split
    · exact hs'.setCall (fun _ hs => by cases hs) (by simp [Call.exposed])
    · exact hs'.setCall (fun _ hs => by cases hs) (by simp [Call.exposed])
  | reading =>
    refine h.setCall (fun _ hs => by cases hs) fun hx => ?_
    grind [Call.exposed, buildStep, PacketFlags.contains]
  | stamping extra =>
    have hs' : SideOk s.nextSendPn.1 peerEpoch sent receiving building :=
      h.session (UInt8.le_refl _) h.flagged .inl
    refine hs'.setCall (fun header hs => ?_) (by simp [Call.exposed, buildStep])
    cases hs
    exact ⟨UInt8.le_refl _, (h.passes hb hp (hpath extra hp) rfl rfl).1⟩
  | sealing header =>
    obtain ⟨hep, hpass⟩ := h.sealing task call header hb hp
    have hs' := h.encryptPacket call.builder.frame.plaintext call.ciphertext hep hpass
    exact hs'.setCall (fun _ hs => by cases hs) (by simp [Call.exposed, buildStep])
  | done r => exact absurd hp (hdone r)

end

theorem received_opens {log : List Sealed} {p : Packet} {s s' : Session} {ph ph' : Recv}
    (hr : Received s log p ph s' ph') :
    (s'.epoch = s.epoch ∧ (pastOpen ph' = true → pastOpen ph = true)) ∨
      (s'.epoch = s.epoch ∨ s'.epoch = p.header.epoch) ∧
        ∃ r ∈ log, r.aad = packetAad p.header p.extensions := by
  cases hr with
  | fails hep => exact .inl ⟨hep, Bool.noConfusion⟩
  | checked | locks | confirmed | done => exact .inl ⟨rfl, Bool.noConfusion⟩
  | caughtUp _ hep _ hpeer =>
    obtain ⟨r, hr, haad, -⟩ := hpeer
    exact .inr ⟨.inr hep, r, hr, haad⟩
  | opened hep _ hpeer =>
    obtain ⟨r, hr, haad, -⟩ := hpeer
    exact .inr ⟨.inl hep, r, hr, haad⟩
  | accepted hep => exact .inl ⟨hep, fun _ => rfl⟩

theorem SideOk.recv {p : Packet} {ph ph' : Recv} {log : List Sealed}
    (h : SideOk s peerEpoch sent (some (p, ph)) building) (hr : Received s log p ph s' ph')
    (hle : s.epoch ≤ s'.epoch)
    (hlog : ∀ r ∈ log, r.aad = packetAad p.header p.extensions → p.header.epoch ≤ peerEpoch)
    (htimely : ∀ pt, ph = .confirming pt → s.rekeyUnconfirmed = true → s.epoch = p.header.epoch) :
    SideOk s' peerEpoch sent (some (p, ph')) building := by
  have hopens := received_opens hr
  have hopened : ∀ q ph'', some (p, ph') = some (q, ph'') → pastOpen ph'' = true →
      q.header.epoch ≤ peerEpoch := by
    rintro q ph'' hq hpast
    cases hq
    rcases hopens with ⟨-, hkeep⟩ | ⟨-, r, hr, haad⟩
    · exact h.opened p ph rfl (hkeep hpast)
    · exact hlog r hr haad
  have hs : SideOk s' peerEpoch sent (some (p, ph)) building := by
    obtain hflag | ⟨pt, rfl, rfl⟩ := hr.flag
    · refine h.session hle (fun hlt => ?_) fun hunset => .inl (hflag.trans hunset)
      rcases hopens with ⟨hep, -⟩ | ⟨hep | hep, r, hr, haad⟩
      · exact hflag.trans (h.flagged (hep ▸ hlt))
      · exact hflag.trans (h.flagged (hep ▸ hlt))
      · exact absurd hlt (UInt8.not_lt.2 (hep ▸ hlog r hr haad))
    · refine h.session hle (fun hlt => ?_) fun _ => .inl rfl
      -- the flag is cleared at the packet's epoch, which the peer has reached
      have hep := htimely pt rfl (h.flagged hlt)
      have hreached := h.opened p _ rfl rfl
      rw [← hep] at hreached
      exact absurd hlt (UInt8.not_lt.2 hreached)
  exact ⟨hs.flagged, hs.sent, hs.sealing, hs.exposed, hopened⟩

/-! ## Both sessions -/

def AllOk (x : State) : Prop :=
  ∀ d, SideOk (x.session d) (x.session d.other).epoch (x.sent d) (x.receiving d) (x.building d)

theorem allOk_init (kdf : Kdf) (suite : CipherSuite) (secret : Bytes) :
    AllOk (init kdf suite secret) := by
  intro d
  refine ⟨fun hlt => absurd hlt (UInt8.lt_irrefl _), fun _ hr => absurd hr List.not_mem_nil,
    fun _ _ _ hb => ?_, fun _ _ hb => ?_, fun _ _ hr => ?_⟩
  · cases hb
  · cases hb
  · cases hr

theorem AllOk.side (h : AllOk x) {s : Session} {sent : List (PacketHeader × Sealed)}
    {receiving : Option (Packet × Recv)} {building : Task → Option Call}
    (hs : SideOk s (x.session d.other).epoch sent receiving building)
    (hle : (x.session d).epoch ≤ s.epoch)
    (hsess : x'.session = update x.session d s)
    (hsent : x'.sent = update x.sent d sent)
    (hrec : x'.receiving = update x.receiving d receiving)
    (hbuild : x'.building = update x.building d building) : AllOk x' := by
  intro e
  rw [hsess, hsent, hrec, hbuild]
  rcases Side.eq_or_eq_other d e with rfl | rfl
  · simp [*]
  · simp only [Side.other_other, update_self, update_of_ne (Side.other_ne d)]
    have hother := h d.other
    rw [Side.other_other] at hother
    exact hother.peer hle

theorem AllOk.log (h : AllOk x) {r : Sealed} (hr : r ∈ (x.sent d.other).map (·.2))
    {exts : Bytes} (haad : r.aad = packetAad header exts) :
    header.epoch ≤ (x.session d.other).epoch := by
  obtain ⟨q, hq, rfl⟩ := mem_map.1 hr
  obtain ⟨hq', hep, -⟩ := (h d.other).sent q hq
  have heq : q.1.epoch = header.epoch := PacketHeader.epoch_of_aad (hq'.symm.trans haad)
  exact heq ▸ hep

theorem buildStep_epoch_le (kdf : Kdf) (sessionId : SessionId) (f : OutFrame) (ct : Bytes)
    (s : Session) (ph : Build) : s.epoch ≤ (buildStep kdf sessionId f ct s ph).1.epoch := by
  cases ph with
  | rekeying => grind [buildStep, rekey_advance.epoch_le]
  | checking | reading | stamping | sealing | done => exact UInt8.le_refl _

theorem AllOk.step (h : AllOk x) (hs : step kdf sessionId x ev = some x')
    (hdisc : Disciplined x ev x') : AllOk x' := by
  cases ev with
  | rekey d =>
    cases hs
    exact h.side ((h d).rekey kdf hdisc) rekey_advance.epoch_le rfl
      (update_eq_self d _).symm (update_eq_self d _).symm
      (update_eq_self d _).symm
  | setRekeyThreshold d n =>
    cases hs
    have hd : SideOk ((x.session d).setRekeyThreshold n) (x.session d.other).epoch (x.sent d)
        (x.receiving d) (x.building d) :=
      (h d).session (UInt8.le_refl _) (h d).flagged .inl
    exact h.side hd (UInt8.le_refl _) rfl (update_eq_self d _).symm
      (update_eq_self d _).symm (update_eq_self d _).symm
  | start d task builder ct =>
    have hd : SideOk (x.session d) (x.session d.other).epoch (x.sent d) (x.receiving d)
        (update (x.building d) task (some ⟨builder, ct, Build.start builder.frame⟩)) := by
      refine (h d).setCall (fun header hp => ?_) fun hx => ?_
      · grind [Build.start]
      · rw [Call.exposed, Build.start, FrameBuilder.rekeysBeforeStamp_eq] at hx
        cases hv : builder.isPathValidation with
        | true | false => simp [hv] at hx
    simp only [FrameBuilders.step] at hs
    split at hs
    all_goals cases hs
    all_goals
      exact h.side hd (UInt8.le_refl _) (update_eq_self d _).symm
        (update_eq_self d _).symm (update_eq_self d _).symm rfl
  | build d task =>
    simp only [FrameBuilders.step] at hs
    split at hs
    · cases hs
    · cases hs
    · rename_i call hdone hb
      cases hs
      refine h.side ((h d).build hb (fun hp => ?_) (fun extra hp hv => ?_) fun r hp => ?_)
        (buildStep_epoch_le ..) rfl rfl (update_eq_self d _).symm rfl
      · obtain ⟨b, ct, ph⟩ := call
        cases hp
        simpa [Disciplined, disciplined, hb] using hdisc
      · obtain ⟨b, ct, ph⟩ := call
        cases hp
        dsimp only at hv
        simpa [Disciplined, disciplined, hb, hv] using hdisc
      · obtain ⟨b, ct, ph⟩ := call
        cases hp
        exact hdone _ _ _ rfl
  | receive d packet =>
    have hd : SideOk (x.session d) (x.session d.other).epoch (x.sent d) (some (packet, .reading))
        (x.building d) := by
      refine ⟨(h d).flagged, (h d).sent, (h d).sealing, (h d).exposed, fun p ph hp hpast => ?_⟩
      cases hp
      cases hpast
    simp only [FrameBuilders.step] at hs
    split at hs
    all_goals cases hs
    all_goals
      exact h.side hd (UInt8.le_refl _) (update_eq_self d _).symm
        (update_eq_self d _).symm rfl (update_eq_self d _).symm
  | advance d =>
    simp only [FrameBuilders.step] at hs
    split at hs
    · cases hs
    · rename_i packet phase hrec
      cases hs
      have hd := h d
      rw [hrec] at hd
      refine h.side (hd.recv (recvStep_received kdf _ _ packet phase) recvStep_advance.epoch_le
        (fun r hr haad => h.log hr haad) fun pt hpt hun => ?_)
        recvStep_advance.epoch_le rfl (update_eq_self d _).symm rfl
        (update_eq_self d _).symm
      cases hpt
      simpa [Disciplined, disciplined, hrec, hun] using hdisc

theorem AllOk.stampsFlag (h : AllOk x) (hs : FrameBuilders.step kdf sessionId x ev = some x')
    (hdisc : Disciplined x ev x') : StampsFlag x ev x' := by
  rintro d task call extra call' header rfl hb hp hb' hp' hun
  obtain ⟨b, ct, ph⟩ := call
  cases hp
  simp only [FrameBuilders.step, hb] at hs
  cases hs
  simp only [update_self] at hb'
  cases hb'
  cases hp'
  refine ((h d).passes hb rfl (fun hv => ?_) rfl rfl).2 hun
  dsimp only at hv
  simpa [Disciplined, disciplined, hb, hv] using hdisc

/-! ## Which frames are flagged -/

theorem unflaggedError_ne_behindError (e c e' c' : UInt8) :
    unflaggedError e c ≠ behindError e' c' := by
  intro h
  have hhead := congrArg (fun s : String => s.toList.head?) (CoreError.cryptoError.inj h)
  simp at hhead

theorem Passes.not_unflagged (h : Passes s.epoch header) (kdf : Kdf)
    (log : List Sealed) (ct exts : Bytes) :
    (recvStep kdf log header ct exts s .reading).2 ≠
      .done (.error (unflaggedError header.epoch s.epoch)) := by
  simp only [recvStep]
  split
  · exact Recv.noConfusion
  · split
    · intro heq
      exact unflaggedError_ne_behindError _ _ _ _ (Except.error.inj (Recv.done.inj heq)).symm
    · rename_i hne hlt
      have hflag : header.flags.contains PacketFlags.rekey = true := by
        rcases h with hflag | hle
        · exact hflag
        · exact absurd (UInt8.le_antisymm hle (UInt8.not_lt.1 hlt)) hne
      rw [if_neg (by simp [hflag])]
      exact Recv.noConfusion

theorem build_flagged_iff {b : FrameBuilder} {ct : Bytes} {frame : Sealed}
    (hun : s.rekeyUnconfirmed = true)
    (hb : (s.build kdf sessionId b.frame ct).2 = some (header, frame)) :
    header.flags.contains PacketFlags.rekey = true ↔ b.isPathValidation = false := by
  cases hv : b.isPathValidation with
  | false =>
    have hrekeys : b.frame.rekeysBeforeStamp = true := by rw [b.rekeysBeforeStamp_eq, hv]; rfl
    rw [build, if_pos hrekeys] at hb
    exact iff_of_true (sealFrame_flagged hb hun) rfl
  | true =>
    cases b with
    | encryptPathValidation =>
      have hflags : header.flags = PacketFlags.pathValidation ||| PacketFlags.encrypted := by
        simp only [build, FrameBuilder.frame, pathValidation, Bool.false_eq_true, if_false,
          Option.map_eq_some_iff, Prod.mk.injEq] at hb
        obtain ⟨r, -, rfl, -⟩ := hb
        rfl
      rw [hflags]
      decide
    | _ => cases hv

/-- **Followable frames.** A builder that runs while a rekey is unconfirmed flags its frame exactly
if it is not `encrypt_path_validation`. In every run that keeps the discipline, every header stamped
while a rekey is unconfirmed is flagged, and the peer turns no sealed frame away for a missing flag. -/
theorem frames_followable (kdf : Kdf) (suite : CipherSuite) (secret : Bytes)
    (sessionId : SessionId) :
    (∀ (s : Session) (b : FrameBuilder) (ct : Bytes) (header : PacketHeader) (frame : Sealed),
      s.rekeyUnconfirmed = true → (s.build kdf sessionId b.frame ct).2 = some (header, frame) →
      (header.flags.contains PacketFlags.rekey = true ↔ b.isPathValidation = false)) ∧
    ∀ es, Along (step kdf sessionId) Disciplined (init kdf suite secret) es →
      Along (step kdf sessionId) StampsFlag (init kdf suite secret) es ∧
      ∀ t, run (step kdf sessionId) (init kdf suite secret) es = some t →
        ∀ d, ∀ r ∈ t.sent d, ∀ log ct exts,
          (recvStep kdf log r.1 ct exts (t.session d.other) .reading).2 ≠
            .done (.error (unflaggedError r.1.epoch (t.session d.other).epoch)) := by
  refine ⟨fun s b ct header frame hun hb => build_flagged_iff hun hb, fun es hdisc => ⟨?_, ?_⟩⟩
  · exact along_of_inv (fun _ _ _ h hs hd => h.step hs hd)
      (fun _ _ _ h hs hd => h.stampsFlag hs hd) es (allOk_init kdf suite secret) hdisc
  · intro t hrun d r hr log ct exts
    have hinv : AllOk t := run_inv_along (fun _ _ _ h hs hd => h.step hs hd) es
      (allOk_init kdf suite secret) hdisc hrun
    obtain ⟨-, -, hpass⟩ := (hinv d).sent r hr
    exact hpass.not_unflagged kdf log ct exts

/-- The client rekeys and sends a keepalive. -/
def flaggedKeepalive : List Event :=
  [.rekey .client, .start .client .sender (.sendKeepalive 0 false) [9], .build .client .sender,
    .build .client .sender, .build .client .sender, .build .client .sender]

theorem frames_followable_flaggedKeepalive :
    ∃ t r, run (step KeyAgreement.countingKdf KeyAgreement.zeroSessionId)
        (init KeyAgreement.countingKdf .aes256Gcm []) flaggedKeepalive = some t ∧
      t.sent .client = [r] ∧ (t.session .server).epoch < r.1.epoch ∧
      (recvStep KeyAgreement.countingKdf [r.2] r.1 [9] [] (t.session .server) .reading).2 ≠
        .done (.error (unflaggedError r.1.epoch (t.session .server).epoch)) := by
  refine ⟨_, _, rfl, rfl, by decide, ?_⟩
  exact ((frames_followable KeyAgreement.countingKdf .aes256Gcm [] KeyAgreement.zeroSessionId).2
    flaggedKeepalive (by unfold Disciplined; decide)).2 _ rfl .client _ mem_cons_self _ _ _

/-- The client rekeys and answers a path challenge. -/
def unflaggedPathValidation : List Event :=
  [.rekey .client, .start .client .receiver (.encryptPathValidation 1 (List.replicate 32 0)) [9],
    .build .client .receiver, .build .client .receiver]

theorem pathValidation_unflagged :
    ∃ t r, run (step KeyAgreement.countingKdf KeyAgreement.zeroSessionId)
        (init KeyAgreement.countingKdf .aes256Gcm []) unflaggedPathValidation = some t ∧
      (t.session .client).rekeyUnconfirmed = true ∧ t.sent .client = [r] ∧
      r.1.flags.contains PacketFlags.rekey = false ∧
      ((t.session .server).decryptPacketAcceptingRekey KeyAgreement.countingKdf [r.2] r.1
        r.2.ciphertext []).2 = .error (unflaggedError 1 0) :=
  ⟨_, _, rfl, by decide, rfl, by decide, rfl⟩

end PhantomProtocol.FrameBuilders
