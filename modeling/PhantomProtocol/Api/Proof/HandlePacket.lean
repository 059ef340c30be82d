import PhantomProtocol.Api.HandlePacket

/-!
# What handling one frame does

For which states a frame stamped with a fixed path id leaves the CID window alone.
-/

namespace PhantomProtocol

open List Option UInt8

namespace Migration

variable {kdf : Kdf} {m : Migration} {p : UInt8}

theorem followPeer_not_newer (h : ¬m.Newer p) : m.followPeer kdf p = (m, none) := by
  simp [followPeer, noteMigrationPath_not_newer h]

theorem followPeer_newer (kdf : Kdf) (h : m.Newer p) : (m.followPeer kdf p).1 =
      { m with
        lastSeenPathId := p
        inboundCidHighestSeen := m.inboundCidHighestSeen + (p - m.lastSeenPathId).toNat
        outboundCidIndex := m.outboundCidIndex + 1
        sendPathId := if m.isServer then m.sendPathId else m.nextMigrationPathId.sendPathId } ∧
      (m.followPeer kdf p).2.isSome := by
  simp only [followPeer, noteMigrationPath_newer h, isSome_some, if_true]
  refine ⟨?_, trivial⟩
  unfold applyPeerMigrationRotation
  cases hs : m.isServer <;> simp [advanceOutboundCid, nextMigrationPathId]

@[simp] theorem followPeer_isServer : (m.followPeer kdf p).1.isServer = m.isServer := by
  by_cases h : m.Newer p
  · rw [(followPeer_newer kdf h).1]
  · rw [followPeer_not_newer h]

end Migration

namespace Endpoint

variable {Addr : Type} {kdf : Kdf} {ep : Endpoint Addr} {sl : Option CidSlide} {f g : Frame}
  {env : Env} {src : Addr} {len : Nat} {p : UInt8} {c : Challenge} {m : Migration}

/-! ## The migration state -/

theorem challengeCandidate_migration : (ep.challengeCandidate p env).1.migration = ep.migration := by
  simp only [challengeCandidate]
  split <;> rfl

theorem gatePath_migration : (ep.gatePath p env).1.migration = ep.migration := by
  unfold gatePath
  grind [challengeCandidate_migration]

theorem dispatchPathValidation_migration :
    (ep.dispatchPathValidation sl p c).1.migration = ep.migration ∧
      (ep.dispatchPathValidation sl p c).2.slide = sl := by
  unfold dispatchPathValidation
  split
  · grind
  all_goals exact ⟨rfl, rfl⟩

theorem dispatch_migration :
    (ep.dispatch sl f env).1.migration = ep.migration ∧ (ep.dispatch sl f env).2.slide = sl := by
  unfold dispatch
  split
  · exact ⟨rfl, rfl⟩
  · grind [dispatchPathValidation_migration, gatePath_migration]

variable [DecidableEq Addr]

/-- The migration state only depends on the frame's path id. -/
theorem handlePacket_migration (h : f.flags.contains PacketFlags.encrypted) :
    (ep.handlePacket kdf src len f env).1.migration = (ep.migration.followPeer kdf f.pathId).1 := by
  simp only [handlePacket, h, if_true]
  exact dispatch_migration.1

theorem handlePacket_slide (h : f.flags.contains PacketFlags.encrypted) :
    (ep.handlePacket kdf src len f env).2.slide = (ep.migration.followPeer kdf f.pathId).2 := by
  simp only [handlePacket, h, if_true]
  exact dispatch_migration.2

/-! ## Dispatch by class of frame -/

/-- The endpoint once the frame has authenticated. -/
def opened (kdf : Kdf) (ep : Endpoint Addr) (src : Addr) (len : Nat) (p : UInt8) : Endpoint Addr :=
  { migration := (ep.migration.followPeer kdf p).1
    paths := ep.paths
    transport := (ep.transport.recvBytes src len).confirmAuthenticatedSource }

@[simp] theorem opened_paths : (ep.opened kdf src len p).paths = ep.paths := rfl

@[simp] theorem opened_peer : (ep.opened kdf src len p).transport.peer = ep.transport.peer :=
  UdpTransport.confirm_peer

@[simp] theorem opened_candidate :
    (ep.opened kdf src len p).transport.candidate = ep.transport.candidateAfter src :=
  UdpTransport.confirm_candidate

theorem handlePacket_eq (h : f.flags.contains PacketFlags.encrypted) :
    ep.handlePacket kdf src len f env =
      (ep.opened kdf src len f.pathId).dispatch (ep.migration.followPeer kdf f.pathId).2 f env := by
  simp only [handlePacket, h, if_true]
  rfl

theorem handlePacket_pathValidation (c : Challenge) :
    ep.handlePacket kdf src len (pathValidationFrame p c) env =
      (ep.opened kdf src len p).dispatchPathValidation (ep.migration.followPeer kdf p).2 p c := by
  rw [handlePacket_eq (pathValidationFrame_encrypted p c)]
  unfold dispatch
  rw [show (pathValidationFrame p c).flags = PacketFlags.pathValidation ||| PacketFlags.encrypted
    from rfl, if_neg (by decide), if_neg (by decide), if_pos (by decide)]
  exact dif_pos c.2

/-- An ordinary frame that reaches the application-data part of `handle_packet`. -/
def ReachesData (f : Frame) : Prop :=
  ¬f.flags.contains PacketFlags.keepalive ∧
    ¬(f.flags.contains PacketFlags.control || f.flags.contains PacketFlags.cover ||
      f.flags.contains PacketFlags.ack || f.flags.contains PacketFlags.windowUpdate) ∧
    ¬f.flags.contains PacketFlags.pathValidation

instance : Decidable (ReachesData f) := inferInstanceAs (Decidable (_ ∧ _))

/-- What an ordinary frame does: only application data touches the paths, through the gate, and the
replies are ordinary frames stamped with the own path id, the frame's, or 0. -/
theorem handlePacket_ordinary (kdf : Kdf) (ep : Endpoint Addr) (src : Addr) (len : Nat) (env : Env)
    (hf : f.flags.Ordinary) :
    ∃ replies, (∀ g ∈ replies, g.flags.Ordinary ∧
        (g.pathId = (ep.migration.followPeer kdf f.pathId).1.sendPathId ∨ g.pathId = f.pathId ∨
          g.pathId = 0)) ∧
      ep.handlePacket kdf src len f env =
        if ReachesData f then
          (((ep.opened kdf src len f.pathId).gatePath f.pathId env).1,
            ⟨(ep.migration.followPeer kdf f.pathId).2, replies,
              ((ep.opened kdf src len f.pathId).gatePath f.pathId env).2, none⟩)
        else
          (ep.opened kdf src len f.pathId,
            ⟨(ep.migration.followPeer kdf f.pathId).2, replies, none, none⟩) := by
  rw [handlePacket_eq hf.1, dispatch]
  by_cases hk : f.flags.contains PacketFlags.keepalive
  · rw [if_pos hk]
    refine ⟨_, ?_, (if_neg fun h => h.1 hk).symm⟩
    intro g hg
    split at hg
    · cases hg
    · cases mem_singleton.1 hg
      exact ⟨keepaliveFrame_ordinary _ _, .inl rfl⟩
  · rw [if_neg hk]
    by_cases ho : f.flags.contains PacketFlags.control || f.flags.contains PacketFlags.cover ||
        f.flags.contains PacketFlags.ack || f.flags.contains PacketFlags.windowUpdate
    · rw [if_pos ho]
      exact ⟨[], by simp, (if_neg fun h => h.2.1 ho).symm⟩
    · rw [if_neg ho, if_neg hf.2]
      refine ⟨_, ?_, (if_pos ⟨hk, ho, hf.2⟩).symm⟩
      intro g hg
      split at hg
      · cases hg
      · split at hg
        · simp only [mem_append, mem_toList, map_eq_some_iff] at hg
          rcases hg with ⟨b, -, rfl⟩ | ⟨b, -, rfl⟩
          · exact ⟨streamSack_ordinary _ _, .inr (.inl rfl)⟩
          · exact ⟨windowUpdateFrame_ordinary _, .inr (.inr rfl)⟩
        · cases hg

/-! ## The path gate -/

/-- The path `handle_packet` begins to validate when `f` arrives from `src`, if any: the frame's own
path, or the reserved one when that is trusted, provided there is a candidate. -/
def challengedPath (ep : Endpoint Addr) (src : Addr) (f : Frame) : Option UInt8 :=
  if ReachesData f ∧ (ep.transport.candidateAfter src).isSome then
    some (if ep.paths.state f.pathId = some .validated then rebindValidationPathId else f.pathId)
  else none

omit [DecidableEq Addr] in
theorem challengeCandidate_cases (ep : Endpoint Addr) (p : UInt8) (env : Env) :
    (ep.challengeCandidate p env).1.paths = (ep.paths.beginPathValidation p env.fresh).1 ∧
      ((ep.challengeCandidate p env).2 = none ∨
        ∃ a c, (ep.challengeCandidate p env).2 = some (a, pathValidationFrame p c) ∧
          ep.transport.candidate = some a ∧
          (ep.paths.beginPathValidation p env.fresh).2 = some c) := by
  unfold challengeCandidate
  dsimp only
  split
  · exact ⟨rfl, .inl rfl⟩
  · rename_i c hc
    refine ⟨rfl, ?_⟩
    cases hs : (ep.transport.sendToCandidate env.challengeWire env.socketOk).2 with
    | none => exact .inl rfl
    | some a => exact .inr ⟨a, c, rfl, UdpTransport.sendToCandidate_addr hs, hc⟩

theorem gatePath_cases (kdf : Kdf) (ep : Endpoint Addr) (src : Addr) (len : Nat) (env : Env)
    (hd : ReachesData f) :
    (∃ q, ep.challengedPath src f = some q ∧
      (ep.opened kdf src len f.pathId).gatePath f.pathId env =
        (ep.opened kdf src len f.pathId).challengeCandidate q env) ∨
    (ep.challengedPath src f = none ∧
      ((ep.opened kdf src len f.pathId).gatePath f.pathId env).2 = none ∧
      (((ep.opened kdf src len f.pathId).gatePath f.pathId env).1.paths = ep.paths ∨
        ((ep.opened kdf src len f.pathId).gatePath f.pathId env).1.paths =
          ep.paths.register f.pathId)) := by
  unfold challengedPath gatePath UdpTransport.hasMigrationCandidate
  rw [opened_paths, opened_candidate]
  by_cases hc : (ep.transport.candidateAfter src).isSome
  · grind
  · rw [if_neg fun h => hc h.2]
    by_cases hv : ep.paths.state f.pathId = some .validated
    · exact .inr ⟨rfl, by simp [hv, hc], .inl (by simp [hv, hc])⟩
    · simp [*, PathRegistry.registerUnvalidatedPath_eq]

/-! ## What goes on the wire -/

omit [DecidableEq Addr] in
theorem dispatchPathValidation_frames
    (hg : g ∈ (ep.dispatchPathValidation sl p c).2.frames) : g = pathValidationFrame p c := by
  unfold dispatchPathValidation at hg
  split at hg
  · dsimp only at hg
    split at hg
    · split at hg <;> cases hg
    · cases hg
  · cases hg
  · cases hg
  all_goals exact mem_singleton.1 hg

theorem handlePacket_frames (hf : f.Built) (hg : g ∈ (ep.handlePacket kdf src len f env).2.frames) :
    g.Built ∧ (g.pathId = (ep.migration.followPeer kdf f.pathId).1.sendPathId ∨
      g.pathId = f.pathId ∨ g.pathId = 0 ∨ g.pathId = rebindValidationPathId) := by
  rcases hf with hf | ⟨p, c, rfl⟩
  · obtain ⟨replies, hrep, heq⟩ := handlePacket_ordinary kdf ep src len env hf
    have hreply : g ∈ replies → g.Built ∧
        (g.pathId = (ep.migration.followPeer kdf f.pathId).1.sendPathId ∨ g.pathId = f.pathId ∨
          g.pathId = 0 ∨ g.pathId = rebindValidationPathId) := fun h => by
      obtain ⟨hord, hpath⟩ := hrep g h
      refine ⟨.inl hord, ?_⟩
      rcases hpath with h | h | h <;> simp [h]
    rw [heq] at hg
    split at hg
    · rename_i hd
      rcases mem_append.1 hg with hg | hg
      · -- the challenge: on this path or on the reserved one
        obtain ⟨q, hq, hgate⟩ | ⟨-, hnone, -⟩ := gatePath_cases kdf ep src len env hd
        · simp only [hgate] at hg
          rcases (challengeCandidate_cases (ep.opened kdf src len f.pathId) q env).2 with
            h | ⟨a, c, h, -, -⟩
          · rw [h] at hg
            cases hg
          · rw [h] at hg
            cases mem_singleton.1 hg
            refine ⟨.inr ⟨q, c, rfl⟩, ?_⟩
            unfold challengedPath at hq
            split at hq
            · cases hq
              show _ ∨ (if _ then _ else _) = _ ∨ _ ∨ (if _ then _ else _) = _
              split <;> simp
            · cases hq
        · simp only [hnone] at hg
          cases hg
      · exact hreply hg
    · exact hreply hg
  · rw [handlePacket_pathValidation] at hg
    cases dispatchPathValidation_frames hg
    exact ⟨.inr ⟨p, c, rfl⟩, .inr (.inl rfl)⟩

/-! ## Frames stamped with a fixed path id -/

/-- The CID window did not move: neither the last path id nor the peer's index changed, and no
slide was emitted. -/
def Unmoved (ep : Endpoint Addr) (result : Endpoint Addr × Output Addr) : Prop :=
  result.1.migration.lastSeenPathId = ep.migration.lastSeenPathId ∧
    result.1.migration.inboundCidHighestSeen = ep.migration.inboundCidHighestSeen ∧
    result.2.slide = none

theorem unmoved_iff (h : f.flags.contains PacketFlags.encrypted) :
    ep.Unmoved (ep.handlePacket kdf src len f env) ↔ ¬ep.migration.Newer f.pathId := by
  unfold Unmoved
  rw [handlePacket_migration h, handlePacket_slide h]
  constructor
  · grind [Migration.followPeer_newer]
  · simp_all [Migration.followPeer_not_newer]

theorem not_newer_zero_iff : ¬m.Newer 0 ↔ m.lastSeenPathId < 128 := by
  rw [Migration.newer_iff, Migration.toNat_sub_path, lt_iff_toNat_lt]
  have := m.lastSeenPathId.toNat_lt
  simp only [UInt8.toNat_zero, show (128 : UInt8).toNat = 128 from rfl]
  omega

theorem not_newer_rebind_iff :
    ¬m.Newer rebindValidationPathId ↔ m.lastSeenPathId < 127 ∨ m.lastSeenPathId = 255 := by
  rw [Migration.newer_iff, Migration.toNat_sub_path, UInt8.lt_iff_toNat_lt, ← UInt8.toNat_inj]
  have := m.lastSeenPathId.toNat_lt
  simp only [rebindValidationPathId, show (255 : UInt8).toNat = 255 from rfl,
    show (127 : UInt8).toNat = 127 from rfl]
  omega

/-- **Fixed path ids and the CID window.** A WINDOW_UPDATE, stamped 0, leaves the window alone
exactly while the last path id seen is below 128; a passive-rebind PATH_VALIDATION frame, stamped
255, exactly while it is below 127 or is 255 itself. -/
theorem fixedPathId_unmoved_iff (kdf : Kdf) (ep : Endpoint Addr) (src : Addr) (len : Nat)
    (env : Env) (limit : Bytes) (payload : Challenge) :
    (ep.Unmoved (ep.handlePacket kdf src len (windowUpdateFrame limit) env) ↔
        ep.migration.lastSeenPathId < 128) ∧
      (ep.Unmoved
          (ep.handlePacket kdf src len (pathValidationFrame rebindValidationPathId payload) env) ↔
        ep.migration.lastSeenPathId < 127 ∨ ep.migration.lastSeenPathId = 255) :=
  ⟨(unmoved_iff (windowUpdateFrame_ordinary limit).1).trans not_newer_zero_iff,
    (unmoved_iff (pathValidationFrame_encrypted _ payload)).trans not_newer_rebind_iff⟩

/-- A server that has handled a data frame on each of the path ids `1, …, n` of a client that
migrated `n` times. -/
def afterMigrations (n : Nat) : Endpoint Nat :=
  (List.range' 1 n).foldl
    (fun ep p => (ep.handlePacket .plain 0 64
      ⟨PacketFlags.reliable ||| PacketFlags.encrypted, UInt8.ofNat p, [0, 0, 0, 0]⟩ .silent).1)
    { migration := Migration.new .plain [] true
      paths := PathRegistry.new, transport := UdpTransport.new 0 }

/-- After 128 migrations of the client its next WINDOW_UPDATE moves the server's window, and after
127 a rebind challenge does. -/
theorem fixedPathId_moves_window :
    ¬(afterMigrations 128).Unmoved ((afterMigrations 128).handlePacket .plain 0 64
        (windowUpdateFrame (beBytes 8 65536)) .silent) ∧
      ¬(afterMigrations 127).Unmoved ((afterMigrations 127).handlePacket .plain 0 64
        (pathValidationFrame rebindValidationPathId Env.silent.fresh) .silent) := by
  rw [unmoved_iff (windowUpdateFrame_ordinary _).1, unmoved_iff (pathValidationFrame_encrypted _ _)]
  decide +kernel

end Endpoint

end PhantomProtocol
