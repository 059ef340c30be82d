import PhantomProtocol.Api.Proof.Link

/-!
# One migration, one rotation?

After one migration of the client the server should rotate its own CID once and the client never
again; after one migration of the server the client should rotate once.
-/

namespace PhantomProtocol.Link

open Lts

variable {Addr : Type} [DecidableEq Addr] {kdf : Kdf} {s s' : Link Addr} {ev : Event Addr}
  {m : Migration} {start : Nat} {p : UInt8}

/-! ## Before the migration -/

/-- Nobody has migrated: every index and path id is still 0. -/
structure Before (s : Link Addr) : Prop where
  client : (s.endpoint .client).migration.isServer = false
  server : (s.endpoint .server).migration.isServer = true
  sendPath : ∀ d, (s.endpoint d).migration.sendPathId = 0
  lastSeen : ∀ d, (s.endpoint d).migration.lastSeenPathId = 0
  outbound : ∀ d, (s.endpoint d).migration.outboundCidIndex = 0
  stamped : s.Stamped fun p => p = 0 ∨ p = rebindValidationPathId

omit [DecidableEq Addr] in
theorem before_init (secret : Bytes) (a b : Addr) : Before (init kdf secret a b) where
  client := rfl
  server := rfl
  sendPath d := by cases d <;> rfl
  lastSeen d := by cases d <;> rfl
  outbound d := by cases d <;> rfl
  stamped x hx := by cases hx

theorem Before.step (h : Before s) (hs : step kdf s ev = some s') (hm : ∀ d, ev ≠ .migrate d) :
    Before s' := by
  -- no path id in flight is newer than 0, so no migration state changes
  have hkeep : ∀ d, (s'.endpoint d).migration = (s.endpoint d).migration := by
    intro d
    obtain ⟨f, hf, heq⟩ | ⟨-, heq⟩ := step_migration hs hm h.stamped d
    · rw [heq, Migration.followPeer_not_newer]
      rw [Migration.Newer, h.lastSeen d]
      rcases (h.stamped.delivered hf).2 with hp | hp <;> rw [hp] <;> decide
    · exact heq
  refine ⟨hkeep .client ▸ h.client, hkeep .server ▸ h.server, fun d => hkeep d ▸ h.sendPath d,
    fun d => hkeep d ▸ h.lastSeen d, fun d => hkeep d ▸ h.outbound d, ?_⟩
  refine h.stamped.step hs (.inl rfl) (.inr rfl) (fun d => .inl (h.sendPath d)) fun d => ?_
  exact .inl (hkeep d ▸ h.sendPath d)

/-- Path ids a single migration can put on the wire. -/
def OneMigrationId (p : UInt8) : Prop := p = 0 ∨ p = 1 ∨ p = rebindValidationPathId

/-- An endpoint that saw the peer's one migration, or has not seen it yet. -/
def SeenBy (m : Migration) (start : Nat) : Prop :=
  m.lastSeenPathId = 0 ∧ m.outboundCidIndex = start ∨
    m.lastSeenPathId = 1 ∧ m.outboundCidIndex = start + 1

theorem followPeer_seenBy (kdf : Kdf) (hm : SeenBy m start) (hp : OneMigrationId p) :
    SeenBy (m.followPeer kdf p).1 start ∧
      (p = 1 → (m.followPeer kdf p).1.outboundCidIndex = start + 1) ∧
      (p ≠ 1 → (m.followPeer kdf p).1 = m) := by
  by_cases hnew : m.Newer p
  · -- only 1 after 0 is newer
    have hcase : m.lastSeenPathId = 0 ∧ p = 1 := by
      unfold Migration.Newer at hnew
      rcases hm with ⟨hl, -⟩ | ⟨hl, -⟩ <;> rcases hp with rfl | rfl | rfl <;> rw [hl] at hnew <;>
        first | exact ⟨hl, rfl⟩ | exact absurd hnew (by decide)
    have hidx : m.outboundCidIndex = start := by
      rcases hm with ⟨-, hi⟩ | ⟨hl, -⟩
      · exact hi
      · rw [hcase.1] at hl
        exact absurd hl (by decide)
    rw [(Migration.followPeer_newer kdf hnew).1, hcase.2, hidx]
    exact ⟨.inr ⟨rfl, rfl⟩, fun _ => rfl, fun h => absurd rfl h⟩
  · rw [Migration.followPeer_not_newer hnew]
    refine ⟨hm, fun h1 => ?_, fun _ => rfl⟩
    rcases hm with ⟨hl, -⟩ | ⟨-, hi⟩
    · simp_all [Migration.Newer]
    · exact hi

/-- The server's state in either scenario: it sends on `path` and has followed the client at most
once. -/
structure ServerSide (m : Migration) (path : UInt8) (start : Nat) : Prop where
  role : m.isServer = true
  sendPath : m.sendPathId = path
  seen : SeenBy m start

theorem ServerSide.step {path : UInt8}
    (h : ServerSide (s.endpoint .server).migration path start) (hs : step kdf s ev = some s')
    (hm : ∀ d, ev ≠ .migrate d) (hst : s.Stamped OneMigrationId) :
    ServerSide (s'.endpoint .server).migration path start := by
  obtain ⟨f, hf, heq⟩ | ⟨-, heq⟩ := step_migration hs hm hst .server
  · rw [heq]
    refine ⟨?_, ?_, (followPeer_seenBy kdf h.seen (hst.delivered hf).2).1⟩
    · rw [Migration.followPeer_isServer]
      exact h.role
    · by_cases hnew : (s.endpoint .server).migration.Newer f.pathId
      all_goals grind [h.role, h.sendPath, Migration.followPeer_not_newer, Migration.followPeer_newer]
  · rw [heq]
    exact h

theorem migrate_sendPathId_zero (h : m.sendPathId = 0) : m.migrate.sendPathId = 1 := by
  show (if m.sendPathId + 1 = 0 ∨ m.sendPathId + 1 = rebindValidationPathId then 1
    else m.sendPathId + 1) = 1
  rw [h]
  decide

/-! ## After the client's migration -/

structure AfterClient (s : Link Addr) : Prop where
  clientRole : (s.endpoint .client).migration.isServer = false
  clientPath : (s.endpoint .client).migration.sendPathId = 1
  clientIndex : (s.endpoint .client).migration.outboundCidIndex = 1
  clientSeen : (s.endpoint .client).migration.lastSeenPathId = 0
  server : ServerSide (s.endpoint .server).migration 0 0
  stamped : s.Stamped OneMigrationId

/-- The client is handed a frame that carries the path id it sends on itself. -/
def EchoedToClient (s : Link Addr) (ev : Event Addr) : Prop :=
  ∃ f, s.delivered ev = some (.client, f) ∧ f.pathId = (s.endpoint .client).migration.sendPathId

theorem afterClient_migrate (h : Before s) (hs : step kdf s (.migrate .client) = some s') :
    AfterClient s' := by
  cases hs
  refine ⟨h.client, ?_, ?_, h.lastSeen .client, ⟨h.server, h.sendPath .server,
    .inl ⟨h.lastSeen .server, h.outbound .server⟩⟩, fun x hx => ?_⟩
  · rw [setEndpoint_self]
    exact migrate_sendPathId_zero (h.sendPath .client)
  · rw [setEndpoint_self]
    exact congrArg (· + 1) (h.outbound .client)
  · obtain ⟨hb, hp⟩ := h.stamped x hx
    exact ⟨hb, hp.imp_right .inr⟩

theorem AfterClient.step (h : AfterClient s) (hs : step kdf s ev = some s')
    (hm : ∀ d, ev ≠ .migrate d) (hecho : ¬EchoedToClient s ev) : AfterClient s' := by
  have hclient : (s'.endpoint .client).migration = (s.endpoint .client).migration := by
    obtain ⟨f, hf, heq⟩ | ⟨-, heq⟩ := step_migration hs hm h.stamped .client
    · have hne : f.pathId ≠ 1 := fun h1 => hecho ⟨f, hf, h1.trans h.clientPath.symm⟩
      rw [heq, (followPeer_seenBy kdf (.inl ⟨h.clientSeen, h.clientIndex⟩)
        (h.stamped.delivered hf).2).2.2 hne]
    · exact heq
  have hserver := h.server.step hs hm h.stamped
  refine ⟨by rw [hclient, h.clientRole], by rw [hclient, h.clientPath],
    by rw [hclient, h.clientIndex], by rw [hclient, h.clientSeen], hserver, ?_⟩
  refine h.stamped.step hs (.inl rfl) (.inr (.inr rfl)) (fun d => ?_) fun d => ?_ <;> cases d
  · exact .inr (.inl h.clientPath)
  · exact .inl h.server.sendPath
  · exact .inr (.inl (by rw [hclient, h.clientPath]))
  · exact .inl hserver.sendPath

theorem AfterClient.echoed (h : AfterClient s) (hs : Link.step kdf s ev = some s')
    (hm : ∀ d, ev ≠ .migrate d) (hecho : EchoedToClient s ev) :
    (s'.endpoint .client).migration.outboundCidIndex = 2 := by
  obtain ⟨f, hf, hp⟩ := hecho
  rw [h.clientPath] at hp
  obtain ⟨g, hg, heq⟩ | ⟨hno, -⟩ := step_migration hs hm h.stamped .client
  · rw [hf] at hg
    cases hg
    rw [heq]
    exact (followPeer_seenBy kdf (.inl ⟨h.clientSeen, h.clientIndex⟩)
      (h.stamped.delivered hf).2).2.1 hp
  · exact absurd hf (hno f)

/-! ## After the server's migration -/

structure AfterServer (s : Link Addr) : Prop where
  clientRole : (s.endpoint .client).migration.isServer = false
  clientPath : (s.endpoint .client).migration.sendPathId =
    (s.endpoint .client).migration.lastSeenPathId
  client : SeenBy (s.endpoint .client).migration 0
  server : ServerSide (s.endpoint .server).migration 1 1
  stamped : s.Stamped OneMigrationId

theorem SeenBy.oneMigrationId (h : SeenBy m start) : OneMigrationId m.lastSeenPathId := by
  rcases h with ⟨h, -⟩ | ⟨h, -⟩
  · exact .inl h
  · exact .inr (.inl h)

theorem afterServer_migrate (h : Before s) (hs : step kdf s (.migrate .server) = some s') :
    AfterServer s' := by
  cases hs
  refine ⟨h.client, (h.sendPath .client).trans (h.lastSeen .client).symm,
    .inl ⟨h.lastSeen .client, h.outbound .client⟩,
    ⟨h.server, ?_, .inl ⟨h.lastSeen .server, ?_⟩⟩, fun x hx => ?_⟩
  · rw [setEndpoint_self]
    exact migrate_sendPathId_zero (h.sendPath .server)
  · rw [setEndpoint_self]
    exact congrArg (· + 1) (h.outbound .server)
  · obtain ⟨hb, hp⟩ := h.stamped x hx
    exact ⟨hb, hp.imp_right .inr⟩

theorem followPeer_client (hrole : m.isServer = false)
    (hpath : m.sendPathId = m.lastSeenPathId) (hseen : SeenBy m 0) (hp : OneMigrationId p) :
    (m.followPeer kdf p).1.sendPathId = (m.followPeer kdf p).1.lastSeenPathId := by
  by_cases h1 : p = 1
  · subst h1
    by_cases hnew : m.Newer 1
    · have hzero : m.lastSeenPathId = 0 := by
        rcases hseen with ⟨hl, -⟩ | ⟨hl, -⟩
        · exact hl
        · simp_all [Migration.Newer]
      rw [(Migration.followPeer_newer kdf hnew).1]
      simp only [hrole, Bool.false_eq_true, if_false]
      exact migrate_sendPathId_zero (hpath.trans hzero)
    · rw [Migration.followPeer_not_newer hnew]
      exact hpath
  · rw [(followPeer_seenBy kdf hseen hp).2.2 h1]
    exact hpath

theorem AfterServer.step (h : AfterServer s) (hs : step kdf s ev = some s')
    (hm : ∀ d, ev ≠ .migrate d) : AfterServer s' := by
  have hclient : (s'.endpoint .client).migration.isServer = false ∧
      (s'.endpoint .client).migration.sendPathId = (s'.endpoint .client).migration.lastSeenPathId ∧
      SeenBy (s'.endpoint .client).migration 0 := by
    obtain ⟨f, hf, heq⟩ | ⟨-, heq⟩ := step_migration hs hm h.stamped .client
    · have hp := (h.stamped.delivered hf).2
      rw [heq]
      exact ⟨by rw [Migration.followPeer_isServer, h.clientRole],
        followPeer_client h.clientRole h.clientPath h.client hp, (followPeer_seenBy kdf h.client hp).1⟩
    · rw [heq]
      exact ⟨h.clientRole, h.clientPath, h.client⟩
  have hserver := h.server.step hs hm h.stamped
  refine ⟨hclient.1, hclient.2.1, hclient.2.2, hserver, ?_⟩
  refine h.stamped.step hs (.inl rfl) (.inr (.inr rfl)) (fun d => ?_) fun d => ?_ <;> cases d
  · exact h.clientPath ▸ h.client.oneMigrationId
  · exact .inr (.inl h.server.sendPath)
  · exact hclient.2.1 ▸ hclient.2.2.oneMigrationId
  · exact .inr (.inl hserver.sendPath)

theorem AfterServer.reflects (h : AfterServer s) (hs : Link.step kdf s ev = some s')
    (hm : ∀ d, ev ≠ .migrate d) :
    ((∃ f, s.delivered ev = some (.client, f) ∧ f.pathId = 1) →
      (s'.endpoint .client).migration.outboundCidIndex = 1) ∧
    ((¬∃ f, s.delivered ev = some (.client, f) ∧ f.pathId = 1) →
      (s'.endpoint .client).migration.outboundCidIndex =
        (s.endpoint .client).migration.outboundCidIndex) := by
  obtain ⟨f, hf, heq⟩ | ⟨hno, heq⟩ := step_migration hs hm h.stamped .client
  · have hfollow := followPeer_seenBy kdf h.client (h.stamped.delivered hf).2
    rw [heq]
    constructor
    · simp_all
    · intro hnot
      rw [hfollow.2.2 fun h1 => hnot ⟨f, hf, h1⟩]
  · simp [*]

/-! ## Whole runs -/

/-- The client has not moved since `s₁`, and the server has rotated at most once. -/
def Settled (s₁ s : Link Addr) : Prop :=
  (s.endpoint .client).migration.sendPathId = (s₁.endpoint .client).migration.sendPathId ∧
    (s.endpoint .client).migration.outboundCidIndex =
      (s₁.endpoint .client).migration.outboundCidIndex ∧
    (s.endpoint .server).migration.outboundCidIndex ≤
      (s₁.endpoint .server).migration.outboundCidIndex + 1

/-- The client is handed a frame stamped with the path id the server sends on. -/
def HearsServer (s : Link Addr) (ev : Event Addr) : Prop :=
  ∃ f, s.delivered ev = some (.client, f) ∧ f.pathId = (s.endpoint .server).migration.sendPathId

/-- The system while nobody migrates. -/
def traffic (kdf : Kdf) (s : Link Addr) : Event Addr → Option (Link Addr)
  | .migrate _ => none
  | ev => step kdf s ev

theorem traffic_some (h : traffic kdf s ev = some s') :
    step kdf s ev = some s' ∧ ∀ d, ev ≠ .migrate d := by
  cases ev with
  | migrate => cases h
  | _ => exact ⟨h, by simp⟩

theorem settled_iff {s₁ : Link Addr} (h₁ : AfterClient s₁)
    (h : AfterClient s) (hs : traffic kdf s ev = some s') :
    ¬EchoedToClient s ev ↔ Settled s₁ s' := by
  obtain ⟨hstep, hm⟩ := traffic_some hs
  constructor
  · intro hecho
    have h' := h.step hstep hm hecho
    refine ⟨h'.clientPath.trans h₁.clientPath.symm, h'.clientIndex.trans h₁.clientIndex.symm, ?_⟩
    rcases h'.server.seen with ⟨-, hi⟩ | ⟨-, hi⟩ <;> omega
  · intro hset hecho
    have hi := h.echoed hstep hm hecho
    rw [hset.2.1, h₁.clientIndex] at hi
    omega

/-- **Rotations after one migration.** Let nobody migrate before `s₀` nor after the one migration.
If it is the client's, then the client stays where it is and the server rotates at most once, in
every state reached, if and only if no frame with the client's own new path id is ever handed to
the client. If it is the server's, the client rotates with the first frame it hears from the
server's new path and with no other. -/
theorem one_migration_one_rotation (kdf : Kdf) (secret : Bytes) (clientAddr serverAddr : Addr)
    (es₀ es : List (Event Addr)) (s₀ s₁ s₂ : Link Addr)
    (h₀ : run (traffic kdf) (init kdf secret clientAddr serverAddr) es₀ = some s₀)
    (h₁ : step kdf s₀ (.migrate .client) = some s₁)
    (h₂ : step kdf s₀ (.migrate .server) = some s₂) :
    (Along (traffic kdf) (fun _ _ s' => Settled s₁ s') s₁ es ↔
      Along (traffic kdf) (fun s e _ => ¬EchoedToClient s e) s₁ es) ∧
    Along (traffic kdf)
      (fun s e s' =>
        (HearsServer s e → (s'.endpoint .client).migration.outboundCidIndex =
          (s₂.endpoint .client).migration.outboundCidIndex + 1) ∧
        (¬HearsServer s e → (s'.endpoint .client).migration.outboundCidIndex =
          (s.endpoint .client).migration.outboundCidIndex)) s₂ es := by
  have hb : Before s₀ := by
    refine run_inv (fun s e s' hb hs => ?_) es₀ (before_init secret clientAddr serverAddr) h₀
    obtain ⟨hstep, hm⟩ := traffic_some hs
    exact hb.step hstep hm
  have hac := afterClient_migrate hb h₁
  have has := afterServer_migrate hb h₂
  have hzero : (s₂.endpoint .client).migration.outboundCidIndex = 0 := by
    cases h₂
    exact hb.outbound .client
  constructor
  · refine (along_iff AfterClient ?_ ?_ es hac).symm
    · intro s e s' h hs hecho
      obtain ⟨hstep, hm⟩ := traffic_some hs
      exact h.step hstep hm hecho
    · exact fun s e s' h hs => settled_iff hac h hs
  · refine along_of_run_inv (fun s e s' h hs => ?_) (fun s e s' h hs => ?_) es has
    · obtain ⟨hstep, hm⟩ := traffic_some hs
      exact h.step hstep hm
    · obtain ⟨hstep, hm⟩ := traffic_some hs
      have hreflect := h.reflects hstep hm
      rw [hzero, HearsServer, h.server.sendPath]
      exact hreflect

/-! ## The failing run -/

/-- The client migrates and sends one reliable segment; the server's acknowledgement comes back. -/
def ackedSegment : List (Event Nat) :=
  [.sendData .client (.reliable false) [0, 0, 0, 0], .deliver 0 10 64 { Env.silent with sack := some [] },
    .deliver 0 20 64 Env.silent]

/-- The acknowledgement of the client's first segment after its migration makes the client rotate
a second time. -/
theorem sack_starts_second_rotation :
    ∃ s₁ s, step .plain (init .plain [] 10 20) (.migrate .client) = some s₁ ∧
      run (traffic .plain) s₁ ackedSegment = some s ∧
      (s₁.endpoint .client).migration.sendPathId = 1 ∧
      (s₁.endpoint .client).migration.outboundCidIndex = 1 ∧
      (s.endpoint .client).migration.sendPathId = 2 ∧
      (s.endpoint .client).migration.outboundCidIndex = 2 := by
  refine ⟨_, _, rfl, rfl, ?_, ?_, ?_, ?_⟩ <;> decide

theorem one_migration_one_rotation_acked :
    ∃ s₁ : Link Nat, step .plain (init .plain [] 10 20) (.migrate .client) = some s₁ ∧
      (Along (traffic .plain) (fun _ _ s' => Settled s₁ s') s₁ ackedSegment ↔
        Along (traffic .plain) (fun s e _ => ¬EchoedToClient s e) s₁ ackedSegment) :=
  ⟨_, rfl, (one_migration_one_rotation .plain [] 10 20 [] ackedSegment _ _ _ rfl rfl rfl).1⟩

end PhantomProtocol.Link
