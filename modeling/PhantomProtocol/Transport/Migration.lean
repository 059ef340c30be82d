import PhantomProtocol.Crypto.KeySchedule

/-!
# Migration state of a session

The part of `transport::session::Session` that numbers paths and connection IDs: the path id
stamped on outbound packets, the index into the outbound CID chain, and the receiver's estimate of
the peer's index, reconstructed from the `u8` path id (`note_migration_path`).
-/

namespace PhantomProtocol

/-- `REBIND_VALIDATION_PATH_ID`: reserved for passive-rebind challenges. -/
def rebindValidationPathId : UInt8 := 255

structure Migration where
  isServer : Bool
  cidChain : CidChain
  sendPathId : UInt8
  outboundCidIndex : Nat
  lastSeenPathId : UInt8
  inboundCidHighestSeen : Nat
deriving DecidableEq, Repr

structure CidSlide where
  add : List Bytes
  remove : List Bytes
  anchor : Bytes
deriving DecidableEq, Repr

namespace Migration

/-- The migration state a session starts with. -/
def new (kdf : Kdf) (initialSecret : Bytes) (isServer : Bool) : Migration :=
  { isServer, cidChain := CidChain.derive kdf initialSecret isServer
    sendPathId := 0, outboundCidIndex := 0, lastSeenPathId := 0, inboundCidHighestSeen := 0 }

/-- `next_migration_path_id`: skips 0 and the reserved id, so it wraps `254 → 1`. -/
def nextMigrationPathId (m : Migration) : Migration :=
  let next := m.sendPathId + 1
  { m with sendPathId := if next = 0 ∨ next = rebindValidationPathId then 1 else next }

def advanceOutboundCid (m : Migration) : Migration :=
  { m with outboundCidIndex := m.outboundCidIndex + 1 }

/-- The session half of a successful `migrate()` (client) or `migrate_server()` (server). -/
def migrate (m : Migration) : Migration := m.nextMigrationPathId.advanceOutboundCid

/-- `apply_eps02_peer_migration_rotation`: the server rotates its CID only, the client also bumps
its path id. -/
def applyPeerMigrationRotation (m : Migration) : Migration :=
  if m.isServer then m.advanceOutboundCid else m.nextMigrationPathId.advanceOutboundCid

/-- `path_id` is newer than the last one seen: a forward distance in `(0, 128]` mod 256. -/
def Newer (m : Migration) (pathId : UInt8) : Prop :=
  ¬(pathId - m.lastSeenPathId = 0 ∨ 128 < pathId - m.lastSeenPathId)

instance (m : Migration) (pathId : UInt8) : Decidable (m.Newer pathId) :=
  inferInstanceAs (Decidable (¬ _))

variable (kdf : Kdf)

/-- The CID this session stamps on its outbound datagrams. -/
def currentOutboundCid (m : Migration) : Bytes := m.cidChain.outboundCid kdf m.outboundCidIndex

def inboundWindowCids (m : Migration) : List Bytes :=
  (m.cidChain.inboundWindow kdf m.inboundCidHighestSeen cidWindowTrailing cidWindowLeading).map
    (·.2)

/-- The slide of the demux window from `old_high` to `new_high`. -/
def cidSlide (m : Migration) (oldHigh newHigh : Nat) : CidSlide :=
  let cids (lo hi : Nat) := (List.range' lo (hi - lo)).map (m.cidChain.inboundCid kdf)
  { add := cids (oldHigh + cidWindowLeading + 1) (newHigh + cidWindowLeading + 1)
    remove := cids (oldHigh - cidWindowTrailing) (newHigh - cidWindowTrailing)
    anchor := m.cidChain.inboundCid kdf newHigh }

/-- `note_migration_path`: on a newer path id, advance the peer's index by the forward distance.
The compare-exchange on `last_seen_path_id` always succeeds, as one receive task calls it. -/
def noteMigrationPath (m : Migration) (pathId : UInt8) : Migration × Option CidSlide :=
  let fwd := pathId - m.lastSeenPathId
  if fwd = 0 ∨ 128 < fwd then (m, none)
  else
    let newHigh := m.inboundCidHighestSeen + fwd.toNat
    ({ m with lastSeenPathId := pathId, inboundCidHighestSeen := newHigh },
      some (m.cidSlide kdf m.inboundCidHighestSeen newHigh))

variable {kdf} {m : Migration} {p : UInt8}

theorem noteMigrationPath_newer (h : m.Newer p) : m.noteMigrationPath kdf p =
      ({ m with
          lastSeenPathId := p
          inboundCidHighestSeen := m.inboundCidHighestSeen + (p - m.lastSeenPathId).toNat },
        some (m.cidSlide kdf m.inboundCidHighestSeen
          (m.inboundCidHighestSeen + (p - m.lastSeenPathId).toNat))) :=
  if_neg h

theorem noteMigrationPath_not_newer (h : ¬m.Newer p) : m.noteMigrationPath kdf p = (m, none) :=
  if_pos (not_not.1 h)

theorem newer_iff : m.Newer p ↔ 0 < (p - m.lastSeenPathId).toNat ∧
    (p - m.lastSeenPathId).toNat ≤ 128 := by
  unfold Newer
  rw [UInt8.lt_iff_toNat_lt, ← UInt8.toNat_inj]
  simp only [UInt8.toNat_zero, show (128 : UInt8).toNat = 128 from rfl]
  omega

theorem toNat_sub_path (p q : UInt8) : (p - q).toNat = (256 + p.toNat - q.toNat) % 256 := by
  rw [UInt8.toNat_sub]
  have := q.toNat_lt
  congr 1
  omega

/-- A session's own CID is in its peer's window as soon as the peer's estimate is within the
window's slack of the true index. -/
theorem currentOutboundCid_mem {tx rx : Migration} (secret : Bytes)
    (htx : tx.cidChain = CidChain.derive kdf secret tx.isServer)
    (hrx : rx.cidChain = CidChain.derive kdf secret !tx.isServer)
    (hlo : rx.inboundCidHighestSeen ≤ tx.outboundCidIndex + cidWindowTrailing)
    (hhi : tx.outboundCidIndex ≤ rx.inboundCidHighestSeen + cidWindowLeading) :
    tx.currentOutboundCid kdf ∈ rx.inboundWindowCids kdf := by
  refine List.mem_map.2 ⟨(tx.outboundCidIndex, rx.cidChain.inboundCid kdf tx.outboundCidIndex),
    CidChain.mem_inboundWindow (by omega) hhi, ?_⟩
  rw [currentOutboundCid, htx, hrx]
  exact (CidChain.derive_peer secret tx.isServer _).symm

end Migration

end PhantomProtocol
