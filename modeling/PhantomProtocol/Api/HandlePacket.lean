import PhantomProtocol.Transport.Migration
import PhantomProtocol.Transport.PathRegistry
import PhantomProtocol.Api.UdpTransport

/-!
# Receive path: peer migration and path validation

`api::session::handle_packet` from the point where a frame has opened and its padding is stripped:
the source address is confirmed, the path id is read as a migration announcement, and the frame is
dispatched by its flags. What the stream layer answers to a reliable segment, and what the random
generator and the socket do, are inputs (`Env`).

The frame builders stamp three different path ids: application data, keep-alives, cover and close
frames the sender's own (`current_send_path_id`), acknowledgements and PATH_VALIDATION frames the
one they answer, window updates none (0). The `REKEY` and `PADDED` bits are not tested after the
AEAD and are left out here.
-/

namespace PhantomProtocol

/-- An authenticated frame as `handle_packet` sees it after the AEAD. -/
structure Frame where
  flags : PacketFlags
  pathId : UInt8
  plaintext : Bytes
deriving DecidableEq, Repr

/-- One side of a session, as far as migration and path validation go. -/
structure Endpoint (Addr : Type) where
  migration : Migration
  paths : PathRegistry
  transport : UdpTransport Addr

/-- What the code around this part decides. -/
structure Env where
  /-- The next 32 bytes of the random generator. -/
  fresh : Challenge
  /-- On-wire size of a sealed challenge, and whether the socket takes it. -/
  challengeWire : Nat
  socketOk : Bool
  /-- The SACK, and the grant for a released stream, the reliable branch answers with. -/
  sack : Option Bytes
  grant : Option Bytes

/-- The generator returns zeros, the stream layer answers nothing. -/
def Env.silent : Env :=
  { fresh := ⟨List.replicate pathChallengeLen 0, rfl⟩, challengeWire := 0, socketOk := true
    sack := none, grant := none }

/-- What handling a frame did besides changing the endpoint. -/
structure Output (Addr : Type) where
  slide : Option CidSlide
  /-- Frames sent to the established peer. -/
  replies : List Frame
  /-- A challenge sent to the candidate: the address and the frame. -/
  challenged : Option (Addr × Frame)
  /-- The new send target, when `promote_candidate` had effect. -/
  promoted : Option Addr

def Output.frames {Addr : Type} (out : Output Addr) : List Frame :=
  (out.challenged.map (·.2)).toList ++ out.replies

/-! ## Frame builders -/

/-- The flags a segment of application data is sent with. -/
inductive DataKind where
  | reliable (fin : Bool)
  | unreliable
  | bareFin
deriving DecidableEq, Repr

def DataKind.flags : DataKind → PacketFlags
  | .reliable false => PacketFlags.reliable
  | .reliable true => PacketFlags.reliable ||| PacketFlags.fin
  | .unreliable => PacketFlags.unreliable
  | .bareFin => PacketFlags.fin

open PacketFlags in
/-- `send_stream_sack`: stamped with the path id the acknowledged segment arrived on. -/
def streamSack (pathId : UInt8) (sack : Bytes) : Frame := ⟨encrypted ||| PacketFlags.ack, pathId, sack⟩

open PacketFlags in
/-- `send_window_update`: the header keeps the default path id 0. -/
def windowUpdateFrame (limit : Bytes) : Frame := ⟨encrypted ||| windowUpdate, 0, limit⟩

open PacketFlags in
/-- `encrypt_path_validation`. -/
def pathValidationFrame (pathId : UInt8) (payload : Challenge) : Frame :=
  ⟨pathValidation ||| encrypted, pathId, payload.1⟩

/-- The path id of an authenticated frame: on a newer one, slide the inbound window and rotate our
own CID. -/
def Migration.followPeer (kdf : Kdf) (m : Migration) (pathId : UInt8) :
    Migration × Option CidSlide :=
  let noted := m.noteMigrationPath kdf pathId
  (if noted.2.isSome then noted.1.applyPeerMigrationRotation else noted.1, noted.2)

namespace Endpoint

variable {Addr : Type}

open PacketFlags in
/-- `send_app_data`. -/
def appData (ep : Endpoint Addr) (kind : DataKind) (plaintext : Bytes) : Frame :=
  ⟨kind.flags ||| encrypted, ep.migration.sendPathId, plaintext⟩

open PacketFlags in
/-- `send_keepalive`. -/
def keepaliveFrame (ep : Endpoint Addr) (isPong : Bool) : Frame :=
  ⟨if isPong then encrypted ||| keepalive ||| PacketFlags.ack else encrypted ||| keepalive,
    ep.migration.sendPathId, []⟩

open PacketFlags in
/-- `send_cover`. -/
def coverFrame (ep : Endpoint Addr) : Frame := ⟨encrypted ||| cover, ep.migration.sendPathId, []⟩

open PacketFlags in
/-- `send_control_close`: the one-byte subtype `CLOSE`. -/
def controlClose (ep : Endpoint Addr) : Frame :=
  ⟨encrypted ||| control, ep.migration.sendPathId, [1]⟩

/-! ## `handle_packet` -/

/-- The frame authenticated: commit its source, and follow the migration its path id announces. -/
def authenticated [DecidableEq Addr] (kdf : Kdf) (ep : Endpoint Addr) (pathId : UInt8) :
    Endpoint Addr × Option CidSlide :=
  let followed := ep.migration.followPeer kdf pathId
  ({ ep with
      transport := ep.transport.confirmAuthenticatedSource
      migration := followed.1 },
    followed.2)

/-- The PATH_VALIDATION branch on a payload of the right length. -/
def dispatchPathValidation (ep : Endpoint Addr) (slide : Option CidSlide) (pathId : UInt8)
    (payload : Challenge) : Endpoint Addr × Output Addr :=
  match ep.paths.state pathId with
  | some .validating =>
    let verified := ep.paths.verifyResponse pathId payload.1
    let ep := { ep with paths := verified.1 }
    if verified.2 then
      let promoted := ep.transport.promoteCandidate
      if promoted.2 then
        -- the reserved id is retired so that a later rebind can be challenged again
        let paths := if pathId = rebindValidationPathId then ep.paths.retire pathId else ep.paths
        ({ ep with paths, transport := promoted.1 }, ⟨slide, [], none, ep.transport.candidate⟩)
      else (ep, ⟨slide, [], none, none⟩)
    else (ep, ⟨slide, [], none, none⟩)
  | some .validated | some .failed => (ep, ⟨slide, [], none, none⟩)
  | none | some .unvalidated =>
    (ep, ⟨slide, [pathValidationFrame pathId payload], none, none⟩)

/-- Challenge the candidate on `pathId`. -/
def challengeCandidate (ep : Endpoint Addr) (pathId : UInt8) (env : Env) :
    Endpoint Addr × Option (Addr × Frame) :=
  let begun := ep.paths.beginPathValidation pathId env.fresh
  match begun.2 with
  | none => ({ ep with paths := begun.1 }, none)
  | some challenge =>
    let sent := ep.transport.sendToCandidate env.challengeWire env.socketOk
    ({ ep with paths := begun.1, transport := sent.1 },
      sent.2.map fun addr => (addr, pathValidationFrame pathId challenge))

/-- The path gate in front of application data: it never drops the data, it only decides whether
to challenge the candidate, on this path or, when this path is trusted, on the reserved id. -/
def gatePath (ep : Endpoint Addr) (pathId : UInt8) (env : Env) :
    Endpoint Addr × Option (Addr × Frame) :=
  if ep.paths.state pathId ≠ some .validated then
    if ep.transport.hasMigrationCandidate then ep.challengeCandidate pathId env
    else ({ ep with paths := ep.paths.registerUnvalidatedPath pathId }, none)
  else if ep.transport.hasMigrationCandidate then
    ep.challengeCandidate rebindValidationPathId env
  else (ep, none)

open PacketFlags in
/-- The branch `handle_packet` takes on the flags. -/
def dispatch (ep : Endpoint Addr) (slide : Option CidSlide) (f : Frame) (env : Env) :
    Endpoint Addr × Output Addr :=
  if f.flags.contains keepalive then
    (ep, ⟨slide, if f.flags.contains PacketFlags.ack then [] else [ep.keepaliveFrame true], none, none⟩)
  else if f.flags.contains control || f.flags.contains cover || f.flags.contains PacketFlags.ack ||
      f.flags.contains windowUpdate then
    (ep, ⟨slide, [], none, none⟩)
  else if f.flags.contains pathValidation then
    if h : f.plaintext.length = pathChallengeLen then
      ep.dispatchPathValidation slide f.pathId ⟨f.plaintext, h⟩
    else (ep, ⟨slide, [], none, none⟩)
  else
    let gated := ep.gatePath f.pathId env
    let replies :=
      if f.flags.contains coalesced then []
      else if f.flags.contains reliable then
        (env.sack.map (streamSack f.pathId)).toList ++ (env.grant.map windowUpdateFrame).toList
      else []
    (gated.1, ⟨slide, replies, gated.2, none⟩)

/-- `handle_packet` on a frame of `len` bytes received from `src`. -/
def handlePacket [DecidableEq Addr] (kdf : Kdf) (ep : Endpoint Addr) (src : Addr) (len : Nat)
    (f : Frame) (env : Env) : Endpoint Addr × Output Addr :=
  let ep := { ep with transport := ep.transport.recvBytes src len }
  if f.flags.contains PacketFlags.encrypted then
    let opened := ep.authenticated kdf f.pathId
    opened.1.dispatch opened.2 f env
  else (ep, ⟨none, [], none, none⟩)

end Endpoint

/-! ## The two classes of frames -/

/-- Encrypted, and not a PATH_VALIDATION frame. -/
def PacketFlags.Ordinary (bits : PacketFlags) : Prop :=
  bits.contains encrypted ∧ ¬bits.contains pathValidation

instance (bits : PacketFlags) : Decidable bits.Ordinary := inferInstanceAs (Decidable (_ ∧ _))

/-- A frame that one of the builders makes. -/
def Frame.Built (f : Frame) : Prop := f.flags.Ordinary ∨ ∃ p c, f = pathValidationFrame p c

theorem DataKind.ordinary (k : DataKind) : (k.flags ||| PacketFlags.encrypted).Ordinary := by
  rcases k with (_ | _) | _ | _ <;> decide

theorem windowUpdateFrame_ordinary (limit : Bytes) : (windowUpdateFrame limit).flags.Ordinary := by
  show (PacketFlags.encrypted ||| PacketFlags.windowUpdate).Ordinary
  decide

theorem streamSack_ordinary (p : UInt8) (sack : Bytes) : (streamSack p sack).flags.Ordinary := by
  show (PacketFlags.encrypted ||| PacketFlags.ack).Ordinary
  decide

theorem pathValidationFrame_encrypted (p : UInt8) (c : Challenge) :
    (pathValidationFrame p c).flags.contains PacketFlags.encrypted := by
  show PacketFlags.contains (PacketFlags.pathValidation ||| PacketFlags.encrypted) _ = true
  decide

theorem Frame.Built.encrypted {f : Frame} (h : f.Built) :
    f.flags.contains PacketFlags.encrypted := by
  rcases h with h | ⟨p, c, rfl⟩
  · exact h.1
  · exact pathValidationFrame_encrypted p c

namespace Endpoint

variable {Addr : Type} (ep : Endpoint Addr)

theorem appData_ordinary (k : DataKind) (b : Bytes) : (ep.appData k b).flags.Ordinary := k.ordinary

theorem keepaliveFrame_ordinary (isPong : Bool) : (ep.keepaliveFrame isPong).flags.Ordinary := by
  cases isPong
  · show (PacketFlags.encrypted ||| PacketFlags.keepalive).Ordinary
    decide
  · show (PacketFlags.encrypted ||| PacketFlags.keepalive ||| PacketFlags.ack).Ordinary
    decide

theorem coverFrame_ordinary : ep.coverFrame.flags.Ordinary := by
  show (PacketFlags.encrypted ||| PacketFlags.cover).Ordinary
  decide

theorem controlClose_ordinary : ep.controlClose.flags.Ordinary := by
  show (PacketFlags.encrypted ||| PacketFlags.control).Ordinary
  decide

end Endpoint

end PhantomProtocol
