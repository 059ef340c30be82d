import PhantomProtocol.Lib.Run
import PhantomProtocol.Api.Proof.HandlePacket

/-!
# Which address a validated path promotes

An endpoint receives authenticated frames from arbitrary source addresses. The challenge outstanding
on a path is kept per path id, the address to promote in one slot that every authenticated frame may
overwrite, the response itself included. A ghost log `sentTo` records which addresses the challenge
outstanding on each path was sent to since it was issued.
-/

namespace PhantomProtocol.PromotedPeer

open Lts Endpoint

variable {Addr : Type} [DecidableEq Addr]

structure State (Addr : Type) where
  endpoint : Endpoint Addr
  sentTo : UInt8 → List Addr

/-- An authenticated frame of `len` bytes arrives from `src`. -/
structure Event (Addr : Type) where
  src : Addr
  len : Nat
  frame : Frame
  env : Env

/-- The ghost log: a new challenge starts an empty list, a challenge sent adds its address. -/
def record (paths paths' : PathRegistry) (challenged : Option (Addr × Frame))
    (sentTo : UInt8 → List Addr) (p : UInt8) : List Addr :=
  let since := if (paths.pending p).isNone ∧ (paths'.pending p).isSome then [] else sentTo p
  match challenged with
  | some (a, g) => if g.pathId = p then a :: since else since
  | none => since

def step (kdf : Kdf) (s : State Addr) (e : Event Addr) : Option (State Addr) :=
  let handled := s.endpoint.handlePacket kdf e.src e.len e.frame e.env
  some ⟨handled.1, record s.endpoint.paths handled.1.paths handled.2.challenged s.sentTo⟩

/-- The frame reaches the PATH_VALIDATION branch. -/
def ReachesPathValidation (f : Frame) : Prop :=
  f.flags.contains PacketFlags.encrypted ∧ ¬f.flags.contains PacketFlags.keepalive ∧
    ¬(f.flags.contains PacketFlags.control || f.flags.contains PacketFlags.cover ||
      f.flags.contains PacketFlags.ack || f.flags.contains PacketFlags.windowUpdate) ∧
    f.flags.contains PacketFlags.pathValidation

/-- The frame completes the validation of its path: it is a PATH_VALIDATION frame that carries the
challenge outstanding there. -/
def Completes (ep : Endpoint Addr) (f : Frame) : Prop :=
  ReachesPathValidation f ∧ ∃ c, ep.paths.Outstanding f.pathId c ∧ f.plaintext = c.1

/-- The response comes from an address that was sent the challenge, or from the established peer
with nothing else than such an address in the candidate slot. -/
def SourceChallenged (s : State Addr) (e : Event Addr) : Prop :=
  (e.src ≠ s.endpoint.transport.peer → e.src ∈ s.sentTo e.frame.pathId) ∧
    (e.src = s.endpoint.transport.peer →
      ∀ a, s.endpoint.transport.candidate = some a → a ∈ s.sentTo e.frame.pathId)

/-- When `promote_candidate` has effect, the address that becomes the send target was sent the
challenge that validated it. -/
def PromotesChallenged (kdf : Kdf) (s : State Addr) (e : Event Addr) (s' : State Addr) : Prop :=
  (s.endpoint.handlePacket kdf e.src e.len e.frame e.env).2.promoted.isSome →
    s'.endpoint.transport.peer ∈ s.sentTo e.frame.pathId

/-! ## What is promoted -/

variable {kdf : Kdf} {ep : Endpoint Addr} {sl : Option CidSlide} {p : UInt8} {c : Challenge}
  {a src : Addr} {len : Nat} {f : Frame} {env : Env}

omit [DecidableEq Addr] in
theorem dispatchPathValidation_promoted : (ep.dispatchPathValidation sl p c).2.promoted = some a ↔
      ep.paths.Outstanding p c ∧ ep.transport.candidate = some a := by
  unfold dispatchPathValidation
  split
  · rename_i hs
    obtain ⟨⟨k, pending⟩, hp, hk⟩ := Option.map_eq_some_iff.1 hs
    cases hk
    cases pending with
    | none => simp [*, PathRegistry.verifyResponse, c.2, PathRegistry.Outstanding]
    | some x =>
      have hx : ep.paths.Outstanding p x := hp
      by_cases hcx : c = x
      · subst hcx
        rw [PathRegistry.verifyResponse_match hx]
        cases hcand : ep.transport.candidate with
        | none => simp [UdpTransport.promoteCandidate_none hcand]
        | some => simp [UdpTransport.promoteCandidate_some hcand, hx, hcand]
      · rw [PathRegistry.verifyResponse_mismatch hx hcx]
        have hno : ¬ep.paths.Outstanding p c := fun h => hcx (h.unique hx)
        simp [hno]
  all_goals
    rename_i hs
    have hno : ¬ep.paths.Outstanding p c := fun h => by
      rw [PathRegistry.state, h] at hs
      cases hs
    simp [hno]

omit [DecidableEq Addr] in
theorem dispatchPathValidation_peer : (ep.dispatchPathValidation sl p c).1.transport.peer =
      (ep.dispatchPathValidation sl p c).2.promoted.getD ep.transport.peer := by
  unfold dispatchPathValidation
  split
  · dsimp only
    split
    · cases hcand : ep.transport.candidate with
      | none => simp [UdpTransport.promoteCandidate_none hcand]
      | some => simp [UdpTransport.promoteCandidate_some hcand]
    · rfl
  all_goals rfl

omit [DecidableEq Addr] in
theorem challengeCandidate_peer :
    (ep.challengeCandidate p env).1.transport.peer = ep.transport.peer := by
  unfold challengeCandidate
  dsimp only
  split
  · rfl
  · exact UdpTransport.sendToCandidate_peer

omit [DecidableEq Addr] in
theorem gatePath_peer : (ep.gatePath p env).1.transport.peer = ep.transport.peer := by
  unfold gatePath
  repeat' split
  all_goals first | exact challengeCandidate_peer | rfl

theorem handlePacket_peer : (ep.handlePacket kdf src len f env).1.transport.peer =
      (ep.handlePacket kdf src len f env).2.promoted.getD ep.transport.peer := by
  by_cases he : f.flags.contains PacketFlags.encrypted
  · have hpeer : (ep.opened kdf src len f.pathId).transport.peer = ep.transport.peer := opened_peer
    rw [handlePacket_eq he, ← hpeer, dispatch]
    split
    · rfl
    · grind [dispatchPathValidation_peer, gatePath_peer]
  · simp [handlePacket, he, UdpTransport.recvBytes]

/-- **What `handle_packet` promotes**: on a frame that completes a validation, the address in the
slot once the frame's own source has been put there. -/
theorem handlePacket_promoted : (ep.handlePacket kdf src len f env).2.promoted = some a ↔
      Completes ep f ∧ ep.transport.candidateAfter src = some a := by
  unfold Completes ReachesPathValidation
  by_cases he : f.flags.contains PacketFlags.encrypted
  · rw [handlePacket_eq he, dispatch]
    by_cases hk : f.flags.contains PacketFlags.keepalive
    · simp [hk]
    · rw [if_neg hk]
      by_cases ho : f.flags.contains PacketFlags.control || f.flags.contains PacketFlags.cover ||
          f.flags.contains PacketFlags.ack || f.flags.contains PacketFlags.windowUpdate
      · simp only [ho, if_true]
        simp
      · rw [if_neg ho]
        by_cases hv : f.flags.contains PacketFlags.pathValidation
        · rw [if_pos hv]
          by_cases hl : f.plaintext.length = pathChallengeLen
          · simp [*, dispatchPathValidation_promoted, opened_candidate, opened_paths]
          · simp [*]
        · simp [*]
  · simp [handlePacket, he]

theorem promotesChallenged_iff {s s' : State Addr} {e : Event Addr} (hs : step kdf s e = some s') :
    PromotesChallenged kdf s e s' ↔ (Completes s.endpoint e.frame → SourceChallenged s e) := by
  cases hs
  have hprom : ∀ a, (s.endpoint.handlePacket kdf e.src e.len e.frame e.env).2.promoted = some a ↔
      Completes s.endpoint e.frame ∧ s.endpoint.transport.candidateAfter e.src = some a :=
    fun a => handlePacket_promoted
  unfold PromotesChallenged SourceChallenged
  simp only [handlePacket_peer, Option.isSome_iff_exists]
  by_cases hsrc : e.src = s.endpoint.transport.peer
  · -- the slot is left as it was
    have hafter : s.endpoint.transport.candidateAfter e.src = s.endpoint.transport.candidate :=
      if_pos hsrc
    rw [hafter] at hprom
    constructor
    · grind
    · grind
  · -- the response itself takes the slot
    have hafter : s.endpoint.transport.candidateAfter e.src = some e.src := if_neg hsrc
    rw [hafter] at hprom
    constructor
    · grind
    · grind

/-- **Whom a response promotes.** Along every run, every address that becomes the send target was
sent the challenge that validated it if and only if every response that completes a validation
comes from an address that was sent the challenge, or from the established peer while the
candidate slot is empty or holds such an address. -/
theorem promoted_challenged_iff (kdf : Kdf) (s : State Addr) (es : List (Event Addr)) :
    Along (step kdf) (PromotesChallenged kdf) s es ↔
      Along (step kdf) (fun s e _ => Completes s.endpoint e.frame → SourceChallenged s e) s es := by
  refine along_iff (fun _ => True) ?_ ?_ es trivial
  · exact fun _ _ _ _ _ _ => trivial
  · exact fun s e s' _ hs => promotesChallenged_iff hs

/-! ## The failing run -/

/-- A server whose client is at address 1. -/
def server : State Nat := ⟨⟨.new .plain [] true, .new, .new 1⟩, fun _ => []⟩

/-- A data frame from address 2 is challenged; the echo arrives with address 3 as its source. -/
def rewrittenResponse : List (Event Nat) :=
  [⟨2, 64, ⟨PacketFlags.reliable ||| PacketFlags.encrypted, 0, [0, 0, 0, 0]⟩, .silent⟩,
    ⟨3, 64, pathValidationFrame rebindValidationPathId Env.silent.fresh, .silent⟩]

/-- The server then sends to address 3, to which no challenge was ever sent. -/
theorem rewritten_response_promoted :
    ∃ s₁ s₂, run (step .plain) server (rewrittenResponse.take 1) = some s₁ ∧
      run (step .plain) server rewrittenResponse = some s₂ ∧
      s₁.sentTo rebindValidationPathId = [2] ∧ s₁.endpoint.transport.peer = 1 ∧
      s₂.endpoint.transport.peer = 3 := by
  refine ⟨_, _, rfl, rfl, ?_, ?_, ?_⟩ <;> decide

end PhantomProtocol.PromotedPeer
