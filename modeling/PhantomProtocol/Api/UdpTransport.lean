import PhantomProtocol.Transport.Types

/-!
# Migration candidate of a UDP transport

The address handling `UdpServerTransport` and `UdpClientTransport` share (for the client, `peer` is
its `server_addr`): the source of the last frame, the one candidate slot an authenticated new source
is put into, the candidate's anti-amplification budget, and the switch of the send target.
-/

namespace PhantomProtocol

structure UdpTransport (Addr : Type) where
  peer : Addr
  candidate : Option Addr
  candRecv : Nat
  candSent : Nat
  lastRecvSrc : Option Addr
  lastFrameLen : Nat
deriving DecidableEq, Repr

namespace UdpTransport

variable {Addr : Type}

def new (peer : Addr) : UdpTransport Addr :=
  { peer, candidate := none, candRecv := 0, candSent := 0, lastRecvSrc := none, lastFrameLen := 0 }

/-- `recv_bytes`: only records where the frame came from. -/
def recvBytes (t : UdpTransport Addr) (src : Addr) (len : Nat) : UdpTransport Addr :=
  { t with lastRecvSrc := some src, lastFrameLen := len }

def confirmAuthenticatedSource [DecidableEq Addr] (t : UdpTransport Addr) : UdpTransport Addr :=
  match t.lastRecvSrc with
  | none => t
  | some src =>
    if src = t.peer then t
    else if t.candidate = some src then
      { t with candRecv := (t.candRecv + t.lastFrameLen) % 2 ^ 64 }
    else { t with candidate := some src, candRecv := t.lastFrameLen, candSent := 0 }

def hasMigrationCandidate (t : UdpTransport Addr) : Bool := t.candidate.isSome

/-- `send_to_candidate` of datagrams that take `wire` bytes: the address they went to, if they
were sent. `socketOk` is whether the socket took them. -/
def sendToCandidate (t : UdpTransport Addr) (wire : Nat) (socketOk : Bool) :
    UdpTransport Addr × Option Addr :=
  match t.candidate with
  | none => (t, none)
  | some addr =>
    if min (t.candSent + wire) u64Max > min (t.candRecv * 3) u64Max then (t, none)
    else if socketOk then ({ t with candSent := (t.candSent + wire) % 2 ^ 64 }, some addr)
    else (t, none)

def promoteCandidate (t : UdpTransport Addr) : UdpTransport Addr × Bool :=
  match t.candidate with
  | some addr => ({ t with peer := addr, candidate := none, candRecv := 0, candSent := 0 }, true)
  | none => (t, false)

/-- The candidate after a frame from `src` authenticated. -/
def candidateAfter [DecidableEq Addr] (t : UdpTransport Addr) (src : Addr) : Option Addr :=
  if src = t.peer then t.candidate else some src

variable {t : UdpTransport Addr} {src : Addr} {len wire : Nat} {ok : Bool}

@[simp] theorem confirm_peer [DecidableEq Addr] :
    (t.recvBytes src len).confirmAuthenticatedSource.peer = t.peer := by
  simp only [recvBytes, confirmAuthenticatedSource]
  by_cases hp : src = t.peer
  · simp [hp]
  · by_cases hc : t.candidate = some src <;> simp [hp, hc]

@[simp] theorem confirm_candidate [DecidableEq Addr] :
    (t.recvBytes src len).confirmAuthenticatedSource.candidate = t.candidateAfter src := by
  simp only [recvBytes, confirmAuthenticatedSource, candidateAfter]
  by_cases hp : src = t.peer
  · simp [hp]
  · by_cases hc : t.candidate = some src <;> simp [hp, hc]

theorem confirm_cases [DecidableEq Addr] (t : UdpTransport Addr) (src : Addr) (len : Nat) :
    (src = t.peer ∧
        (t.recvBytes src len).confirmAuthenticatedSource = t.recvBytes src len) ∨
      (t.candidate = some src ∧ (t.recvBytes src len).confirmAuthenticatedSource =
        { t.recvBytes src len with candRecv := (t.candRecv + len) % 2 ^ 64 }) ∨
      (t.candidate ≠ some src ∧ (t.recvBytes src len).confirmAuthenticatedSource =
        { t.recvBytes src len with candidate := some src, candRecv := len, candSent := 0 }) := by
  by_cases hp : src = t.peer
  · exact .inl ⟨hp, if_pos hp⟩
  · by_cases hc : t.candidate = some src
    · exact .inr (.inl ⟨hc, (if_neg hp).trans (if_pos hc)⟩)
    · exact .inr (.inr ⟨hc, (if_neg hp).trans (if_neg hc)⟩)

/-- Sending to the candidate only moves its budget, only reaches the candidate, and keeps to the
budget as the two counters are compared. -/
theorem sendToCandidate_cases (t : UdpTransport Addr) (wire : Nat) (ok : Bool) :
    t.sendToCandidate wire ok = (t, none) ∨ ∃ a, t.candidate = some a ∧
      min (t.candSent + wire) u64Max ≤ min (t.candRecv * 3) u64Max ∧
      t.sendToCandidate wire ok =
        ({ t with candSent := (t.candSent + wire) % 2 ^ 64 }, some a) := by
  unfold sendToCandidate
  split
  · exact .inl rfl
  · rename_i a ha
    split
    · exact .inl rfl
    · rename_i hguard
      split
      · exact .inr ⟨a, ha, Nat.not_lt.1 hguard, rfl⟩
      · exact .inl rfl

@[simp] theorem sendToCandidate_peer : (t.sendToCandidate wire ok).1.peer = t.peer := by
  rcases t.sendToCandidate_cases wire ok with h | ⟨a, -, -, h⟩ <;> rw [h]

theorem sendToCandidate_addr {a : Addr} (h : (t.sendToCandidate wire ok).2 = some a) :
    t.candidate = some a := by
  rcases t.sendToCandidate_cases wire ok with h' | ⟨b, hb, -, h'⟩ <;> rw [h'] at h
  · cases h
  · exact hb.trans h

theorem promoteCandidate_some {a : Addr} (h : t.candidate = some a) : t.promoteCandidate =
      ({ t with peer := a, candidate := none, candRecv := 0, candSent := 0 }, true) := by
  simp [promoteCandidate, h]

theorem promoteCandidate_none (h : t.candidate = none) : t.promoteCandidate = (t, false) := by
  simp [promoteCandidate, h]

end UdpTransport

end PhantomProtocol
