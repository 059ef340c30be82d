import PhantomProtocol.Api.UdpTransport
import PhantomProtocol.Lib.Run
import PhantomProtocol.Transport.Proof.Datagram

/-!
# The anti-amplification budget of a candidate

One pair of counters bounds what is sent to the address in the candidate slot, and is seeded anew
whenever the slot changes hands. What an address is sent over a whole run is the sum over all the
times it held the slot.
-/

namespace PhantomProtocol

open List

namespace CandidateBudget

open Lts

variable {Addr : Type} [DecidableEq Addr]

structure State (Addr : Type) where
  transport : UdpTransport Addr
  /-- The lengths of the authenticated frames from an address, in total. -/
  heard : Addr → Nat
  /-- The datagram bytes `send_to_candidate` has put on the path to an address, in total. -/
  sent : Addr → Nat

inductive Event (Addr : Type) where
  | recvBytes (src : Addr) (len : Nat)
  /-- A frame that does: `confirm_authenticated_source` follows. -/
  | confirmAuthenticatedSource (src : Addr) (len : Nat)
  /-- A frame that fits one datagram; the socket takes it or not. -/
  | sendToCandidate (cid : ConnId) (packetId : UInt32) (frame : Bytes) (socketOk : Bool)
  | promoteCandidate

def init (peer : Addr) : State Addr := ⟨.new peer, fun _ => 0, fun _ => 0⟩

/-- `n` more bytes for the address. -/
def credit (total : Addr → Nat) (a : Addr) (n : Nat) : Addr → Nat :=
  Function.update total a (total a + n)

/-- `send_to_candidate` from its datagrams on. -/
def sendDatagrams (s : State Addr) (datagrams : List Datagram) (socketOk : Bool) : State Addr :=
  match s.transport.sendToCandidate (wireBytes datagrams) socketOk with
  | (transport, some a) =>
    { s with transport, sent := credit s.sent a (wireBytes datagrams) }
  | (transport, none) => { s with transport }

def step (s : State Addr) : Event Addr → Option (State Addr)
  | .recvBytes src len => some { s with transport := s.transport.recvBytes src len }
  | .confirmAuthenticatedSource src len =>
    some
      { s with
        transport := (s.transport.recvBytes src len).confirmAuthenticatedSource
        heard := credit s.heard src len }
  | .sendToCandidate cid packetId frame socketOk =>
    if maxInnerUnfragmented < frame.length then none
    else
      match encodeDatagrams .oneRtt cid packetId frame with
      | .error _ => some s
      | .ok datagrams => some (sendDatagrams s datagrams socketOk)
  | .promoteCandidate => some { s with transport := s.transport.promoteCandidate.1 }

/-- The budget of the candidate is read as it is: three times what was received from it is below
`u64::MAX`, or what has been sent to it and the datagram fit a `u64`. -/
def Unsaturated (s : State Addr) (e : Event Addr) (_ : State Addr) : Prop :=
  match e with
  | .sendToCandidate _ _ frame _ =>
    s.transport.candRecv * 3 < u64Max ∨ s.transport.candSent + (hdrLen + frame.length) ≤ u64Max
  | _ => True

instance (s : State Addr) (e : Event Addr) (s' : State Addr) : Decidable (Unsaturated s e s') :=
  match e with
  | .sendToCandidate _ _ frame _ => inferInstanceAs (Decidable (s.transport.candRecv * 3 < u64Max ∨
      s.transport.candSent + (hdrLen + frame.length) ≤ u64Max))
  | .recvBytes .. | .confirmAuthenticatedSource .. | .promoteCandidate => .isTrue trivial

variable {s s' : State Addr} {e : Event Addr} {frame : Bytes}

theorem credit_self (total : Addr → Nat) (a : Addr) (n : Nat) :
    credit total a n a = total a + n := by
  simp [credit]

theorem credit_ne (total : Addr → Nat) {a b : Addr} (h : b ≠ a) (n : Nat) :
    credit total a n b = total b := by
  simp [credit, h]

theorem le_credit (total : Addr → Nat) (a b : Addr) (n : Nat) : total b ≤ credit total a n b := by
  by_cases h : b = a
  · subst h
    rw [credit_self]
    omega
  · rw [credit_ne total h]

theorem step_send (s : State Addr) (cid : ConnId) (packetId : UInt32) (ok : Bool)
    (h : frame.length ≤ maxInnerUnfragmented) :
    ∃ datagrams, wireBytes datagrams = hdrLen + frame.length ∧
      step s (.sendToCandidate cid packetId frame ok) = some (sendDatagrams s datagrams ok) := by
  obtain ⟨d, hd, hlen⟩ := encodeDatagrams_single .oneRtt cid packetId h
  refine ⟨[d], by simp [wireBytes, hlen], ?_⟩
  simp only [step]
  rw [if_neg (Nat.not_lt.2 h), hd]

/-! ## The invariant -/

/-- What `a` was sent is what the counter of its present stay in the slot says, on top of what is
paid for by the frames before. -/
def Episode (s : State Addr) (a : Addr) : Prop :=
  ∃ sentBefore heardBefore, s.sent a = sentBefore + s.transport.candSent ∧
    sentBefore ≤ 3 * heardBefore ∧ heardBefore + s.transport.candRecv ≤ s.heard a

structure Inv (s : State Addr) : Prop where
  bounded : ∀ a, s.sent a ≤ 3 * s.heard a
  episode : ∀ a, s.transport.candidate = some a → Episode s a

omit [DecidableEq Addr] in
theorem inv_init (peer : Addr) : Inv (init peer) where
  bounded _ := Nat.zero_le _
  episode a h := by cases h

namespace Inv

theorem confirmed (h : Inv s) (src : Addr) (len : Nat) : Inv { s with
      transport := (s.transport.recvBytes src len).confirmAuthenticatedSource
      heard := credit s.heard src len } where
  bounded a := (h.bounded a).trans (Nat.mul_le_mul_left 3 (le_credit s.heard src a len))
  episode a hcand := by
    obtain ⟨-, heq⟩ | ⟨hsame, heq⟩ | ⟨-, heq⟩ := s.transport.confirm_cases src len
    · -- a frame from the peer changes nothing but what was heard
      simp only [heq, Episode] at hcand ⊢
      obtain ⟨sb, hb, hsent, hpaid, hheard⟩ := h.episode a hcand
      exact ⟨sb, hb, hsent, hpaid, hheard.trans (le_credit s.heard src a len)⟩
    · simp only [heq, Episode] at hcand ⊢
      obtain ⟨sb, hb, hsent, hpaid, hheard⟩ := h.episode a hcand
      cases hsame.symm.trans hcand
      refine ⟨sb, hb, hsent, hpaid, ?_⟩
      rw [credit_self]
      have hmod := Nat.mod_le (s.transport.candRecv + len) (2 ^ 64)
      omega
    · -- a new candidate: all that was sent before is paid for
      simp only [heq, Episode] at hcand ⊢
      cases hcand
      refine ⟨s.sent src, s.heard src, rfl, h.bounded src, ?_⟩
      rw [credit_self]

theorem sends (h : Inv s) {datagrams : List Datagram} {ok : Bool}
    (hc : s.transport.candRecv * 3 < u64Max ∨ s.transport.candSent + wireBytes datagrams ≤ u64Max) :
    Inv (sendDatagrams s datagrams ok) := by
  unfold sendDatagrams
  obtain heq | ⟨b, hcand, hguard, heq⟩ := s.transport.sendToCandidate_cases (wireBytes datagrams) ok
  · rw [heq]
    exact h
  · rw [heq]
    obtain ⟨sb, hb, hsent, hpaid, hheard⟩ := h.episode b hcand
    have hle : s.transport.candSent + wireBytes datagrams ≤ 3 * s.transport.candRecv := by
      omega
    have hfits : s.transport.candSent + wireBytes datagrams < 2 ^ 64 := by
      unfold u64Max at hc hguard
      omega
    refine ⟨fun a => ?_, fun a ha => ?_⟩
    · show credit s.sent b (wireBytes datagrams) a ≤ 3 * s.heard a
      by_cases heq : a = b
      · subst heq
        rw [credit_self]
        omega
      · rw [credit_ne s.sent heq]
        exact h.bounded a
    · cases hcand.symm.trans ha
      refine ⟨sb, hb, ?_, hpaid, hheard⟩
      grind [credit_self, Nat.mod_eq_of_lt]

theorem step (h : Inv s) (hs : step s e = some s') (hc : Unsaturated s e s') : Inv s' := by
  cases e with
  | recvBytes =>
    cases hs
    exact ⟨h.bounded, h.episode⟩
  | confirmAuthenticatedSource src len =>
    cases hs
    exact h.confirmed src len
  | sendToCandidate cid packetId frame ok =>
    by_cases hfits : frame.length ≤ maxInnerUnfragmented
    · obtain ⟨datagrams, hwire, hstep⟩ := step_send s cid packetId ok hfits
      cases hstep.symm.trans hs
      apply h.sends
      rw [hwire]
      exact hc
    · simp only [CandidateBudget.step] at hs
      rw [if_pos (Nat.not_le.1 hfits)] at hs
      cases hs
  | promoteCandidate =>
    cases hs
    refine ⟨h.bounded, fun a ha => ?_⟩
    cases hcand : s.transport.candidate with
    | none =>
      simp only [UdpTransport.promoteCandidate_none hcand] at ha ⊢
      exact h.episode a ha
    | some =>
      simp only [UdpTransport.promoteCandidate_some hcand] at ha
      cases ha

end Inv

/-- **Anti-amplification.** In every run in which the comparison of the two counters does not
saturate, no address, promoted or not, has been sent more than three times what was authenticated
from it, however often the candidate slot has changed hands. -/
theorem sent_le_three_heard {peer : Addr} {events : List (Event Addr)}
    (hrun : run step (init peer) events = some s) (hc : Along step Unsaturated (init peer) events)
    (a : Addr) : s.sent a ≤ 3 * s.heard a := by
  have hinv : Inv s :=
    run_inv_along (fun _ _ _ h hs hp => h.step hs hp) events (inv_init peer) hc hrun
  exact hinv.bounded a

/-- A candidate takes another's place, is sent what its frame pays for, and gives the place back. -/
def alternating : List (Event Nat) :=
  [.confirmAuthenticatedSource 1 100, .sendToCandidate (.replicate _ 0) 0 [1, 2] true,
    .confirmAuthenticatedSource 2 50, .sendToCandidate (.replicate _ 0) 1 [3] false,
    .sendToCandidate (.replicate _ 0) 2 [4] true, .confirmAuthenticatedSource 1 7,
    .sendToCandidate (.replicate _ 0) 3 [5, 6] true, .promoteCandidate]

theorem sent_le_three_heard_alternating :
    ∃ s, run step (init 0) alternating = some s ∧ s.transport.peer = 1 ∧ s.sent 1 = 22 ∧
      s.sent 2 = 10 ∧ s.sent 2 ≤ 3 * s.heard 2 := by
  have hrun : (run step (init 0) alternating).map
      (fun s => (s.transport.peer, s.sent 1, s.sent 2)) = some (1, 22, 10) := by
    decide +kernel
  have hc : Along step Unsaturated (init 0) alternating := by decide +kernel
  obtain ⟨s, hs, heq⟩ := Option.map_eq_some_iff.1 hrun
  simp only [Prod.mk.injEq] at heq
  obtain ⟨hpeer, hone, htwo⟩ := heq
  exact ⟨s, hs, hpeer, hone, htwo, sent_le_three_heard hs hc 2⟩

/-! ## Past the end of the counters -/

theorem run_confirms {a : Addr} (len n : Nat) (hcand : s.transport.candidate = some a)
    (hpeer : a ≠ s.transport.peer) (hfits : s.transport.candRecv + n * len < 2 ^ 64) :
    ∃ s', run step s (List.replicate n (.confirmAuthenticatedSource a len)) = some s' ∧
      s'.transport.candidate = some a ∧ s'.transport.candRecv = s.transport.candRecv + n * len ∧
      s'.heard a = s.heard a + n * len ∧ s'.sent a = s.sent a := by
  induction n generalizing s with
  | zero => exact ⟨s, rfl, hcand, by simp, by simp, rfl⟩
  | succ n ih =>
    rw [Nat.succ_mul] at hfits ⊢
    obtain ⟨heq, -⟩ | ⟨-, heq⟩ | ⟨hne, -⟩ := s.transport.confirm_cases a len
    · exact absurd heq hpeer
    · have hmod : (s.transport.candRecv + len) % 2 ^ 64 = s.transport.candRecv + len :=
        Nat.mod_eq_of_lt (by omega)
      rw [hmod] at heq
      let s₁ : State Addr :=
        { s with
          transport := { s.transport.recvBytes a len with candRecv := s.transport.candRecv + len }
          heard := credit s.heard a len }
      have hstep : step s (.confirmAuthenticatedSource a len) = some s₁ := by
        simp only [step, heq, s₁]
      have hcand₁ : s₁.transport.candidate = some a := hcand
      have hfits₁ : s₁.transport.candRecv + n * len < 2 ^ 64 := by grind
      obtain ⟨s', hrun, hcand', hrecv, hheard, hsent⟩ := ih hcand₁ hpeer hfits₁
      refine ⟨s', ?_, hcand', ?_, ?_, hsent⟩
      · rw [replicate_succ, run_cons_some hstep]
        exact hrun
      · grind
      · grind [credit_self]
    · exact absurd hcand hne

theorem run_floods {a : Addr} (cid : ConnId) (packetId : UInt32) (n : Nat)
    (hcand : s.transport.candidate = some a) (hfull : u64Max ≤ s.transport.candRecv * 3)
    (hfits : frame.length ≤ maxInnerUnfragmented) :
    ∃ s', run step s (List.replicate n (.sendToCandidate cid packetId frame true)) = some s' ∧
      s'.heard a = s.heard a ∧ s'.sent a = s.sent a + n * (hdrLen + frame.length) := by
  induction n generalizing s with
  | zero => exact ⟨s, rfl, rfl, by simp⟩
  | succ n ih =>
    obtain ⟨datagrams, hwire, hstep⟩ := step_send s cid packetId true hfits
    have hsend : s.transport.sendToCandidate (wireBytes datagrams) true =
        ({ s.transport with
            candSent := (s.transport.candSent + wireBytes datagrams) % 2 ^ 64 }, some a) := by
      unfold UdpTransport.sendToCandidate
      rw [hcand]
      dsimp only
      rw [if_neg (by omega), if_pos rfl, hcand]
    let s₁ : State Addr :=
      { s with
        transport :=
          { s.transport with
            candSent := (s.transport.candSent + wireBytes datagrams) % 2 ^ 64 }
        sent := credit s.sent a (wireBytes datagrams) }
    have hs₁ : sendDatagrams s datagrams true = s₁ := by
      unfold sendDatagrams
      rw [hsend]
    have hcand₁ : s₁.transport.candidate = some a := hcand
    obtain ⟨s', hrun, hheard, hsent⟩ := ih hcand₁ hfull
    refine ⟨s', ?_, hheard, ?_⟩
    · simp [*, replicate_succ, run_cons_some]
    · grind [credit_self, Nat.succ_mul]

/-- After the first frame from address 1. -/
def heardOnce : State Nat :=
  ⟨⟨0, some 1, 1024, 0, some 1, 1024⟩, credit (fun _ => 0) 1 1024, fun _ => 0⟩

/-- `2 ^ 63` authenticated bytes from an address, and `2 ^ 65` bytes sent to it: the threefold of
the first saturates at `u64::MAX`, which no sum that saturates there exceeds. -/
theorem flood_past_saturation :
    ∃ (events : List (Event Nat)) (s : State Nat), run step (init 0) events = some s ∧
      Event.promoteCandidate ∉ events ∧ s.heard 1 = 2 ^ 63 ∧ s.sent 1 = 2 ^ 65 ∧
      3 * s.heard 1 < s.sent 1 := by
  let frame : Bytes := List.replicate 1015 0
  let cid : ConnId := .replicate _ 0
  have hlen : frame.length = 1015 := length_replicate
  have hcand₀ : heardOnce.transport.candidate = some 1 := rfl
  have hrecv₀ : heardOnce.transport.candRecv = 1024 := rfl
  have hheard₀ : heardOnce.heard 1 = 1024 := rfl
  have hsent₀ : heardOnce.sent 1 = 0 := rfl
  have hfits : heardOnce.transport.candRecv + (2 ^ 53 - 1) * 1024 < 2 ^ 64 := by
    rw [hrecv₀]
    omega
  obtain ⟨s₁, hrun₁, hcand, hrecv, hheard, hsent⟩ :=
    run_confirms 1024 (2 ^ 53 - 1) hcand₀ (by decide) hfits
  have hfull : u64Max ≤ s₁.transport.candRecv * 3 := by
    rw [hrecv, hrecv₀]
    unfold u64Max
    omega
  obtain ⟨s₂, hrun₂, hheard₂, hsent₂⟩ :=
    run_floods cid 0 (2 ^ 55) hcand hfull (hlen.trans_le (by decide))
  have htotal : s₂.heard 1 = 2 ^ 63 := by
    rw [hheard₂, hheard, hheard₀]
    omega
  have hflood : s₂.sent 1 = 2 ^ 65 := by
    rw [hsent₂, hsent, hsent₀, hlen]
    unfold hdrLen cidLen
    omega
  refine ⟨.confirmAuthenticatedSource 1 1024 ::
    (List.replicate (2 ^ 53 - 1) (.confirmAuthenticatedSource 1 1024) ++
      List.replicate (2 ^ 55) (.sendToCandidate cid 0 frame true)), s₂, ?_, ?_, htotal, hflood, ?_⟩
  · have hfirst : step (init 0) (.confirmAuthenticatedSource 1 1024) = some heardOnce := rfl
    rw [run_cons_some hfirst, run_append, hrun₁, Option.bind_some, hrun₂]
  · intro hmem
    rcases mem_cons.1 hmem with heq | hmem
    · cases heq
    · rcases mem_append.1 hmem with hmem | hmem
      · cases eq_of_mem_replicate hmem
      · cases eq_of_mem_replicate hmem
  · omega

end CandidateBudget

end PhantomProtocol
