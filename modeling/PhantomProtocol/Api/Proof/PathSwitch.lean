import Mathlib.Algebra.Order.BigOperators.Group.List
import PhantomProtocol.Api.Pump
import PhantomProtocol.Transport.Proof.Bbr

/-!
# The flight after a path switch

A path switch replaces the estimator (`reset_congestion`), so that `inflight_bytes` starts from zero
while every send buffer keeps its segments. From then on segments of both kinds are copied and
acknowledged.
-/

namespace PhantomProtocol

open List Option

namespace PathSwitch

open Lts

/-- An unacknowledged segment. -/
structure Segment where
  bytes : Nat
  fresh : Bool
  onWire : Bool
deriving DecidableEq

structure State where
  est : BbrEstimator
  unacked : List Segment
deriving DecidableEq

/-- The segment an event is about is given by its place. -/
inductive Event where
  | send (bytes : Nat)
  /-- A retransmission; `first` is the segment's first. -/
  | copy (index : Nat) (first : Bool)
  /-- A retransmission that the transport refuses. -/
  | refusedCopy (index : Nat) (first : Bool)
  /-- A segment taken off the wire by a refusal goes out again. -/
  | resend (index : Nat)
  | ack (index : Nat) (rest : DeliverySample)
  | resetCongestion (now : Nat)
deriving DecidableEq

def init : State := ⟨.new 0, []⟩

def maxSegments : Nat := 65536 * maxPendingPackets

def step (fp : Float64) (s : State) : Event → Option State
  | .send bytes =>
    if bytes ≤ maxAppChunk ∧ s.unacked.length < maxSegments then
      some ⟨s.est.onSend bytes, s.unacked ++ [⟨bytes, true, true⟩]⟩
    else none
  | .copy index first => s.unacked[index]?.bind fun seg =>
    if seg.onWire then some { s with est := (s.est.bookCopy seg.bytes first).onSend seg.bytes }
    else none
  | .refusedCopy index first => s.unacked[index]?.bind fun seg =>
    if seg.onWire then
      some ⟨s.est.bookCopy seg.bytes first, s.unacked.set index { seg with onWire := false }⟩
    else none
  | .resend index => s.unacked[index]?.bind fun seg =>
    if seg.onWire then none
    else some ⟨s.est.onSend seg.bytes, s.unacked.set index { seg with onWire := true }⟩
  | .ack index rest => s.unacked[index]?.bind fun seg =>
    -- a segment that is off the wire is retired without a report
    if seg.onWire then
      some ⟨(s.est.onAck fp { rest with packetBytes := seg.bytes }).1, s.unacked.eraseIdx index⟩
    else some { s with unacked := s.unacked.eraseIdx index }
  | .resetCongestion now =>
    some ⟨.new now, s.unacked.map fun seg => { seg with fresh := false }⟩

/-! ## What has been sent since the switch -/

def weight (seg : Segment) : Nat := if seg.fresh then seg.bytes else 0

/-- The bytes of the unacknowledged segments first sent since the last switch. -/
def freshBytes (segs : List Segment) : Nat := (segs.map weight).sum

section Bytes

variable {segs : List Segment} {index : Nat} {seg seg' : Segment}

theorem weight_le_bytes (seg : Segment) : weight seg ≤ seg.bytes := by
  unfold weight
  split_ifs <;> omega

theorem freshBytes_eraseIdx (h : segs[index]? = some seg) :
    freshBytes segs = weight seg + freshBytes (segs.eraseIdx index) := by
  obtain ⟨hlt, rfl⟩ := List.getElem?_eq_some_iff.1 h
  exact ((getElem_cons_eraseIdx_perm hlt).map weight).sum_eq.symm

theorem freshBytes_set (h : segs[index]? = some seg) (hweight : weight seg' = weight seg) :
    freshBytes (segs.set index seg') = freshBytes segs := by
  have hlt := (List.getElem?_eq_some_iff.1 h).1
  have hset : (segs.set index seg')[index]? = some seg' := by simp [hlt]
  rw [freshBytes_eraseIdx hset, freshBytes_eraseIdx h, eraseIdx_set_eq, hweight]

theorem freshBytes_reset (segs : List Segment) :
    freshBytes (segs.map fun seg => { seg with fresh := false }) = 0 := by
  induction segs with
  | nil => rfl
  | cons _ _ ih => simpa [freshBytes, weight] using ih

theorem freshBytes_le {most : Nat} (h : ∀ seg ∈ segs, seg.bytes ≤ most) :
    freshBytes segs ≤ segs.length * most := by
  have hweights : ∀ w ∈ segs.map weight, w ≤ most := by grind [weight_le_bytes]
  simpa [freshBytes] using sum_le_card_nsmul _ most hweights

end Bytes

/-! ## The invariant -/

/-- While anything sent since the switch is out, no older segment with bytes is acknowledged and no
copy with bytes refused. -/
def Apart (s : State) (e : Event) (_ : State) : Prop :=
  match e with
  | .ack index _ => ∀ seg ∈ s.unacked[index]?, seg.onWire = true → seg.fresh = false →
      seg.bytes = 0 ∨ freshBytes s.unacked = 0
  | .refusedCopy index _ => ∀ seg ∈ s.unacked[index]?, seg.bytes = 0 ∨ freshBytes s.unacked = 0
  | _ => True

instance (s : State) (e : Event) (s' : State) : Decidable (Apart s e s') := by
  unfold Apart
  split <;> infer_instance

structure Counted (s : State) : Prop where
  chunks : ∀ seg ∈ s.unacked, seg.bytes ≤ maxAppChunk
  room : s.unacked.length ≤ maxSegments
  counted : freshBytes s.unacked ≤ s.est.inflightBytes

theorem counted_init : Counted init := by
  constructor <;> simp [init, freshBytes]

variable {fp : Float64} {s s' : State} {index : Nat} {seg : Segment}

theorem freshBytes_le_u64Max {segs : List Segment} (hchunks : ∀ seg ∈ segs, seg.bytes ≤ maxAppChunk)
    (hroom : segs.length ≤ maxSegments) : freshBytes segs ≤ u64Max :=
  calc freshBytes segs ≤ segs.length * maxAppChunk := freshBytes_le hchunks
    _ ≤ maxSegments * maxAppChunk := Nat.mul_le_mul_right _ hroom
    _ ≤ u64Max := by decide

theorem inflight_onSend (e : BbrEstimator) (bytes : Nat) :
    (e.onSend bytes).inflightBytes = min (e.inflightBytes + bytes) u64Max := rfl

namespace Counted

section

variable (h : Counted s) {est : BbrEstimator}
include h

theorem send {bytes : Nat} (hbytes : bytes ≤ maxAppChunk) (hroom : s.unacked.length < maxSegments) :
    Counted ⟨s.est.onSend bytes, s.unacked ++ [⟨bytes, true, true⟩]⟩ := by
  have hchunks : ∀ seg ∈ s.unacked ++ [⟨bytes, true, true⟩], seg.bytes ≤ maxAppChunk := by
    intro seg hseg
    rcases mem_append.1 hseg with hseg | hseg
    · exact h.chunks seg hseg
    · rw [mem_singleton.1 hseg]
      exact hbytes
  have hlen : (s.unacked ++ [(⟨bytes, true, true⟩ : Segment)]).length ≤ maxSegments := by simp [*]
  refine ⟨hchunks, hlen, ?_⟩
  have hfits := freshBytes_le_u64Max hchunks hlen
  have hsum : freshBytes (s.unacked ++ [⟨bytes, true, true⟩]) = freshBytes s.unacked + bytes := by
    simp [freshBytes, weight]
  have := h.counted
  show freshBytes (s.unacked ++ [⟨bytes, true, true⟩]) ≤ min (s.est.inflightBytes + bytes) u64Max
  omega

theorem marked (hseg : s.unacked[index]? = some seg) (onWire : Bool)
    (hest : freshBytes s.unacked ≤ est.inflightBytes) :
    Counted ⟨est, s.unacked.set index { seg with onWire }⟩ := by
  refine ⟨fun seg' hseg' => ?_, ?_, ?_⟩
  · rcases mem_or_eq_of_mem_set hseg' with hseg' | rfl
    · exact h.chunks seg' hseg'
    · exact h.chunks seg (mem_of_getElem? hseg)
  · rw [length_set]
    exact h.room
  · show freshBytes (s.unacked.set index { seg with onWire }) ≤ est.inflightBytes
    rw [freshBytes_set hseg (by rfl)]
    exact hest

theorem retired (index : Nat) (hest : freshBytes (s.unacked.eraseIdx index) ≤ est.inflightBytes) :
    Counted ⟨est, s.unacked.eraseIdx index⟩ := by
  refine ⟨fun seg hseg => h.chunks seg (mem_of_mem_eraseIdx hseg), ?_, hest⟩
  exact (length_eraseIdx_le ..).trans h.room

theorem copy (seg : Segment) (first : Bool) :
    Counted { s with est := (s.est.bookCopy seg.bytes first).onSend seg.bytes } := by
  refine ⟨h.chunks, h.room, ?_⟩
  have hfits := freshBytes_le_u64Max h.chunks h.room
  have := h.counted
  show freshBytes s.unacked ≤ _
  rw [inflight_onSend, BbrEstimator.inflight_bookCopy]
  omega

section

variable (hseg : s.unacked[index]? = some seg)
include hseg

theorem refused (first : Bool) (hapart : seg.bytes = 0 ∨ freshBytes s.unacked = 0) :
    Counted ⟨s.est.bookCopy seg.bytes first,
      s.unacked.set index { seg with onWire := false }⟩ := by
  refine h.marked hseg false ?_
  have := h.counted
  rw [BbrEstimator.inflight_bookCopy]
  rcases hapart with hempty | hnone
  · omega
  · omega

theorem resent :
    Counted ⟨s.est.onSend seg.bytes, s.unacked.set index { seg with onWire := true }⟩ := by
  refine h.marked hseg true ?_
  have hfits := freshBytes_le_u64Max h.chunks h.room
  have := h.counted
  rw [inflight_onSend]
  omega

theorem acked (rest : DeliverySample)
    (hold : seg.fresh = false → seg.bytes = 0 ∨ freshBytes s.unacked = 0) :
    Counted ⟨(s.est.onAck fp { rest with packetBytes := seg.bytes }).1,
      s.unacked.eraseIdx index⟩ := by
  refine h.retired index ?_
  have hsplit := freshBytes_eraseIdx hseg
  have := h.counted
  rw [BbrEstimator.flight_onAck]
  show freshBytes (s.unacked.eraseIdx index) ≤ s.est.inflightBytes - seg.bytes
  cases hfresh : seg.fresh with
  | true =>
    rw [weight, if_pos hfresh] at hsplit
    omega
  | false => grind

end

theorem switched (now : Nat) :
    Counted ⟨.new now, s.unacked.map fun seg => { seg with fresh := false }⟩ := by
  refine ⟨fun seg hseg => ?_, ?_, ?_⟩
  · obtain ⟨old, hold, rfl⟩ := mem_map.1 hseg
    exact h.chunks old hold
  · rw [length_map]
    exact h.room
  · rw [freshBytes_reset]
    exact Nat.zero_le _

theorem step {e : Event} (hs : PathSwitch.step fp s e = some s')
    (hapart : Apart s e s') : Counted s' := by
  cases e with
  | send =>
    obtain ⟨⟨hbytes, hroom⟩, ⟨⟩⟩ := ite_none_right_eq_some.1 hs
    exact h.send hbytes hroom
  | copy _ first =>
    obtain ⟨seg, -, hs⟩ := bind_eq_some_iff.1 hs
    obtain ⟨-, ⟨⟩⟩ := ite_none_right_eq_some.1 hs
    exact h.copy seg first
  | refusedCopy _ first =>
    obtain ⟨seg, hseg, hs⟩ := bind_eq_some_iff.1 hs
    obtain ⟨-, ⟨⟩⟩ := ite_none_right_eq_some.1 hs
    exact h.refused hseg first (hapart seg hseg)
  | resend =>
    obtain ⟨seg, hseg, hs⟩ := bind_eq_some_iff.1 hs
    obtain ⟨-, ⟨⟩⟩ := ite_none_left_eq_some.1 hs
    exact h.resent hseg
  | ack index rest =>
    obtain ⟨seg, hseg, hs⟩ := bind_eq_some_iff.1 hs
    split at hs
    · cases hs
      exact h.acked hseg rest (hapart seg hseg ‹_›)
    · cases hs
      refine h.retired index ?_
      have hsplit := freshBytes_eraseIdx hseg
      have := h.counted
      show freshBytes (s.unacked.eraseIdx index) ≤ s.est.inflightBytes
      omega
  | resetCongestion now =>
    cases hs
    exact h.switched now

end

end Counted

/-- **The flight after a path switch.** In every run in which no older segment is acknowledged and
no copy refused while segments sent since the switch are out, `inflight_bytes` counts all of
these. -/
theorem fresh_le_inflight (fp : Float64) (es : List Event)
    (hapart : Along (step fp) Apart init es) (hrun : run (step fp) init es = some s) :
    freshBytes s.unacked ≤ s.est.inflightBytes :=
  (run_inv_along (fun _ _ _ h hs hp => Counted.step h hs hp) es counted_init hapart hrun).counted

/-- Any values for what a segment does not say. -/
def someSample : DeliverySample := ⟨0, 0, 0, millis 50, 0, false, 0, true⟩

/-- An older segment is copied on the new path, and acknowledged after the newer one. -/
theorem fresh_le_inflight_copied :
    ∃ s, run (step .exact) init [.send 1000, .resetCongestion 7, .send 500, .copy 0 true,
        .ack 1 someSample, .ack 0 someSample, .send 300] = some s ∧
      freshBytes s.unacked = 300 ∧ freshBytes s.unacked ≤ s.est.inflightBytes := by
  obtain ⟨s, hrun, hfresh⟩ : ∃ s, run (step .exact) init [.send 1000, .resetCongestion 7, .send 500,
      .copy 0 true, .ack 1 someSample, .ack 0 someSample, .send 300] = some s ∧
      freshBytes s.unacked = 300 := ⟨_, rfl, rfl⟩
  exact ⟨s, hrun, hfresh, fresh_le_inflight .exact _ (by decide) hrun⟩

/-- A segment sent before the switch, one sent after it, and the acknowledgement of the first: the
second is out and the flight is zero. A refused copy has the same effect. -/
theorem old_ack_hides_flight :
    (∃ s, run (step .exact) init
        [.send 1000, .resetCongestion 7, .send 500, .ack 0 someSample] = some s ∧
      ¬freshBytes s.unacked ≤ s.est.inflightBytes) ∧
    ∃ s, run (step .exact) init
        [.send 1000, .resetCongestion 7, .send 500, .refusedCopy 1 true] = some s ∧
      ¬freshBytes s.unacked ≤ s.est.inflightBytes :=
  ⟨⟨_, rfl, by decide⟩, ⟨_, rfl, by decide⟩⟩

end PathSwitch

end PhantomProtocol
