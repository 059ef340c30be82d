import PhantomProtocol.Api.Pump
import PhantomProtocol.Lib.Run
import PhantomProtocol.Transport.Proof.SendBuffer

/-!
# Flight accounting

`inflight_bytes` against the send buffer, for every interleaving of the pump and the receive task.
-/

namespace PhantomProtocol

open List

namespace Pump

open PhantomProtocol.Stream

variable {s s' : State} {seg : OutboundSegment}

namespace Task

def out : Task → Option OutboundSegment
  | idle => none
  | polled seg => some seg
  | booked seg => some seg
  | written seg => some seg
  | refused seg => some seg

/-- Bytes that `poll_send` has put on the wire and the estimator does not count. -/
def due : Task → Nat
  | idle => 0
  | polled seg => if seg.reliable && !seg.retransmit then seg.data.length else 0
  | booked seg => if seg.reliable then seg.data.length else 0
  | written seg => if seg.reliable then seg.data.length else 0
  | refused seg => if seg.reliable then seg.data.length else 0

end Task

/-- The acknowledgement, if the step processes one, does not cover the segment the pump is working
on. Empty segments (a FIN, a persist probe) do not matter. -/
def Undisturbed (s : State) (e : Event) (_ : State) : Prop :=
  match e with
  | .onSack sack _ =>
    ∀ seg ∈ s.task.out, seg.reliable = true → seg.data ≠ [] → sack.acks seg.streamOffset = false
  | _ => True

instance (s : State) (e : Event) (s' : State) : Decidable (Undisturbed s e s') :=
  match e with
  | .onSack sack _ => inferInstanceAs (Decidable (∀ seg ∈ s.task.out, seg.reliable = true →
      seg.data ≠ [] → sack.acks seg.streamOffset = false))
  | .trySendReliable _ | .tryQueueFin | .sendUnreliable _ | .windowUpdate _ | .pollSend .. | .book
  | .write _ | .settle | .onPacketAcked _ => .isTrue trivial

/-- The segment the pump is working on, in the send buffer: stamped, unless it is empty and gone. -/
structure Backed (stream : Stream) (seg : OutboundSegment) : Prop where
  below : seg.streamOffset < stream.reliableOffset
  present : seg.data ≠ [] → ∃ p ∈ stream.sendBuffer, p.streamOffset = seg.streamOffset
  stamped : ∀ p ∈ stream.sendBuffer, p.streamOffset = seg.streamOffset →
    p.data = seg.data ∧ p.sentAt.isSome = true

/-- The two counts agree up to what the pump and the receive task have still to book. -/
structure Ledger (s : State) : Prop where
  wellFormed : s.stream.WellFormed
  chunks : ∀ q ∈ s.stream.pending, q.2.length ≤ maxAppChunk
  reportsBound : reported s.reports ≤ maxPendingPackets * maxAppChunk
  copies : ∀ seg ∈ s.task.out, seg.retransmit = true → seg.reliable = true
  backed : ∀ seg ∈ s.task.out, seg.reliable = true → Backed s.stream seg
  balance : s.estimator.inflightBytes + s.task.due = flight s.stream.sendBuffer + reported s.reports

theorem ledger_init : Ledger init where
  wellFormed := wellFormed_new
  chunks := by simp [init, Stream.new, pending]
  reportsBound := Nat.zero_le _
  copies := by simp [init, Task.out]
  backed := by simp [init, Task.out]
  balance := rfl

/-! ## What the pump is working on -/

namespace Backed

variable {stream stream' : Stream} {data : Bytes}

section

variable (h : Backed stream seg)
include h

theorem of_buffer (hoff : stream'.reliableOffset = stream.reliableOffset)
    (hbuf : stream'.sendBuffer = stream.sendBuffer) : Backed stream' seg where
  below := hoff ▸ h.below
  present := hbuf ▸ h.present
  stamped := hbuf ▸ h.stamped

theorem appends (ha : stream.Appends stream' data) : Backed stream' seg := by
  obtain ⟨fin, hbuf⟩ := ha.buffer
  have hmem : ∀ p, p ∈ stream'.sendBuffer ↔
      p ∈ stream.sendBuffer ∨ p = pendingData stream.reliableOffset data fin := by simp [hbuf]
  refine ⟨?_, fun hne => ?_, fun p hp heq => ?_⟩
  · rw [ha.assigned]
    exact Nat.lt_succ_of_lt h.below
  · obtain ⟨p, hp, heq⟩ := h.present hne
    exact ⟨p, (hmem p).2 (.inl hp), heq⟩
  · rcases (hmem p).1 hp with hp | rfl
    · exact h.stamped p hp heq
    · exact absurd heq (Nat.ne_of_gt h.below)

theorem onSack {k : Sack} (hk : seg.data ≠ [] → k.acks seg.streamOffset = false) (now : Nat) :
    Backed (stream.onSack k now).1 seg := by
  refine ⟨?_, fun hne => ?_, fun p' hp' heq => ?_⟩
  · rw [onSack_reliableOffset]
    exact h.below
  · obtain ⟨p, hp, heq⟩ := h.present hne
    have hkept : p ∈ stream.sendBuffer.filter fun p => !k.acks p.streamOffset :=
      mem_filter.2 ⟨hp, by simp [heq, hk hne]⟩
    exact ⟨_, mem_map_of_mem hkept, heq⟩
  · obtain ⟨p, hp, -, cause, rfl⟩ := mem_onSack hp'
    exact h.stamped p hp heq

/-- Its bytes are part of the flight. -/
theorem length_le : seg.data.length ≤ flight stream.sendBuffer := by
  by_cases hne : seg.data = []
  · rw [hne]
    exact Nat.zero_le _
  · obtain ⟨p, hp, heq⟩ := h.present hne
    obtain ⟨hd, hs⟩ := h.stamped p hp heq
    have hle := weight_le_flight hp
    unfold weight at hle
    rwa [if_pos hs, hd] at hle

theorem markUnsent_flight :
    flight (stream.markUnsent seg.streamOffset).sendBuffer + seg.data.length =
      flight stream.sendBuffer := by
  obtain ⟨heq, hgone⟩ | ⟨pre, p, post, hbuf, hoff, heq⟩ := stream.markUnsent_cases seg.streamOffset
  · have hempty : seg.data = [] := by
      by_contra hne
      obtain ⟨p, hp, hoff⟩ := h.present hne
      exact hgone p hp hoff
    rw [heq, hempty]
    rfl
  · have hmem : p ∈ stream.sendBuffer := by simp [hbuf]
    obtain ⟨hd, hs⟩ := h.stamped p hmem hoff
    have hrep := flight_replace pre post p
      { p with sentAt := none, charged := p.charged && !(p.charged && p.retries == 0) }
    simp_all [weight]

end

end Backed

/-! ## Steps -/

namespace Ledger

variable {stream : Stream}

theorem offered {data : Bytes} (h : Ledger s) (hlen : data.length ≤ maxAppChunk)
    (hspec : s.stream.Appends stream data ∨ stream = s.stream) :
    Ledger { s with stream } := by
  rcases hspec with happ | rfl
  · obtain ⟨fin, hbuf⟩ := happ.buffer
    refine ⟨h.wellFormed.appends happ, fun q hq => ?_, h.reportsBound, h.copies,
      fun seg hout hrel => (h.backed seg hout hrel).appends happ, ?_⟩
    · rw [happ.pending, mem_append, mem_singleton] at hq
      rcases hq with hq | rfl
      · exact h.chunks q hq
      · exact hlen
    · have hflight : flight stream.sendBuffer = flight s.stream.sendBuffer := by
        rw [hbuf, flight_append]
        rfl
      dsimp only
      rw [hflight]
      exact h.balance
  · exact h

theorem sameBuffer (h : Ledger s) (hk : s.stream.Keeps stream)
    (hbuf : stream.sendBuffer = s.stream.sendBuffer) : Ledger { s with stream } where
  wellFormed := h.wellFormed.keeps hk
  chunks := hk.pending ▸ h.chunks
  reportsBound := h.reportsBound
  copies := h.copies
  backed seg hout hrel := (h.backed seg hout hrel).of_buffer hk.reliableOffset hbuf
  balance := hbuf ▸ h.balance

theorem weight_of_transmits {seg : OutboundSegment} {p p' : PendingData}
    (h : Stream.Transmits seg p p') : weight p' = weight p + Task.due (.polled seg) := by
  have hafter : weight p' = p.data.length := by rw [weight, if_pos h.stamped, h.sameData]
  rw [hafter]
  simp only [weight, Task.due, h.reliable, h.retransmit, h.data]
  cases p.sentAt with
  | none | some => simp

theorem polled {r : Except SendBlocked OutboundSegment} (h : Ledger s)
    (hidle : s.task = .idle) (hp : s.stream.Emitted stream r) :
    Ledger { s with stream, task := .ofPoll r } := by
  have hbal := h.balance
  rw [hidle, show Task.idle.due = 0 from rfl, Nat.add_zero] at hbal
  have hwf := h.wellFormed.keeps hp.keeps
  have hchunks : ∀ q ∈ stream.pending, q.2.length ≤ maxAppChunk := hp.keeps.pending ▸ h.chunks
  cases hp with
  | blocked => exact ⟨hwf, hchunks, h.reportsBound, by simp [Task.ofPoll, Task.out],
      by simp [Task.ofPoll, Task.out], hbal⟩
  | @unreliable _ seg hidles hrel hre =>
    refine ⟨hwf, hchunks, h.reportsBound, fun seg' hout hre' => ?_, fun seg' hout hrel' => ?_, ?_⟩
    · cases hout
      rw [hre] at hre'
      cases hre'
    · cases hout
      rw [hrel] at hrel'
      cases hrel'
    · simp only [Task.ofPoll, Task.due, hrel, hidles.buffer]
      exact hbal
  | @probe _ seg hidles hacked hdata _ hrel hre =>
    refine ⟨hwf, hchunks, h.reportsBound, fun seg' hout _ => ?_, fun seg' hout _ => ?_, ?_⟩
    · cases hout
      exact hrel
    · cases hout
      obtain ⟨hlt, hne⟩ := h.wellFormed.acked _ hacked
      refine ⟨hidles.keeps.reliableOffset ▸ hlt, fun hdata' => absurd hdata hdata',
        fun p hp heq => ?_⟩
      exact absurd heq (hne _ (mem_map_of_mem (hidles.buffer ▸ hp)))
    · simp only [Task.ofPoll, Task.due, hdata, hidles.buffer, length_nil, ite_self]
      exact hbal
  | @copied _ seg pre post p p' hkeeps hbuf hbuf' _ hcopied =>
    have hseg := hcopied.bills.transmits
    have hmem' : p' ∈ stream.sendBuffer := by simp [hbuf']
    have hoff : seg.streamOffset = p'.streamOffset := hseg.streamOffset.trans hseg.sameOffset.symm
    refine ⟨hwf, hchunks, h.reportsBound, fun seg' hout _ => ?_, fun seg' hout _ => ?_, ?_⟩
    · cases hout
      exact hseg.reliable
    · cases hout
      refine ⟨?_, fun _ => ⟨p', hmem', hoff.symm⟩, fun q hq heq => ?_⟩
      · rw [hoff]
        exact hwf.below _ (mem_map_of_mem hmem')
      · have heq' := hwf.eq_of_streamOffset hq hmem' (heq.trans hoff)
        rw [heq']
        exact ⟨hseg.sameData.trans hseg.data.symm, hseg.stamped⟩
    · have hrep := flight_replace pre post p p'
      rw [← hbuf', ← hbuf] at hrep
      have hweight := weight_of_transmits hseg
      simp only [Task.ofPoll]
      omega

theorem due_le (h : Ledger s) : s.task.due ≤ flight s.stream.sendBuffer := by
  have hback : ∀ seg ∈ s.task.out, ∀ b : Bool, (b = true → seg.reliable = true) →
      (if b then seg.data.length else 0) ≤ flight s.stream.sendBuffer := by
    intro seg hout b hrel
    split
    · exact (h.backed seg hout (hrel ‹_›)).length_le
    · exact Nat.zero_le _
  cases htask : s.task with
  | idle => exact Nat.zero_le _
  | polled seg =>
    exact hback seg (by rw [htask]; rfl) _ fun hb => (Bool.and_eq_true_iff.1 hb).1
  | booked seg => exact hback seg (by rw [htask]; rfl) _ id
  | written seg => exact hback seg (by rw [htask]; rfl) _ id
  | refused seg => exact hback seg (by rw [htask]; rfl) _ id

theorem flight_bound (h : Ledger s) :
    flight s.stream.sendBuffer ≤ maxPendingPackets * maxAppChunk := by
  have hle : flight s.stream.sendBuffer ≤ s.stream.sendBuffer.length * maxAppChunk :=
    flight_le fun p hp => h.chunks _ (mem_map_of_mem hp)
  have hlen : s.stream.sendBuffer.length ≤ maxPendingPackets := by
    have hpermits := h.wellFormed.permits
    rw [pending, length_map] at hpermits
    omega
  exact Nat.le_trans hle (Nat.mul_le_mul_right _ hlen)

theorem sameSegment {task : Task} {estimator : BandwidthEstimator} (h : Ledger s)
    (hout : task.out = s.task.out)
    (hbal : estimator.inflightBytes + task.due = flight s.stream.sendBuffer + reported s.reports) :
    Ledger { s with task, estimator } :=
  { h with
    copies := hout ▸ h.copies
    backed := hout ▸ h.backed
    balance := hbal }

theorem inflight_book (e : BandwidthEstimator) (seg : OutboundSegment) :
    (book e seg).inflightBytes =
      if seg.retransmit then e.inflightBytes - seg.data.length else e.inflightBytes := by
  rw [book, apply_ite BandwidthEstimator.inflightBytes, BandwidthEstimator.inflight_bookCopy]

section

variable (h : Ledger s)
include h

theorem booked (htask : s.task = .polled seg) :
    Ledger { s with task := .booked seg, estimator := book s.estimator seg } := by
  have hout : s.task.out = some seg := by rw [htask]; rfl
  refine h.sameSegment hout.symm ?_
  have hbal := h.balance
  rw [htask] at hbal
  rw [← hbal, inflight_book]
  cases hre : seg.retransmit with
  | false => simp [Task.due, hre]
  | true =>
    -- a copy replaces a transmission that is counted
    have hrel := h.copies seg hout hre
    have hle := (h.backed seg hout hrel).length_le
    simp only [Task.due, hre, hrel] at hbal ⊢
    simp at hbal ⊢
    omega

theorem sent (htask : s.task = .written seg) : Ledger { s with
      task := .idle
      estimator := if seg.reliable then s.estimator.onSend seg.data.length else s.estimator } := by
  refine ⟨h.wellFormed, h.chunks, h.reportsBound, by simp [Task.out], by simp [Task.out], ?_⟩
  have hbal := h.balance
  rw [htask] at hbal
  dsimp only
  rw [← hbal]
  cases hrel : seg.reliable with
  | false => simp [Task.due, hrel]
  | true =>
    -- the sum stays below the range of the counter
    have hflight := h.flight_bound
    have hreports := h.reportsBound
    simp only [Task.due, hrel] at hbal ⊢
    simp only [BandwidthEstimator.onSend, if_true] at hbal ⊢
    have hmax : maxPendingPackets * maxAppChunk + maxPendingPackets * maxAppChunk ≤ u64Max := by
      decide
    rw [Nat.min_eq_left (by omega)]
    rfl

theorem refused (htask : s.task = .refused seg) : Ledger { s with
      task := .idle
      stream := if seg.reliable then s.stream.markUnsent seg.streamOffset else s.stream } := by
  have hbal := h.balance
  rw [htask] at hbal
  cases hrel : seg.reliable with
  | false =>
    refine ⟨h.wellFormed, h.chunks, h.reportsBound, by simp [Task.out], by simp [Task.out], ?_⟩
    simpa [Task.due, hrel] using hbal
  | true =>
    have hkeeps := s.stream.markUnsent_keeps seg.streamOffset
    have hback := h.backed seg (by rw [htask]; rfl) hrel
    have hflight := hback.markUnsent_flight
    refine ⟨h.wellFormed.keeps hkeeps, hkeeps.pending ▸ h.chunks, h.reportsBound,
      by simp [Task.out], by simp [Task.out], ?_⟩
    simp only [Task.due, hrel, if_true] at hbal ⊢
    omega

theorem retired {k : Sack} (hnone : s.reports = [])
    (hk : ∀ seg ∈ s.task.out, seg.reliable = true → seg.data ≠ [] → k.acks seg.streamOffset = false)
    (now : Nat) :
    Ledger { s with
      stream := (s.stream.onSack k now).1
      reports := (s.stream.onSack k now).2.retired.filter (·.sentAt.isSome) } := by
  have hflight := s.stream.onSack_flight k now
  refine ⟨h.wellFormed.onSack k now, fun q hq => ?_, ?_, h.copies, fun seg hout hrel => ?_, ?_⟩
  · rw [onSack_pending] at hq
    exact h.chunks q (mem_filter.1 hq).1
  · have hbound := h.flight_bound
    dsimp only
    omega
  · exact (h.backed seg hout hrel).onSack (hk seg hout hrel) now
  · have hbal := h.balance
    rw [hnone] at hbal
    dsimp only
    rw [hbal, ← hflight]
    rfl

theorem acked {r : RetiredSegment} {rest : List RetiredSegment}
    (hreports : s.reports = r :: rest) (now : Nat) :
    Ledger { s with reports := rest, estimator := s.estimator.onAck r.size now } := by
  have hbal := h.balance
  have hdue := h.due_le
  have hbound := h.reportsBound
  have hsum : reported (r :: rest) = r.size + reported rest := by simp [reported]
  rw [hreports, hsum] at hbal hbound
  refine ⟨h.wellFormed, h.chunks, by dsimp only; omega, h.copies, h.backed, ?_⟩
  simp only [BandwidthEstimator.onAck]
  omega

theorem step {e : Event} (hs : step s e = some s') (hq : Undisturbed s e s') : Ledger s' := by
  cases e with
  | trySendReliable data =>
    simp only [Pump.step] at hs
    split at hs
    · cases hs
      have hspec := Stream.offer_spec (s := s.stream) (o := .trySendReliable data) rfl
      exact h.offered ‹_› (hspec.imp And.right And.right)
    · cases hs
  | tryQueueFin =>
    cases hs
    have hspec := Stream.offer_spec (s := s.stream) (o := .tryQueueFin) rfl
    exact h.offered (Nat.zero_le _) (hspec.imp And.right And.right)
  | sendUnreliable | windowUpdate =>
    cases hs
    exact h.sameBuffer ⟨rfl, rfl, rfl, rfl⟩ rfl
  | pollSend =>
    simp only [Pump.step] at hs
    split at hs
    · cases hs
      exact h.polled ‹_› (pollSend_emitted ..)
    · cases hs
  | book =>
    simp only [Pump.step] at hs
    split at hs
    · cases hs
      exact h.booked ‹_›
    · cases hs
  | write accepted =>
    simp only [Pump.step] at hs
    split at hs
    · rename_i htask
      cases hs
      have hbal := h.balance
      rw [htask] at hbal
      cases accepted with
      | true | false => exact h.sameSegment (by rw [htask]; rfl) hbal
    · cases hs
  | settle =>
    simp only [Pump.step] at hs
    split at hs
    · cases hs
      exact h.sent ‹_›
    · cases hs
      exact h.refused ‹_›
    · cases hs
  | onSack _ now =>
    simp only [Pump.step] at hs
    split at hs
    · cases hs
      exact h.retired ‹_› hq now
    · cases hs
  | onPacketAcked now =>
    simp only [Pump.step] at hs
    split at hs
    · cases hs
    · cases hs
      exact h.acked ‹_› now

end

end Ledger

/-- **Flight accounting.** In a run in which no acknowledgement covers the segment the pump is
working on, whenever the pump is between two segments, `inflight_bytes` is the payload on the wire
and what the receive task has still to report; so it is the payload on the wire once that is
reported. -/
theorem inflight_eq_flight {events : List Event} (hquiet : Lts.Along step Undisturbed init events)
    (hrun : Lts.run step init events = some s) (hidle : s.task = .idle) :
    s.estimator.inflightBytes = flight s.stream.sendBuffer + reported s.reports ∧
      (s.reports = [] → s.estimator.inflightBytes = flight s.stream.sendBuffer) := by
  have hledger : Ledger s :=
    Lts.run_inv_along (fun _ _ _ h hs hq => h.step hs hq) events ledger_init hquiet hrun
  have hbal := hledger.balance
  rw [hidle] at hbal
  refine ⟨hbal, fun hdone => ?_⟩
  rw [hdone] at hbal
  exact hbal

/-- Two chunks. The first write of the second one is refused; it is then acknowledged alone, and the
first one is retransmitted. -/
def repaired : List Event :=
  [.trySendReliable [1], .trySendReliable [2],
    .pollSend 10 false 0, .book, .write true, .settle,
    .pollSend 10 false 1, .book, .write false, .settle,
    .pollSend 10 false 2, .book, .write true, .settle,
    .onSack ⟨1, 0, [(1, 1)]⟩ 2000000, .onPacketAcked 2000000, .onSack ⟨1, 0, [(1, 1)]⟩ 9000000,
    .pollSend 10 false 9000001, .book, .write true, .settle]

theorem inflight_eq_flight_repaired :
    ∃ s, Lts.run step init repaired = some s ∧ s.estimator.bytesRetransmitted = 1 ∧
      s.estimator.inflightBytes = flight s.stream.sendBuffer := by
  have hrun : (Lts.run step init repaired).map
      (fun s => (s.task, s.reports, s.estimator.bytesRetransmitted)) = some (.idle, [], 1) := by
    decide +kernel
  have hquiet : Lts.Along step Undisturbed init repaired := by decide +kernel
  obtain ⟨s, hs, heq⟩ := Option.map_eq_some_iff.1 hrun
  obtain ⟨hidle, hrest⟩ := Prod.mk.inj heq
  obtain ⟨hdone, hre⟩ := Prod.mk.inj hrest
  exact ⟨s, hs, hre, (inflight_eq_flight hquiet hs hidle).2 hdone⟩

/-- One chunk. The receiver's acknowledgement is processed after the transport has accepted the
write and before the pump counts it. -/
def earlyAck : List Event :=
  [.trySendReliable [7], .pollSend 10 false 0, .book, .write true,
    .onSack ⟨0, 0, [(0, 0)]⟩ 1, .onPacketAcked 1, .settle]

/-- The acknowledgement finds nothing in flight to subtract from, and the byte added afterwards
stays: nothing is left in the send buffer that could take it off. -/
theorem early_ack_leaves_phantom_flight :
    (Stream.new.acceptInOrder 0 [[7]] 1).1.receivedSack 0 1 = some ⟨0, 0, [(0, 0)]⟩ ∧
      ∃ s, Lts.run step init earlyAck = some s ∧ s.task = .idle ∧ s.reports = [] ∧
        s.stream.sendBuffer = [] ∧ s.estimator.inflightBytes = 1 ∧
        s.estimator.inflightBytes ≠ flight s.stream.sendBuffer := by
  refine ⟨by decide +kernel, ?_⟩
  have hrun : (Lts.run step init earlyAck).map
      (fun s => (s.task, s.reports, s.stream.sendBuffer, s.estimator.inflightBytes)) =
        some (.idle, [], [], 1) := by
    decide +kernel
  obtain ⟨s, hs, heq⟩ := Option.map_eq_some_iff.1 hrun
  simp only [Prod.mk.injEq] at heq
  obtain ⟨hidle, hdone, hempty, hone⟩ := heq
  refine ⟨s, hs, hidle, hdone, hempty, hone, ?_⟩
  rw [hone, hempty]
  decide

end Pump

end PhantomProtocol
