import PhantomProtocol.Transport.Proof.Stream

/-!
# The send buffer

The discipline every operation of the sender keeps (`Stream.WellFormed`): buffered offsets are
distinct and assigned, an acknowledged offset does not come back, and each buffered segment holds
one permit. With it goes the total payload of the segments that are on the wire (`flight`).
-/

namespace PhantomProtocol

open List

/-- The packet threshold has fired, alone or with the other one. -/
def LossCause.byPacket : LossCause → Bool
  | .packetThreshold | .bothThresholds => true
  | .timeThreshold | .rto => false

namespace Stream

variable {s s' : Stream} {data : Bytes} {k : Sack} {now o : Nat} {p : PendingData}
  {l : List PendingData}

/-! ## Offsets and permits -/

structure WellFormed (s : Stream) : Prop where
  bound : s.reliableOffset ≤ u32Max
  below : ∀ q ∈ s.pending, q.1 < s.reliableOffset
  distinct : (s.pending.map (·.1)).Nodup
  acked : ∀ o, s.lastAckedOffset = some o → o < s.reliableOffset ∧ ∀ q ∈ s.pending, q.1 ≠ o
  permits : s.sendSemaphore + s.pending.length = maxPendingPackets

theorem wellFormed_new : WellFormed new where
  bound := Nat.zero_le _
  below := by simp [new, pending]
  distinct := by simp [new, pending]
  acked := by simp [new, lastAckedOffset]
  permits := rfl

namespace WellFormed

section

variable (h : s.WellFormed)
include h

theorem nodup_offsets : (s.sendBuffer.map (·.streamOffset)).Nodup := by
  have hdistinct := h.distinct
  rwa [pending, map_map] at hdistinct

/-- An offset names at most one buffered segment. -/
theorem eq_of_streamOffset {p q : PendingData} (hp : p ∈ s.sendBuffer)
    (hq : q ∈ s.sendBuffer) (heq : p.streamOffset = q.streamOffset) : p = q :=
  inj_on_of_nodup_map h.nodup_offsets hp hq heq

theorem mem_replace {pre post : List PendingData} {p p' q : PendingData}
    (hbuf : s.sendBuffer = pre ++ p :: post) (hq : q ∈ pre ++ p' :: post) :
    q = p' ∨ q ∈ s.sendBuffer ∧ q.streamOffset ≠ p.streamOffset := by
  have hnodup := h.nodup_offsets
  grind

/-- The discipline is kept. -/
theorem keeps (hk : s.Keeps s') : s'.WellFormed where
  bound := hk.reliableOffset ▸ h.bound
  below := by
    rw [hk.pending, hk.reliableOffset]
    exact h.below
  distinct := hk.pending ▸ h.distinct
  acked := by
    rw [hk.lastAckedOffset, hk.pending, hk.reliableOffset]
    exact h.acked
  permits := by
    rw [hk.permits, hk.pending]
    exact h.permits

theorem appends (ha : s.Appends s' data) : s'.WellFormed where
  bound := ha.bound
  below q hq := by
    rw [ha.pending, mem_append, mem_singleton] at hq
    rw [ha.assigned]
    rcases hq with hq | rfl
    · exact Nat.lt_succ_of_lt (h.below q hq)
    · exact Nat.lt_succ_self _
  distinct := by
    rw [ha.pending, map_append, nodup_append]
    refine ⟨h.distinct, nodup_singleton _, ?_⟩
    intro o ho o' ho' heq
    obtain ⟨q, hq, rfl⟩ := mem_map.1 ho
    have hlt := h.below q hq
    simp only [map_cons, map_nil, mem_singleton] at ho'
    omega
  acked o ho := by
    obtain ⟨hlt, hne⟩ := h.acked o (ha.lastAckedOffset ▸ ho)
    rw [ha.assigned, ha.pending]
    refine ⟨Nat.lt_succ_of_lt hlt, fun q hq => ?_⟩
    rcases mem_append.1 hq with hq | hq
    · exact hne q hq
    · rw [mem_singleton.1 hq]
      exact Nat.ne_of_gt hlt
  permits := by
    have h1 := ha.permits
    have h2 := h.permits
    rw [ha.pending, length_append, length_singleton]
    omega

end

end WellFormed

theorem onSack_permits (s : Stream) (k : Sack) (now : Nat) :
    (s.onSack k now).1.sendSemaphore + (s.onSack k now).1.pending.length =
      s.sendSemaphore + s.pending.length := by
  have hsplit := length_eq_length_filter_add (l := s.sendBuffer)
    fun p => k.acks p.streamOffset
  simp only [onSack, flag, kept, pending, length_map]
  omega

theorem WellFormed.onSack (h : s.WellFormed) (k : Sack) (now : Nat) :
    (s.onSack k now).1.WellFormed where
  bound := (s.onSack_reliableOffset k now).symm ▸ h.bound
  below q hq := by
    rw [onSack_pending] at hq
    rw [onSack_reliableOffset]
    exact h.below q (mem_filter.1 hq).1
  distinct := by
    rw [onSack_pending]
    exact h.distinct.sublist (filter_sublist.map _)
  acked o ho := by
    rw [onSack_reliableOffset, onSack_pending]
    have hbelow : ∀ q ∈ s.pending, q.1 < u32Max := fun q hq => (h.below q hq).trans_le h.bound
    rcases onSack_lastAckedOffset hbelow ho with hlast | ⟨q, hq, hacks, rfl⟩
    · obtain ⟨hlt, hne⟩ := h.acked o hlast
      exact ⟨hlt, fun q hq => hne q (mem_filter.1 hq).1⟩
    · refine ⟨h.below q hq, fun q' hq' heq => ?_⟩
      have hkept := (mem_filter.1 hq').2
      rw [show q'.1 = q.1 from heq, hacks] at hkept
      exact Bool.false_ne_true hkept
  permits := (onSack_permits s k now).trans h.permits

/-- `ack` of an offset that is buffered. -/
theorem ack_some (h : s.sendBuffer.find? (·.streamOffset == o) = some p) (now : Nat) :
    (s.ack o now).1.reliableOffset = s.reliableOffset ∧
      (s.ack o now).1.highestAckedPlusOne =
        max s.highestAckedPlusOne (min (p.streamOffset + 1) u32Max) ∧
      (s.ack o now).1.sendBuffer = s.sendBuffer.eraseP (·.streamOffset == o) ∧
      (s.ack o now).1.sendSemaphore = s.sendSemaphore + 1 := by
  simp only [ack, h]
  grind [retire, noteAckedOffset, foldl_retire]

theorem ack_none (h : s.sendBuffer.find? (·.streamOffset == o) = none) (now : Nat) :
    (s.ack o now).1 = s := by
  simp only [ack, h]

theorem mem_ack (hp : p ∈ (s.ack o now).1.sendBuffer) : p ∈ s.sendBuffer := by
  unfold ack at hp
  split at hp
  · exact hp
  · exact mem_of_mem_eraseP hp

theorem ack_totals (s : Stream) (o now : Nat) :
    (s.ack o now).1.reliableOffset = s.reliableOffset ∧ (s.ack o now).1.bytesSent = s.bytesSent ∧
      (s.ack o now).1.peerSendLimit = s.peerSendLimit := by
  unfold ack
  split
  · exact ⟨rfl, rfl, rfl⟩
  · rename_i p _
    exact ⟨(foldl_retire now [p] s).1, foldl_retire_totals now [p] s⟩

theorem WellFormed.not_mem_eraseP (h : s.WellFormed)
    (hp : p ∈ s.sendBuffer.eraseP (·.streamOffset == o)) : p.streamOffset ≠ o :=
  ((Scan.mem_eraseP_key h.nodup_offsets).1 hp).2

theorem ack_sublist (s : Stream) (o now : Nat) : (s.ack o now).1.pending.Sublist s.pending := by
  cases hfind : s.sendBuffer.find? (·.streamOffset == o) with
  | none => rw [ack_none hfind]
  | some =>
    unfold pending
    rw [(ack_some hfind now).2.2.1]
    exact eraseP_sublist.map _

theorem ack_permits (s : Stream) (o now : Nat) :
    (s.ack o now).1.sendSemaphore + (s.ack o now).1.pending.length =
      s.sendSemaphore + s.pending.length := by
  cases hfind : s.sendBuffer.find? (·.streamOffset == o) with
  | none => rw [ack_none hfind]
  | some =>
    obtain ⟨-, -, hbuf, hperm⟩ := ack_some hfind now
    have hmem := mem_of_find?_eq_some hfind
    grind [pending, length_map, length_eraseP_of_mem, length_pos_of_mem]

theorem WellFormed.ack (h : s.WellFormed) (o now : Nat) : (s.ack o now).1.WellFormed := by
  have hsub := s.ack_sublist o now
  refine ⟨?_, fun q hq => ?_, h.distinct.sublist (hsub.map _), fun x hx => ?_,
    (s.ack_permits o now).trans h.permits⟩
  · exact (s.ack_totals o now).1 ▸ h.bound
  · exact (s.ack_totals o now).1 ▸ h.below q (hsub.subset hq)
  cases hfind : s.sendBuffer.find? (·.streamOffset == o) with
  | none =>
    rw [ack_none hfind] at hx ⊢
    exact h.acked x hx
  | some p =>
    obtain ⟨hoff, hmark, hbuf, -⟩ := ack_some hfind now
    have hat : p.streamOffset = o := by simpa using List.find?_some hfind
    have hlt : p.streamOffset < s.reliableOffset :=
      h.below _ (mem_map_of_mem (mem_of_find?_eq_some hfind))
    have hbound := h.bound
    rw [hoff]
    unfold lastAckedOffset at hx
    rw [hmark, Nat.min_eq_left (by omega)] at hx
    rcases Nat.le_total s.highestAckedPlusOne (p.streamOffset + 1) with hle | hle
    · rw [Nat.max_eq_right hle, if_neg (Nat.succ_ne_zero _)] at hx
      have hxo : p.streamOffset = x := Option.some.inj hx
      refine ⟨hxo ▸ hlt, fun q hq => ?_⟩
      obtain ⟨p', hp', rfl⟩ := mem_map.1 hq
      rw [← hxo, hat]
      exact h.not_mem_eraseP (hbuf ▸ hp')
    · rw [Nat.max_eq_left hle] at hx
      obtain ⟨hold, hne⟩ := h.acked x hx
      exact ⟨hold, fun q hq => hne q (hsub.subset hq)⟩

/-! ## Bytes on the wire -/

/-- The total payload length of the segments whose `sent_at` is set. -/
def flight (buffer : List PendingData) : Nat :=
  ((buffer.filter (·.sentAt.isSome)).map (·.data.length)).sum

/-- What one segment contributes. -/
def weight (p : PendingData) : Nat := if p.sentAt.isSome then p.data.length else 0

theorem flight_cons (p : PendingData) (l : List PendingData) :
    flight (p :: l) = weight p + flight l := by
  unfold flight weight
  cases hat : p.sentAt with
  | none | some => simp [hat]

theorem flight_append (l l' : List PendingData) : flight (l ++ l') = flight l + flight l' := by
  simp [flight]

theorem flight_replace (pre post : List PendingData) (p p' : PendingData) :
    flight (pre ++ p' :: post) + weight p = flight (pre ++ p :: post) + weight p' := by
  rw [flight_append, flight_append, flight_cons, flight_cons]
  omega

theorem weight_le_flight (h : p ∈ l) : weight p ≤ flight l := by
  obtain ⟨pre, post, rfl⟩ := append_of_mem h
  rw [flight_append, flight_cons]
  omega

theorem flight_le {c : Nat} (h : ∀ p ∈ l, p.data.length ≤ c) : flight l ≤ l.length * c := by
  induction l with
  | nil => exact Nat.zero_le _
  | cons => grind [weight, flight_cons, length_cons, Nat.succ_mul]

theorem flight_filter (f : PendingData → Bool) (l : List PendingData) :
    flight l = flight (l.filter f) + flight (l.filter fun p => !f p) := by
  induction l with
  | nil => rfl
  | cons => grind [filter_cons_of_pos, filter_cons_of_neg, flight_cons]

/-- What the receive task will take off the flight. -/
def reported (reports : List RetiredSegment) : Nat := (reports.map (·.size)).sum

/-- An acknowledgement takes off the wire exactly what it reports. -/
theorem onSack_flight (s : Stream) (k : Sack) (now : Nat) :
    flight s.sendBuffer = flight (s.onSack k now).1.sendBuffer +
      reported ((s.onSack k now).2.retired.filter (·.sentAt.isSome)) := by
  rw [flight_filter (fun p => k.acks p.streamOffset) s.sendBuffer, Nat.add_comm]
  congr 1
  · simp [onSack, flag, kept, flight, filter_map, Function.comp_def]
  · simp [onSack, flag, kept, flight, reported, filter_map, Function.comp_def, retiredSegment]

/-- Loss detection flags segments; it changes nothing else of them. -/
theorem mem_onSack {p' : PendingData} :
    p' ∈ (s.onSack k now).1.sendBuffer → ∃ p ∈ s.sendBuffer, k.acks p.streamOffset = false ∧
      ∃ cause, p' = { p with lost := cause } := by
  intro h
  obtain ⟨p, hp, rfl⟩ := mem_map.1 h
  obtain ⟨hmem, hkept⟩ := mem_filter.1 hp
  exact ⟨p, hmem, by simpa using hkept, _, rfl⟩

theorem lossOf_byPacket {largest : Nat} {threshold : Option Nat} {cause : LossCause}
    (h : lossOf largest threshold now p = some cause) (hcause : cause.byPacket = true) :
    p.retries = 0 ∧ p.streamOffset < largest ∧
      min (p.streamOffset + packetThreshold) u32Max ≤ largest := by
  unfold lossOf at h
  split at h
  · split at h
    · cases h
    · rename_i hbehind
      dsimp only at h
      split at h
      · simp_all
      · simp_all
      · cases h
        cases hcause
      · cases h
  · cases h

/-- A charged segment on the wire since `t`, with a count of `r` copies. -/
def flying (streamOffset : Nat) (data : Bytes) (r : UInt32) (t : Nat) : PendingData :=
  { pendingData streamOffset data false with
    sentAt := some t, deliveredTimeAtSend := some 0, retries := r, charged := true }

/-- It is the only one, and its timer has expired for certain. -/
theorem pollSend_flying {r : UInt32} {t : Nat} (hun : s.unreliableBuffer = [])
    (hbuf : s.sendBuffer = [flying o data r t]) (budget : Nat) :
    s.pollSend budget 0 0 false (t + RtoEstimator.maxRto) =
      ({ s with
          sendBuffer := [flying o data (r + 1) (t + RtoEstimator.maxRto)]
          rto := s.rto.onTimeout },
        .ok (retransmission (flying o data r t) (some .rto))) := by
  have hrto : s.rto.rto ≤ RtoEstimator.maxRto := Nat.min_le_right ..
  simp [pollSend, hun, fastRetransmit, timeoutRetransmit, hbuf, Scan.updateFirst, flying,
    pendingData, hrto]

/-- If the segment in hand is a retransmission, its count of retransmissions, a `u32` that wraps, is
not zero. -/
def CountsCopies (s : Stream) (polled : Option OutboundSegment) : Prop :=
  ∀ seg ∈ polled, seg.retransmit = true → ∀ p ∈ s.sendBuffer,
    p.streamOffset = seg.streamOffset → p.retries ≠ 0

instance (s : Stream) (polled : Option OutboundSegment) : Decidable (s.CountsCopies polled) :=
  inferInstanceAs (Decidable (∀ seg ∈ polled, _ → _))

end Stream

end PhantomProtocol
