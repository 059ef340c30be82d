import PhantomProtocol.Api.FlowControl
import PhantomProtocol.Transport.Proof.SendLedger

/-!
# A retransmission count that wraps

`mark_unsent` takes a segment whose count of retransmissions is zero for one that has never left.
The count is a `u32`: after 2^32 retransmissions it is zero again, and when that last copy is
refused, the charge of a payload comes back that the receiver may already have.
-/

namespace PhantomProtocol

open Finset

namespace FlowControl

open PhantomProtocol.Stream

/-- A full chunk. -/
def chunk : Bytes := List.replicate maxAppChunk 0

theorem chunk_length : chunk.length = maxAppChunk := List.length_replicate

variable {s : State} {m n q b : Nat} {buf : List PendingData} {tx rx : Stream}

/-- Between two writes: of `m` chunks `n` have been delivered and acknowledged, `q` of these wait
for the delivery task, and the sent total is `b`. No window update has arrived, and the window has
not grown. -/
structure Quiet (s : State) (m n q b : Nat) (buf : List PendingData) : Prop where
  polled : s.link.polled = none
  flushing : s.flushing = none
  queue : s.queue = List.replicate q (chunk, true)
  applied : s.applied = [initialStreamWindow]
  buffer : s.link.tx.sendBuffer = buf
  unreliable : s.link.tx.unreliableBuffer = []
  permits : s.link.tx.sendSemaphore + buf.length = maxPendingPackets
  assigned : s.link.tx.reliableOffset = m
  sent : s.link.tx.bytesSent = b
  limit : s.link.tx.peerSendLimit = initialStreamWindow
  acked : s.link.tx.highestAckedPlusOne = n
  unprobed : s.link.tx.persistProbeAt = none
  cursor : s.link.rx.recvSequence = n
  islands : s.link.rx.recvBuffer = []
  consumed : s.link.rx.bytesConsumed + q * maxAppChunk = n * maxAppChunk
  window : s.link.rx.advertisedRecvWindow = initialStreamWindow
  started : s.link.rx.recvWindowProbe.startedAt.getD 0 = 0

theorem quiet_init : Quiet init 0 0 0 0 [] := by
  constructor <;> rfl

/-- The first `n` chunks have been on the wire. -/
def Wired (s : State) (n : Nat) : Prop := ∀ o < n, (o, chunk) ∈ carried s.link.segments

theorem Wired.append {t : State} {segs : List OutboundSegment} (h : Wired s n)
    (hsegs : t.link.segments = s.link.segments ++ segs) : Wired t n := by
  intro o ho
  rw [hsegs, carried_append]
  exact mem_union_left _ (h o ho)

/-! ## Single calls -/

section

variable (hun : tx.unreliableBuffer = [])
include hun

theorem pollSend_first (hbuf : tx.sendBuffer = [pendingData n chunk false])
    (hroom : tx.bytesSent + maxAppChunk ≤ tx.peerSendLimit)
    (hmax : tx.bytesSent + maxAppChunk ≤ u64Max) :
    tx.pollSend maxAppChunk 0 0 false 0 =
      ({ tx with sendBuffer := [flying n chunk 0 0], bytesSent := tx.bytesSent + maxAppChunk },
        .ok ⟨n, chunk, true, false, false, none, false⟩) := by
  have hlen : maxAppChunk % (u32Max + 1) = maxAppChunk := by decide
  simp [pollSend, hun, fastRetransmit, timeoutRetransmit, firstTransmit, hbuf, Scan.updateFirst,
    pendingData, tryConsumeSendWindow, chunk_length, hlen, hroom, hmax, flying]

/-- With the window used up, a probe is sent. -/
theorem pollSend_probe (hbuf : tx.sendBuffer = [pendingData (n + 1) chunk false])
    (hfull : tx.peerSendLimit < tx.bytesSent + maxAppChunk)
    (hacked : tx.highestAckedPlusOne = n + 1) (hprobe : tx.persistProbeAt = none) :
    tx.pollSend maxAppChunk 0 0 false 0 =
      ({ tx with persistProbeAt := some 0 }, .ok ⟨n, [], true, false, false, none, false⟩) := by
  have hlen : maxAppChunk % (u32Max + 1) = maxAppChunk := by decide
  have hover : ¬tx.bytesSent + maxAppChunk ≤ tx.peerSendLimit := Nat.not_le.2 hfull
  simp [pollSend, hun, fastRetransmit, timeoutRetransmit, firstTransmit, hbuf, Scan.updateFirst,
    pendingData, tryConsumeSendWindow, chunk_length, hlen, hover, tryPersistProbe, lastAckedOffset,
    hacked, hprobe]

end

theorem markUnsent_flying {t : Nat} (hbuf : tx.sendBuffer = [flying n chunk 0 t]) :
    tx.markUnsent n =
      { tx with
        sendBuffer := [{ flying n chunk 0 t with sentAt := none, charged := false }]
        bytesSent := tx.bytesSent - maxAppChunk } := by
  simp [markUnsent, hbuf, Scan.updateFirst, flying, pendingData, chunk_length]

theorem onSack_single {p : PendingData} {k : Sack} (hbuf : tx.sendBuffer = [p])
    (hacks : k.acks p.streamOffset = true) (now : Nat) :
    ∃ rto, (tx.onSack k now).1 =
      { tx.noteAckedOffset p.streamOffset with
        sendBuffer := [], sendSemaphore := tx.sendSemaphore + 1, rto } := by
  have hone : (tx.onSack k now).1 =
      { retire now tx p with sendBuffer := [], sendSemaphore := tx.sendSemaphore + 1 } := by
    simp [onSack, flag, kept, hbuf, hacks]
  grind [retire]

theorem acceptInOrder_next (hseq : rx.recvSequence = n) (hbuf : rx.recvBuffer = [])
    (hn : n + 1 ≤ u32Max) (data : Bytes) (now : Nat) :
    rx.acceptInOrder n [data] now =
      ({ rx with lastDataRecvAt := some now, recvSequence := n + 1 }, [data]) := by
  have hwrap : (n + 1) % (u32Max + 1) = n + 1 := Nat.mod_eq_of_lt (Nat.lt_succ_of_le hn)
  simp [acceptInOrder, hseq, hbuf, drain, hwrap]

theorem receivedSack_run (rx : Stream) (hseq : rx.recvSequence = n + 1) (hbuf : rx.recvBuffer = [])
    (now : Nat) : ∃ k, rx.receivedSack 0 now = some k ∧ k.acks n = true := by
  simp [receivedSack, hseq, hbuf, Sack.fromInclusiveRanges, Sack.fromAscendingCoalesced,
    Ranges.coalesce, Ranges.push, Sack.reduceRanges, maxSackRanges, Sack.acks, Ranges.covers]

theorem recordAppConsumed_still (hwindow : rx.advertisedRecvWindow = initialStreamWindow)
    (hstarted : rx.recvWindowProbe.startedAt.getD 0 = 0) (tuning : SharedRecvTuning) (k : Nat) :
    (rx.recordAppConsumed tuning k true 0).1.bytesConsumed = (rx.bytesConsumed + k) % (u64Max + 1) ∧
      (rx.recordAppConsumed tuning k true 0).1.advertisedRecvWindow = initialStreamWindow ∧
      (rx.recordAppConsumed tuning k true 0).1.recvWindowProbe.startedAt.getD 0 = 0 := by
  have hmax : ¬maxRecvWindow ≤ initialStreamWindow := by decide
  have hinterval : 0 < max (rx.rto.minRtt.getD autotuneRttFallback * 2) autotuneMinInterval :=
    lt_max_of_lt_right (by decide)
  cases hs : rx.recvWindowProbe.startedAt with
  | none =>
    simp [*, recordAppConsumed, tuneRecvWindow, measureRecvRate, Bool.not_true, Bool.false_eq_true]
  | some t =>
    have ht : t = 0 := by simpa [hs] using hstarted
    subst ht
    simp only [recordAppConsumed, tuneRecvWindow, measureRecvRate, hwindow, hmax, hs, if_false,
      Bool.not_true, Bool.false_eq_true, Option.getD_some, Nat.sub_zero, hinterval, if_true]
    exact ⟨trivial, trivial, trivial⟩

/-! ## Events -/

section Poll

variable {Q : State → Prop} {tx : Stream} {seg : OutboundSegment} {now : Nat}

theorem step_pollSend (hidle : s.link.polled = none)
    (hpoll : s.link.tx.pollSend maxAppChunk 0 0 false now = (tx, .ok seg)) :
    step s (.transport (.pollSend maxAppChunk 0 0 false now)) =
      some { s with link := { s.link with tx, polled := some seg } } := by
  simp [step, offers, ReliableDelivery.step, hidle, hpoll, Except.toOption]

/-- A segment is polled, and its write succeeds. -/
theorem can_write (hidle : s.link.polled = none)
    (hpoll : s.link.tx.pollSend maxAppChunk 0 0 false now = (tx, .ok seg))
    (h : Lts.Can step Q { s with
      link := { s.link with tx, polled := none, segments := s.link.segments ++ [seg] } }) :
    Lts.Can step Q s :=
  .next (step_pollSend hidle hpoll) (.next (e := .transport .written) rfl h)

theorem can_refuse {tx' : Stream} (hidle : s.link.polled = none)
    (hpoll : s.link.tx.pollSend maxAppChunk 0 0 false now = (tx, .ok seg))
    (hrel : seg.reliable = true) (hmark : tx.markUnsent seg.streamOffset = tx')
    (h : Lts.Can step Q { s with link := { s.link with tx := tx', polled := none } }) :
    Lts.Can step Q s := by
  refine .next (step_pollSend hidle hpoll) (.next (e := .transport .refused) ?_ h)
  simp [step, offers, ReliableDelivery.step, hrel, hmark]

end Poll

namespace Quiet

theorem send (h : Quiet s n n q b []) (hn : n + 1 ≤ u32Max) :
    ∃ t, step s (.transport (.offer (.sendReliable chunk))) = some t ∧
      Quiet t (n + 1) n q b [pendingData n chunk false] ∧ t.link.segments = s.link.segments := by
  have hpermits : s.link.tx.sendSemaphore = maxPendingPackets := h.permits
  have hsome : s.link.tx.sendSemaphore ≠ 0 := by rw [hpermits]; decide
  have hchunk : chunk.length ≤ maxAppChunk := Nat.le_of_eq chunk_length
  have hoffset : s.link.tx.nextReliableOffset = .ok (n, n + 1) := by
    simp [nextReliableOffset, h.assigned, hn]
  refine ⟨{ s with link := (ReliableDelivery.offered s.link
    (s.link.tx.enqueue chunk false).1 (s.link.tx.enqueue chunk false).2.isOk chunk) }, ?_, ?_, rfl⟩
  · simp_all [step, offers, decide_true, ReliableDelivery.step, offer, Offer.data, sendReliable]
  · simp only [ReliableDelivery.offered, enqueue, hoffset]
    refine { h with buffer := ?_, permits := ?_, assigned := rfl }
    · simp [h.buffer]
    · grind

theorem launch (h : Quiet s n n q b []) (hw : Wired s n) (hn : n + 1 ≤ u32Max)
    (hroom : b + maxAppChunk ≤ initialStreamWindow) :
    Lts.Can step (fun t => Quiet t (n + 1) n q (b + maxAppChunk) [flying n chunk 0 0] ∧
      Wired t (n + 1)) s := by
  obtain ⟨t, ht, hq, hsegs⟩ := h.send hn
  have hmax : initialStreamWindow ≤ u64Max := by decide
  have hpoll := pollSend_first hq.unreliable hq.buffer (by rw [hq.sent, hq.limit]; exact hroom)
    (by rw [hq.sent]; omega)
  rw [hq.sent] at hpoll
  refine .next ht (can_write hq.polled hpoll (.here ⟨?_, fun o ho => ?_⟩))
  · exact { hq with polled := rfl, buffer := rfl, sent := rfl, permits := hq.permits }
  rw [hsegs, carried_append]
  rcases Nat.lt_succ_iff_lt_or_eq.1 ho with ho | rfl
  · exact mem_union_left _ (hw o ho)
  · exact mem_union_right _ (by simp [carried_reliable])

theorem again {r : UInt32} {t : Nat} (h : Quiet s m n q b [flying n chunk r t]) (hw : Wired s m) :
    Lts.Can step (fun u => Quiet u m n q b [flying n chunk (r + 1) (t + RtoEstimator.maxRto)] ∧
      Wired u m) s := by
  refine can_write h.polled (pollSend_flying h.unreliable h.buffer maxAppChunk)
    (.here ⟨?_, hw.append rfl⟩)
  exact { h with polled := rfl, buffer := rfl, permits := h.permits }

/-- The count climbs to its top. -/
theorem climb (h : Quiet s m n q b [flying n chunk 0 0]) (hw : Wired s m) :
    Lts.Can step (fun u => ∃ t, Quiet u m n q b [flying n chunk (UInt32.ofNat (2 ^ 32 - 1)) t] ∧
      Wired u m) s := by
  refine Lts.Can.iterate (Q := fun k u => ∃ t, Quiet u m n q b [flying n chunk (UInt32.ofNat k) t] ∧
    Wired u m) (fun k _ u hu => ?_) ⟨0, h, hw⟩
  obtain ⟨t, hq, hwu⟩ := hu
  refine (hq.again hwu).bind fun v hv => .here ⟨t + RtoEstimator.maxRto, ?_⟩
  rw [UInt32.ofNat_add]
  exact hv

theorem refuse {t : Nat} (h : Quiet s m n q b [flying n chunk (UInt32.ofNat (2 ^ 32 - 1)) t])
    (hw : Wired s m) :
    Lts.Can step (fun u => (∃ p, p.streamOffset = n ∧ Quiet u m n q (b - maxAppChunk) [p]) ∧
      Wired u m) s := by
  have hpoll := pollSend_flying h.unreliable h.buffer maxAppChunk
  have hwrap : UInt32.ofNat (2 ^ 32 - 1) + 1 = 0 := by decide
  rw [hwrap] at hpoll
  refine can_refuse h.polled hpoll rfl (markUnsent_flying (n := n) rfl) (.here ⟨⟨
    { flying n chunk 0 (t + RtoEstimator.maxRto) with sentAt := none, charged := false }, rfl, ?_⟩,
    hw⟩)
  exact { h with polled := rfl, buffer := rfl, sent := by rw [h.sent], permits := h.permits }

theorem settle {p : PendingData} (h : Quiet s (n + 1) n q b [p]) (hp : p.streamOffset = n)
    (hw : Wired s (n + 1)) (hn : n + 1 ≤ u32Max) :
    Lts.Can step (fun t => Quiet t (n + 1) (n + 1) (q + 1) b [] ∧ Wired t (n + 1)) s := by
  obtain ⟨seg, hseg, hrel, -, heq⟩ := mem_carried.1 (hw n (Nat.lt_succ_self n))
  obtain ⟨hoff, hdata⟩ : seg.streamOffset = n ∧ seg.data = chunk := Prod.mk.inj heq
  obtain ⟨i, hi⟩ := List.getElem?_of_mem hseg
  have haccept := acceptInOrder_next h.cursor h.islands hn chunk 0
  obtain ⟨k, hk, hacks⟩ := receivedSack_run
    { s.link.rx with lastDataRecvAt := some 0, recvSequence := n + 1 } rfl h.islands 0
  have hne : chunk ≠ [] := List.ne_nil_of_length_pos (by rw [chunk_length]; decide)
  have harrive : step s (.segment i 0 true) = some { s with
      link := { s.link with
        rx := { s.link.rx with lastDataRecvAt := some 0, recvSequence := n + 1 }
        delivered := s.link.delivered ++ [chunk]
        sacks := s.link.sacks ++ [k] }
      queue := s.queue ++ [(chunk, true)] } := by
    simp [step, hi, hrel, arrive, ReliableDelivery.arrive, hoff, hdata, haccept, hk, hne,
      deliverInOrderRun]
  obtain ⟨rto, hsack⟩ := onSack_single h.buffer (by rw [hp]; exact hacks) 0
  refine .next harrive (.next (e := .transport (.sack s.link.sacks.length 0)) (t := { s with
      link := { s.link with
        tx := (s.link.tx.onSack k 0).1
        rx := { s.link.rx with lastDataRecvAt := some 0, recvSequence := n + 1 }
        delivered := s.link.delivered ++ [chunk]
        sacks := s.link.sacks ++ [k] }
      queue := s.queue ++ [(chunk, true)] }) ?_ (.here ⟨?_, hw⟩))
  · simp [step, offers, ReliableDelivery.step]
  · rw [hsack]
    have hcons := h.consumed
    refine { h with queue := ?_, buffer := rfl, permits := ?_, acked := ?_, cursor := rfl, consumed := ?_ }
    · rw [h.queue, List.replicate_succ']
    · exact h.permits
    · simp only [noteAckedOffset, h.acked, hp]
      omega
    · dsimp only
      rw [Nat.succ_mul, Nat.succ_mul]
      omega

/-- The delivery task takes a payload. -/
theorem consume (h : Quiet s m n (q + 1) b buf) (hw : Wired s m) (hn : n ≤ u32Max) :
    Lts.Can step (fun t => Quiet t m n q b buf ∧ Wired t m) s := by
  have hqueue : s.queue = (chunk, true) :: List.replicate q (chunk, true) := h.queue
  obtain ⟨hcons, hwin, hstart⟩ := recordAppConsumed_still h.window h.started s.link.tuning
    (chunk.length % (u32Max + 1))
  obtain ⟨hseq, hbuf⟩ := s.link.rx.recordAppConsumed_frame s.link.tuning
    (chunk.length % (u32Max + 1)) true 0
  have htotal : s.link.rx.bytesConsumed + maxAppChunk + q * maxAppChunk = n * maxAppChunk := by
    have hcons := h.consumed
    rw [Nat.succ_mul] at hcons
    omega
  have hfits : s.link.rx.bytesConsumed + maxAppChunk < u64Max + 1 := by
    have hle := Nat.mul_le_mul_right maxAppChunk hn
    have hroom : u32Max * maxAppChunk < u64Max + 1 := by decide
    omega
  have hlen : chunk.length % (u32Max + 1) = maxAppChunk := by
    rw [chunk_length]
    decide
  have hquiet : Quiet { s with
      queue := List.replicate q (chunk, true)
      link := { s.link with
        rx := (s.link.rx.recordAppConsumed s.link.tuning (chunk.length % (u32Max + 1)) true 0).1
        tuning := (s.link.rx.recordAppConsumed s.link.tuning (chunk.length % (u32Max + 1))
          true 0).2.1 } } m n q b buf :=
    { h with
      queue := rfl
      cursor := hseq.trans h.cursor
      islands := hbuf.trans h.islands
      consumed := by
        dsimp only
        rw [hcons, hlen, Nat.mod_eq_of_lt hfits]
        exact htotal
      window := hwin
      started := hstart }
  refine .next (e := .consume 0) (t := FlowControl.consume
    { s with queue := List.replicate q (chunk, true) } chunk true 0) ?_ (.here ⟨?_, ?_⟩)
  · simp [step, hqueue]
  · unfold FlowControl.consume
    dsimp only
    split
    · exact { hquiet with }
    · exact hquiet
  · intro o ho
    rw [consume_link]
    exact hw o ho

/-- A chunk is charged, delivered and acknowledged. -/
theorem delivers (h : Quiet s n n q b []) (hw : Wired s n) (hn : n + 1 ≤ u32Max)
    (hroom : b + maxAppChunk ≤ initialStreamWindow) :
    Lts.Can step (fun t => Quiet t (n + 1) (n + 1) (q + 1) (b + maxAppChunk) [] ∧
      Wired t (n + 1)) s :=
  (h.launch hw hn hroom).bind fun _ ht => ht.1.settle rfl ht.2 hn

/-- A chunk is delivered and acknowledged, and the sent total is what it was before. -/
theorem wraps (h : Quiet s n n q b []) (hw : Wired s n) (hn : n + 1 ≤ u32Max)
    (hroom : b + maxAppChunk ≤ initialStreamWindow) :
    Lts.Can step (fun t => Quiet t (n + 1) (n + 1) (q + 1) b [] ∧ Wired t (n + 1)) s := by
  refine (h.launch hw hn hroom).bind fun t ht => (ht.1.climb ht.2).bind fun u hu => ?_
  obtain ⟨clock, hq, hwu⟩ := hu
  refine (hq.refuse hwu).bind fun v hv => ?_
  obtain ⟨⟨p, hp, hqv⟩, hwv⟩ := hv
  rw [Nat.add_sub_cancel] at hqv
  exact hqv.settle hp hwv hn

end Quiet

end FlowControl

end PhantomProtocol
