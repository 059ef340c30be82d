import PhantomProtocol.Transport.Stream

/-!
# What the operations of a stream do

One specification lemma for each operation of `Transport.Stream`, in terms of the offsets and
payloads it keeps (`pending` on the sending side, `Held` on the receiving side).
-/

namespace PhantomProtocol

open List Option Bool

/-- What was admitted at an offset stays there. -/
theorem getElem?_append_of_some {admitted : List Bytes} {o : Nat} {data : Bytes}
    (h : admitted[o]? = some data) (more : List Bytes) : (admitted ++ more)[o]? = some data := by
  rw [List.getElem?_append_left (List.getElem?_eq_some_iff.1 h).1]
  exact h

namespace Stream

variable {s s' : Stream} {seg : OutboundSegment} {data : Bytes}
  {r : Except SendBlocked OutboundSegment} {now fuel : Nat} {k : Sack}

/-- The offsets and payloads the sender still has. -/
def pending (s : Stream) : List (Nat × Bytes) := s.sendBuffer.map fun p => (p.streamOffset, p.data)

/-- The receiver has the segment at `offset`, delivered or in its reorder buffer. -/
def Held (s : Stream) (offset : Nat) : Prop :=
  offset < s.recvSequence ∨ ∃ e ∈ s.recvBuffer, e.1 = offset

/-! ## Sending side -/

/-- The operation takes no offset and no permit, and changes neither the buffered payloads nor the
high-water mark of acknowledgements. -/
structure Keeps (s s' : Stream) : Prop where
  reliableOffset : s'.reliableOffset = s.reliableOffset
  highestAcked : s'.highestAckedPlusOne = s.highestAckedPlusOne
  permits : s'.sendSemaphore = s.sendSemaphore
  pending : s'.pending = s.pending

theorem Keeps.refl (s : Stream) : s.Keeps s := ⟨rfl, rfl, rfl, rfl⟩

theorem Keeps.lastAckedOffset (h : s.Keeps s') : s'.lastAckedOffset = s.lastAckedOffset := by
  unfold Stream.lastAckedOffset
  rw [h.highestAcked]

/-- The operation appends `data` at the next offset. -/
structure Appends (s s' : Stream) (data : Bytes) : Prop where
  assigned : s'.reliableOffset = s.reliableOffset + 1
  bound : s'.reliableOffset ≤ u32Max
  highestAcked : s'.highestAckedPlusOne = s.highestAckedPlusOne
  permits : s'.sendSemaphore + 1 = s.sendSemaphore
  buffer : ∃ fin, s'.sendBuffer = s.sendBuffer ++ [pendingData s.reliableOffset data fin]

theorem Appends.lastAckedOffset (h : s.Appends s' data) :
    s'.lastAckedOffset = s.lastAckedOffset := by
  unfold Stream.lastAckedOffset
  rw [h.highestAcked]

theorem Appends.pending (h : s.Appends s' data) :
    s'.pending = s.pending ++ [(s.reliableOffset, data)] := by
  obtain ⟨fin, hbuf⟩ := h.buffer
  simp [Stream.pending, hbuf, pendingData]

theorem enqueue_spec (data : Bytes) (fin : Bool) (hpermit : s.sendSemaphore ≠ 0) :
    ((s.enqueue data fin).2.isOk = true ∧ s.Appends (s.enqueue data fin).1 data) ∨
      ((s.enqueue data fin).2.isOk = false ∧ (s.enqueue data fin).1 = s) := by
  unfold enqueue nextReliableOffset
  by_cases hroom : s.reliableOffset + 1 ≤ u32Max
  · rw [if_pos hroom]
    exact .inl ⟨rfl, rfl, hroom, rfl, Nat.succ_pred_eq_of_ne_zero hpermit, fin, rfl⟩
  · rw [if_neg hroom]
    exact .inr ⟨rfl, rfl⟩

theorem taken_map_true {α : Type} (r : Except CoreError α) :
    taken (r.map fun _ => true) = r.isOk := by
  cases r <;> rfl

theorem isOk_map {α β : Type} (g : α → β) (r : Except CoreError α) : (r.map g).isOk = r.isOk := by
  cases r <;> rfl

/-- What an admitting function that takes `data` may change: nothing of the sender's totals, and of
the send buffer no segment that is there. -/
structure Admits (s s' : Stream) (data : Bytes) (fin : Bool) : Prop where
  sent : s'.bytesSent = s.bytesSent
  limit : s'.peerSendLimit = s.peerSendLimit
  buffer : ∀ p ∈ s'.sendBuffer, p ∈ s.sendBuffer ∨ p = pendingData s.reliableOffset data fin

theorem Admits.refl (s : Stream) (data : Bytes) (fin : Bool) : s.Admits s data fin :=
  ⟨rfl, rfl, fun _ => .inl⟩

theorem enqueue_admits (s : Stream) (data : Bytes) (fin : Bool) :
    s.Admits (s.enqueue data fin).1 data fin := by
  unfold enqueue nextReliableOffset
  by_cases hroom : s.reliableOffset + 1 ≤ u32Max
  · rw [if_pos hroom]
    exact ⟨rfl, rfl, fun p hp => by simpa using hp⟩
  · rw [if_neg hroom]
    exact .refl s data fin

theorem enqueue_localFinished (s : Stream) (data : Bytes) (fin : Bool) :
    (s.enqueue data fin).1.localFinished =
      (s.localFinished || fin && (s.enqueue data fin).2.isOk) := by
  unfold enqueue
  split
  · simp [Except.isOk, Except.toBool]
  · simp [Except.isOk, Except.toBool]

section

variable {o : Offer} {admitted : Bool} (h : s.offer o = some (s', admitted))
include h

/-- Without a permit nothing happens; with one, every call is `enqueue`. -/
theorem offer_cases : (admitted = false ∧ s' = s) ∨ (s.sendSemaphore ≠ 0 ∧
    s' = (s.enqueue o.data o.fin).1 ∧ admitted = (s.enqueue o.data o.fin).2.isOk) := by
  by_cases hpermit : s.sendSemaphore = 0
  · refine .inl ?_
    cases o <;> simp_all [offer, sendReliable, trySendReliable, queueFin, tryQueueFin, taken]
  · refine .inr ⟨hpermit, ?_⟩
    cases o <;> simp_all [offer, sendReliable, trySendReliable, queueFin, tryQueueFin,
      taken_map_true, isOk_map, Offer.data, Offer.fin]

theorem offer_spec : (admitted = true ∧ s.Appends s' o.data) ∨ (admitted = false ∧ s' = s) := by
  rcases offer_cases h with hnone | ⟨hpermit, rfl, rfl⟩
  · exact .inr hnone
  · exact enqueue_spec o.data o.fin hpermit

theorem offer_admits : s.Admits s' o.data o.fin := by
  rcases offer_cases h with ⟨-, rfl⟩ | ⟨-, rfl, -⟩
  · exact .refl s' o.data o.fin
  · exact s.enqueue_admits o.data o.fin

theorem offer_localFinished : s'.localFinished = (s.localFinished || o.fin && admitted) := by
  rcases offer_cases h with ⟨rfl, rfl⟩ | ⟨-, rfl, rfl⟩
  · rw [Bool.and_false, Bool.or_false]
  · exact s.enqueue_localFinished o.data o.fin

end

/-- `seg` is a transmission of the buffered segment `p`, which it leaves as `p'`. -/
structure Transmits (seg : OutboundSegment) (p p' : PendingData) : Prop where
  streamOffset : seg.streamOffset = p.streamOffset
  data : seg.data = p.data
  reliable : seg.reliable = true
  retransmit : seg.retransmit = p.sentAt.isSome
  sameOffset : p'.streamOffset = p.streamOffset
  sameData : p'.data = p.data
  stamped : p'.sentAt.isSome = true

/-- `seg` is a copy of the buffered segment `p`, which it leaves as `p'`, and the sent total goes
from `sent` to `sent'`. A first copy is charged unless the segment is a FIN or still holds its
charge; a retransmission is not charged, but counted by the segment. -/
structure Bills (seg : OutboundSegment) (p p' : PendingData) (sent sent' : Nat) : Prop where
  transmits : Transmits seg p p'
  fin : seg.fin = p.fin
  sameFin : p'.fin = p.fin
  again : p.sentAt.isSome = true →
    p'.retries = p.retries + 1 ∧ p'.charged = p.charged ∧ sent' = sent
  first : p.sentAt = none → p'.retries = p.retries ∧ p'.charged = (p.charged || !p.fin) ∧
    sent' = sent + if p.fin || p.charged then 0 else p.data.length % (u32Max + 1)

/-- The operation leaves the send buffer and both totals of the sender as they are. -/
structure Idles (s s' : Stream) : Prop where
  keeps : s.Keeps s'
  buffer : s'.sendBuffer = s.sendBuffer
  sent : s'.bytesSent = s.bytesSent
  limit : s'.peerSendLimit = s.peerSendLimit

/-- The three passes of `poll_send`: how it takes the segment `p` from the send buffer, which
becomes `p'`, and hands out `seg`. -/
inductive Copied (s s' : Stream) (seg : OutboundSegment) (p p' : PendingData) : Prop
  | fast {cause : LossCause} {now : Nat} (hlost : p.lost = some cause)
      (hsent : p.sentAt.isSome = true)
      (hp' : p' = { p with lost := none, sentAt := some now, retries := p.retries + 1 })
      (hseg : seg = retransmission p (some cause)) (hbytes : s'.bytesSent = s.bytesSent) :
      Copied s s' seg p p'
  | timeout {now : Nat} (hlost : p.lost = none) (hsent : p.sentAt.isSome = true)
      (hp' : p' = { p with sentAt := some now, retries := p.retries + 1 })
      (hseg : seg = retransmission p (some .rto)) (hbytes : s'.bytesSent = s.bytesSent) :
      Copied s s' seg p p'
  | first {dn dt now : Nat} {limited : Bool} (hsent : p.sentAt = none)
      (hp' : p' =
        { p with
          charged := p.charged || !p.fin
          sentAt := some now
          deliveredAtSend := dn
          deliveredTimeAtSend := some dt
          appLimitedAtSend := limited })
      (hseg : seg =
        { streamOffset := p.streamOffset, data := p.data, reliable := true, retransmit := false,
          firstRetransmit := false, lossCause := none, fin := p.fin })
      (hbytes : s'.bytesSent = s.bytesSent +
        if p.fin || p.charged then 0 else p.data.length % (u32Max + 1)) :
      Copied s s' seg p p'

/-- Everything `poll_send` can do. -/
inductive Emitted (s : Stream) : Stream → Except SendBlocked OutboundSegment → Prop
  | blocked (why : SendBlocked) : Emitted s s (.error why)
  | unreliable {s' : Stream} {seg : OutboundSegment} (hidles : s.Idles s')
      (hrel : seg.reliable = false) (hre : seg.retransmit = false)
      (hcause : seg.lossCause = none) : Emitted s s' (.ok seg)
  | copied {s' : Stream} {seg : OutboundSegment} {pre post : List PendingData}
      {p p' : PendingData} (hkeeps : s.Keeps s') (hbuf : s.sendBuffer = pre ++ p :: post)
      (hbuf' : s'.sendBuffer = pre ++ p' :: post) (hlimit : s'.peerSendLimit = s.peerSendLimit)
      (hcopied : Copied s s' seg p p')
      (hroom : s.bytesSent ≤ s.peerSendLimit → s'.bytesSent ≤ s.peerSendLimit) :
      Emitted s s' (.ok seg)
  | probe {s' : Stream} {seg : OutboundSegment} (hidles : s.Idles s')
      (hacked : s.lastAckedOffset = some seg.streamOffset) (hdata : seg.data = [])
      (hfin : seg.fin = false) (hrel : seg.reliable = true) (hre : seg.retransmit = false)
      (hcause : seg.lossCause = none) : Emitted s s' (.ok seg)

theorem Copied.bills {p p' : PendingData} (h : Copied s s' seg p p') :
    Bills seg p p' s.bytesSent s'.bytesSent := by
  cases h with
  | fast _ hsent hp' hseg hbytes =>
    subst hp' hseg
    refine ⟨⟨rfl, rfl, rfl, hsent.symm, rfl, rfl, rfl⟩, rfl, rfl, fun _ => ⟨rfl, rfl, hbytes⟩,
      fun hnone => ?_⟩
    rw [hnone] at hsent
    cases hsent
  | timeout _ hsent hp' hseg hbytes =>
    subst hp' hseg
    refine ⟨⟨rfl, rfl, rfl, hsent.symm, rfl, rfl, rfl⟩, rfl, rfl, fun _ => ⟨rfl, rfl, hbytes⟩,
      fun hnone => ?_⟩
    rw [hnone] at hsent
    cases hsent
  | first hsent hp' hseg hbytes =>
    subst hp' hseg
    refine ⟨⟨rfl, rfl, rfl, ?_, rfl, rfl, rfl⟩, rfl, rfl, fun hat => ?_,
      fun _ => ⟨rfl, rfl, hbytes⟩⟩
    · rw [hsent]
      rfl
    · rw [hsent] at hat
      cases hat

theorem Emitted.limit (h : s.Emitted s' r) : s'.peerSendLimit = s.peerSendLimit := by
  cases h with
  | blocked => rfl
  | unreliable hidles => exact hidles.limit
  | copied _ _ _ hlimit => exact hlimit
  | probe hidles => exact hidles.limit

theorem Emitted.keeps (h : s.Emitted s' r) : s.Keeps s' := by
  cases h with
  | blocked => exact .refl s
  | unreliable hidles => exact hidles.keeps
  | copied hkeeps => exact hkeeps
  | probe hidles => exact hidles.keeps

theorem Emitted.reliable (h : s.Emitted s' (.ok seg)) (hrel : seg.reliable = true) :
    (seg.streamOffset, seg.data) ∈ s.pending ∨ s.lastAckedOffset = some seg.streamOffset := by
  cases h with
  | unreliable _ hrel' => exact absurd (hrel'.symm.trans hrel) false_ne_true
  | @copied _ _ pre post p p' _ hbuf _ _ hcopied =>
    have hseg := hcopied.bills.transmits
    refine .inl (mem_map.2 ⟨p, ?_, ?_⟩)
    · simp [hbuf]
    · rw [hseg.streamOffset, hseg.data]
  | probe _ hacked => exact .inr hacked

/-- A persist probe is sent while nothing is on the wire. It repeats the last acknowledged offset,
and all it leaves behind is the time of the probe. -/
theorem tryPersistProbe_some {inFlight : Bool}
    (h : s.tryPersistProbe now inFlight = some (s', seg)) :
    inFlight = false ∧ s' = { s with persistProbeAt := some now } ∧
      ∃ o, s.lastAckedOffset = some o ∧ seg = ⟨o, [], true, false, false, none, false⟩ := by
  unfold tryPersistProbe at h
  split at h
  · cases h
  · grind

/-- A scan that only restamps changes no payload. -/
theorem pending_updateFirst {p : PendingData → Bool} {f : PendingData → PendingData}
    {q : PendingData} {buffer : List PendingData}
    (h : Scan.updateFirst p f s.sendBuffer = some (q, buffer))
    (hf : ∀ q, (f q).streamOffset = q.streamOffset ∧ (f q).data = q.data) :
    buffer.map (fun p => (p.streamOffset, p.data)) = s.pending :=
  Scan.updateFirst_map (fun q => by rw [(hf q).1, (hf q).2]) h

theorem tryConsumeSendWindow_some {n sent : Nat} (h : s.tryConsumeSendWindow n = some sent) :
    sent = s.bytesSent + n ∧ sent ≤ s.peerSendLimit := by
  unfold tryConsumeSendWindow at h
  split at h
  · cases h
    exact ⟨rfl, (‹_› : _ ∧ _).2⟩
  · cases h

/-- The outcomes of `poll_send`, pass by pass. -/
inductive Passes (s : Stream) (now : Nat) : Stream → Except SendBlocked OutboundSegment → Prop
  | unreliable {data : Bytes} {rest : List Bytes} :
      Passes s now { s with unreliableBuffer := rest }
        (.ok ⟨0, data, false, false, false, none, false⟩)
  | fast {p : PendingData} {buffer : List PendingData}
      (hscan : Scan.updateFirst (fun p => p.lost.isSome && p.sentAt.isSome)
        (fun p => { p with lost := none, sentAt := some now, retries := p.retries + 1 })
        s.sendBuffer = some (p, buffer)) :
      Passes s now { s with sendBuffer := buffer } (.ok (retransmission p p.lost))
  | timeout {p : PendingData} {buffer : List PendingData}
      (hfast : ∀ p ∈ s.sendBuffer, (p.lost.isSome && p.sentAt.isSome) = false)
      (hscan : Scan.updateFirst (fun p => p.sentAt.any (s.rto.rto ≤ now - ·))
        (fun p => { p with sentAt := some now, retries := p.retries + 1 }) s.sendBuffer =
          some (p, buffer)) :
      Passes s now { s with sendBuffer := buffer, rto := s.rto.onTimeout }
        (.ok (retransmission p (some .rto)))
  | first {dn dt sent : Nat} {limited : Bool} {p : PendingData} {buffer : List PendingData}
      (hscan : Scan.updateFirst (·.sentAt.isNone)
        (fun p => { p with
          charged := p.charged || !p.fin
          sentAt := some now
          deliveredAtSend := dn
          deliveredTimeAtSend := some dt
          appLimitedAtSend := limited }) s.sendBuffer = some (p, buffer))
      (hsent : if p.fin || p.charged then sent = s.bytesSent
        else s.tryConsumeSendWindow (p.data.length % (u32Max + 1)) = some sent) :
      Passes s now { s with sendBuffer := buffer, bytesSent := sent }
        (.ok ⟨p.streamOffset, p.data, true, false, false, none, p.fin⟩)
  | probe {o : Nat} (hacked : s.lastAckedOffset = some o) :
      Passes s now { s with persistProbeAt := some now }
        (.ok ⟨o, [], true, false, false, none, false⟩)
  | blocked {why : SendBlocked} (hwhy : why = .flowControl →
      ∃ p, s.sendBuffer.find? (·.sentAt.isNone) = some p ∧ p.fin = false ∧ p.charged = false ∧
        s.tryConsumeSendWindow (p.data.length % (u32Max + 1)) = none) :
      Passes s now s (.error why)

theorem firstTransmit_passes (s : Stream) (budget dn dt : Nat) (limited : Bool) (now : Nat) :
    s.Passes now (s.firstTransmit budget dn dt limited now).1
      (s.firstTransmit budget dn dt limited now).2 := by
  unfold firstTransmit
  dsimp only
  split
  · exact .blocked nofun
  · rename_i p buffer hscan
    split
    · exact .blocked nofun
    · split
      · rename_i hfree
        exact .first hscan (by rw [if_pos hfree])
      · rename_i hcharge
        split
        · rename_i hconsume
          exact .first hscan (by rw [if_neg hcharge, hconsume])
        · rename_i hfull
          split
          · rename_i hprobe
            obtain ⟨-, rfl, o, hacked, rfl⟩ := tryPersistProbe_some hprobe
            exact .probe hacked
          · obtain ⟨hfin, hunch⟩ : p.fin = false ∧ p.charged = false := by simpa using hcharge
            exact .blocked fun _ => ⟨p, Scan.find?_of_updateFirst hscan, hfin, hunch, hfull⟩

theorem pollSend_passes (s : Stream) (budget dn dt : Nat) (limited : Bool) (now : Nat) :
    s.Passes now (s.pollSend budget dn dt limited now).1
      (s.pollSend budget dn dt limited now).2 := by
  unfold pollSend
  split
  · exact .unreliable
  · split
    · rename_i hfast
      obtain ⟨r, hscan, heq⟩ := map_eq_some_iff.1 hfast
      cases heq
      exact .fast hscan
    · rename_i hfast
      split
      · rename_i htimeout
        obtain ⟨r, hscan, heq⟩ := map_eq_some_iff.1 htimeout
        cases heq
        exact .timeout (Scan.updateFirst_none (map_eq_none_iff.1 hfast)) hscan
      · exact s.firstTransmit_passes budget dn dt limited now

theorem Passes.emitted (h : s.Passes now s' r) : s.Emitted s' r := by
  cases h with
  | unreliable => exact .unreliable ⟨⟨rfl, rfl, rfl, rfl⟩, rfl, rfl, rfl⟩ rfl rfl rfl
  | fast hscan =>
    obtain ⟨pre, post, hbuf, hbuf', hq⟩ := Scan.updateFirst_some hscan
    obtain ⟨hlost, hsent⟩ := and_eq_true_iff.1 hq
    obtain ⟨cause, hcause⟩ := isSome_iff_exists.1 hlost
    have hpending := pending_updateFirst hscan fun _ => ⟨rfl, rfl⟩
    exact .copied ⟨rfl, rfl, rfl, hpending⟩ hbuf hbuf' rfl
      (.fast hcause hsent rfl (by rw [hcause]) rfl) fun hle => hle
  | @timeout p _ hfast hscan =>
    obtain ⟨pre, post, hbuf, hbuf', hq⟩ := Scan.updateFirst_some hscan
    have hsent : p.sentAt.isSome = true := by
      cases hat : p.sentAt with
      | none => simp [hat] at hq
      | some => rfl
    have hlost : p.lost = none := by
      have hpass := hfast p (by simp [hbuf])
      rw [hsent, Bool.and_true] at hpass
      exact not_isSome_iff_eq_none.1 (by simp [hpass])
    have hpending := pending_updateFirst hscan fun _ => ⟨rfl, rfl⟩
    exact .copied ⟨rfl, rfl, rfl, hpending⟩ hbuf hbuf' rfl (.timeout hlost hsent rfl rfl rfl)
      fun hle => hle
  | first hscan hsent =>
    obtain ⟨pre, post, hbuf, hbuf', hq⟩ := Scan.updateFirst_some hscan
    have hpending := pending_updateFirst hscan fun _ => ⟨rfl, rfl⟩
    have hunsent := isNone_iff_eq_none.1 hq
    split at hsent
    · rename_i hfree
      subst hsent
      refine .copied ⟨rfl, rfl, rfl, hpending⟩ hbuf hbuf' rfl (.first hunsent rfl rfl ?_)
        fun hle => hle
      rw [if_pos hfree]
      rfl
    · rename_i hcharge
      obtain ⟨hsent, hle⟩ := tryConsumeSendWindow_some hsent
      refine .copied ⟨rfl, rfl, rfl, hpending⟩ hbuf hbuf' rfl (.first hunsent rfl rfl ?_)
        fun _ => hle
      rw [if_neg hcharge]
      exact hsent
  | probe hacked => exact .probe ⟨⟨rfl, rfl, rfl, rfl⟩, rfl, rfl, rfl⟩ hacked rfl rfl rfl rfl rfl
  | blocked => exact .blocked _

/-- Everything polling can do, pass by pass. -/
theorem pollSend_emitted (s : Stream) (budget dn dt : Nat) (limited : Bool) (now : Nat) :
    s.Emitted (s.pollSend budget dn dt limited now).1 (s.pollSend budget dn dt limited now).2 :=
  (s.pollSend_passes budget dn dt limited now).emitted

theorem markUnsent_cases (s : Stream) (o : Nat) :
    (s.markUnsent o = s ∧ ∀ p ∈ s.sendBuffer, p.streamOffset ≠ o) ∨
      ∃ pre p post, s.sendBuffer = pre ++ p :: post ∧ p.streamOffset = o ∧
        s.markUnsent o =
          { s with
            sendBuffer := pre ++ { p with
              sentAt := none
              charged := p.charged && !(p.charged && p.retries == 0) } :: post
            bytesSent := if p.charged && p.retries == 0 then s.bytesSent - p.data.length
              else s.bytesSent } := by
  unfold markUnsent
  dsimp only
  split
  · grind [Scan.updateFirst_none]
  · rename_i p _ hscan
    obtain ⟨pre, post, hbuf, hbuf', hp⟩ := Scan.updateFirst_some hscan
    exact .inr ⟨pre, p, post, hbuf, by simpa using hp, by rw [hbuf']⟩

theorem markUnsent_keeps (s : Stream) (offset : Nat) : s.Keeps (s.markUnsent offset) := by
  obtain ⟨heq, -⟩ | ⟨pre, p, post, hbuf, -, heq⟩ := s.markUnsent_cases offset
  · rw [heq]
    exact .refl s
  · rw [heq]
    refine ⟨rfl, rfl, rfl, ?_⟩
    simp [pending, hbuf]

/-- Retiring a segment raises the high-water mark to its offset, and leaves the offsets, the totals
and the end alone. -/
theorem retire_spec (now : Nat) (s : Stream) (p : PendingData) :
    (retire now s p).reliableOffset = s.reliableOffset ∧
      (retire now s p).highestAckedPlusOne =
        max s.highestAckedPlusOne (min (p.streamOffset + 1) u32Max) ∧
      (retire now s p).bytesSent = s.bytesSent ∧
      (retire now s p).peerSendLimit = s.peerSendLimit ∧
      (retire now s p).localFinished = s.localFinished := by
  unfold retire noteAckedOffset
  split <;> [split; skip] <;> exact ⟨rfl, rfl, rfl, rfl, rfl⟩

/-- Retiring segments one after the other raises the high-water mark to one of theirs at most, and
leaves the offsets alone. -/
theorem foldl_retire (now : Nat) (covered : List PendingData) (s : Stream) :
    (covered.foldl (retire now) s).reliableOffset = s.reliableOffset ∧
      ((covered.foldl (retire now) s).highestAckedPlusOne = s.highestAckedPlusOne ∨
        ∃ p ∈ covered, (covered.foldl (retire now) s).highestAckedPlusOne =
          min (p.streamOffset + 1) u32Max) := by
  induction covered generalizing s with
  | nil => exact ⟨rfl, .inl rfl⟩
  | cons p =>
    obtain ⟨hoffset, hmark, -⟩ := retire_spec now s p
    grind

theorem foldl_retire_totals (now : Nat) (covered : List PendingData) (s : Stream) :
    (covered.foldl (retire now) s).bytesSent = s.bytesSent ∧
      (covered.foldl (retire now) s).peerSendLimit = s.peerSendLimit := by
  induction covered generalizing s with
  | nil => exact ⟨rfl, rfl⟩
  | cons p _ ih =>
    obtain ⟨hsent, hlimit⟩ := ih (retire now s p)
    obtain ⟨-, -, hsent', hlimit', -⟩ := retire_spec now s p
    rw [foldl_cons]
    exact ⟨hsent.trans hsent', hlimit.trans hlimit'⟩

/-- Exactly what is covered leaves the send buffer. -/
theorem onSack_pending (s : Stream) (sack : Sack) (now : Nat) :
    (s.onSack sack now).1.pending = s.pending.filter fun q => !sack.acks q.1 := by
  simp [onSack, flag, kept, pending, List.filter_map, Function.comp_def]

theorem onSack_reliableOffset (s : Stream) (sack : Sack) (now : Nat) :
    (s.onSack sack now).1.reliableOffset = s.reliableOffset :=
  (foldl_retire now (s.sendBuffer.filter fun p => sack.acks p.streamOffset) s).1

theorem onSack_highestAcked (s : Stream) (sack : Sack) (now : Nat) :
    (s.onSack sack now).1.highestAckedPlusOne = s.highestAckedPlusOne ∨
      ∃ q ∈ s.pending, sack.acks q.1 = true ∧
        (s.onSack sack now).1.highestAckedPlusOne = min (q.1 + 1) u32Max := by
  obtain hsame | ⟨p, hp, hraised⟩ :=
    (foldl_retire now (s.sendBuffer.filter fun p => sack.acks p.streamOffset) s).2
  · exact .inl hsame
  · obtain ⟨hmem, hacks⟩ := mem_filter.1 hp
    exact .inr ⟨(p.streamOffset, p.data), mem_map.2 ⟨p, hmem, rfl⟩, hacks, hraised⟩

theorem onSack_lastAckedOffset {now o : Nat} (hbelow : ∀ q ∈ s.pending, q.1 < u32Max)
    (ho : (s.onSack k now).1.lastAckedOffset = some o) :
    s.lastAckedOffset = some o ∨ ∃ q ∈ s.pending, k.acks q.1 = true ∧ q.1 = o := by
  unfold lastAckedOffset at ho ⊢
  rcases s.onSack_highestAcked k now with hsame | ⟨q, hq, hacks, hraised⟩
  · rw [hsame] at ho
    exact .inl ho
  · grind

/-! ## The sender's FIN -/

theorem Passes.localFinished (h : s.Passes now s' r) : s'.localFinished = s.localFinished := by
  cases h <;> rfl

theorem pollSend_localFinished (s : Stream) (budget dn dt : Nat) (limited : Bool) (now : Nat) :
    (s.pollSend budget dn dt limited now).1.localFinished = s.localFinished :=
  (s.pollSend_passes budget dn dt limited now).localFinished

theorem markUnsent_localFinished (s : Stream) (o : Nat) :
    (s.markUnsent o).localFinished = s.localFinished := by
  obtain ⟨heq, -⟩ | ⟨pre, p, post, -, -, heq⟩ := s.markUnsent_cases o
  · rw [heq]
  · rw [heq]

theorem refused_localFinished (s : Stream) (seg : OutboundSegment) :
    (if seg.reliable then s.markUnsent seg.streamOffset else s).localFinished = s.localFinished := by
  split
  · exact s.markUnsent_localFinished _
  · rfl

theorem onSack_localFinished (s : Stream) (k : Sack) (now : Nat) :
    (s.onSack k now).1.localFinished = s.localFinished := by
  have hretire : ∀ (covered : List PendingData) (s : Stream),
      (covered.foldl (retire now) s).localFinished = s.localFinished := by
    intro covered
    induction covered with
    | nil => exact fun _ => rfl
    | cons _ _ ih =>
      intro s
      rw [foldl_cons, ih]
      exact (retire_spec now s _).2.2.2.2
  exact hretire (s.sendBuffer.filter fun p => k.acks p.streamOffset) s

/-! ## Receiving side -/

theorem drain_none (h : s.recvBuffer.find? (·.1 == s.recvSequence) = none)
    (out : List Bytes) : drain (fuel + 1) s out = (s, out) := by
  simp only [drain, h]

theorem drain_some {entry : Nat × List Bytes}
    (h : s.recvBuffer.find? (·.1 == s.recvSequence) = some entry) (out : List Bytes) :
    drain (fuel + 1) s out = drain fuel (s.release entry.2) (out ++ entry.2) := by
  simp only [drain, h]

/-- **Loop rule.** What one turn of the draining loop keeps, the loop keeps. -/
theorem drain_inv {P : Stream → List Bytes → Prop}
    (hturn : ∀ s out entry, s.recvBuffer.find? (·.1 == s.recvSequence) = some entry → P s out →
      P (s.release entry.2) (out ++ entry.2)) (fuel : Nat) {out : List Bytes} (h : P s out) :
    P (drain fuel s out).1 (drain fuel s out).2 := by
  induction fuel generalizing s out with
  | zero => exact h
  | succ =>
    cases hfind : s.recvBuffer.find? (·.1 == s.recvSequence) with
    | none =>
      rw [drain_none hfind]
      exact h
    | some => simp [*, drain_some]

/-- The draining loop ends at a gap. -/
theorem drain_exit (fuel : Nat) (out : List Bytes) (hlen : s.recvBuffer.length ≤ fuel) :
    ∀ e ∈ (drain fuel s out).1.recvBuffer, e.1 ≠ (drain fuel s out).1.recvSequence := by
  induction fuel generalizing s out with
  | zero => simp_all [drain]
  | succ =>
    cases hfind : s.recvBuffer.find? (·.1 == s.recvSequence) with
    | none =>
      rw [drain_none hfind]
      simpa using hfind
    | some => grind [drain_some, release]

theorem held_of_append {o : Nat} {payloads : List Bytes} (hseq : s'.recvSequence = s.recvSequence)
    (hbuf : s'.recvBuffer = s.recvBuffer ++ [(o, payloads)]) (x : Nat) :
    s'.Held x ↔ s.Held x ∨ x = o := by
  simp only [Held, hseq, hbuf, mem_append, mem_singleton]
  grind

theorem held_of_advance (hseq : s'.recvSequence = s.recvSequence + 1)
    (hbuf : s'.recvBuffer = s.recvBuffer) (x : Nat) :
    s'.Held x ↔ s.Held x ∨ x = s.recvSequence := by
  unfold Held
  rw [hseq, hbuf, Nat.lt_succ_iff_lt_or_eq]
  exact or_right_comm

theorem not_held_next (hgap : ∀ e ∈ s.recvBuffer, e.1 ≠ s.recvSequence) :
    ¬s.Held s.recvSequence := by
  rintro (hlt | ⟨e, he, hat⟩)
  · exact Nat.lt_irrefl _ hlt
  · exact hgap e he hat

theorem acceptInOrder_cases (s : Stream) (o : Nat) (payloads : List Bytes) (now : Nat) :
    (∃ s', s.acceptInOrder o payloads now = (s', []) ∧ s'.recvSequence = s.recvSequence ∧
        s'.recvBuffer = s.recvBuffer) ∨
      (∃ s', s.acceptInOrder o payloads now = (s', []) ∧ s.recvSequence < o ∧
        (∀ e ∈ s.recvBuffer, e.1 ≠ o) ∧ s'.recvSequence = s.recvSequence ∧
        s'.recvBuffer = s.recvBuffer ++ [(o, payloads)]) ∨
      ∃ s', o = s.recvSequence ∧
        s.acceptInOrder o payloads now = drain s.recvBuffer.length s' payloads ∧
        s'.recvSequence = (s.recvSequence + 1) % (u32Max + 1) ∧ s'.recvBuffer = s.recvBuffer := by
  unfold acceptInOrder
  grind

theorem acceptInOrder_next (s : Stream) (payloads : List Bytes) (now : Nat) :
    ∃ s', s.acceptInOrder s.recvSequence payloads now = drain s.recvBuffer.length s' payloads ∧
      s'.recvSequence = (s.recvSequence + 1) % (u32Max + 1) ∧ s'.recvBuffer = s.recvBuffer := by
  refine ⟨{ s with lastDataRecvAt := some now, recvSequence := _ }, ?_, rfl, rfl⟩
  simp [acceptInOrder]

theorem receivedSack_eq_none {delay now : Nat} :
    s.receivedSack delay now = none ↔ s.recvSequence = 0 ∧ s.recvBuffer = [] := by
  unfold receivedSack
  split
  · simp_all
  · rename_i hsome
    refine iff_of_false (Sack.fromInclusiveRanges_ne_none ?_ _) hsome
    rw [ne_eq, reverse_eq_nil_iff]
    grind [map_eq_nil_iff, length_nil, length_map, Ranges.foldl_push_ne_nil, length_insertionSort]

def heldRanges (s : Stream) : List (Nat × Nat) :=
  ((((s.recvBuffer.map (·.1)).insertionSort (· ≤ ·)).map fun o => (o, o)).foldl (Ranges.push u32Max)
    (if 0 < s.recvSequence then [(0, s.recvSequence - 1)] else [])).reverse

theorem receivedSack_some {delay now : Nat} (h : s.receivedSack delay now = some k) :
    ∃ delay', Sack.fromInclusiveRanges s.heldRanges delay' = some k := by
  unfold receivedSack at h
  split at h
  · cases h
  · exact ⟨_, h⟩

theorem covers_heldRanges {offset : Nat} :
    Ranges.covers s.heldRanges offset = true ↔ s.Held offset := by
  have hrun : Ranges.covers (if 0 < s.recvSequence then [(0, s.recvSequence - 1)] else [])
      offset = true ↔ offset < s.recvSequence := by
    split
    · rw [Ranges.covers_iff]
      simp only [mem_singleton, exists_eq_left]
      omega
    · exact iff_of_false false_ne_true (by omega)
  have hislands : Ranges.covers (((s.recvBuffer.map (·.1)).insertionSort (· ≤ ·)).map
      fun o => (o, o)) offset = true ↔ ∃ e ∈ s.recvBuffer, e.1 = offset := by
    rw [Ranges.covers_iff]
    constructor
    · intro h
      obtain ⟨r, hr, hlo, hhi⟩ := h
      obtain ⟨o, ho, rfl⟩ := mem_map.1 hr
      obtain ⟨e, he, rfl⟩ := mem_map.1 ((mem_insertionSort _).1 ho)
      exact ⟨e, he, Nat.le_antisymm hlo hhi⟩
    · intro h
      obtain ⟨e, he, rfl⟩ := h
      refine ⟨(e.1, e.1), mem_map.2 ⟨e.1, ?_, rfl⟩, Nat.le_refl _, Nat.le_refl _⟩
      exact (mem_insertionSort _).2 (mem_map_of_mem he)
  rw [heldRanges, Ranges.covers_congr fun r => mem_reverse, Ranges.covers_foldl_push, hrun,
    hislands, Held]
  · exact pairwise_map.2 (pairwise_insertionSort (· ≤ ·) _)
  · grind

theorem proper_heldRanges (h : ∀ e ∈ s.recvBuffer, e.1 ≤ u32Max) :
    ∀ r ∈ s.heldRanges, Ranges.Proper u32Max r := by
  have hrun : Ranges.Separated u32Max
      (if 0 < s.recvSequence then [(0, s.recvSequence - 1)] else []) := by
    split
    · exact Ranges.separated_singleton ⟨Nat.zero_le _, Nat.zero_le _⟩
    · exact Ranges.separated_nil
  intro r hr
  refine (hrun.foldl_push fun q hq => ?_).proper r (mem_reverse.1 hr)
  obtain ⟨o, ho, rfl⟩ := mem_map.1 hq
  obtain ⟨e, he, rfl⟩ := mem_map.1 ((mem_insertionSort _).1 ho)
  exact ⟨Nat.le_refl _, h e he⟩

/-- A receiver acknowledges only what it holds. -/
theorem receivedSack_held {delay now offset : Nat}
    (h : s.receivedSack delay now = some k) (hacks : k.acks offset = true) : s.Held offset := by
  obtain ⟨_, hk⟩ := receivedSack_some h
  exact covers_heldRanges.1 (Sack.acks_fromInclusiveRanges hk hacks)

end Stream

end PhantomProtocol
