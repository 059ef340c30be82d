import Mathlib.Algebra.Order.BigOperators.Group.Finset
import PhantomProtocol.Lib.Run
import PhantomProtocol.Transport.Proof.SendBuffer

/-!
# The sender's half of the flow-control ledger

`bytes_sent` against the payloads that have been on the wire. A payload is counted when `poll_send`
first hands it out, and once, however often it is written; a refused write takes the count back when
no copy has left.
-/

namespace PhantomProtocol

open List Option

variable {seg : OutboundSegment} {q : Nat × Bytes} {payloads : Finset (Nat × Bytes)}

/-! ## Payloads -/

/-- What the segments carry of the stream, with its offset. A FIN carries nothing. -/
def carried (segments : List OutboundSegment) : Finset (Nat × Bytes) :=
  ((segments.filter fun seg => seg.reliable && !seg.fin).map
    fun seg => (seg.streamOffset, seg.data)).toFinset

/-- The bytes of a set of payloads. -/
def volume (payloads : Finset (Nat × Bytes)) : Nat := ∑ q ∈ payloads, q.2.length

theorem mem_carried {segments : List OutboundSegment} :
    q ∈ carried segments ↔ ∃ seg ∈ segments, seg.reliable = true ∧ seg.fin = false ∧
      (seg.streamOffset, seg.data) = q := by
  simp [carried, and_assoc]

theorem carried_append (xs ys : List OutboundSegment) :
    carried (xs ++ ys) = carried xs ∪ carried ys := by
  ext q
  simp only [mem_carried, Finset.mem_union, mem_append, or_and_right, exists_or]

@[simp] theorem carried_nil : carried [] = ∅ := rfl

theorem carried_unreliable (h : seg.reliable = false) : carried [seg] = ∅ := by
  simp [carried, h]

theorem carried_fin (h : seg.fin = true) : carried [seg] = ∅ := by
  simp [carried, h]

theorem carried_reliable (hrel : seg.reliable = true)
    (hfin : seg.fin = false) : carried [seg] = {(seg.streamOffset, seg.data)} := by
  simp [carried, hrel, hfin]

theorem volume_insert (h : q ∉ payloads) :
    volume (payloads ∪ {q}) = volume payloads + q.2.length := by
  unfold volume
  rw [Finset.union_comm, ← Finset.insert_eq, Finset.sum_insert h, Nat.add_comm]

theorem volume_insert_mem (h : q ∈ payloads) : volume (payloads ∪ {q}) = volume payloads := by
  rw [Finset.union_eq_left.2 (Finset.singleton_subset_iff.2 h)]

/-- An empty payload does not count. -/
theorem volume_insert_nil (payloads : Finset (Nat × Bytes)) (o : Nat) :
    volume (payloads ∪ {(o, [])}) = volume payloads := by
  by_cases h : (o, []) ∈ payloads
  · exact volume_insert_mem h
  · rw [volume_insert h]
    rfl

theorem volume_mono {payloads payloads' : Finset (Nat × Bytes)} (h : payloads ⊆ payloads') :
    volume payloads ≤ volume payloads' := by
  unfold volume
  exact Finset.sum_le_sum_of_subset h

theorem length_le_volume (h : q ∈ payloads) : q.2.length ≤ volume payloads := by
  unfold volume
  exact Finset.single_le_sum (f := fun q => q.2.length) (fun _ _ => Nat.zero_le _) h

theorem Stream.Emitted.carried {s s' : Stream} (h : s.Emitted s' (.ok seg))
    (hq : q ∈ PhantomProtocol.carried [seg]) : q.2 = [] ∨ q ∈ s.pending := by
  obtain ⟨seg', hseg, hrel, -, rfl⟩ := mem_carried.1 hq
  cases mem_singleton.1 hseg
  cases h with
  | unreliable _ hrel' => exact absurd (hrel'.symm.trans hrel) Bool.false_ne_true
  | probe _ _ hdata => exact .inl hdata
  | @copied _ _ pre post p _ _ hbuf _ _ hcopied =>
    have hseg := hcopied.bills.transmits
    refine .inr (mem_map.2 ⟨p, by simp [hbuf], ?_⟩)
    rw [hseg.streamOffset, hseg.data]

/-! ## The ledger -/

/-- What the ledger says of one buffered segment. `settled` are the payloads that have been written,
and `polled` is the segment being written. -/
structure SendEntry (polled : Option OutboundSegment) (settled : Finset (Nat × Bytes))
    (p : PendingData) : Prop where
  size : p.data.length ≤ u32Max
  fin : p.fin = true → p.charged = false ∧ p.data = []
  charged : p.fin = false →
    (p.charged = true ↔ (p.streamOffset, p.data) ∈ settled ∪ carried polled.toList)
  stamped : p.fin = false → p.sentAt.isSome = true → p.charged = true
  retried : p.fin = false → p.retries ≠ 0 → (p.streamOffset, p.data) ∈ settled
  /-- Off the wire, only a segment that was there before holds its charge. -/
  parked : p.charged = true → p.sentAt = none → p.retries ≠ 0
  polled : ∀ seg ∈ polled, seg.reliable = true → seg.streamOffset = p.streamOffset →
    seg.data = p.data ∧ seg.fin = p.fin ∧ (seg.retransmit = false → p.fin = false →
      p.retries = 0 → (p.streamOffset, p.data) ∉ settled)

structure SendBalance (tx : Stream) (polled : Option OutboundSegment)
    (settled : Finset (Nat × Bytes)) : Prop where
  wellFormed : tx.WellFormed
  limit : tx.bytesSent ≤ tx.peerSendLimit
  total : tx.bytesSent = volume (settled ∪ carried polled.toList)
  assigned : ∀ q ∈ settled, q.1 < tx.reliableOffset
  inHand : ∀ seg ∈ polled, seg.reliable = true → seg.streamOffset < tx.reliableOffset
  entries : ∀ p ∈ tx.sendBuffer, SendEntry polled settled p

theorem not_mem_carried {polled : Option OutboundSegment} {o : Nat} (data : Bytes)
    (h : ∀ seg ∈ polled, seg.reliable = true → seg.streamOffset ≠ o) :
    (o, data) ∉ carried polled.toList := by
  intro hmem
  obtain ⟨seg, hseg, hrel, -, heq⟩ := mem_carried.1 hmem
  exact h seg (by simpa using hseg) hrel (congrArg Prod.fst heq)

namespace SendEntry

variable {polled polled' : Option OutboundSegment} {settled settled' : Finset (Nat × Bytes)}
  {p p' : PendingData} {data : Bytes} {seg : OutboundSegment} {sent sent' : Nat}

theorem frame (h : SendEntry polled settled p)
    (hpolled : ∀ seg ∈ polled, seg.reliable = true → seg.streamOffset ≠ p.streamOffset)
    (hpolled' : ∀ seg ∈ polled', seg.reliable = true → seg.streamOffset ≠ p.streamOffset)
    (hset : (p.streamOffset, p.data) ∈ settled' ↔ (p.streamOffset, p.data) ∈ settled) :
    SendEntry polled' settled' p :=
  { h with
    charged hfin := by
      rw [h.charged hfin, Finset.mem_union, Finset.mem_union, hset]
      simp only [not_mem_carried p.data hpolled, not_mem_carried p.data hpolled']
    retried hfin hre := hset.2 (h.retried hfin hre)
    polled seg hseg hrel heq := absurd heq (hpolled' seg hseg hrel) }

theorem lost (h : SendEntry polled settled p) (cause : Option LossCause) :
    SendEntry polled settled { p with lost := cause } :=
  ⟨h.size, h.fin, h.charged, h.stamped, h.retried, h.parked, h.polled⟩

/-- A segment that has just been admitted. -/
theorem admitted {o : Nat} {fin : Bool} (hsize : data.length ≤ u32Max)
    (hfin : fin = true → data = []) (hnew : ∀ d, (o, d) ∉ settled)
    (hpolled : ∀ seg ∈ polled, seg.reliable = true → seg.streamOffset ≠ o) :
    SendEntry polled settled (Stream.pendingData o data fin) where
  size := hsize
  fin h := ⟨rfl, hfin h⟩
  charged _ := by
    simp [Stream.pendingData, Finset.mem_union, hnew, not_mem_carried data hpolled]
  stamped _ hat := absurd hat Bool.false_ne_true
  retried _ hre := absurd rfl hre
  parked hch := absurd hch Bool.false_ne_true
  polled seg hseg hrel heq := absurd heq (hpolled seg hseg hrel)

theorem of_fin (hfin : p.fin = true) (hunch : p.charged = false) (hempty : p.data = [])
    (hpolled : ∀ seg ∈ polled, seg.reliable = true → seg.streamOffset = p.streamOffset →
      seg.data = p.data ∧ seg.fin = p.fin) : SendEntry polled settled p where
  size := hempty ▸ Nat.zero_le _
  fin _ := ⟨hunch, hempty⟩
  charged h := absurd (hfin.symm.trans h) Bool.false_ne_true.symm
  stamped h := absurd (hfin.symm.trans h) Bool.false_ne_true.symm
  retried h := absurd (hfin.symm.trans h) Bool.false_ne_true.symm
  parked h := absurd (hunch.symm.trans h) Bool.false_ne_true
  polled seg hseg hrel heq := by
    obtain ⟨hdata, hsegfin⟩ := hpolled seg hseg hrel heq
    exact ⟨hdata, hsegfin, fun _ h => absurd (hfin.symm.trans h) Bool.false_ne_true.symm⟩

section

variable (h : SendEntry none settled p)
include h

section

variable (hb : Stream.Bills seg p p' sent sent')
include hb

theorem billed_fin (hfin : p.fin = true) : SendEntry (some seg) settled p' ∧ sent' = sent := by
  have htx := hb.transmits
  obtain ⟨hunch, hempty⟩ := h.fin hfin
  have hsent : sent' = sent ∧ p'.charged = false := by
    cases hat : p.sentAt with
    | some =>
      obtain ⟨-, hch, hsent⟩ := hb.again (by rw [hat]; rfl)
      exact ⟨hsent, hch.trans hunch⟩
    | none =>
      obtain ⟨-, hch, hsent⟩ := hb.first hat
      simp only [hfin, hunch, Bool.not_true, Bool.or_false, if_true, Nat.add_zero] at hch hsent
      exact ⟨hsent, hch⟩
  refine ⟨.of_fin (hb.sameFin.trans hfin) hsent.2 (htx.sameData.trans hempty) ?_, hsent.1⟩
  rintro _ ⟨⟩ - -
  exact ⟨htx.data.trans htx.sameData.symm, hb.fin.trans hb.sameFin.symm⟩

theorem charged_once (htotal : sent = volume settled) (hfin : p.fin = false) :
    p'.charged = true ∧ (p'.retries ≠ 0 → (p.streamOffset, p.data) ∈ settled) ∧
      (seg.retransmit = false → p'.retries = 0 → (p.streamOffset, p.data) ∉ settled) ∧
      sent' = volume (settled ∪ {(p.streamOffset, p.data)}) := by
  have hcharged : p.charged = true ↔ (p.streamOffset, p.data) ∈ settled := by
    simpa using h.charged hfin
  cases hat : p.sentAt with
  | some =>
    have hsome : p.sentAt.isSome = true := by rw [hat]; rfl
    obtain ⟨-, hch, hsent⟩ := hb.again hsome
    have hold := hcharged.1 (h.stamped hfin hsome)
    refine ⟨hch.trans (h.stamped hfin hsome), fun _ => hold, fun hre => ?_, ?_⟩
    · rw [hb.transmits.retransmit, hsome] at hre
      cases hre
    · rw [hsent, htotal, volume_insert_mem hold]
  | none =>
    obtain ⟨hre, hch, hsent⟩ := hb.first hat
    rw [hfin] at hch hsent
    cases hbefore : p.charged with
    | true =>
      have hretried := h.parked hbefore hat
      simp_all
    | false =>
      have hnew : (p.streamOffset, p.data) ∉ settled := fun hmem => by
        simp [hcharged.2 hmem] at hbefore
      refine ⟨by simp [hch], fun hne => absurd (h.retried hfin (hre ▸ hne)) hnew,
        fun _ _ => hnew, ?_⟩
      rw [hsent, htotal, volume_insert hnew, hbefore]
      simp only [Bool.or_self, Bool.false_eq_true, if_false]
      rw [Nat.mod_eq_of_lt (Nat.lt_succ_of_le h.size)]

/-- The segment is handed out for transmission. -/
theorem billed (htotal : sent = volume settled) :
    SendEntry (some seg) settled p' ∧ sent' = volume (settled ∪ carried [seg]) := by
  have htx := hb.transmits
  cases hfin : p.fin with
  | true =>
    obtain ⟨hentry, hsent⟩ := h.billed_fin hb hfin
    refine ⟨hentry, ?_⟩
    rw [hsent, htotal, carried_fin (hb.fin.trans hfin), Finset.union_empty]
  | false =>
    have hcarried : carried [seg] = {(p.streamOffset, p.data)} := by
      rw [carried_reliable htx.reliable (hb.fin.trans hfin), htx.streamOffset, htx.data]
    obtain ⟨hch, hre, hfirst, hsent⟩ := h.charged_once hb htotal hfin
    refine ⟨⟨htx.sameData ▸ h.size, fun hfin' => ?_, fun _ => ?_, fun _ _ => hch, fun _ hne => ?_,
      fun _ hnone => ?_, ?_⟩, hcarried ▸ hsent⟩
    · rw [hb.sameFin, hfin] at hfin'
      cases hfin'
    · rw [htx.sameOffset, htx.sameData, toList_some, hcarried]
      simp [hch]
    · rw [htx.sameOffset, htx.sameData]
      exact hre hne
    · have hstamped := htx.stamped
      rw [hnone] at hstamped
      cases hstamped
    · rintro _ ⟨⟩ - -
      rw [htx.sameOffset, htx.sameData]
      exact ⟨htx.data, hb.fin.trans hb.sameFin.symm, fun h1 _ => hfirst h1⟩

end

end

theorem refused {sent : Nat} (h : SendEntry (some seg) settled p)
    (hrel : seg.reliable = true) (hoff : seg.streamOffset = p.streamOffset)
    (hcopy : seg.retransmit = true → p.retries ≠ 0)
    (htotal : sent = volume (settled ∪ carried [seg])) :
    SendEntry none settled { p with
        sentAt := none, charged := p.charged && !(p.charged && p.retries == 0) } ∧
      (if p.charged && p.retries == 0 then sent - p.data.length else sent) = volume settled := by
  obtain ⟨hdata, hsegfin, hfirst⟩ := h.polled seg rfl hrel hoff
  rcases Bool.eq_false_or_eq_true p.fin with hfin | hfin
  · obtain ⟨hunch, hempty⟩ := h.fin hfin
    rw [carried_fin (hsegfin.trans hfin), Finset.union_empty] at htotal
    refine ⟨.of_fin hfin (by simp [hunch]) hempty (by simp), ?_⟩
    simpa [hunch] using htotal
  · have hcarried : carried [seg] = {(p.streamOffset, p.data)} := by
      rw [carried_reliable hrel (hsegfin.trans hfin), hoff, hdata]
    rw [hcarried] at htotal
    have hch : p.charged = true := (h.charged hfin).2 (by simp [hcarried])
    by_cases hzero : p.retries = 0
    · -- this was the only copy there has ever been
      have hre : seg.retransmit = false := Bool.eq_false_iff.2 fun hre => hcopy hre hzero
      have hnew := hfirst hre hfin hzero
      rw [volume_insert hnew] at htotal
      refine ⟨⟨h.size, fun h' => ?_, fun _ => ?_, fun _ hat => ?_, fun _ hne => absurd hzero hne,
        fun hch' => ?_, by simp⟩, ?_⟩
      all_goals simp_all
    · have hold := h.retried hfin hzero
      rw [volume_insert_mem hold] at htotal
      refine ⟨⟨h.size, fun h' => ?_, fun _ => ?_, fun _ hat => ?_, fun _ _ => hold, fun _ _ => hzero,
        by simp⟩, ?_⟩
      all_goals simp_all

end SendEntry

namespace SendBalance

variable {tx tx' : Stream} {polled : Option OutboundSegment} {seg : OutboundSegment}
  {settled settled' : Finset (Nat × Bytes)} {data : Bytes}

section

variable (h : SendBalance tx polled settled)
include h

theorem appends {fin : Bool} (ha : tx.Appends tx' data)
    (hadmits : tx.Admits tx' data fin) (hsize : data.length ≤ u32Max)
    (hfin : fin = true → data = []) : SendBalance tx' polled settled where
  wellFormed := h.wellFormed.appends ha
  limit := by
    rw [hadmits.sent, hadmits.limit]
    exact h.limit
  total := hadmits.sent.trans h.total
  assigned q hq := by
    rw [ha.assigned]
    exact Nat.lt_succ_of_lt (h.assigned q hq)
  inHand seg hseg hrel := by
    rw [ha.assigned]
    exact Nat.lt_succ_of_lt (h.inHand seg hseg hrel)
  entries p hp := by
    rcases hadmits.buffer p hp with hp | rfl
    · exact h.entries p hp
    · refine .admitted hsize hfin (fun d hd => ?_) fun seg hseg hrel => ?_
      · exact Nat.lt_irrefl _ (h.assigned _ hd)
      · exact Nat.ne_of_lt (h.inHand seg hseg hrel)

theorem raises (hk : tx.Keeps tx')
    (hbuf : tx'.sendBuffer = tx.sendBuffer) (hsent : tx'.bytesSent = tx.bytesSent)
    (hlimit : tx.peerSendLimit ≤ tx'.peerSendLimit) : SendBalance tx' polled settled where
  wellFormed := h.wellFormed.keeps hk
  limit := hsent ▸ h.limit.trans hlimit
  total := hsent.trans h.total
  assigned := hk.reliableOffset ▸ h.assigned
  inHand := hk.reliableOffset ▸ h.inHand
  entries := hbuf ▸ h.entries

theorem retires (hwf : tx'.WellFormed)
    (hoff : tx'.reliableOffset = tx.reliableOffset) (hsent : tx'.bytesSent = tx.bytesSent)
    (hlimit : tx'.peerSendLimit = tx.peerSendLimit)
    (hkept : ∀ p' ∈ tx'.sendBuffer, ∃ p ∈ tx.sendBuffer, ∃ cause, p' = { p with lost := cause }) :
    SendBalance tx' polled settled where
  wellFormed := hwf
  limit := by
    rw [hsent, hlimit]
    exact h.limit
  total := hsent.trans h.total
  assigned := hoff ▸ h.assigned
  inHand := hoff ▸ h.inHand
  entries p' hp' := by
    obtain ⟨p, hp, cause, rfl⟩ := hkept p' hp'
    exact (h.entries p hp).lost cause

end

/-- The write of the polled segment succeeds. -/
theorem written (h : SendBalance tx (some seg) settled) :
    SendBalance tx none (settled ∪ carried [seg]) where
  wellFormed := h.wellFormed
  limit := h.limit
  total := by
    rw [h.total]
    simp
  assigned q hq := by
    rcases Finset.mem_union.1 hq with hq | hq
    · exact h.assigned q hq
    · obtain ⟨seg', hseg, hrel, -, rfl⟩ := mem_carried.1 hq
      cases mem_singleton.1 hseg
      exact h.inHand seg rfl hrel
  inHand seg' hseg' := by cases hseg'
  entries p hp := by
    have he := h.entries p hp
    refine ⟨he.size, he.fin, fun hfin => ?_, he.stamped, fun hfin hre => ?_, he.parked,
      fun seg' hseg' => by cases hseg'⟩
    · simpa using he.charged hfin
    · exact Finset.mem_union_left _ (he.retried hfin hre)

theorem aside (h : SendBalance tx none settled) (hidles : tx.Idles tx')
    (hvolume : volume (settled ∪ carried [seg]) = volume settled)
    (hother : seg.reliable = true → seg.streamOffset < tx.reliableOffset ∧
      ∀ p ∈ tx.sendBuffer, seg.streamOffset ≠ p.streamOffset) :
    SendBalance tx' (some seg) settled where
  wellFormed := h.wellFormed.keeps hidles.keeps
  limit := by
    rw [hidles.sent, hidles.limit]
    exact h.limit
  total := by
    have htotal := h.total
    rw [toList_none, carried_nil, Finset.union_empty] at htotal
    exact hidles.sent.trans (htotal.trans hvolume.symm)
  assigned := hidles.keeps.reliableOffset ▸ h.assigned
  inHand seg' hseg' hrel := by
    cases hseg'
    rw [hidles.keeps.reliableOffset]
    exact (hother hrel).1
  entries p hp := by
    rw [hidles.buffer] at hp
    refine (h.entries p hp).frame (by simp) (fun seg' hseg' hrel => ?_) .rfl
    cases hseg'
    exact (hother hrel).2 p hp

theorem billed {r : Except SendBlocked OutboundSegment} (h : SendBalance tx none settled)
    (hb : tx.Emitted tx' r) : SendBalance tx' r.toOption settled := by
  cases hb with
  | blocked => exact h
  | unreliable hidles hrel =>
    refine h.aside hidles ?_ fun hrel' => ?_
    · rw [carried_unreliable hrel, Finset.union_empty]
    · exact absurd (hrel.symm.trans hrel') Bool.false_ne_true
  | probe hidles hacked hdata hfin hrel =>
    obtain ⟨hlt, hgone⟩ := h.wellFormed.acked _ hacked
    refine h.aside hidles ?_ fun _ => ⟨hlt, fun p hp => (hgone _ (mem_map_of_mem hp)).symm⟩
    rw [carried_reliable hrel hfin, hdata]
    exact volume_insert_nil ..
  | @copied _ seg pre post p p' hkeeps hbuf hbuf' hlimit hcopied hroom =>
    have hbills := hcopied.bills
    have hmem : p ∈ tx.sendBuffer := by simp [hbuf]
    have htotal := h.total
    rw [toList_none, carried_nil, Finset.union_empty] at htotal
    obtain ⟨hentry, hsent⟩ := (h.entries p hmem).billed hbills htotal
    refine ⟨h.wellFormed.keeps hkeeps, ?_, hsent, ?_, fun seg' hseg' hrel' => ?_, fun q hq => ?_⟩
    · rw [hlimit]
      exact hroom h.limit
    · rw [hkeeps.reliableOffset]
      exact h.assigned
    · cases hseg'
      rw [hkeeps.reliableOffset, hbills.transmits.streamOffset]
      exact h.wellFormed.below _ (mem_map_of_mem hmem)
    · rw [hbuf'] at hq
      rcases h.wellFormed.mem_replace hbuf hq with rfl | ⟨hold, hne⟩
      · exact hentry
      · refine (h.entries q hold).frame (by simp) (fun seg' hseg' _ => ?_) .rfl
        cases hseg'
        rw [hbills.transmits.streamOffset]
        exact hne.symm

/-- The write of a segment that is no longer buffered is refused. What has been settled may stay as
it is, or take the segment in, as long as no byte is lost. -/
theorem refused_gone (h : SendBalance tx (some seg) settled)
    (hgone : seg.reliable = true → ∀ p ∈ tx.sendBuffer, seg.streamOffset ≠ p.streamOffset)
    (hsub : settled ⊆ settled') (hsub' : settled' ⊆ settled ∪ carried [seg])
    (hvolume : volume settled' = volume (settled ∪ carried [seg])) :
    SendBalance tx none settled' where
  wellFormed := h.wellFormed
  limit := h.limit
  total := by
    rw [toList_none, carried_nil, Finset.union_empty, hvolume]
    exact h.total
  assigned q hq := by
    rcases Finset.mem_union.1 (hsub' hq) with hq | hq
    · exact h.assigned q hq
    · obtain ⟨seg', hseg, hrel, -, rfl⟩ := mem_carried.1 hq
      cases mem_singleton.1 hseg
      exact h.inHand seg rfl hrel
  inHand _ hnone := by cases hnone
  entries p hp := by
    have hother : ∀ seg' ∈ some seg, seg'.reliable = true → seg'.streamOffset ≠ p.streamOffset := by
      simp_all
    refine (h.entries p hp).frame hother (by simp) ⟨fun hq => ?_, (hsub ·)⟩
    exact (Finset.mem_union.1 (hsub' hq)).resolve_right (not_mem_carried p.data hother)

theorem refused (h : SendBalance tx (some seg) settled) (hrel : seg.reliable = true)
    (hcopy : seg.retransmit = true → ∀ p ∈ tx.sendBuffer, p.streamOffset = seg.streamOffset →
      p.retries ≠ 0)
    (hmem : ∃ p ∈ tx.sendBuffer, p.streamOffset = seg.streamOffset) :
    SendBalance (tx.markUnsent seg.streamOffset) none settled := by
  obtain ⟨-, hgone⟩ | ⟨pre, p, post, hbuf, hoff, heq⟩ := tx.markUnsent_cases seg.streamOffset
  · obtain ⟨p, hp, heq⟩ := hmem
    exact absurd heq (hgone p hp)
  have hp : p ∈ tx.sendBuffer := by simp [hbuf]
  obtain ⟨hentry, hsent⟩ := (h.entries p hp).refused hrel hoff.symm (hcopy · p hp hoff) h.total
  have hwf := h.wellFormed.keeps (tx.markUnsent_keeps seg.streamOffset)
  rw [heq] at hwf ⊢
  refine ⟨hwf, ?_, ?_, h.assigned, by simp, fun q hq => ?_⟩
  · have hle := h.limit
    dsimp only
    split
    · exact (Nat.sub_le ..).trans hle
    · exact hle
  · rw [toList_none, carried_nil, Finset.union_empty]
    exact hsent
  · rcases h.wellFormed.mem_replace hbuf hq with rfl | ⟨hold, hne⟩
    · exact hentry
    · refine (h.entries q hold).frame ?_ (by simp) .rfl
      rintro _ ⟨⟩ -
      rw [← hoff]
      exact hne.symm

end SendBalance

/-! ## The sender -/

namespace SendLedger

structure State where
  tx : Stream
  polled : Option OutboundSegment
  written : List OutboundSegment
  /-- Segments whose write was refused when an acknowledgement had already removed them. -/
  orphaned : List OutboundSegment
  admitted : List Bytes
deriving DecidableEq

inductive Event where
  | offer (o : Stream.Offer)
  | sendUnreliable (data : Bytes)
  | pollSend (cwndBudget deliveredNow deliveredTimeNow : Nat) (appLimitedNow : Bool) (now : Nat)
  | written
  | refused
  | ack (streamOffset now : Nat)
  | onSack (sack : Sack) (now : Nat)
  | windowUpdate (limit : Nat)
  | resetRto
deriving DecidableEq

def init : State where
  tx := .new
  polled := none
  written := []
  orphaned := []
  admitted := []

def offered (s : State) (tx : Stream) (taken : Bool) (data : Bytes) : State :=
  { s with tx, admitted := if taken then s.admitted ++ [data] else s.admitted }

/-- The write of the polled segment is refused: `mark_unsent`, for a reliable one. -/
def refuse (s : State) (seg : OutboundSegment) : State :=
  if seg.reliable then
    { s with
      polled := none
      tx := s.tx.markUnsent seg.streamOffset
      orphaned := if s.tx.sendBuffer.any (·.streamOffset == seg.streamOffset) then s.orphaned
        else s.orphaned ++ [seg] }
  else { s with polled := none }

/-- The sender takes chunks whose length fits a `u32`; applications' writes are cut into far shorter
ones before they get here. The acknowledgements are whatever the peer writes. -/
def step (s : State) : Event → Option State
  | .offer o =>
    if u32Max < o.data.length then none
    else (s.tx.offer o).map fun r => offered s r.1 r.2 o.data
  | .sendUnreliable data => some { s with tx := s.tx.sendUnreliable data }
  | .pollSend budget dn dt limited now =>
    if s.polled.isSome then none
    else
      let r := s.tx.pollSend budget dn dt limited now
      some { s with tx := r.1, polled := r.2.toOption }
  | .written => s.polled.map fun seg => { s with polled := none, written := s.written ++ [seg] }
  | .refused => s.polled.map (refuse s)
  | .ack streamOffset now => some { s with tx := (s.tx.ack streamOffset now).1 }
  | .onSack sack now => some { s with tx := (s.tx.onSack sack now).1 }
  | .windowUpdate limit => some { s with tx := s.tx.applyPeerWindowLimit limit }
  | .resetRto => some { s with tx := s.tx.resetRto }

/-- The event neither hands a segment out nor flags one. -/
def Event.Quiet : Event → Prop
  | .pollSend .. | .onSack .. => False
  | _ => True

/-- Everything a step of the sender can do. -/
inductive Effect (s : State) : Event → State → Prop
  | offered {o : Stream.Offer} {tx : Stream} {taken : Bool} (hsize : o.data.length ≤ u32Max)
      (hspec : (taken = true ∧ s.tx.Appends tx o.data) ∨ (taken = false ∧ tx = s.tx))
      (hadmits : s.tx.Admits tx o.data o.fin)
      (hfin : tx.localFinished = (s.tx.localFinished || o.fin && taken)) :
      Effect s (.offer o) (offered s tx taken o.data)
  | kept {e : Event} {tx : Stream} (hquiet : e.Quiet) (hk : s.tx.Keeps tx)
      (hbuf : tx.sendBuffer = s.tx.sendBuffer) (hsent : tx.bytesSent = s.tx.bytesSent)
      (hlimit : s.tx.peerSendLimit ≤ tx.peerSendLimit) : Effect s e { s with tx }
  | polled {budget dn dt now : Nat} {limited : Bool} {tx : Stream}
      {r : Except SendBlocked OutboundSegment} (hidle : s.polled = none)
      (hemitted : s.tx.Emitted tx r) :
      Effect s (.pollSend budget dn dt limited now) { s with tx, polled := r.toOption }
  | written {seg : OutboundSegment} (hseg : s.polled = some seg) :
      Effect s .written { s with polled := none, written := s.written ++ [seg] }
  | refused {seg : OutboundSegment} (hseg : s.polled = some seg) : Effect s .refused (refuse s seg)
  | ack (o now : Nat) : Effect s (.ack o now) { s with tx := (s.tx.ack o now).1 }
  | onSack (k : Sack) (now : Nat) : Effect s (.onSack k now) { s with tx := (s.tx.onSack k now).1 }

theorem step_effect {s s' : State} {e : Event} (hs : step s e = some s') : Effect s e s' := by
  cases e with
  | offer o =>
    simp only [step] at hs
    split at hs
    · cases hs
    · obtain ⟨r, hr, rfl⟩ := map_eq_some_iff.1 hs
      exact .offered (Nat.not_lt.1 ‹_›) (Stream.offer_spec hr) (Stream.offer_admits hr)
        (Stream.offer_localFinished hr)
  | sendUnreliable | resetRto =>
    cases hs
    exact .kept trivial ⟨rfl, rfl, rfl, rfl⟩ rfl rfl (Nat.le_refl _)
  | pollSend budget dn dt limited now =>
    simp only [step] at hs
    split at hs
    · cases hs
    · rename_i hidle
      cases hs
      exact .polled (by simpa using hidle) (s.tx.pollSend_emitted budget dn dt limited now)
  | written =>
    obtain ⟨seg, hseg, rfl⟩ := map_eq_some_iff.1 hs
    exact .written hseg
  | refused =>
    obtain ⟨seg, hseg, rfl⟩ := map_eq_some_iff.1 hs
    exact .refused hseg
  | ack o now =>
    cases hs
    exact .ack o now
  | onSack k now =>
    cases hs
    exact .onSack k now
  | windowUpdate =>
    cases hs
    exact .kept trivial ⟨rfl, rfl, rfl, rfl⟩ rfl rfl (Nat.le_max_left ..)

def CountsCopies (s : State) (e : Event) (_ : State) : Prop :=
  e = .refused → s.tx.CountsCopies s.polled

instance (s : State) (e : Event) (s' : State) : Decidable (CountsCopies s e s') :=
  inferInstanceAs (Decidable (_ → _))

structure Inv (s : State) : Prop where
  balance : SendBalance s.tx s.polled (carried (s.written ++ s.orphaned))
  assigned : s.tx.reliableOffset = s.admitted.length
  buffered : ∀ q ∈ s.tx.pending, s.admitted[q.1]? = some q.2
  genuine : ∀ q ∈ carried (s.written ++ s.orphaned) ∪ carried s.polled.toList,
    q.2 = [] ∨ s.admitted[q.1]? = some q.2

theorem inv_init : Inv init where
  balance :=
    { wellFormed := Stream.wellFormed_new
      limit := Nat.zero_le _
      total := rfl
      assigned := by simp [init]
      inHand := by simp [init]
      entries := by simp [init, Stream.new] }
  assigned := rfl
  buffered := by simp [init, Stream.new, Stream.pending]
  genuine := by simp [init]

namespace Inv

variable {s s' : State} {tx : Stream} {data : Bytes} {seg : OutboundSegment}

section

variable (h : Inv s)
include h

theorem offered {taken fin : Bool} (hsize : data.length ≤ u32Max)
    (hspec : (taken = true ∧ s.tx.Appends tx data) ∨ (taken = false ∧ tx = s.tx))
    (hadmits : s.tx.Admits tx data fin) (hfin : fin = true → data = []) :
    Inv (offered s tx taken data) := by
  rcases hspec with ⟨rfl, happ⟩ | ⟨rfl, rfl⟩
  · refine ⟨h.balance.appends happ hadmits hsize hfin, ?_, fun q hq => ?_, fun q hq => ?_⟩
    · simp [SendLedger.offered, happ.assigned, h.assigned]
    · rw [show (SendLedger.offered s tx true data).tx.pending = tx.pending from rfl, happ.pending,
        mem_append, mem_singleton] at hq
      rcases hq with hq | rfl
      · exact getElem?_append_of_some (h.buffered q hq) [data]
      · rw [h.assigned]
        exact List.getElem?_concat_length
    · exact (h.genuine q hq).imp_right fun hget => getElem?_append_of_some hget [data]
  · exact h

theorem raises (hk : s.tx.Keeps tx) (hbuf : tx.sendBuffer = s.tx.sendBuffer)
    (hsent : tx.bytesSent = s.tx.bytesSent) (hlimit : s.tx.peerSendLimit ≤ tx.peerSendLimit) :
    Inv { s with tx } where
  balance := h.balance.raises hk hbuf hsent hlimit
  assigned := hk.reliableOffset.trans h.assigned
  buffered := hk.pending ▸ h.buffered
  genuine := h.genuine

theorem retires (hwf : tx.WellFormed) (hoff : tx.reliableOffset = s.tx.reliableOffset)
    (htotals : tx.bytesSent = s.tx.bytesSent ∧ tx.peerSendLimit = s.tx.peerSendLimit)
    (hkept : ∀ p' ∈ tx.sendBuffer, ∃ p ∈ s.tx.sendBuffer, ∃ cause, p' = { p with lost := cause }) :
    Inv { s with tx } where
  balance := h.balance.retires hwf hoff htotals.1 htotals.2 hkept
  assigned := hoff.trans h.assigned
  buffered q hq := by
    obtain ⟨p', hp', rfl⟩ := mem_map.1 hq
    obtain ⟨p, hp, cause, rfl⟩ := hkept p' hp'
    exact h.buffered (p.streamOffset, p.data) (mem_map.2 ⟨p, hp, rfl⟩)
  genuine := h.genuine

theorem polled {r : Except SendBlocked OutboundSegment} (hidle : s.polled = none)
    (hb : s.tx.Emitted tx r) : Inv { s with tx, polled := r.toOption } := by
  have hkeeps := hb.keeps
  refine ⟨(hidle ▸ h.balance).billed hb, hkeeps.reliableOffset.trans h.assigned,
    hkeeps.pending ▸ h.buffered, fun q hq => ?_⟩
  rcases Finset.mem_union.1 hq with hq | hq
  · exact h.genuine q (Finset.mem_union_left _ hq)
  · cases r with
    | error => simp [Except.toOption] at hq
    | ok => exact (hb.carried hq).imp_right (h.buffered q)

theorem written (hseg : s.polled = some seg) :
    Inv { s with polled := none, written := s.written ++ [seg] } := by
  have hset : carried (s.written ++ [seg] ++ s.orphaned) =
      carried (s.written ++ s.orphaned) ∪ carried [seg] := by
    rw [carried_append, carried_append, carried_append, Finset.union_right_comm]
  refine ⟨?_, h.assigned, h.buffered, fun q hq => h.genuine q ?_⟩
  · rw [hset]
    exact (hseg ▸ h.balance).written
  · rw [hset] at hq
    simpa [hseg] using hq

theorem refused (hseg : s.polled = some seg)
    (hcopy : seg.retransmit = true → ∀ p ∈ s.tx.sendBuffer, p.streamOffset = seg.streamOffset →
      p.retries ≠ 0) : Inv (refuse s seg) := by
  have hbal := h.balance
  have hgen := h.genuine
  rw [hseg] at hbal hgen
  have hkeeps := s.tx.markUnsent_keeps seg.streamOffset
  unfold refuse
  by_cases hrel : seg.reliable = true
  · rw [if_pos hrel]
    by_cases hany : s.tx.sendBuffer.any (·.streamOffset == seg.streamOffset) = true
    · rw [if_pos hany]
      refine ⟨hbal.refused hrel hcopy (by simpa using hany),
        hkeeps.reliableOffset.trans h.assigned, hkeeps.pending ▸ h.buffered, fun q hq => ?_⟩
      exact hgen q (Finset.mem_union_left _ (by simpa using hq))
    · -- the segment has been acknowledged, and `mark_unsent` finds nothing
      rw [if_neg hany]
      have hgone : ∀ p ∈ s.tx.sendBuffer, seg.streamOffset ≠ p.streamOffset := by grind
      have hset : carried (s.written ++ (s.orphaned ++ [seg])) =
          carried (s.written ++ s.orphaned) ∪ carried [seg] := by
        rw [← append_assoc, carried_append]
      obtain ⟨heq, -⟩ | ⟨pre, p, post, hbuf, hoff, -⟩ := s.tx.markUnsent_cases seg.streamOffset
      · rw [heq]
        refine ⟨?_, h.assigned, h.buffered, fun q hq => hgen q ?_⟩
        · rw [hset]
          exact hbal.refused_gone (fun _ => hgone) Finset.subset_union_left (Finset.Subset.refl _) rfl
        · rw [hset] at hq
          simpa using hq
      · exact absurd hoff.symm (hgone p (by simp [hbuf]))
  · rw [if_neg hrel]
    have hnone : carried [seg] = ∅ := carried_unreliable (Bool.eq_false_iff.2 hrel)
    refine ⟨?_, h.assigned, h.buffered, fun q hq => ?_⟩
    · exact hbal.refused_gone (fun hrel' => absurd hrel' hrel) (Finset.Subset.refl _)
        Finset.subset_union_left (by rw [hnone, Finset.union_empty])
    · exact hgen q (Finset.mem_union_left _ (by simpa using hq))

theorem step {e : Event} (hs : step s e = some s') (hc : CountsCopies s e s') : Inv s' := by
  cases step_effect hs with
  | offered hsize hspec hadmits => exact h.offered hsize hspec hadmits Stream.Offer.data_of_fin
  | kept _ hk hbuf hsent hlimit => exact h.raises hk hbuf hsent hlimit
  | polled hidle hemitted => exact h.polled hidle hemitted
  | written hseg => exact h.written hseg
  | refused hseg => exact h.refused hseg (hc rfl _ hseg)
  | ack o now =>
    obtain ⟨hoff, htotals⟩ := s.tx.ack_totals o now
    exact h.retires (h.balance.wellFormed.ack o now) hoff htotals
      fun p hp => ⟨p, Stream.mem_ack hp, p.lost, rfl⟩
  | onSack k now =>
    refine h.retires (h.balance.wellFormed.onSack k now) (s.tx.onSack_reliableOffset k now)
      (Stream.foldl_retire_totals now _ s.tx) fun p hp => ?_
    obtain ⟨q, hq, -, cause, rfl⟩ := Stream.mem_onSack hp
    exact ⟨q, hq, cause, rfl⟩

end

end Inv

/-- **The sender's ledger.** In every run, whatever is acknowledged and whenever, `bytes_sent` is
the volume of the payloads that have been written, are being written, or were refused after their
segment had been acknowledged; each counts once, and is what was admitted at its offset. No charge
exceeds the total it would be taken from, and the total stays within the peer's limit. -/
theorem bytesSent_eq_volume {events : List Event} {s : State}
    (h : Lts.run step init events = some s) (hc : Lts.Along step CountsCopies init events) :
    s.tx.bytesSent = volume (carried (s.written ++ s.orphaned ++ s.polled.toList)) ∧
      (∀ q ∈ carried (s.written ++ s.orphaned ++ s.polled.toList),
        q.2 = [] ∨ s.admitted[q.1]? = some q.2) ∧
      (∀ p ∈ s.tx.sendBuffer, p.charged = true → p.data.length ≤ s.tx.bytesSent) ∧
      s.tx.bytesSent ≤ s.tx.peerSendLimit := by
  have hinv : Inv s :=
    Lts.run_inv_along (fun _ _ _ hi hs hp => hi.step hs hp) events inv_init hc h
  have htotal := hinv.balance.total
  rw [carried_append]
  refine ⟨htotal, hinv.genuine, fun p hp hch => ?_, hinv.balance.limit⟩
  have hentry := hinv.balance.entries p hp
  cases hfin : p.fin with
  | true => exact absurd ((hentry.fin hfin).1.symm.trans hch) Bool.false_ne_true
  | false =>
    rw [htotal]
    exact length_le_volume ((hentry.charged hfin).1 hch)

/-- A chunk and a FIN. The first write of the chunk is refused, its second succeeds, a
retransmission is refused and sent again; the write of another chunk is refused after an
acknowledgement of it. -/
def refusals : List Event :=
  [.offer (.sendReliable [1, 2]), .pollSend 9 0 0 false 0, .refused, .pollSend 9 0 0 false 1,
    .written, .offer .tryQueueFin, .pollSend 9 0 0 false 2000000000, .refused,
    .pollSend 9 0 0 false 2000000001, .written, .offer (.trySendReliable [3]),
    .pollSend 9 0 0 false 2000000002, .written, .pollSend 9 0 0 false 2000000003, .ack 2 2000000004,
    .refused]

theorem bytesSent_eq_volume_refusals :
    ∃ s, Lts.run step init refusals = some s ∧ s.tx.bytesSent = 3 ∧ s.written.length = 3 ∧
      s.tx.bytesSent = volume (carried (s.written ++ s.orphaned ++ s.polled.toList)) := by
  have hrun : (Lts.run step init refusals).map (fun s => (s.tx.bytesSent, s.written.length)) =
      some (3, 3) := by
    decide +kernel
  have halong : Lts.Along step CountsCopies init refusals := by decide +kernel
  obtain ⟨s, hs, hsent⟩ := map_eq_some_iff.1 hrun
  obtain ⟨hbytes, hlen⟩ := Prod.mk.inj hsent
  exact ⟨s, hs, hbytes, hlen, (bytesSent_eq_volume hs halong).1⟩

/-- A segment that is acknowledged during its first write, which is then refused, stays charged: the
sent total counts a byte that has never been on the wire. -/
theorem bytesSent_counts_refused_write :
    ∃ s, Lts.run step init
        [.offer (.sendReliable [1]), .pollSend 1 0 0 false 0, .ack 0 1, .refused] = some s ∧
      s.tx.bytesSent ≠ volume (carried (s.written ++ s.polled.toList)) := by
  have hrun : (Lts.run step init
      [.offer (.sendReliable [1]), .pollSend 1 0 0 false 0, .ack 0 1, .refused]).map
        (fun s => (s.tx.bytesSent, s.written, s.polled)) = some (1, [], none) := by
    decide +kernel
  obtain ⟨s, hs, heq⟩ := map_eq_some_iff.1 hrun
  simp only [Prod.mk.injEq] at heq
  obtain ⟨hsent, hwritten, hpolled⟩ := heq
  refine ⟨s, hs, ?_⟩
  rw [hsent, hwritten, hpolled]
  decide

end SendLedger

end PhantomProtocol
