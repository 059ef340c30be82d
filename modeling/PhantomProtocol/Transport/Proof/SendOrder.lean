import PhantomProtocol.Transport.Proof.ChargedDelivery
import PhantomProtocol.Transport.Proof.FinLast

/-!
# The order of first transmissions

Pass 2 of `poll_send` takes the first segment that is not on the wire, and a refused write puts a
segment back in its place. As long as the peer acknowledges nothing beyond what has been written,
what has left is a run of offsets without a gap, up to a *front*, and `bytes_sent` is the bytes
below it.
-/

namespace PhantomProtocol

open List

theorem payloadBytes_take_mono (chunks : List Bytes) {m n : Nat} (h : m ≤ n) :
    Stream.payloadBytes (chunks.take m) ≤ Stream.payloadBytes (chunks.take n) := by
  obtain ⟨k, rfl⟩ := Nat.exists_eq_add_of_le h
  rw [take_add, payloadBytes_append]
  exact Nat.le_add_right ..

theorem payloadBytes_take_add_le {chunks : List Bytes} {c : Nat}
    (h : ∀ data ∈ chunks, data.length ≤ c) (m n : Nat) :
    Stream.payloadBytes (chunks.take (m + n)) ≤ Stream.payloadBytes (chunks.take m) + n * c := by
  have hchunks : ∀ data ∈ (chunks.drop m).take n, data.length ≤ c :=
    fun data hdata => h data (mem_of_mem_drop (mem_of_mem_take hdata))
  rw [take_add, payloadBytes_append]
  apply Nat.add_le_add_left
  exact (payloadBytes_le hchunks).trans (Nat.mul_le_mul_right c (length_take_le ..))

theorem volume_le_payloadBytes_take {admitted : List Bytes} {n : Nat}
    {payloads : Finset (Nat × Bytes)} (hbelow : ∀ q ∈ payloads, q.1 < n)
    (hgenuine : ∀ q ∈ payloads, q.2 = [] ∨ admitted[q.1]? = some q.2) :
    volume payloads ≤ Stream.payloadBytes (admitted.take n) := by
  induction n generalizing payloads with
  | zero =>
    have hnone : payloads = ∅ := Finset.eq_empty_of_forall_notMem fun q hq =>
      absurd (hbelow q hq) (Nat.not_lt_zero _)
    rw [hnone]
    exact Nat.zero_le _
  | succ n =>
    have hfirst : volume (payloads.filter (·.1 < n)) ≤ Stream.payloadBytes (admitted.take n) := by
      simp_all
    -- at `n` itself there is nothing but the chunk and empty payloads
    have hlast : volume (payloads.filter (¬ ·.1 < n)) ≤
        Stream.payloadBytes admitted[n]?.toList := by
      have hsub : payloads.filter (¬ ·.1 < n) ⊆
          {(n, admitted[n]?.getD [])} ∪ {(n, [])} := by
        intro q hq
        obtain ⟨hmem, hge⟩ := Finset.mem_filter.1 hq
        have hat : q.1 = n := by
          have := hbelow q hmem
          omega
        obtain ⟨o, data⟩ := q
        cases hat
        rcases hgenuine _ hmem with hempty | hget
        · simp [show data = [] from hempty]
        · simp [show admitted[o]? = some data from hget]
      refine (volume_mono hsub).trans ?_
      rw [volume_insert_nil]
      cases admitted[n]? with
      | none | some => exact Nat.le_of_eq (by simp [volume, Stream.payloadBytes])
    have hsplit : volume payloads =
        volume (payloads.filter (·.1 < n)) + volume (payloads.filter (¬ ·.1 < n)) := by
      unfold volume
      exact (Finset.sum_filter_add_sum_filter_not ..).symm
    rw [hsplit, take_add_one, payloadBytes_append]
    exact Nat.add_le_add hfirst hlast

namespace Stream

variable {s s' : Stream} {p q : PendingData} {seg : OutboundSegment} {now : Nat}

/-- The first segment that is not on the wire, when it has to be charged and the peer's limit has no
room for it: the sender is stopped on its limit. -/
def stoppedAt (s : Stream) : Option PendingData :=
  (s.sendBuffer.find? (·.sentAt.isNone)).filter fun p =>
    !p.fin && !p.charged && (s.tryConsumeSendWindow (p.data.length % (u32Max + 1))).isNone

theorem stoppedAt_eq_some : s.stoppedAt = some p ↔
    s.sendBuffer.find? (·.sentAt.isNone) = some p ∧ p.fin = false ∧ p.charged = false ∧
      s.tryConsumeSendWindow (p.data.length % (u32Max + 1)) = none := by
  simp [stoppedAt, Option.filter_eq_some_iff, and_assoc]

theorem Passes.first_ok (h : s.Passes now s' (.ok seg)) (hrel : seg.reliable = true)
    (hre : seg.retransmit = false) : s.lastAckedOffset = some seg.streamOffset ∨
      ∃ p, s.sendBuffer.find? (·.sentAt.isNone) = some p ∧ seg.streamOffset = p.streamOffset := by
  cases h with
  | unreliable => cases hrel
  | fast | timeout => cases hre
  | first hscan => exact .inr ⟨_, Scan.find?_of_updateFirst hscan, rfl⟩
  | probe hacked => exact .inl hacked

theorem Passes.stopped (h : s.Passes now s' (.error .flowControl)) : s.stoppedAt.isSome = true := by
  cases h with
  | blocked hwhy =>
    obtain ⟨p, hp⟩ := hwhy rfl
    rw [stoppedAt_eq_some.2 hp]
    rfl

theorem find?_unsent_le (hsorted : (s.pending.map (·.1)).Pairwise (· < ·))
    (hfind : s.sendBuffer.find? (·.sentAt.isNone) = some p) (hq : q ∈ s.sendBuffer)
    (hunsent : q.sentAt = none) : p.streamOffset ≤ q.streamOffset := by
  obtain ⟨-, pre, post, hbuf, hpre⟩ := find?_eq_some_iff_append.1 hfind
  rw [pending, map_map, hbuf, map_append, map_cons, pairwise_append] at hsorted
  rw [hbuf] at hq
  rcases mem_append.1 hq with hq | hq
  · have hsent := hpre q hq
    rw [hunsent] at hsent
    cases hsent
  · rcases mem_cons.1 hq with rfl | hq
    · exact Nat.le_refl _
    · exact Nat.le_of_lt ((pairwise_cons.1 hsorted.2.1).1 _ (mem_map_of_mem hq))

theorem le_foldl_retire (now : Nat) (covered : List PendingData) (s : Stream) :
    s.highestAckedPlusOne ≤ (covered.foldl (retire now) s).highestAckedPlusOne ∧
      ∀ p ∈ covered, min (p.streamOffset + 1) u32Max ≤
        (covered.foldl (retire now) s).highestAckedPlusOne := by
  induction covered generalizing s with
  | nil => exact ⟨Nat.le_refl _, fun p hp => by cases hp⟩
  | cons p =>
    obtain ⟨-, hmark, -⟩ := retire_spec now s p
    grind

end Stream

namespace SendLedger

variable {s s' : State} {e : Event} {f : Nat} {tx : Stream} {data : Bytes} {seg : OutboundSegment}

def Heard (s : State) : Event → Prop
  | .ack .. => False
  | .onSack k _ => ∀ p ∈ s.tx.sendBuffer, k.acks p.streamOffset = true →
      ∃ seg ∈ s.written, seg.reliable = true ∧ p.streamOffset ≤ seg.streamOffset
  | _ => True

/-- The segment has not been on the wire, unless it is the one at `f` and is being written. -/
def Untouched (polled : Option OutboundSegment) (f : Nat) (p : PendingData) : Prop :=
  p.retries = 0 ∧ (p.sentAt ≠ none →
    p.streamOffset = f ∧ ∃ seg ∈ polled, seg.reliable = true ∧ seg.streamOffset = f)

def UpToFront (tx : Stream) (f : Nat) (seg : OutboundSegment) : Prop :=
  seg.streamOffset < f ∨ seg.streamOffset = f ∧ (f, seg.data) ∈ tx.pending

/-- `f` is the lowest offset no copy of which has been written. -/
structure Front (s : State) (f : Nat) : Prop where
  sorted : (s.tx.pending.map (·.1)).Pairwise (· < ·)
  left : ∀ i < f, ∃ seg ∈ s.written, seg.reliable = true ∧ seg.streamOffset = i ∧
    s.admitted[i]? = some seg.data
  below : ∀ seg ∈ s.written ++ s.orphaned, seg.reliable = true → seg.streamOffset < f
  inHand : ∀ seg ∈ s.polled, seg.reliable = true → UpToFront s.tx f seg
  fresh : ∀ p ∈ s.tx.sendBuffer, f ≤ p.streamOffset → Untouched s.polled f p
  acked : s.tx.highestAckedPlusOne ≤ f
  retired : ∀ i < s.tx.reliableOffset, (∃ q ∈ s.tx.pending, q.1 = i) ∨ i < s.tx.highestAckedPlusOne

theorem front_init : Front init 0 where
  sorted := by simp [init, Stream.new, Stream.pending]
  left := by simp
  below := by simp [init]
  inHand := by simp [init]
  fresh := by simp [init, Stream.new]
  acked := Nat.le_refl _
  retired := by simp [init, Stream.new]

namespace Front

variable {p : PendingData}

section

variable (h : Front s f)
include h

theorem le_admitted : f ≤ s.admitted.length := by
  cases f with
  | zero => exact Nat.zero_le _
  | succ n =>
    obtain ⟨seg, -, -, -, hget⟩ := h.left n (Nat.lt_succ_self n)
    exact (List.getElem?_eq_some_iff.1 hget).1

theorem lastAcked_lt {o : Nat} (ho : s.tx.lastAckedOffset = some o) : o < f := by
  have hle := h.acked
  unfold Stream.lastAckedOffset at ho
  split at ho
  · cases ho
  · cases ho
    omega

theorem unsent (hidle : s.polled = none)
    (hp : p ∈ s.tx.sendBuffer) (hle : f ≤ p.streamOffset) : p.sentAt = none := by
  by_contra hsent
  obtain ⟨-, seg, hseg, -⟩ := (h.fresh p hp hle).2 hsent
  rw [hidle] at hseg
  cases hseg

theorem untouched_of_idle (hidle : s.polled = none)
    (hp : p ∈ s.tx.sendBuffer) (hle : f ≤ p.streamOffset) (polled : Option OutboundSegment) :
    Untouched polled f p :=
  ⟨(h.fresh p hp hle).1, fun hsent => absurd (h.unsent hidle hp hle) hsent⟩

theorem untouched_of_ne (hseg : s.polled = some seg)
    (hp : p ∈ s.tx.sendBuffer) (hle : f ≤ p.streamOffset)
    (hne : seg.reliable = true → p.streamOffset ≠ seg.streamOffset) : Untouched none f p := by
  refine ⟨(h.fresh p hp hle).1, fun hsent => ?_⟩
  obtain ⟨hat, x, hx, hrel, hfront⟩ := (h.fresh p hp hle).2 hsent
  rw [hseg] at hx
  cases hx
  exact absurd (hat.trans hfront.symm) (hne hrel)

theorem first_le (hwf : s.tx.WellFormed) (hidle : s.polled = none)
    (hfind : s.tx.sendBuffer.find? (·.sentAt.isNone) = some p) :
    p.streamOffset ≤ f := by
  have hlt := hwf.below _ (mem_map_of_mem (mem_of_find?_eq_some hfind))
  rcases Nat.lt_or_ge f s.tx.reliableOffset with hassigned | hnone
  · -- the segment at the front is still buffered, and off the wire
    rcases h.retired f hassigned with ⟨q, hq, hat⟩ | hacked
    · obtain ⟨x, hx, rfl⟩ := mem_map.1 hq
      have hunsent := h.unsent hidle hx (Nat.le_of_eq hat.symm)
      exact (Stream.find?_unsent_le h.sorted hfind hx hunsent).trans (Nat.le_of_eq hat)
    · exact absurd h.acked (Nat.not_le.2 hacked)
  · exact (Nat.le_of_lt hlt).trans hnone

theorem offered {taken fin : Bool} (hwf : s.tx.WellFormed)
    (hspec : (taken = true ∧ s.tx.Appends tx data) ∨ (taken = false ∧ tx = s.tx))
    (hadmits : s.tx.Admits tx data fin) : Front (offered s tx taken data) f := by
  rcases hspec with ⟨rfl, happ⟩ | ⟨rfl, rfl⟩
  · have hpending := happ.pending
    refine ⟨?_, fun i hi => ?_, h.below, fun seg hseg hrel => ?_, fun p hp hle => ?_, ?_,
      fun i hi => ?_⟩
    · show (tx.pending.map (·.1)).Pairwise (· < ·)
      rw [hpending, map_append, pairwise_append]
      refine ⟨h.sorted, pairwise_singleton .., fun a ha b hb => ?_⟩
      obtain ⟨q, hq, rfl⟩ := mem_map.1 ha
      cases mem_singleton.1 hb
      exact hwf.below q hq
    · obtain ⟨seg, hseg, hrel, hoff, hget⟩ := h.left i hi
      exact ⟨seg, hseg, hrel, hoff, getElem?_append_of_some hget [data]⟩
    · refine (h.inHand seg hseg hrel).imp_right fun hat => ⟨hat.1, ?_⟩
      show (f, seg.data) ∈ tx.pending
      rw [hpending]
      exact mem_append_left _ hat.2
    · rcases hadmits.buffer p hp with hold | rfl
      · exact h.fresh p hold hle
      · exact ⟨rfl, fun hsent => absurd rfl hsent⟩
    · show tx.highestAckedPlusOne ≤ f
      rw [happ.highestAcked]
      exact h.acked
    · show (∃ q ∈ tx.pending, q.1 = i) ∨ i < tx.highestAckedPlusOne
      have hi' : i < tx.reliableOffset := hi
      rw [happ.assigned] at hi'
      rw [hpending, happ.highestAcked]
      rcases Nat.lt_succ_iff_lt_or_eq.1 hi' with hlt | rfl
      · refine (h.retired i hlt).imp_left fun hq => ?_
        obtain ⟨q, hq, hat⟩ := hq
        exact ⟨q, mem_append_left _ hq, hat⟩
      · exact .inl ⟨_, mem_append_right _ (mem_singleton.2 rfl), rfl⟩
  · exact h

theorem frame (hk : s.tx.Keeps s'.tx) (hwritten : s'.written = s.written)
    (hadm : s'.admitted = s.admitted)
    (horphaned : ∀ seg ∈ s'.orphaned, seg.reliable = true → seg.streamOffset < f)
    (hinHand : ∀ seg ∈ s'.polled, seg.reliable = true → UpToFront s.tx f seg)
    (hfresh : ∀ p ∈ s'.tx.sendBuffer, f ≤ p.streamOffset → Untouched s'.polled f p) :
    Front s' f where
  sorted := hk.pending ▸ h.sorted
  left i hi := by
    rw [hwritten, hadm]
    exact h.left i hi
  below seg hseg hrel := by
    rcases mem_append.1 hseg with hseg | hseg
    · exact h.below seg (mem_append_left _ (hwritten ▸ hseg)) hrel
    · exact horphaned seg hseg hrel
  inHand seg hseg hrel := by
    rw [UpToFront, hk.pending]
    exact hinHand seg hseg hrel
  fresh := hfresh
  acked := hk.highestAcked ▸ h.acked
  retired i hi := by
    rw [hk.pending, hk.highestAcked]
    exact h.retired i (hk.reliableOffset ▸ hi)

theorem orphaned_lt : ∀ seg ∈ s.orphaned, seg.reliable = true → seg.streamOffset < f :=
  fun seg hseg => h.below seg (mem_append_right _ hseg)

theorem raises (hk : s.tx.Keeps tx) (hbuf : tx.sendBuffer = s.tx.sendBuffer) :
    Front { s with tx } f :=
  h.frame hk rfl rfl h.orphaned_lt h.inHand fun p hp => h.fresh p (hbuf ▸ hp)

theorem polled_aside (hidle : s.polled = none) (hk : s.tx.Keeps tx)
    (hbuf : tx.sendBuffer = s.tx.sendBuffer) {polled : Option OutboundSegment}
    (hlt : ∀ seg ∈ polled, seg.reliable = true → seg.streamOffset < f) :
    Front { s with tx, polled } f := by
  refine h.frame hk rfl rfl h.orphaned_lt (fun seg hseg hrel => .inl (hlt seg hseg hrel)) ?_
  exact fun p hp hle => h.untouched_of_idle hidle (hbuf ▸ hp) hle polled

theorem polled_copied (hwf : s.tx.WellFormed) (hidle : s.polled = none)
    (hk : s.tx.Keeps tx) {pre post : List PendingData} {p p' : PendingData}
    (hbuf : s.tx.sendBuffer = pre ++ p :: post) (hbuf' : tx.sendBuffer = pre ++ p' :: post)
    (hbills : Stream.Bills seg p p' s.tx.bytesSent tx.bytesSent)
    (hfirst : p.sentAt = none → p.streamOffset ≤ f) :
    Front { s with tx, polled := some seg } f := by
  have hp : p ∈ s.tx.sendBuffer := by simp [hbuf]
  have htx := hbills.transmits
  have hat : p.streamOffset < f ∨ p.streamOffset = f := by
    rcases Nat.lt_or_ge p.streamOffset f with hlt | hge
    · exact .inl hlt
    · exact .inr (Nat.le_antisymm (hfirst (h.unsent hidle hp hge)) hge)
  refine h.frame hk rfl rfl h.orphaned_lt (fun x hx hrel => ?_) fun q hq hle => ?_
  · cases hx
    unfold UpToFront
    rw [htx.streamOffset, htx.data]
    exact hat.imp_right fun heq => ⟨heq, heq ▸ mem_map_of_mem hp⟩
  · have hq' : q ∈ pre ++ p' :: post := hbuf' ▸ hq
    rcases hwf.mem_replace hbuf hq' with rfl | ⟨hold, -⟩
    · rw [htx.sameOffset] at hle
      have hfront := hat.resolve_left (Nat.not_lt.2 hle)
      have hunsent := h.unsent hidle hp hle
      refine ⟨(hbills.first hunsent).1.trans (h.fresh p hp hle).1, fun _ => ?_⟩
      exact ⟨htx.sameOffset.trans hfront, seg, rfl, htx.reliable, htx.streamOffset.trans hfront⟩
    · exact h.untouched_of_idle hidle hold hle (some seg)

theorem polled {budget dn dt now : Nat} {limited : Bool} (hwf : s.tx.WellFormed)
    (hidle : s.polled = none) : Front { s with
      tx := (s.tx.pollSend budget dn dt limited now).1
      polled := (s.tx.pollSend budget dn dt limited now).2.toOption } f := by
  have hpasses := s.tx.pollSend_passes budget dn dt limited now
  generalize s.tx.pollSend budget dn dt limited now = result at hpasses
  obtain ⟨tx, r⟩ := result
  cases hpasses.emitted with
  | blocked => exact h.polled_aside hidle (.refl _) rfl (by simp [Except.toOption])
  | unreliable hidles hrel =>
    refine h.polled_aside hidle hidles.keeps hidles.buffer fun x hx hrel' => ?_
    cases hx
    exact absurd (hrel.symm.trans hrel') Bool.false_ne_true
  | probe hidles hacked =>
    refine h.polled_aside hidle hidles.keeps hidles.buffer fun x hx _ => ?_
    cases hx
    exact h.lastAcked_lt hacked
  | @copied _ seg pre post p p' hkeeps hbuf hbuf' _ hcopied =>
    have htx := hcopied.bills.transmits
    refine h.polled_copied hwf hidle hkeeps hbuf hbuf' hcopied.bills fun hunsent => ?_
    have hre : seg.retransmit = false := by
      rw [htx.retransmit, hunsent]
      rfl
    rw [← htx.streamOffset]
    rcases hpasses.first_ok htx.reliable hre with hacked | ⟨q, hfind, hat⟩
    · exact Nat.le_of_lt (h.lastAcked_lt hacked)
    · rw [hat]
      exact h.first_le hwf hidle hfind

theorem written (hinv : Inv s) (hseg : s.polled = some seg) :
    ∃ f', f ≤ f' ∧ Front { s with polled := none, written := s.written ++ [seg] } f' := by
  have hnew : ∀ x ∈ s.written ++ [seg] ++ s.orphaned, x ∈ s.written ++ s.orphaned ∨ x = seg := by
    simp only [mem_append, mem_singleton]
    tauto
  by_cases hat : seg.reliable = true ∧ seg.streamOffset = f
  · obtain ⟨hrel, hat⟩ := hat
    have hbuffered : (f, seg.data) ∈ s.tx.pending := by
      rcases h.inHand seg hseg hrel with hlt | ⟨-, hmem⟩
      · exact absurd hat (Nat.ne_of_lt hlt)
      · exact hmem
    refine ⟨f + 1, Nat.le_succ f, h.sorted, fun i hi => ?_, fun x hx hrel' => ?_, by simp,
      fun p hp hle => ?_, Nat.le_succ_of_le h.acked, h.retired⟩
    · rcases Nat.lt_succ_iff_lt_or_eq.1 hi with hlt | rfl
      · obtain ⟨x, hx, hrest⟩ := h.left i hlt
        exact ⟨x, mem_append_left _ hx, hrest⟩
      · exact ⟨seg, by simp, hrel, hat, hinv.buffered _ hbuffered⟩
    · rcases hnew x hx with hx' | rfl
      · exact Nat.lt_succ_of_lt (h.below x hx' hrel')
      · exact Nat.lt_succ_of_le (Nat.le_of_eq hat)
    · obtain ⟨hzero, hsent⟩ := h.fresh p hp (Nat.le_of_succ_le hle)
      exact ⟨hzero, fun hne => absurd (hsent hne).1 (Nat.ne_of_gt hle)⟩
  · -- the front stays: the segment had left before
    have hlt : seg.reliable = true → seg.streamOffset < f := fun hrel =>
      (h.inHand seg hseg hrel).resolve_right fun hfront => hat ⟨hrel, hfront.1⟩
    refine ⟨f, Nat.le_refl f, h.sorted, fun i hi => ?_, fun x hx hrel' => ?_, by simp,
      fun p hp hle => ?_, h.acked, h.retired⟩
    · obtain ⟨x, hx, hrest⟩ := h.left i hi
      exact ⟨x, mem_append_left _ hx, hrest⟩
    · rcases hnew x hx with hx' | rfl
      · exact h.below x hx' hrel'
      · exact hlt hrel'
    · exact h.untouched_of_ne hseg hp hle fun hrel => Nat.ne_of_gt ((hlt hrel).trans_le hle)

theorem refused (hwf : s.tx.WellFormed) (hseg : s.polled = some seg) : Front (refuse s seg) f := by
  unfold refuse
  by_cases hrel : seg.reliable = true
  · rw [if_pos hrel]
    refine h.frame (s.tx.markUnsent_keeps _) rfl rfl (fun x hx hrel' => ?_) (by simp)
      fun q hq hle => ?_
    · -- only a segment that is no longer buffered is orphaned
      dsimp only at hx
      split at hx
      · exact h.orphaned_lt x hx hrel'
      · rename_i hgone
        rcases mem_append.1 hx with hx | hx
        · exact h.orphaned_lt x hx hrel'
        · cases mem_singleton.1 hx
          refine (h.inHand seg hseg hrel).resolve_right fun hfront => hgone ?_
          obtain ⟨p, hp, heq⟩ := mem_map.1 hfront.2
          refine any_eq_true.2 ⟨p, hp, ?_⟩
          rw [hfront.1]
          exact beq_iff_eq.2 (congrArg Prod.fst heq)
    · dsimp only at hq
      obtain ⟨heq, hgone⟩ | ⟨pre, p, post, hbuf, hoff, heq⟩ := s.tx.markUnsent_cases seg.streamOffset
      · rw [heq] at hq
        exact h.untouched_of_ne hseg hq hle fun _ => hgone q hq
      · rw [heq] at hq
        rcases hwf.mem_replace hbuf hq with rfl | ⟨hold, hne⟩
        · exact ⟨(h.fresh p (by simp [hbuf]) hle).1, fun hsent => absurd rfl hsent⟩
        · exact h.untouched_of_ne hseg hold hle fun _ => hoff ▸ hne
  · rw [if_neg hrel]
    refine h.frame (.refl _) rfl rfl h.orphaned_lt (by simp) fun q hq hle => ?_
    exact h.untouched_of_ne hseg hq hle fun hrel' => absurd hrel' hrel

theorem onSack {k : Sack} (hwf : s.tx.WellFormed) (now : Nat)
    (hheard : ∀ p ∈ s.tx.sendBuffer, k.acks p.streamOffset = true →
      ∃ seg ∈ s.written, seg.reliable = true ∧ p.streamOffset ≤ seg.streamOffset) :
    Front { s with tx := (s.tx.onSack k now).1 } f := by
  have hcovered : ∀ q ∈ s.tx.pending, k.acks q.1 = true → q.1 < f := by
    intro q hq hacks
    obtain ⟨p, hp, rfl⟩ := mem_map.1 hq
    obtain ⟨seg, hseg, hrel, hle⟩ := hheard p hp hacks
    exact Nat.lt_of_le_of_lt hle (h.below seg (mem_append_left _ hseg) hrel)
  have hpending := s.tx.onSack_pending k now
  refine ⟨?_, h.left, h.below, fun seg hseg hrel => ?_, fun p hp hle => ?_, ?_, fun i hi => ?_⟩
  · show ((s.tx.onSack k now).1.pending.map (·.1)).Pairwise (· < ·)
    rw [hpending]
    exact h.sorted.sublist (filter_sublist.map _)
  · refine (h.inHand seg hseg hrel).imp_right fun hat => ⟨hat.1, ?_⟩
    grind
  · obtain ⟨q, hq, -, cause, rfl⟩ := Stream.mem_onSack hp
    exact h.fresh q hq hle
  · show (s.tx.onSack k now).1.highestAckedPlusOne ≤ f
    rcases s.tx.onSack_highestAcked k now with hsame | ⟨q, hq, hacks, hraised⟩
    · rw [hsame]
      exact h.acked
    · simp [*]
  · show (∃ q ∈ (s.tx.onSack k now).1.pending, q.1 = i) ∨
      i < (s.tx.onSack k now).1.highestAckedPlusOne
    have hi' : i < s.tx.reliableOffset := (s.tx.onSack_reliableOffset k now) ▸ hi
    obtain ⟨hmono, hraised⟩ := Stream.le_foldl_retire now
      (s.tx.sendBuffer.filter fun p => k.acks p.streamOffset) s.tx
    rcases h.retired i hi' with ⟨q, hq, rfl⟩ | hacked
    · cases hacks : k.acks q.1 with
      | false => grind
      | true =>
        obtain ⟨p, hp, rfl⟩ := mem_map.1 hq
        have hle := hraised p (mem_filter.2 ⟨hp, hacks⟩)
        have hbound := hwf.bound
        rw [Nat.min_eq_left (by omega)] at hle
        exact .inr hle
    · exact .inr (Nat.lt_of_lt_of_le hacked hmono)

/-- No step takes the front back. -/
theorem step (hinv : Inv s) (hs : step s e = some s') (hheard : Heard s e) :
    ∃ f', f ≤ f' ∧ Front s' f' := by
  have hwf := hinv.balance.wellFormed
  cases step_effect hs with
  | offered _ hspec hadmits => exact ⟨f, Nat.le_refl f, h.offered hwf hspec hadmits⟩
  | kept _ hk hbuf => exact ⟨f, Nat.le_refl f, h.raises hk hbuf⟩
  | polled hidle =>
    refine ⟨f, Nat.le_refl f, ?_⟩
    have heq := hs
    simp only [SendLedger.step, hidle, Option.isSome_none, Bool.false_eq_true, if_false,
      Option.some.injEq] at heq
    rw [← heq]
    exact h.polled hwf hidle
  | written hseg => exact h.written hinv hseg
  | refused hseg => exact ⟨f, Nat.le_refl f, h.refused hwf hseg⟩
  | ack => exact hheard.elim
  | onSack k now => exact ⟨f, Nat.le_refl f, h.onSack hwf now hheard⟩

end

end Front

/-! ## What is admitted -/

theorem offered_admitted (s : State) (tx : Stream) (taken : Bool) (data : Bytes) :
    (offered s tx taken data).admitted = s.admitted ∨
      (offered s tx taken data).admitted = s.admitted ++ [data] := by
  cases taken with
  | true => exact .inr rfl
  | false => exact .inl rfl

/-- Only what is offered is admitted. -/
theorem step_admitted (hs : step s e = some s') : s'.admitted = s.admitted ∨
    ∃ o, e = .offer o ∧ s'.admitted = s.admitted ++ [o.data] := by
  cases e with
  | offer o =>
    obtain ⟨-, hs⟩ := Option.ite_none_left_eq_some.1 hs
    obtain ⟨r, -, rfl⟩ := Option.map_eq_some_iff.1 hs
    exact (offered_admitted ..).imp_right fun h => ⟨o, rfl, h⟩
  | pollSend => grind [step]
  | written =>
    obtain ⟨seg, -, rfl⟩ := Option.map_eq_some_iff.1 hs
    exact .inl rfl
  | refused =>
    obtain ⟨seg, -, rfl⟩ := Option.map_eq_some_iff.1 hs
    unfold refuse
    split
    · exact .inl rfl
    · exact .inl rfl
  | _ =>
    cases hs
    exact .inl rfl

theorem step_grows (hs : step s e = some s') :
    s.written ⊆ s'.written ∧ s.tx.peerSendLimit ≤ s'.tx.peerSendLimit := by
  cases step_effect hs with
  | offered _ _ hadmits => exact ⟨fun _ h => h, Nat.le_of_eq hadmits.limit.symm⟩
  | kept _ _ _ _ hlimit => exact ⟨fun _ h => h, hlimit⟩
  | polled _ hemitted => exact ⟨fun _ h => h, Nat.le_of_eq hemitted.limit.symm⟩
  | written => exact ⟨subset_append_left .., Nat.le_refl _⟩
  | @refused seg =>
    unfold refuse
    split
    · refine ⟨fun _ h => h, Nat.le_of_eq ?_⟩
      obtain ⟨heq, -⟩ | ⟨pre, p, post, -, -, heq⟩ := s.tx.markUnsent_cases seg.streamOffset
      · rw [heq]
      · rw [heq]
    · exact ⟨fun _ h => h, Nat.le_refl _⟩
  | ack o now => exact ⟨fun _ h => h, Nat.le_of_eq (s.tx.ack_totals o now).2.2.symm⟩
  | onSack k now =>
    exact ⟨fun _ h => h, Nat.le_of_eq (Stream.foldl_retire_totals now _ s.tx).2.symm⟩

/-! ## The FIN -/

/-- The application offers nothing after the FIN. -/
def EndsWithFin (s : State) (e : Event) : Prop := ∀ o, e = .offer o → s.tx.localFinished = false

/-- The flag is on the segment at the last offset and on no other. -/
structure FinEnds (s : State) : Prop where
  buffered : s.tx.FlagsEnd s.admitted
  flagged : ∀ seg ∈ s.polled.toList ++ s.written, seg.reliable = true → seg.fin = true →
    (s.tx.localFinished = true ∧ seg.streamOffset + 1 = s.admitted.length) ∧ seg.data = []

theorem finEnds_init : FinEnds init where
  buffered := by simp [init, Stream.new, Stream.FlagsEnd]
  flagged := by simp [init]

namespace FinEnds

theorem frame (h : FinEnds s) (hbuf : ∀ p' ∈ s'.tx.sendBuffer, ∃ p ∈ s.tx.sendBuffer,
      p'.streamOffset = p.streamOffset ∧ p'.fin = p.fin)
    (hfin : s'.tx.localFinished = s.tx.localFinished) (hadm : s'.admitted = s.admitted)
    (hsegs : ∀ seg ∈ s'.polled.toList ++ s'.written, seg ∈ s.polled.toList ++ s.written) :
    FinEnds s' := by
  refine ⟨hadm ▸ h.buffered.frame hbuf hfin, fun seg hseg hrel hflag => ?_⟩
  rw [hfin, hadm]
  exact h.flagged seg (hsegs seg hseg) hrel hflag

theorem offered {taken fin : Bool} (h : FinEnds s) (hinv : Inv s)
    (hopen : s.tx.localFinished = false)
    (hspec : (taken = true ∧ s.tx.Appends tx data) ∨ (taken = false ∧ tx = s.tx))
    (hadmits : s.tx.Admits tx data fin)
    (hfin : tx.localFinished = (s.tx.localFinished || fin && taken)) :
    FinEnds (offered s tx taken data) := by
  rcases hspec with ⟨rfl, -⟩ | ⟨rfl, rfl⟩
  · rw [hopen, Bool.false_or, Bool.and_true] at hfin
    refine ⟨h.buffered.admits hopen hinv.assigned hinv.buffered hadmits hfin,
      fun seg hseg hrel hflag => ?_⟩
    exact absurd (hopen.symm.trans (h.flagged seg hseg hrel hflag).1.1) Bool.false_ne_true
  · exact h

theorem polled {r : Except SendBlocked OutboundSegment} (h : FinEnds s) (hinv : Inv s)
    (hb : s.tx.Emitted tx r) (hfin : tx.localFinished = s.tx.localFinished) :
    FinEnds { s with tx, polled := r.toOption } := by
  -- the part that is about what was there before
  have hkept : FinEnds { s with tx, polled := none } :=
    h.frame (fun p' hp' => hb.mem hp') hfin rfl fun seg hseg => mem_append_right _ hseg
  refine ⟨hkept.buffered, fun seg hseg hrel hflag => ?_⟩
  rcases mem_append.1 hseg with hnew | hold
  · cases r with
    | error => cases hnew
    | ok =>
      cases mem_singleton.1 hnew
      cases hb with
      | unreliable _ hrel' => exact absurd (hrel'.symm.trans hrel) Bool.false_ne_true
      | probe _ _ _ hfin' => exact absurd (hfin'.symm.trans hflag) Bool.false_ne_true
      | @copied _ _ pre post p p' _ hbuf hbuf' _ hcopied =>
        have hbills := hcopied.bills
        have htx := hbills.transmits
        have hp : p ∈ s.tx.sendBuffer := by simp [hbuf]
        have hpfin : p.fin = true := hbills.fin.symm.trans hflag
        have hp' : p' ∈ tx.sendBuffer := by simp [hbuf']
        refine ⟨?_, htx.data.trans ((hinv.balance.entries p hp).fin hpfin).2⟩
        have hend := (hkept.buffered p' hp').1 (hbills.sameFin.trans hpfin)
        rw [htx.streamOffset, ← htx.sameOffset]
        exact hend
  · exact hkept.flagged seg hold hrel hflag

theorem step (h : FinEnds s) (hinv : Inv s) (hs : step s e = some s') (hends : EndsWithFin s e)
    (hheard : Heard s e) : FinEnds s' := by
  cases e with
  | offer o =>
    obtain ⟨-, hs⟩ := Option.ite_none_left_eq_some.1 hs
    obtain ⟨r, hr, rfl⟩ := Option.map_eq_some_iff.1 hs
    exact h.offered hinv (hends o rfl) (Stream.offer_spec hr) (Stream.offer_admits hr)
      (Stream.offer_localFinished hr)
  | pollSend budget dn dt limited now =>
    simp only [SendLedger.step] at hs
    split at hs
    · cases hs
    · cases hs
      exact h.polled hinv (s.tx.pollSend_emitted budget dn dt limited now)
        (s.tx.pollSend_localFinished budget dn dt limited now)
  | written =>
    obtain ⟨seg, hseg, rfl⟩ := Option.map_eq_some_iff.1 hs
    refine h.frame (fun p hp => ⟨p, hp, rfl, rfl⟩) rfl rfl fun x hx => ?_
    simpa [hseg, or_comm] using hx
  | refused =>
    obtain ⟨seg, hseg, rfl⟩ := Option.map_eq_some_iff.1 hs
    unfold refuse
    split
    · exact h.frame (fun p hp => Stream.mem_markUnsent hp) (s.tx.markUnsent_localFinished _) rfl
        fun x hx => mem_append_right _ hx
    · exact h.frame (fun p hp => ⟨p, hp, rfl, rfl⟩) rfl rfl fun x hx => mem_append_right _ hx
  | ack => exact hheard.elim
  | onSack k now =>
    cases hs
    refine h.frame (fun p hp => ?_) (s.tx.onSack_localFinished k now) rfl fun _ hx => hx
    obtain ⟨q, hq, -, cause, rfl⟩ := Stream.mem_onSack hp
    exact ⟨q, hq, rfl, rfl⟩
  | sendUnreliable | windowUpdate | resetRto =>
    cases hs
    exact h.frame (fun p hp => ⟨p, hp, rfl, rfl⟩) rfl rfl fun _ hx => hx

end FinEnds

/-! ## The sent total -/

namespace Front

variable {p : PendingData}

/-- The sent total against the bytes below the front. -/
theorem le_bytesSent (h : Front s f) (hinv : Inv s) (hends : FinEnds s) :
    Stream.payloadBytes (s.admitted.take f) ≤ s.tx.bytesSent := by
  rw [hinv.balance.total]
  refine payloadBytes_take_le fun o ho => ?_
  obtain ⟨seg, hseg, hrel, rfl, hget⟩ := h.left o ho
  refine ⟨seg.data, hget, ?_⟩
  cases hfin : seg.fin with
  | true => exact .inl (hends.flagged seg (mem_append_right _ hseg) hrel hfin).2
  | false => grind [Finset.mem_union_left, mem_carried]

theorem bytesSent_eq (h : Front s f) (hinv : Inv s) (hends : FinEnds s) (hidle : s.polled = none) :
    s.tx.bytesSent = Stream.payloadBytes (s.admitted.take f) := by
  apply Nat.le_antisymm
  · rw [hinv.balance.total]
    refine volume_le_payloadBytes_take (fun q hq => ?_) fun q hq => hinv.genuine q hq
    rw [hidle, Option.toList_none, carried_nil, Finset.union_empty] at hq
    obtain ⟨seg, hseg, hrel, -, rfl⟩ := mem_carried.1 hq
    exact h.below seg hseg hrel
  · exact h.le_bytesSent hinv hends

/-- A sender is stopped at the front. -/
theorem stopped (h : Front s f) (hinv : Inv s) (hends : FinEnds s) (hidle : s.polled = none)
    (hp : s.tx.stoppedAt = some p) : p.streamOffset = f := by
  obtain ⟨hfind, hfin, hunch, -⟩ := Stream.stoppedAt_eq_some.1 hp
  have hmem := mem_of_find?_eq_some hfind
  refine Nat.le_antisymm (h.first_le hinv.balance.wellFormed hidle hfind) (Nat.not_lt.1 ?_)
  intro hlt
  -- a chunk below the front has left, so that it holds its charge
  obtain ⟨seg, hseg, hrel, hoff, hget⟩ := h.left _ hlt
  have hdata : seg.data = p.data :=
    Option.some.inj (hget.symm.trans (hinv.buffered _ (mem_map_of_mem hmem)))
  cases hflag : seg.fin with
  | true =>
    obtain ⟨hend, -⟩ := hends.flagged seg (mem_append_right _ hseg) hrel hflag
    rw [hoff] at hend
    exact absurd (hfin.symm.trans ((hends.buffered p hmem).2 hend)) Bool.false_ne_true
  | false =>
    have hcarried : (p.streamOffset, p.data) ∈ carried (s.written ++ s.orphaned) :=
      mem_carried.2 ⟨seg, mem_append_left _ hseg, hrel, hflag, by rw [hoff, hdata]⟩
    have hch := ((hinv.balance.entries p hmem).charged hfin).2 (Finset.mem_union_left _ hcarried)
    exact absurd (hunch.symm.trans hch) Bool.false_ne_true

theorem quiet (h : Front s f) (hinv : Inv s) (hends : FinEnds s) (hidle : s.polled = none)
    (hp : s.tx.stoppedAt = some p)
    (hquiet : s.tx.sendBuffer.any (·.sentAt.isSome) = false) : s.tx.highestAckedPlusOne = f := by
  refine Nat.le_antisymm h.acked (Nat.not_lt.1 fun hlt => ?_)
  have hat := h.stopped hinv hends hidle hp
  have hfind := (Stream.stoppedAt_eq_some.1 hp).1
  have hbelow := hinv.balance.wellFormed.below _
    (mem_map_of_mem (mem_of_find?_eq_some hfind))
  have hassigned : s.tx.highestAckedPlusOne < s.tx.reliableOffset := by omega
  rcases h.retired _ hassigned with ⟨q, hq, hoff⟩ | hacked
  · obtain ⟨x, hx, rfl⟩ := mem_map.1 hq
    have hunsent : x.sentAt = none := by simp_all
    have hle := Stream.find?_unsent_le h.sorted hfind hx hunsent
    have : x.streamOffset = s.tx.highestAckedPlusOne := hoff
    omega
  · exact Nat.lt_irrefl _ hacked

end Front

end SendLedger

end PhantomProtocol
