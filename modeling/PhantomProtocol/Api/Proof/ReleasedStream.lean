import PhantomProtocol.Api.ReleasedStream
import PhantomProtocol.Transport.Proof.SendOrder

/-!
# A dropped stream does not hold its writer up

The grants of `released_stream_grant` against the sender's limit, over every run of
`ReleasedStream`.
-/

namespace PhantomProtocol

open List Option

/-! ## The grant -/

theorem grant_le_u64Max {o : Nat} (ho : o < u32Max) :
    (o + 1) * maxRecvReliableChunk + maxRecvWindow ≤ u64Max := by
  have hspace : (o + 1) * maxRecvReliableChunk ≤ u32Max * maxRecvReliableChunk :=
    Nat.mul_le_mul_right _ ho
  have hfits : u32Max * maxRecvReliableChunk + maxRecvWindow ≤ u64Max := by decide
  omega

theorem releasedStreamGrant_some {o limit : Nat} {probe fin : Bool}
    (h : releasedStreamGrant o probe fin = some limit) (ho : o < u32Max) :
    fin = false ∧ limit = (o + 1) * maxRecvReliableChunk + maxRecvWindow := by
  unfold releasedStreamGrant at h
  split at h
  · cases h
  · rename_i hgrant
    have hfin : fin = false := by simp_all
    have hfits := grant_le_u64Max ho
    have hlimit := Option.some.inj h
    rw [Nat.min_eq_left (Nat.le_of_add_right_le hfits), Nat.min_eq_left hfits] at hlimit
    exact ⟨hfin, hlimit.symm⟩

theorem releasedStreamGrant_multiple {o : Nat} (h : releasedGrantStride ∣ o) (probe : Bool) :
    (releasedStreamGrant o probe false).isSome = true := by
  have hmod : o % releasedGrantStride = 0 := Nat.mod_eq_zero_of_dvd h
  simp [releasedStreamGrant, hmod]

theorem acks_upTo {k : Sack} {o x : Nat} (h : Sack.fromInclusiveRanges [(0, o)] 0 = some k)
    (hx : k.acks x = true) : x ≤ o := by
  have hcovers := Sack.acks_fromInclusiveRanges h hx
  simpa [Ranges.covers] using hcovers

namespace ReleasedStream

open PhantomProtocol.Stream

variable {s s' : State} {e : Event} {f n : Nat}

def CountsCopies (s : State) (e : Event) (_ : State) : Prop :=
  e = .sender .refused → s.sender.tx.CountsCopies s.sender.polled

instance (s : State) (e : Event) (s' : State) : Decidable (CountsCopies s e s') :=
  inferInstanceAs (Decidable (_ → _))

/-- The next multiple of `RELEASED_GRANT_STRIDE`. -/
def nextGrant (o : Nat) : Nat := (o / releasedGrantStride + 1) * releasedGrantStride

/-! ## Steps -/

/-- What an acknowledgement of a retired stream, or of a held one, covers. -/
def Covered (s : SendLedger.State) (k : Sack) : Prop :=
  ∀ p ∈ s.tx.sendBuffer, k.acks p.streamOffset = true →
    ∃ seg ∈ s.written, seg.reliable = true ∧ p.streamOffset ≤ seg.streamOffset

/-- Everything a step can do: a call on the sender, an acknowledgement, a limit, or an answer. -/
inductive Moves (s : State) : Event → State → Prop
  | calls {e : SendLedger.Event} {snd : SendLedger.State} (hcall : calls s.sender.tx e = true)
      (hs : SendLedger.step s.sender e = some snd) : Moves s (.sender e) { s with sender := snd }
  | acked {e : Event} {k : Sack} {now : Nat} {snd : SendLedger.State}
      (hk : k ∈ s.sacks ∨ Covered s.sender k)
      (hs : SendLedger.step s.sender (.onSack k now) = some snd) :
      Moves s e { s with sender := snd }
  | limited {limit : Nat} {snd : SendLedger.State}
      (hs : SendLedger.step s.sender (.windowUpdate limit) = some snd) :
      Moves s (.heldLimit limit) { s with sender := snd }
  | granted {i o limit : Nat} {snd : SendLedger.State} (hupdate : (o, limit) ∈ s.updates)
      (hs : SendLedger.step s.sender (.windowUpdate limit) = some snd) :
      Moves s (.windowUpdate i) { s with sender := snd, applied := s.applied ++ [o] }
  | answers {i : Nat} {seg : OutboundSegment} (hseg : seg ∈ s.sender.written)
      (hrel : seg.reliable = true) : Moves s (.segment i) (answer s seg)

theorem covered_of_acksWritten {s : SendLedger.State} {k : Sack} (h : acksWritten s k = true) :
    Covered s k := by
  intro p hp hacks
  have hall := all_eq_true.1 h p hp
  grind

theorem step_moves (hs : step s e = some s') : Moves s e s' := by
  cases e with
  | sender =>
    simp only [step] at hs
    split at hs
    · obtain ⟨snd, hsnd, rfl⟩ := map_eq_some_iff.1 hs
      exact .calls ‹_› hsnd
    · cases hs
  | heldSack =>
    simp only [step] at hs
    split at hs
    · obtain ⟨snd, hsnd, rfl⟩ := map_eq_some_iff.1 hs
      exact .acked (.inr (covered_of_acksWritten ‹_›)) hsnd
    · cases hs
  | heldLimit =>
    simp only [step] at hs
    obtain ⟨snd, hsnd, rfl⟩ := map_eq_some_iff.1 hs
    exact .limited hsnd
  | segment i =>
    simp only [step] at hs
    split at hs
    · cases hs
    · rename_i hseg
      split at hs
      · cases hs
        exact .answers (mem_of_getElem? hseg) ‹_›
      · cases hs
  | sack i now =>
    simp only [step] at hs
    split at hs
    · cases hs
    · rename_i hk
      obtain ⟨snd, hsnd, rfl⟩ := map_eq_some_iff.1 hs
      exact .acked (.inl (mem_of_getElem? hk)) hsnd
  | windowUpdate i =>
    simp only [step] at hs
    split at hs
    · cases hs
    · rename_i hupdate
      obtain ⟨snd, hsnd, rfl⟩ := map_eq_some_iff.1 hs
      exact .granted (mem_of_getElem? hupdate) hsnd

theorem admitted_grows (hs : step s e = some s') : s.sender.admitted <+: s'.sender.admitted := by
  have hsender : ∀ {e : SendLedger.Event} {snd : SendLedger.State},
      SendLedger.step s.sender e = some snd → s.sender.admitted <+: snd.admitted := by
    intro e snd hsnd
    rcases SendLedger.step_admitted hsnd with hsame | ⟨o, -, hnew⟩
    · rw [hsame]
    · rw [hnew]
      exact prefix_append ..
  cases step_moves hs with
  | calls _ hsnd => exact hsender hsnd
  | acked _ hsnd => exact hsender hsnd
  | limited hsnd => exact hsender hsnd
  | granted _ hsnd => exact hsender hsnd
  | answers => exact prefix_refl _

/-! ## The invariant -/

/-- The sender's front, the answers on the network, and the room each applied grant has left. -/
structure Inv (s : State) (f : Nat) : Prop where
  ledger : SendLedger.Inv s.sender
  front : SendLedger.Front s.sender f
  ends : SendLedger.FinEnds s.sender
  chunks : ∀ data ∈ s.sender.admitted, data.length ≤ maxRecvReliableChunk
  sacks : ∀ k ∈ s.sacks, ∃ seg ∈ s.sender.written, seg.reliable = true ∧
    ∀ o, k.acks o = true → o ≤ seg.streamOffset
  updates : ∀ u ∈ s.updates, ∃ seg ∈ s.sender.written, seg.reliable = true ∧
    releasedStreamGrant u.1 (isPersistProbe seg) seg.fin = some u.2 ∧ seg.streamOffset = u.1
  /-- A grant leaves room for everything up to its offset and for the segments of one stride. -/
  applied : ∀ o ∈ s.applied, o < s.sender.admitted.length ∧
    payloadBytes (s.sender.admitted.take (o + 1)) + releasedGrantStride * maxRecvReliableChunk ≤
      s.sender.tx.peerSendLimit

theorem inv_init : Inv init 0 where
  ledger := SendLedger.inv_init
  front := SendLedger.front_init
  ends := SendLedger.finEnds_init
  chunks := by simp [init, SendLedger.init]
  sacks := by simp [init]
  updates := by simp [init]
  applied := by simp [init]

namespace Inv

variable {p : PendingData} {o : Nat}

section

variable (h : Inv s f)
include h

theorem bound : s.sender.admitted.length ≤ u32Max := by
  rw [← h.ledger.assigned]
  exact h.ledger.balance.wellFormed.bound

theorem payloadBytes_take_le_mul (n : Nat) :
    payloadBytes (s.sender.admitted.take n) ≤ n * maxRecvReliableChunk := by
  have hle := payloadBytes_take_add_le h.chunks 0 n
  rw [Nat.zero_add] at hle
  simpa [payloadBytes] using hle

theorem sender {e : SendLedger.Event} {snd : SendLedger.State}
    (hs : SendLedger.step s.sender e = some snd) (hc : SendLedger.CountsCopies s.sender e snd)
    (hheard : SendLedger.Heard s.sender e) (hends : SendLedger.EndsWithFin s.sender e)
    (hchunk : ∀ o, e = .offer o → o.data.length ≤ maxRecvReliableChunk) :
    ∃ f', f ≤ f' ∧ Inv { s with sender := snd } f' := by
  obtain ⟨f', hle, hfront⟩ := h.front.step h.ledger hs hheard
  obtain ⟨hwritten, hlimit⟩ := SendLedger.step_grows hs
  refine ⟨f', hle, h.ledger.step hs hc, hfront, h.ends.step h.ledger hs hends hheard, ?_,
    fun k hk => ?_, fun u hu => ?_, fun o ho => ?_⟩
  · intro data hdata
    rcases SendLedger.step_admitted hs with hsame | ⟨o, hoffer, hnew⟩
    · exact h.chunks data (hsame ▸ hdata)
    · have hmem : data ∈ s.sender.admitted ++ [o.data] := hnew ▸ hdata
      rcases mem_append.1 hmem with hold | hlast
      · exact h.chunks data hold
      · cases mem_singleton.1 hlast
        exact hchunk o hoffer
  · obtain ⟨seg, hseg, hrest⟩ := h.sacks k hk
    exact ⟨seg, hwritten hseg, hrest⟩
  · obtain ⟨seg, hseg, hrest⟩ := h.updates u hu
    exact ⟨seg, hwritten hseg, hrest⟩
  · obtain ⟨hlt, hroom⟩ := h.applied o ho
    rcases SendLedger.step_admitted hs with hsame | ⟨q, -, hnew⟩
    · grind
    · grind

theorem hears {e : SendLedger.Event} {snd : SendLedger.State}
    (hs : SendLedger.step s.sender e = some snd) (hc : SendLedger.CountsCopies s.sender e snd)
    (hheard : SendLedger.Heard s.sender e) (hoffer : ∀ o, e ≠ .offer o) :
    ∃ f', f ≤ f' ∧ Inv { s with sender := snd } f' :=
  h.sender hs hc hheard (fun o ho => absurd ho (hoffer o)) fun o ho => absurd ho (hoffer o)

theorem room {o limit : Nat} (hupdate : (o, limit) ∈ s.updates) : o < s.sender.admitted.length ∧
      payloadBytes (s.sender.admitted.take (o + 1)) + releasedGrantStride * maxRecvReliableChunk ≤
        (s.sender.tx.applyPeerWindowLimit limit).peerSendLimit := by
  obtain ⟨seg, hseg, hrel, hgrant, hoff⟩ := h.updates _ hupdate
  have hfront : o < f := by
    have := h.front.below seg (mem_append_left _ hseg) hrel
    rwa [show seg.streamOffset = o from hoff] at this
  have hlen := Nat.lt_of_lt_of_le hfront h.front.le_admitted
  have hspace := Nat.lt_of_lt_of_le hlen h.bound
  have hlimit : limit = (o + 1) * maxRecvReliableChunk + maxRecvWindow :=
    (releasedStreamGrant_some hgrant hspace).2
  refine ⟨hlen, le_max_of_le_right ?_⟩
  -- what is up to the offset has been charged, and is no more than full chunks would be
  have hcharged : payloadBytes (s.sender.admitted.take (o + 1)) ≤ s.sender.tx.bytesSent :=
    (payloadBytes_take_mono _ hfront).trans (h.front.le_bytesSent h.ledger h.ends)
  have hfull := h.payloadBytes_take_le_mul (o + 1)
  have hstride : releasedGrantStride * maxRecvReliableChunk ≤ maxRecvWindow := by decide
  have hfits := grant_le_u64Max hspace
  have hsame : maxSendWindow = maxRecvWindow := rfl
  rw [hlimit, hsame]
  exact le_min (by omega) (le_min (by omega) (by omega))

theorem answer {seg : OutboundSegment} (hseg : seg ∈ s.sender.written)
    (hrel : seg.reliable = true) : Inv (answer s seg) f := by
  refine ⟨h.ledger, h.front, h.ends, h.chunks, fun k hk => ?_, fun u hu => ?_, h.applied⟩
  · rcases mem_append.1 hk with hk | hk
    · exact h.sacks k hk
    · exact ⟨seg, hseg, hrel, fun o ho => acks_upTo (mem_toList.1 hk) ho⟩
  · rcases mem_append.1 hu with hu | hu
    · exact h.updates u hu
    · obtain ⟨limit, hlimit, rfl⟩ := map_eq_some_iff.1 (mem_toList.1 hu)
      exact ⟨seg, hseg, hrel, hlimit, rfl⟩

theorem step (hs : step s e = some s') (hc : CountsCopies s e s') : ∃ f', f ≤ f' ∧ Inv s' f' := by
  cases step_moves hs with
  | @calls e snd hcall hsnd =>
    refine h.sender hsnd (fun he => hc (he ▸ rfl)) ?_ ?_ ?_
    · cases e with
      | ack | onSack => cases hcall
      | _ => trivial
    · rintro o rfl
      exact (by simpa [ReleasedStream.calls] using hcall : _ ∧ _).2
    · rintro o rfl
      exact (by simpa [ReleasedStream.calls] using hcall : _ ∧ _).1
  | @acked _ k now snd hk hsnd =>
    refine h.hears hsnd nofun (fun p hp hacks => ?_) nofun
    rcases hk with hk | hcovered
    · obtain ⟨seg, hseg, hrel, hle⟩ := h.sacks k hk
      exact ⟨seg, hseg, hrel, hle _ hacks⟩
    · exact hcovered p hp hacks
  | limited hsnd => exact h.hears hsnd nofun trivial nofun
  | @granted i o limit snd hupdate hsnd =>
    obtain ⟨f', hle, hinv⟩ := h.hears hsnd nofun trivial nofun
    refine ⟨f', hle, { hinv with applied := fun x hx => ?_ }⟩
    rcases mem_append.1 hx with hx | hx
    · exact hinv.applied x hx
    · cases mem_singleton.1 hx
      cases hsnd
      exact h.room hupdate
  | answers hseg hrel => exact ⟨f, Nat.le_refl f, h.answer hseg hrel⟩

/-- What holds from any state on, with a front that does not go back. -/
theorem run {t : State} {events : List Event} (hrun : Lts.run ReleasedStream.step s events = some t)
    (hc : Lts.Along ReleasedStream.step CountsCopies s events) :
    ∃ f', f ≤ f' ∧ Inv t f' ∧ s.sender.admitted <+: t.sender.admitted := by
  have hkeep : ∀ t e t', (∃ f', f ≤ f' ∧ Inv t f' ∧ s.sender.admitted <+: t.sender.admitted) →
      ReleasedStream.step t e = some t' → CountsCopies t e t' →
      ∃ f', f ≤ f' ∧ Inv t' f' ∧ s.sender.admitted <+: t'.sender.admitted := by
    intro t e t' ht hs hp
    obtain ⟨f', hle, hinv, hadm⟩ := ht
    obtain ⟨f'', hle', hinv'⟩ := hinv.step hs hp
    exact ⟨f'', hle.trans hle', hinv', hadm.trans (admitted_grows hs)⟩
  exact Lts.run_inv_along hkeep events ⟨f, Nat.le_refl f, h, prefix_refl _⟩ hc hrun

/-! ## Room -/

theorem covers_stride (ho : o ∈ s.applied) :
    payloadBytes (s.sender.admitted.take (o + 1 + releasedGrantStride)) ≤
      s.sender.tx.peerSendLimit :=
  (payloadBytes_take_add_le h.chunks ..).trans (h.applied o ho).2

theorem covers_next (ho : o ∈ s.applied) :
    payloadBytes (s.sender.admitted.take (nextGrant o + 1)) ≤ s.sender.tx.peerSendLimit := by
  have hnext : nextGrant o + 1 ≤ o + 1 + releasedGrantStride := by
    unfold nextGrant releasedGrantStride
    omega
  exact (payloadBytes_take_mono _ hnext).trans (h.covers_stride ho)

theorem next_lt_stop (hidle : s.sender.polled = none)
    (hp : s.sender.tx.stoppedAt = some p) (ho : o ∈ s.applied) :
    o + releasedGrantStride < p.streamOffset := by
  have hat := h.front.stopped h.ledger h.ends hidle hp
  obtain ⟨hfind, -, -, hfull⟩ := stoppedAt_eq_some.1 hp
  have hmem := mem_of_find?_eq_some hfind
  have hget : s.sender.admitted[f]? = some p.data := hat ▸ h.ledger.buffered _ (mem_map_of_mem hmem)
  have hspace := Nat.lt_of_lt_of_le (List.getElem?_eq_some_iff.1 hget).1 h.bound
  -- what it would have charged then is the bytes up to and including this segment
  have hcharge : s.sender.tx.bytesSent + p.data.length =
      payloadBytes (s.sender.admitted.take (f + 1)) := by
    rw [h.front.bytesSent_eq h.ledger h.ends hidle, take_add_one, hget, payloadBytes_append]
    simp [payloadBytes]
  have hfits := (h.payloadBytes_take_le_mul (f + 1)).trans
    (Nat.le_of_add_right_le (grant_le_u64Max hspace))
  rw [Nat.mod_eq_of_lt (Nat.lt_succ_of_le (h.ledger.balance.entries p hmem).size),
    tryConsumeSendWindow, hcharge] at hfull
  by_contra hle
  have hroom : payloadBytes (s.sender.admitted.take (f + 1)) ≤ s.sender.tx.peerSendLimit :=
    (payloadBytes_take_mono _ (by omega)).trans (h.covers_stride ho)
  rw [if_pos ⟨hfits, hroom⟩] at hfull
  cases hfull

theorem not_fin_below {seg : OutboundSegment} (hseg : seg ∈ s.sender.written)
    (hrel : seg.reliable = true) (hlt : seg.streamOffset + 1 < s.sender.admitted.length) :
    seg.fin = false := by
  cases hfin : seg.fin with
  | false => rfl
  | true =>
    obtain ⟨⟨-, hend⟩, -⟩ := h.ends.flagged seg (mem_append_right _ hseg) hrel hfin
    omega

section

variable (hidle : s.sender.polled = none)
include hidle

section

variable (hp : s.sender.tx.stoppedAt = some p)
include hp

theorem awaits_grant (ho : o ∈ s.applied) :
    ∃ m, nextGrant o ≤ m ∧ m < p.streamOffset ∧ m ∉ s.applied ∧
      ∃ seg ∈ s.sender.written, seg.reliable = true ∧ seg.streamOffset = m ∧
        (releasedStreamGrant m (isPersistProbe seg) seg.fin).isSome = true := by
  have hpast := h.next_lt_stop hidle hp ho
  have hat := h.front.stopped h.ledger h.ends hidle hp
  have hmem := mem_of_find?_eq_some (stoppedAt_eq_some.1 hp).1
  have hlen : p.streamOffset < s.sender.admitted.length :=
    (List.getElem?_eq_some_iff.1 (h.ledger.buffered _ (mem_map_of_mem hmem))).1
  -- the last multiple below the stop
  have hlast : ∃ m, releasedGrantStride ∣ m ∧ nextGrant o ≤ m ∧ m < p.streamOffset ∧
      p.streamOffset ≤ m + releasedGrantStride := by
    refine ⟨(p.streamOffset - 1) / releasedGrantStride * releasedGrantStride,
      Nat.dvd_mul_left .., ?_, ?_, ?_⟩
    all_goals
      unfold nextGrant releasedGrantStride at *
      omega
  obtain ⟨m, hdvd, hnext, hlt, hstop⟩ := hlast
  obtain ⟨seg, hseg, hrel, hoff, -⟩ := h.front.left m (hat ▸ hlt)
  have hfin := h.not_fin_below hseg hrel (by omega)
  refine ⟨m, hnext, hlt, fun happlied => ?_, seg, hseg, hrel, hoff, ?_⟩
  · exact absurd (h.next_lt_stop hidle hp happlied) (Nat.not_lt.2 hstop)
  · rw [hfin]
    exact releasedStreamGrant_multiple hdvd _

theorem probe_offset {now : Nat} {tx : Stream} {probe : OutboundSegment}
    (hprobe : s.sender.tx.tryPersistProbe now
      (s.sender.tx.sendBuffer.any (·.sentAt.isSome)) = some (tx, probe)) :
    probe.streamOffset + 1 = f ∧ probe.data = [] ∧ probe.fin = false := by
  obtain ⟨hquiet, -, o, hacked, rfl⟩ := tryPersistProbe_some hprobe
  have hfront := h.front.quiet h.ledger h.ends hidle hp hquiet
  refine ⟨?_, rfl, rfl⟩
  unfold lastAckedOffset at hacked
  split at hacked
  · cases hacked
  · grind

theorem probe_answered {now : Nat} {tx : Stream} {probe : OutboundSegment}
    (hprobe : s.sender.tx.tryPersistProbe now
      (s.sender.tx.sendBuffer.any (·.sentAt.isSome)) = some (tx, probe)) :
    ∃ limit, releasedStreamGrant probe.streamOffset (isPersistProbe probe) probe.fin = some limit ∧
      ∀ later t, Lts.run ReleasedStream.step s later = some t →
        Lts.Along ReleasedStream.step CountsCopies s later →
        s.sender.tx.bytesSent + maxRecvWindow ≤
          (t.sender.tx.applyPeerWindowLimit limit).peerSendLimit := by
  obtain ⟨hoff, hdata, hfin⟩ := h.probe_offset hidle hp hprobe
  have hlen := h.front.le_admitted
  have hbound := h.bound
  have hspace : probe.streamOffset < u32Max := by omega
  have hsome : (releasedStreamGrant probe.streamOffset (isPersistProbe probe) probe.fin).isSome := by
    simp [releasedStreamGrant, isPersistProbe, hdata, hfin]
  obtain ⟨limit, hlimit⟩ := isSome_iff_exists.1 hsome
  refine ⟨limit, hlimit, fun later t hrun hc => le_max_of_le_right ?_⟩
  obtain ⟨-, hvalue⟩ := releasedStreamGrant_some hlimit hspace
  obtain ⟨f', hle, hinv, hadm⟩ := h.run hrun hc
  have hsent := h.front.bytesSent_eq h.ledger h.ends hidle
  -- what was below the front then is still below it
  have hlater : s.sender.tx.bytesSent ≤ t.sender.tx.bytesSent := by
    obtain ⟨more, hmore⟩ := hadm
    calc s.sender.tx.bytesSent = payloadBytes (t.sender.admitted.take f) := by
          rw [hsent, ← hmore, take_append_of_le_length hlen]
      _ ≤ payloadBytes (t.sender.admitted.take f') := payloadBytes_take_mono _ hle
      _ ≤ t.sender.tx.bytesSent := hinv.front.le_bytesSent hinv.ledger hinv.ends
  have hfull := h.payloadBytes_take_le_mul f
  have hfits := grant_le_u64Max hspace
  have hsame : maxSendWindow = maxRecvWindow := rfl
  rw [hoff] at hvalue hfits
  rw [hvalue, hsame]
  exact le_min (by omega) (le_min (by omega) (by omega))

end

end

end

end Inv

/-- **A dropped stream does not hold its writer up.** In every run of a sender whose chunks fit a
frame, on a stream its peer has dropped: once a grant has been applied, there is room for every
segment up to and including the next multiple of the stride, and the sender stops on its limit only
past a later multiple which it has sent and whose grant is still to come. And a probe is always
answered with a grant which, whenever it arrives, leaves a whole window above what had been sent
when the sender probed. -/
theorem released_stream_room {events : List Event} {s : State}
    (hrun : Lts.run step init events = some s) (hc : Lts.Along step CountsCopies init events) :
    (∀ o ∈ s.applied,
      payloadBytes (s.sender.admitted.take (nextGrant o + 1)) ≤ s.sender.tx.peerSendLimit) ∧
    (s.sender.polled = none → ∀ p, s.sender.tx.stoppedAt = some p → ∀ o ∈ s.applied,
      ∃ m, nextGrant o ≤ m ∧ m < p.streamOffset ∧ m ∉ s.applied ∧
        ∃ seg ∈ s.sender.written, seg.reliable = true ∧ seg.streamOffset = m ∧
          (releasedStreamGrant m (isPersistProbe seg) seg.fin).isSome = true) ∧
    (s.sender.polled = none → s.sender.tx.stoppedAt.isSome = true → ∀ now tx probe,
      s.sender.tx.tryPersistProbe now (s.sender.tx.sendBuffer.any (·.sentAt.isSome)) =
        some (tx, probe) →
      ∃ limit, releasedStreamGrant probe.streamOffset (isPersistProbe probe) probe.fin = some limit ∧
        ∀ later t, Lts.run step s later = some t → Lts.Along step CountsCopies s later →
          s.sender.tx.bytesSent + maxRecvWindow ≤
            (t.sender.tx.applyPeerWindowLimit limit).peerSendLimit) := by
  obtain ⟨f, -, hinv, -⟩ := inv_init.run hrun hc
  refine ⟨fun o ho => hinv.covers_next ho, fun hidle p hp o ho => hinv.awaits_grant hidle hp ho,
    fun hidle hstop now tx probe hprobe => ?_⟩
  obtain ⟨p, hp⟩ := isSome_iff_exists.1 hstop
  exact hinv.probe_answered hidle hp hprobe

/-! ## Two runs -/

/-- The largest chunk a segment carries. -/
def fullChunk : Bytes := List.replicate maxRecvReliableChunk 0

theorem length_fullChunk : fullChunk.length = 1300 := length_replicate

def offer : Event := .sender (.offer (.sendReliable fullChunk))

def poll : Event := .sender (.pollSend 1300 0 0 false 0)

/-- Fifty full chunks exhaust the initial window. All are acknowledged; the grants are under way. -/
def exhausted : List Event :=
  List.replicate 51 offer ++ (List.replicate 50 [poll, .sender .written]).flatten ++
    [.segment 49, .segment 0, .sack 0 0]

set_option maxRecDepth 10000 in
theorem released_stream_room_exhausted :
    ∃ s, Lts.run step init exhausted = some s ∧ s.sender.tx.stoppedAt.isSome = true ∧
      ∃ limit, releasedStreamGrant 49 true false = some limit ∧
        s.sender.tx.bytesSent + maxRecvWindow ≤
          (s.sender.tx.applyPeerWindowLimit limit).peerSendLimit := by
  have hrun : (Lts.run step init exhausted).map (fun s => (s.sender.polled,
      s.sender.tx.stoppedAt.isSome, (s.sender.tx.tryPersistProbe 0
        (s.sender.tx.sendBuffer.any (·.sentAt.isSome))).map (·.2))) =
      some (none, true, some ⟨49, [], true, false, false, none, false⟩) := by
    decide +kernel
  have halong : Lts.Along step CountsCopies init exhausted := by decide +kernel
  obtain ⟨s, hs, hvalues⟩ := map_eq_some_iff.1 hrun
  simp only [Prod.mk.injEq] at hvalues
  obtain ⟨hidle, hstop, hprobe⟩ := hvalues
  obtain ⟨⟨tx, probe⟩, htx, rfl⟩ := map_eq_some_iff.1 hprobe
  obtain ⟨limit, hlimit, hroom⟩ :=
    (released_stream_room hs halong).2.2 hidle hstop 0 tx _ htx
  exact ⟨s, hs, hstop, limit, hlimit, hroom [] s rfl trivial⟩

/-- The probe is sent, then the grant for the first segment arrives and one more chunk goes out,
then the answer to the probe arrives. -/
def overtaken : List Event :=
  exhausted ++ [poll, .sender .written, .segment 50, .windowUpdate 0, poll, .sender .written,
    .windowUpdate 1]

theorem pollSend_newest {tx : Stream} {buffer : List PendingData} {p : PendingData}
    {budget dn dt now sent : Nat} {limited : Bool} (hunreliable : tx.unreliableBuffer = [])
    (hbuf : tx.sendBuffer = buffer ++ [p])
    (honWire : ∀ q ∈ buffer, q.lost = none ∧ q.sentAt = some now) (htimer : 0 < tx.rto.rto)
    (hunsent : p.sentAt = none) (hfin : p.fin = false) (hunch : p.charged = false)
    (hcwnd : p.data.length ≤ budget)
    (hroom : tx.tryConsumeSendWindow (p.data.length % (u32Max + 1)) = some sent) :
    tx.pollSend budget dn dt limited now =
      ({ tx with
          sendBuffer := buffer ++ [{ p with
            charged := true
            sentAt := some now
            deliveredAtSend := dn
            deliveredTimeAtSend := some dt
            appLimitedAtSend := limited }]
          bytesSent := sent },
        .ok { streamOffset := p.streamOffset, data := p.data, reliable := true, retransmit := false,
              firstRetransmit := false, lossCause := none, fin := false }) := by
  have hfast : tx.fastRetransmit now = none := by
    simp_all [fastRetransmit, Scan.updateFirst_append, Scan.updateFirst]
  have htimeout : tx.timeoutRetransmit now = none := by
    grind [timeoutRetransmit, Scan.updateFirst_append, Scan.updateFirst]
  simp_all [pollSend, firstTransmit, Scan.updateFirst_append, Scan.updateFirst, Nat.not_lt.2]

/-- A sender that has put full chunks on the wire, up to the offset `n`, and of which nothing has come
back but the grant for the first. -/
structure Outruns (n : Nat) (s : State) : Prop where
  idle : s.sender.polled = none
  unreliable : s.sender.tx.unreliableBuffer = []
  timer : s.sender.tx.rto = .new
  writing : s.sender.tx.localFinished = false
  sent : s.sender.tx.bytesSent = n * 1300
  limit : s.sender.tx.peerSendLimit = 1300 + maxSendWindow
  applied : s.applied = [0]

/-- Everything admitted is on the wire. -/
structure Flushed (n : Nat) (s : State) : Prop extends Outruns n s where
  assigned : s.sender.tx.reliableOffset = n
  permits : s.sender.tx.sendSemaphore = maxPendingPackets - n
  onWire : ∀ p ∈ s.sender.tx.sendBuffer, p.lost = none ∧ p.sentAt = some 0

/-- One more chunk is waiting. -/
structure Waiting (n : Nat) (s : State) : Prop extends Outruns n s where
  assigned : s.sender.tx.reliableOffset = n + 1
  permits : s.sender.tx.sendSemaphore = maxPendingPackets - (n + 1)
  buffer : ∃ buffer, s.sender.tx.sendBuffer = buffer ++ [pendingData n fullChunk false] ∧
    ∀ p ∈ buffer, p.lost = none ∧ p.sentAt = some 0

theorem Flushed.offer (h : Flushed n s) (hn : n < maxPendingPackets) :
    Lts.Can step (Waiting n) s := by
  have hpermit : s.sender.tx.sendSemaphore ≠ 0 := by
    rw [h.permits]
    omega
  have hspace : n + 1 ≤ u32Max := hn.trans_le (by decide)
  have hchunk : fullChunk.length ≤ maxRecvReliableChunk := by
    rw [length_fullChunk]
    decide
  have hsize : ¬u32Max < fullChunk.length := by
    rw [length_fullChunk]
    decide
  apply Exists.intro
  constructor
  · refine ⟨[ReleasedStream.offer], ?_⟩
    simp only [Lts.run, ReleasedStream.offer, step, calls, h.writing, hchunk, decide_true,
      Bool.not_false, Bool.and_self, if_true, SendLedger.step, Stream.offer, Offer.data, hsize,
      if_false, sendReliable, hpermit, enqueue, nextReliableOffset, h.assigned, hspace, map_some]
    rfl
  · refine ⟨⟨h.idle, h.unreliable, h.timer, rfl, h.sent, h.limit, h.applied⟩, rfl, ?_, _, rfl,
      h.onWire⟩
    show s.sender.tx.sendSemaphore - 1 = maxPendingPackets - (n + 1)
    rw [h.permits]
    omega

theorem Outruns.tryConsume (h : Outruns n s) :
    s.sender.tx.tryConsumeSendWindow ((pendingData n fullChunk false).data.length % (u32Max + 1)) =
      if n < 807 then some ((n + 1) * 1300) else none := by
  have hmod : (pendingData n fullChunk false).data.length % (u32Max + 1) = 1300 := by
    rw [show (pendingData n fullChunk false).data = fullChunk from rfl, length_fullChunk]
    decide
  have hwindow : maxSendWindow = 1048576 := by decide
  have hu64 : u64Max = 18446744073709551615 := by decide
  rw [hmod, tryConsumeSendWindow, h.sent, h.limit, ← Nat.succ_mul]
  by_cases hn : n < 807
  · rw [if_pos hn, if_pos (by omega)]
  · rw [if_neg hn, if_neg (by omega)]

theorem Waiting.send (h : Waiting n s) (hn : n < 807) : Lts.Can step (Flushed (n + 1)) s := by
  obtain ⟨buffer, hbuf, honWire⟩ := h.buffer
  have hroom := h.tryConsume
  rw [if_pos hn] at hroom
  have htimer : 0 < s.sender.tx.rto.rto := by
    rw [h.timer]
    decide
  have hpoll := fun dn dt limited => @pollSend_newest _ buffer _ 1300 dn dt 0 _ limited h.unreliable
    hbuf honWire htimer rfl rfl rfl (Nat.le_of_eq length_fullChunk) hroom
  apply Exists.intro
  constructor
  · refine ⟨[poll, .sender .written], ?_⟩
    simp only [Lts.run, step, poll, calls, if_true, SendLedger.step, h.idle, isSome_none,
      Bool.false_eq_true, if_false, hpoll, map_some]
    rfl
  · refine ⟨⟨rfl, h.unreliable, h.timer, h.writing, rfl, h.limit, h.applied⟩, h.assigned, h.permits,
      fun p hp => ?_⟩
    rcases mem_append.1 hp with hp | hp
    · exact honWire p hp
    · cases mem_singleton.1 hp
      exact ⟨rfl, rfl⟩

theorem Waiting.stopped (h : Waiting 807 s) :
    s.sender.tx.stoppedAt = some (pendingData 807 fullChunk false) := by
  obtain ⟨buffer, hbuf, honWire⟩ := h.buffer
  have hfull := h.tryConsume
  rw [if_neg (Nat.lt_irrefl 807)] at hfull
  refine stoppedAt_eq_some.2 ⟨?_, rfl, rfl, hfull⟩
  rw [hbuf, List.find?_append, List.find?_eq_none.2 fun p hp => by simp [(honWire p hp).2]]
  rfl

theorem flushed_one : Lts.Can step (Flushed 1) init := by
  have hrun : (Lts.run step init [offer, poll, .sender .written, .segment 0, .windowUpdate 0]).map
      (fun s => decide ((s.sender.polled = none ∧ s.sender.tx.unreliableBuffer = [] ∧
        s.sender.tx.rto = .new ∧ s.sender.tx.localFinished = false ∧
        s.sender.tx.bytesSent = 1 * 1300 ∧ s.sender.tx.peerSendLimit = 1300 + maxSendWindow ∧
        s.applied = [0]) ∧ s.sender.tx.reliableOffset = 1 ∧
        s.sender.tx.sendSemaphore = maxPendingPackets - 1 ∧
        ∀ p ∈ s.sender.tx.sendBuffer, p.lost = none ∧ p.sentAt = some 0)) = some true := by
    decide +kernel
  obtain ⟨s, hs, hvalues⟩ := map_eq_some_iff.1 hrun
  obtain ⟨⟨hidle, hunreliable, htimer, hwriting, hsent, hlimit, happlied⟩, hassigned, hpermits,
    honWire⟩ := of_decide_eq_true hvalues
  exact ⟨s, ⟨_, hs⟩, ⟨⟨hidle, hunreliable, htimer, hwriting, hsent, hlimit, happlied⟩, hassigned,
    hpermits, honWire⟩⟩

/-- A grant does not keep a sender from stopping again while the next ones are under way; and when
an earlier grant overtakes the answer to a probe, that answer leaves less than a window. -/
theorem released_grant_outrun :
    (∃ s, Lts.Reaches step init s ∧ 0 ∈ s.applied ∧ s.sender.polled = none ∧
      s.sender.tx.stoppedAt.isSome = true) ∧
    (Lts.run step init overtaken).map (fun s => (s.applied,
      decide (s.sender.tx.bytesSent + maxRecvWindow ≤ s.sender.tx.peerSendLimit))) =
        some ([0, 49], false) := by
  refine ⟨?_, by decide +kernel⟩
  have hflushed : Lts.Can step (Flushed 807) init := by
    refine flushed_one.bind fun t ht => ?_
    refine Lts.Can.iterate (Q := fun i => Flushed (i + 1)) (k := 806) (fun i hi s hs => ?_) ht
    -- one more chunk is offered, and goes out
    have hpending : i + 1 < maxPendingPackets := (Nat.succ_lt_succ hi).trans (by decide)
    exact (hs.offer hpending).bind fun u hu => hu.send (Nat.succ_lt_succ hi)
  obtain ⟨s, hs, hstop⟩ := hflushed.bind fun t ht => ht.offer (by decide)
  refine ⟨s, hs, ?_, hstop.idle, ?_⟩
  · rw [hstop.applied]
    exact mem_singleton.2 rfl
  · rw [hstop.stopped]
    rfl

end ReleasedStream

end PhantomProtocol
