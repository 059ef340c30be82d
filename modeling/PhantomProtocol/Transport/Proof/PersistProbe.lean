import PhantomProtocol.Transport.Proof.ReliableDelivery

/-!
# The persist probe

A sender that the peer's window holds up repeats the highest offset that has been acknowledged, with
an empty payload. At a receiver that did not have that offset, the empty payload would take the place
of the application's data.
-/

namespace PhantomProtocol

namespace Stream

variable {s : Stream} {o now : Nat}

/-- A copy of a segment that is held leaves a trace in the time of the last arrival only. -/
theorem acceptInOrder_held (hgap : ∀ e ∈ s.recvBuffer, e.1 ≠ s.recvSequence) (h : s.Held o)
    (payloads : List Bytes) (now : Nat) :
    s.acceptInOrder o payloads now = ({ s with lastDataRecvAt := some now }, []) := by
  unfold acceptInOrder
  dsimp only
  by_cases hold : o < s.recvSequence
  · rw [if_pos hold]
  obtain ⟨e, he, rfl⟩ := h.resolve_left hold
  grind

theorem receivedSack_ranges (s : Stream) (arrival : Option Nat) (delay now delay' now' : Nat) :
    (receivedSack { s with lastDataRecvAt := arrival } delay now).map (·.ranges) =
      (s.receivedSack delay' now').map (·.ranges) := by
  have hranges : ∀ ranges d d', (Sack.fromInclusiveRanges ranges d).map (·.ranges) =
      (Sack.fromInclusiveRanges ranges d').map (·.ranges) := by
    intro ranges d d'
    unfold Sack.fromInclusiveRanges Sack.fromAscendingCoalesced
    split
    · rfl
    · rfl
  unfold receivedSack
  split
  · rfl
  · exact hranges ..

end Stream

namespace ReliableDelivery

variable {s t : State} {e : Event} {o : Nat}

theorem held_step (h : Coherent s) (hs : step s e = some t) (ho : s.rx.Held o) : t.rx.Held o := by
  cases step_moves hs with
  | @arrives _ now seg hseg hrel =>
    have hgenuine := h.genuine seg (List.mem_append_right _ hseg) hrel
    exact (h.reassembled.accept h.retains.bound h.gap hgenuine now).2.2.1 o ho
  | consumed hseq hbuf =>
    unfold Stream.Held
    rwa [hseq, hbuf]
  | _ => exact ho

/-- What the receiver has, it has later as well. -/
theorem held_run (h : Coherent s) {events : List Event}
    (hrun : Lts.run step s events = some t) (ho : s.rx.Held o) : Coherent t ∧ t.rx.Held o := by
  have hreaches : Lts.Reaches step s t := ⟨events, hrun⟩
  refine hreaches.inv (fun s => Coherent s ∧ s.rx.Held o) (fun s e s' hi hs => ?_) ⟨h, ho⟩
  exact ⟨hi.1.step hs, held_step hi.1 hs hi.2⟩

/-- **The persist probe is invisible.** In every reachable state, a probe repeats the highest
acknowledged offset with nothing in it, and emitting it changes nothing of the sender but the time of
its last probe. However much later it arrives, at `t`, it returns no payload and changes nothing of
the receiver but the time of the last arrival: the ranges the receiver acknowledges stay as they are,
and what arrives after the probe is taken as if there had been none. -/
theorem probe_invisible {events : List Event} (h : Lts.run step init events = some s)
    {now : Nat} {inFlight : Bool} {tx : Stream} {seg : OutboundSegment}
    (hprobe : s.tx.tryPersistProbe now inFlight = some (tx, seg)) :
    (s.tx.lastAckedOffset = some seg.streamOffset ∧ seg.data = [] ∧ seg.fin = false ∧
        seg.reliable = true) ∧
      tx = { s.tx with persistProbeAt := some now } ∧
      ∀ later t arrival, Lts.run step { s with tx, polled := some seg } later = some t →
        t.rx.acceptInOrder seg.streamOffset [seg.data] arrival =
            ({ t.rx with lastDataRecvAt := some arrival }, []) ∧
          (∀ delay now', (Stream.receivedSack { t.rx with lastDataRecvAt := some arrival } delay
              now').map (·.ranges) = (t.rx.receivedSack delay now').map (·.ranges)) ∧
          ∀ o payloads now', Stream.acceptInOrder { t.rx with lastDataRecvAt := some arrival } o
            payloads now' = t.rx.acceptInOrder o payloads now' := by
  have hc : Coherent s := Lts.run_inv (fun _ _ _ hi hs => hi.step hs) events coherent_init h
  obtain ⟨-, rfl, o, hacked, rfl⟩ := Stream.tryPersistProbe_some hprobe
  have hpasses : s.tx.Passes now _ _ := .probe hacked
  refine ⟨⟨hacked, rfl, rfl, rfl⟩, rfl, fun later t arrival hlater => ?_⟩
  have hpolled : Coherent { s with
      tx := { s.tx with persistProbeAt := some now }
      polled := some ⟨o, [], true, false, false, none, false⟩ } :=
    hc.polled hpasses.emitted
  obtain ⟨ht, hheld⟩ := held_run hpolled hlater (hc.retains.acked o hacked)
  refine ⟨Stream.acceptInOrder_held ht.gap hheld [[]] arrival, fun delay now' => ?_,
    fun o payloads now' => rfl⟩
  exact Stream.receivedSack_ranges t.rx (some arrival) delay now' delay now'

/-- Two chunks are written, and the second arrives and is acknowledged. -/
def secondAcked : List Event :=
  [.offer (.sendReliable [1]), .offer (.sendReliable [2]), .pollSend 9 0 0 false 0, .written,
    .pollSend 9 0 0 false 0, .written, .segment 1 5, .sack 0 9]

/-- The probe repeats an offset that is an island, and arrives after the gap has been filled. -/
theorem probe_invisible_secondAcked :
    ∃ s tx seg t, Lts.run step init secondAcked = some s ∧
      s.tx.tryPersistProbe 10 false = some (tx, seg) ∧ seg.streamOffset = 1 ∧
      s.rx.recvBuffer = [(1, [[2]])] ∧
      Lts.run step { s with tx, polled := some seg } [.written, .segment 0 20] = some t ∧
      t.delivered = [[1], [2]] ∧
      s.rx.acceptInOrder 1 [[]] 30 = ({ s.rx with lastDataRecvAt := some 30 }, []) ∧
      t.rx.acceptInOrder 1 [[]] 30 = ({ t.rx with lastDataRecvAt := some 30 }, []) := by
  obtain ⟨s, tx, t, hrun, hprobe, hbuf, hlater, hdel⟩ : ∃ s tx t,
      Lts.run step init secondAcked = some s ∧
      s.tx.tryPersistProbe 10 false = some (tx, ⟨1, [], true, false, false, none, false⟩) ∧
      s.rx.recvBuffer = [(1, [[2]])] ∧
      Lts.run step { s with tx, polled := some ⟨1, [], true, false, false, none, false⟩ }
        [.written, .segment 0 20] = some t ∧ t.delivered = [[1], [2]] :=
    ⟨_, _, _, rfl, rfl, rfl, rfl, rfl⟩
  have hinvisible := (probe_invisible hrun hprobe).2.2
  exact ⟨s, tx, _, t, hrun, hprobe, rfl, hbuf, hlater, hdel, (hinvisible [] _ 30 rfl).1,
    (hinvisible _ t 30 hlater).1⟩

end ReliableDelivery

end PhantomProtocol
