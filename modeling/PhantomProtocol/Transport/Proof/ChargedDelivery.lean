import PhantomProtocol.Transport.Proof.ReliableDelivery
import PhantomProtocol.Transport.Proof.SendLedger

/-!
# What is delivered has been charged

The sender's ledger in the system of `ReliableDelivery`, where acknowledgements are the receiver's
own.
-/

namespace PhantomProtocol

open List Finset

theorem payloadBytes_append (xs ys : List Bytes) :
    Stream.payloadBytes (xs ++ ys) = Stream.payloadBytes xs + Stream.payloadBytes ys := by
  simp [Stream.payloadBytes]

theorem payloadBytes_le {chunks : List Bytes} {c : Nat} (h : ∀ data ∈ chunks, data.length ≤ c) :
    Stream.payloadBytes chunks ≤ chunks.length * c := by
  induction chunks with
  | nil => exact Nat.zero_le _
  | cons data _ ih =>
    have hhead := h data mem_cons_self
    have htail := ih fun d hd => h d (mem_cons_of_mem _ hd)
    simp only [Stream.payloadBytes, List.map_cons, List.sum_cons, List.length_cons,
      Nat.succ_mul] at htail ⊢
    omega

theorem payloadBytes_take_le {admitted : List Bytes} {payloads : Finset (Nat × Bytes)} {n : Nat}
    (h : ∀ o < n, ∃ data, admitted[o]? = some data ∧ (data = [] ∨ (o, data) ∈ payloads)) :
    Stream.payloadBytes (admitted.take n) ≤ volume payloads := by
  -- by induction on the prefix: the payloads below its end already cover it
  have hbelow : Stream.payloadBytes (admitted.take n) ≤ volume (payloads.filter (·.1 < n)) := by
    induction n with
    | zero => exact Nat.zero_le _
    | succ n ih =>
      have hprefix := ih fun o ho => h o (Nat.lt_succ_of_lt ho)
      obtain ⟨data, hget, hdata⟩ := h n (Nat.lt_succ_self n)
      rw [take_add_one, hget, payloadBytes_append]
      have hsub : payloads.filter (·.1 < n) ⊆ payloads.filter (·.1 < n + 1) :=
        fun q hq => mem_filter.2
          ⟨(mem_filter.1 hq).1, Nat.lt_succ_of_lt (mem_filter.1 hq).2⟩
      rcases hdata with rfl | hmem
      · exact hprefix.trans (volume_mono hsub)
      · have hnew : (n, data) ∉ payloads.filter (·.1 < n) := by simp
        have hinsert : payloads.filter (·.1 < n) ∪ {(n, data)} ⊆ payloads.filter (·.1 < n + 1) := by
          grind
        have hle := volume_mono hinsert
        rw [volume_insert hnew] at hle
        calc Stream.payloadBytes (admitted.take n) + Stream.payloadBytes [data]
            ≤ volume (payloads.filter (·.1 < n)) + data.length := Nat.add_le_add_right hprefix _
          _ ≤ volume (payloads.filter (·.1 < n + 1)) := hle
  exact hbelow.trans (volume_mono (filter_subset ..))

/-! ## The ledger of the sender -/

namespace ReliableDelivery

/-- A chunk whose length fits a `u32`. -/
def Fits : Event → Prop
  | .offer o => o.data.length ≤ u32Max
  | _ => True

def CountsCopies (s : State) (e : Event) : Prop := e = .refused → s.tx.CountsCopies s.polled

instance (s : State) (e : Event) : Decidable (CountsCopies s e) :=
  inferInstanceAs (Decidable (_ → _))

/-- `bytes_sent` is the volume of what has been written and of what is being written, and the receiver
holds nothing that was not written. -/
structure Charged (s : State) : Prop where
  coherent : Coherent s
  balance : SendBalance s.tx s.polled (carried s.segments)
  genuine : ∀ q ∈ carried s.segments ∪ carried s.polled.toList,
    q.2 = [] ∨ s.admitted[q.1]? = some q.2
  fins : ∀ seg ∈ s.polled.toList ++ s.segments, seg.reliable = true → seg.fin = true → seg.data = []
  held : ∀ o, s.rx.Held o → ∃ seg ∈ s.segments, seg.reliable = true ∧ seg.streamOffset = o ∧
    s.admitted[o]? = some seg.data

theorem charged_init : Charged init where
  coherent := coherent_init
  balance :=
    { wellFormed := Stream.wellFormed_new
      limit := Nat.zero_le _
      total := rfl
      assigned := by simp [init]
      inHand := by simp [init]
      entries := by simp [init, Stream.new] }
  genuine := by simp [init]
  fins := by simp [init]
  held := by simp [init, Stream.new, Stream.Held]

namespace Charged

variable {s s' : State} {tx : Stream} {data : Bytes} {seg : OutboundSegment}

section

variable (h : Charged s)
include h

/-- What the receiver holds at an offset has been written there. -/
theorem held_carried {o : Nat} (ho : s.rx.Held o) :
    ∃ data, s.admitted[o]? = some data ∧ (data = [] ∨ (o, data) ∈ carried s.segments) := by
  obtain ⟨seg, hseg, hrel, rfl, hget⟩ := h.held o ho
  refine ⟨seg.data, hget, ?_⟩
  cases hfin : seg.fin with
  | true => exact .inl (h.fins seg (mem_append_right _ hseg) hrel hfin)
  | false => exact .inr (mem_carried.2 ⟨seg, hseg, hrel, hfin, rfl⟩)

theorem offered {taken fin : Bool} (hsize : data.length ≤ u32Max)
    (hspec : (taken = true ∧ s.tx.Appends tx data) ∨ (taken = false ∧ tx = s.tx))
    (hadmits : s.tx.Admits tx data fin) (hfin : fin = true → data = []) :
    Charged (offered s tx taken data) := by
  have hcoherent := h.coherent.offered hspec
  rcases hspec with ⟨rfl, happ⟩ | ⟨rfl, rfl⟩
  · refine ⟨hcoherent, h.balance.appends happ hadmits hsize hfin, fun q hq => ?_, h.fins,
      fun o ho => ?_⟩
    · exact (h.genuine q hq).imp_right fun hget => getElem?_append_of_some hget [data]
    · obtain ⟨seg, hseg, hrel, hoff, hget⟩ := h.held o ho
      exact ⟨seg, hseg, hrel, hoff, getElem?_append_of_some hget [data]⟩
  · exact h

/-- The sender changes, and hands out nothing. -/
theorem sender (hcoherent : Coherent { s with tx })
    (hbalance : SendBalance tx s.polled (carried s.segments)) : Charged { s with tx } :=
  ⟨hcoherent, hbalance, h.genuine, h.fins, h.held⟩

theorem polled {r : Except SendBlocked OutboundSegment} (hidle : s.polled = none)
    (hb : s.tx.Emitted tx r) : Charged { s with tx, polled := r.toOption } := by
  refine ⟨h.coherent.polled hb, (hidle ▸ h.balance).billed hb, fun q hq => ?_,
    fun seg hseg hrel hfin => ?_, h.held⟩
  · rcases mem_union.1 hq with hq | hq
    · exact h.genuine q (mem_union_left _ hq)
    · cases r with
      | error => simp [Except.toOption] at hq
      | ok => exact (hb.carried hq).imp_right (h.coherent.retains.buffered q)
  · rcases mem_append.1 hseg with hnew | hold
    · cases r with
      | error => cases hnew
      | ok =>
        cases List.mem_singleton.1 hnew
        cases hb with
        | unreliable _ hrel' => exact absurd (hrel'.symm.trans hrel) Bool.false_ne_true
        | probe _ _ hdata => exact hdata
        | @copied _ _ pre post p _ _ hbuf _ _ hcopied =>
          have hbills := hcopied.bills
          rw [hbills.transmits.data]
          exact ((h.balance.entries p (by simp [hbuf])).fin (hbills.fin ▸ hfin)).2
    · exact h.fins seg (mem_append_right _ hold) hrel hfin

theorem written (hseg : s.polled = some seg)
    (hcoherent : Coherent { s with polled := none, segments := s.segments ++ [seg] }) :
    Charged { s with polled := none, segments := s.segments ++ [seg] } := by
  have hset : carried (s.segments ++ [seg]) = carried s.segments ∪ carried [seg] := carried_append ..
  refine ⟨hcoherent, ?_, fun q hq => h.genuine q ?_, fun seg' hmem hrel hfin => ?_, fun o ho => ?_⟩
  · rw [hset]
    exact (hseg ▸ h.balance).written
  · rw [hset] at hq
    simpa [hseg] using hq
  · refine h.fins seg' ?_ hrel hfin
    simpa [hseg, or_comm] using hmem
  · obtain ⟨seg', hmem, hrest⟩ := h.held o ho
    exact ⟨seg', mem_append_left _ hmem, hrest⟩

theorem volume_gone (hseg : s.polled = some seg) (hrel : seg.reliable = true)
    (hgone : ∀ p ∈ s.tx.sendBuffer, seg.streamOffset ≠ p.streamOffset) :
    volume (carried s.segments) = volume (carried s.segments ∪ carried [seg]) := by
  cases hfin : seg.fin with
  | true => rw [carried_fin hfin, union_empty]
  | false =>
    rw [carried_reliable hrel hfin]
    have hgen := h.genuine (seg.streamOffset, seg.data)
    rw [hseg, Option.toList_some, carried_reliable hrel hfin] at hgen
    rcases hgen (by simp) with hempty | hget
    · rw [show seg.data = [] from hempty, volume_insert_nil]
    · have hlt := (List.getElem?_eq_some_iff.1 hget).1
      rcases h.coherent.retains.retained _ hlt with hheld | ⟨data, hmem⟩
      · obtain ⟨data, hget', hempty | hmem⟩ := h.held_carried hheld
        · have hdata : seg.data = [] := (Option.some.inj (hget.symm.trans hget')).trans hempty
          rw [hdata, volume_insert_nil]
        · simp_all
      · obtain ⟨p, hp, heq⟩ := mem_map.1 hmem
        exact absurd (congrArg Prod.fst heq).symm (hgone p hp)

theorem refused (hseg : s.polled = some seg)
    (hcopy : seg.retransmit = true → ∀ p ∈ s.tx.sendBuffer, p.streamOffset = seg.streamOffset →
      p.retries ≠ 0)
    (hcoherent : Coherent { s with
      polled := none
      tx := if seg.reliable then s.tx.markUnsent seg.streamOffset else s.tx }) :
    Charged { s with
      polled := none
      tx := if seg.reliable then s.tx.markUnsent seg.streamOffset else s.tx } := by
  have hbal := h.balance
  rw [hseg] at hbal
  refine ⟨hcoherent, ?_, fun q hq => ?_, fun seg' hmem => ?_, h.held⟩
  · by_cases hrel : seg.reliable = true
    · rw [if_pos hrel]
      by_cases hmem : ∃ p ∈ s.tx.sendBuffer, p.streamOffset = seg.streamOffset
      · exact hbal.refused hrel hcopy hmem
      · have hgone : ∀ p ∈ s.tx.sendBuffer, seg.streamOffset ≠ p.streamOffset :=
          fun p hp heq => hmem ⟨p, hp, heq.symm⟩
        obtain ⟨heq, -⟩ | ⟨pre, p, post, hbuf, hoff, -⟩ := s.tx.markUnsent_cases seg.streamOffset
        · rw [heq]
          exact hbal.refused_gone (fun _ => hgone) (Finset.Subset.refl _)
            subset_union_left (h.volume_gone hseg hrel hgone)
        · exact absurd hoff.symm (hgone p (by simp [hbuf]))
    · rw [if_neg hrel]
      refine hbal.refused_gone (fun hrel' => absurd hrel' hrel) (Finset.Subset.refl _)
        subset_union_left ?_
      rw [carried_unreliable (Bool.eq_false_iff.2 hrel), union_empty]
  · exact h.genuine q (mem_union_left _ (by simpa using hq))
  · exact h.fins seg' (mem_append_right _ hmem)

/-- The receiver changes, and holds what it held or an offset that has arrived. -/
theorem receiver {s' : State} (hcoherent : Coherent s') (htx : s'.tx = s.tx)
    (hpolled : s'.polled = s.polled) (hseg : s'.segments = s.segments)
    (hadm : s'.admitted = s.admitted)
    (hheld : ∀ o, s'.rx.Held o → s.rx.Held o ∨ ∃ seg ∈ s.segments, seg.reliable = true ∧
      seg.streamOffset = o ∧ s.admitted[o]? = some seg.data) : Charged s' where
  coherent := hcoherent
  balance := by
    rw [htx, hpolled, hseg]
    exact h.balance
  genuine := by
    rw [hpolled, hseg, hadm]
    exact h.genuine
  fins := by
    rw [hpolled, hseg]
    exact h.fins
  held o ho := by
    rw [hseg, hadm]
    rcases hheld o ho with ho | hnew
    · exact h.held o ho
    · exact hnew

theorem arrive (hmem : seg ∈ s.segments) (hrel : seg.reliable = true)
    (now : Nat) : Charged (arrive s seg now) := by
  have hgen := h.coherent.genuine seg (mem_append_right _ hmem) hrel
  refine h.receiver (h.coherent.arrive hgen now) rfl rfl rfl rfl fun o ho => ?_
  obtain ⟨-, -, -, htaken⟩ :=
    h.coherent.reassembled.accept h.coherent.retains.bound h.coherent.gap hgen now
  rcases htaken o ho with hold | rfl
  · exact .inl hold
  · rcases hgen with hget | hheld
    · exact .inr ⟨seg, hmem, hrel, rfl, hget⟩
    · exact .inl hheld

theorem step {e : Event} (hs : step s e = some s') (hfits : Fits e)
    (hc : CountsCopies s e) : Charged s' := by
  have hcoherent := h.coherent.step hs
  cases step_moves hs with
  | offered hspec hadmits => exact h.offered hfits hspec hadmits Stream.Offer.data_of_fin
  | idles hidles =>
    exact h.sender hcoherent (h.balance.raises hidles.keeps hidles.buffer hidles.sent
      (Nat.le_of_eq hidles.limit.symm))
  | polled hidle hb => exact h.polled hidle hb
  | written hseg => exact h.written hseg hcoherent
  | @refused seg hseg => exact h.refused hseg (hc rfl seg hseg) hcoherent
  | arrives hseg hrel => exact h.arrive hseg hrel _
  | @acked _ now k =>
    obtain ⟨hsent, hlimit⟩ := Stream.foldl_retire_totals now
      (s.tx.sendBuffer.filter fun p => k.acks p.streamOffset) s.tx
    refine h.sender hcoherent (h.balance.retires (h.balance.wellFormed.onSack k now)
      (s.tx.onSack_reliableOffset k now) hsent hlimit fun p hp => ?_)
    obtain ⟨q, hq, -, cause, rfl⟩ := Stream.mem_onSack hp
    exact ⟨q, hq, cause, rfl⟩
  | granted =>
    exact h.sender hcoherent (h.balance.raises ⟨rfl, rfl, rfl, rfl⟩ rfl rfl (Nat.le_max_left ..))
  | consumed hseq hbuf =>
    refine h.receiver hcoherent rfl rfl rfl rfl fun o ho => .inl ?_
    unfold Stream.Held at ho ⊢
    dsimp only at ho
    rwa [hseq, hbuf] at ho
  | growth => exact h.receiver hcoherent rfl rfl rfl rfl fun o ho => .inl ho

theorem volume_le : volume (carried s.segments) ≤ s.tx.bytesSent := by
  rw [h.balance.total]
  exact volume_mono subset_union_left

/-- The receiver has not delivered more than the sender has charged. -/
theorem delivered_le : Stream.payloadBytes s.delivered ≤ s.tx.bytesSent := by
  rw [h.coherent.reassembled.delivered_eq]
  refine (payloadBytes_take_le fun o ho => ?_).trans h.volume_le
  exact h.held_carried (.inl ho)

end

end Charged

end ReliableDelivery

end PhantomProtocol
