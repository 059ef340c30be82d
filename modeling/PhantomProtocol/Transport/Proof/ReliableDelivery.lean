import PhantomProtocol.Lib.Run
import PhantomProtocol.Transport.Proof.Stream
import PhantomProtocol.Transport.RecvWindow

/-!
# Reliable delivery

One direction of one stream: a sender, a receiver, and a network that may lose, delay, repeat and
reorder both segments and acknowledgements. Everything that has been written stays on the network
and can arrive any number of times, or never.
-/

namespace PhantomProtocol

open List Option

/-! ## Sender and receiver -/

/-- The sender's side. `held` are the offsets the receiver has. -/
structure Retains (admitted : List Bytes) (held : Nat → Prop) (tx : Stream) : Prop where
  assigned : tx.reliableOffset = admitted.length
  bound : admitted.length ≤ u32Max
  buffered : ∀ q ∈ tx.pending, admitted[q.1]? = some q.2
  retained : ∀ o < admitted.length, held o ∨ ∃ data, (o, data) ∈ tx.pending
  acked : ∀ o, tx.lastAckedOffset = some o → held o

/-- The receiver's side, also in the middle of the draining loop. -/
structure Reassembled (admitted delivered : List Bytes) (rx : Stream) : Prop where
  delivered_eq : delivered = admitted.take rx.recvSequence
  cursor_le : rx.recvSequence ≤ admitted.length
  islands : ∀ e ∈ rx.recvBuffer, ∃ data, admitted[e.1]? = some data ∧ e.2 = [data]

namespace Retains

variable {admitted : List Bytes} {held held' : Nat → Prop} {tx tx' : Stream} {data : Bytes}

section

variable (h : Retains admitted held tx)
include h

theorem mono (hsub : ∀ o, held o → held' o) : Retains admitted held' tx :=
  { h with
    retained o ho := (h.retained o ho).imp_left (hsub o)
    acked o ho := hsub o (h.acked o ho) }

theorem keeps (hk : tx.Keeps tx') : Retains admitted held tx' where
  assigned := hk.reliableOffset.trans h.assigned
  bound := h.bound
  buffered := hk.pending ▸ h.buffered
  retained := hk.pending ▸ h.retained
  acked o ho := h.acked o (hk.lastAckedOffset ▸ ho)

theorem appends (ha : tx.Appends tx' data) : Retains (admitted ++ [data]) held tx' where
  assigned := by
    rw [ha.assigned, h.assigned, length_append, length_singleton]
  bound := by
    have := ha.bound
    rw [ha.assigned, h.assigned] at this
    simpa using this
  buffered q hq := by
    rw [ha.pending, mem_append, mem_singleton] at hq
    rcases hq with hq | rfl
    · exact getElem?_append_of_some (h.buffered q hq) [data]
    · rw [h.assigned]
      exact List.getElem?_concat_length
  retained o ho := by
    rw [ha.pending, h.assigned]
    rw [length_append, length_singleton] at ho
    rcases Nat.lt_succ_iff_lt_or_eq.1 ho with hlt | rfl
    · refine (h.retained o hlt).imp_right ?_
      rintro ⟨data, hmem⟩
      exact ⟨data, mem_append_left _ hmem⟩
    · exact .inr ⟨data, by simp⟩
  acked o ho := h.acked o (ha.lastAckedOffset ▸ ho)

theorem onSack {k : Sack} (hk : ∀ o, k.acks o = true → held o)
    (now : Nat) : Retains admitted held (tx.onSack k now).1 where
  assigned := (tx.onSack_reliableOffset k now).trans h.assigned
  bound := h.bound
  buffered q hq := by
    rw [Stream.onSack_pending] at hq
    exact h.buffered q (mem_filter.1 hq).1
  retained o ho := by
    rw [Stream.onSack_pending]
    rcases h.retained o ho with hheld | ⟨data, hmem⟩
    · exact .inl hheld
    · grind
  acked o ho := by
    have hbelow : ∀ q ∈ tx.pending, q.1 < u32Max := fun q hq =>
      (List.getElem?_eq_some_iff.1 (h.buffered q hq)).1.trans_le h.bound
    rcases Stream.onSack_lastAckedOffset hbelow ho with hlast | ⟨q, -, hacks, rfl⟩
    · exact h.acked o hlast
    · exact hk q.1 hacks

end

end Retains

namespace Reassembled

variable {admitted delivered : List Bytes} {rx rx' : Stream} {data : Bytes} {o now : Nat}

section

variable (h : Reassembled admitted delivered rx)
include h

theorem append (data : Bytes) : Reassembled (admitted ++ [data]) delivered rx where
  delivered_eq := by rw [take_append_of_le_length h.cursor_le, ← h.delivered_eq]
  cursor_le := by
    rw [length_append]
    exact Nat.le_add_right_of_le h.cursor_le
  islands e he := by
    obtain ⟨d, hget, heq⟩ := h.islands e he
    exact ⟨d, getElem?_append_of_some hget [data], heq⟩

theorem frame (hseq : rx'.recvSequence = rx.recvSequence)
    (hbuf : rx'.recvBuffer = rx.recvBuffer) : Reassembled admitted delivered rx' where
  delivered_eq := hseq ▸ h.delivered_eq
  cursor_le := hseq ▸ h.cursor_le
  islands := hbuf ▸ h.islands

section

variable (hbound : admitted.length ≤ u32Max) {entry : Nat × List Bytes}
include hbound

/-- The chunk at the cursor is the next one to deliver. The offset space is never used up, so that
the cursor does not wrap. -/
theorem advance (hnext : admitted[rx.recvSequence]? = some data)
    (hseq : rx'.recvSequence = (rx.recvSequence + 1) % (u32Max + 1))
    (hbuf : rx'.recvBuffer ⊆ rx.recvBuffer) :
    rx'.recvSequence = rx.recvSequence + 1 ∧ Reassembled admitted (delivered ++ [data]) rx' := by
  have hlt := (List.getElem?_eq_some_iff.1 hnext).1
  rw [Nat.mod_eq_of_lt (by omega)] at hseq
  refine ⟨hseq, ?_, ?_, fun e he => h.islands e (hbuf he)⟩
  · rw [hseq, take_add_one, hnext, ← h.delivered_eq]
    rfl
  · omega

theorem release_cursor (hfind : rx.recvBuffer.find? (·.1 == rx.recvSequence) = some entry) :
    entry.1 = rx.recvSequence ∧ (rx.release entry.2).recvSequence = rx.recvSequence + 1 := by
  have hat : entry.1 = rx.recvSequence := by simpa using List.find?_some hfind
  obtain ⟨data, hget, -⟩ := h.islands entry (mem_of_find?_eq_some hfind)
  have hlt := (List.getElem?_eq_some_iff.1 (hat ▸ hget)).1
  exact ⟨hat, Nat.mod_eq_of_lt (by omega)⟩

theorem release (hfind : rx.recvBuffer.find? (·.1 == rx.recvSequence) = some entry) :
    Reassembled admitted (delivered ++ entry.2) (rx.release entry.2) ∧
      ∀ o, (rx.release entry.2).Held o ↔ rx.Held o := by
  obtain ⟨hat, hseq⟩ := h.release_cursor hbound hfind
  obtain ⟨data, hget, hdata⟩ := h.islands entry (mem_of_find?_eq_some hfind)
  rw [hat] at hget
  have hsub : (rx.release entry.2).recvBuffer ⊆ rx.recvBuffer := eraseP_subset
  refine ⟨hdata ▸ (h.advance hbound hget rfl hsub).2, fun o => ?_⟩
  unfold Stream.Held
  rw [hseq]
  constructor
  · rintro (hlt | ⟨e, he, rfl⟩)
    · rcases Nat.lt_succ_iff_lt_or_eq.1 hlt with hlt | rfl
      · exact .inl hlt
      · exact .inr ⟨entry, mem_of_find?_eq_some hfind, hat⟩
    · exact .inr ⟨e, hsub he, rfl⟩
  · rintro (hlt | ⟨e, he, rfl⟩)
    · exact .inl (by omega)
    · by_cases hcursor : e.1 = rx.recvSequence
      · exact .inl (by omega)
      · exact .inr ⟨e, mem_eraseP_of_neg (by simpa using hcursor) |>.2 he, rfl⟩

end

end

theorem drain {out : List Bytes} (hbound : admitted.length ≤ u32Max) (fuel : Nat)
    (h : Reassembled admitted (delivered ++ out) rx) :
    Reassembled admitted (delivered ++ (Stream.drain fuel rx out).2) (Stream.drain fuel rx out).1 ∧
      ∀ o, (Stream.drain fuel rx out).1.Held o ↔ rx.Held o := by
  refine Stream.drain_inv (P := fun rx' out' =>
    Reassembled admitted (delivered ++ out') rx' ∧ ∀ o, rx'.Held o ↔ rx.Held o) ?_ fuel
    ⟨h, fun _ => .rfl⟩
  rintro rx' out' entry hfind ⟨hre, hheld⟩
  obtain ⟨hre', hheld'⟩ := hre.release hbound hfind
  rw [append_assoc] at hre'
  exact ⟨hre', fun o => (hheld' o).trans (hheld o)⟩

/-- Accepting a segment takes in that segment at most, and loses nothing. -/
theorem accept (h : Reassembled admitted delivered rx) (hbound : admitted.length ≤ u32Max)
    (hgap : ∀ e ∈ rx.recvBuffer, e.1 ≠ rx.recvSequence)
    (hseg : admitted[o]? = some data ∨ rx.Held o) (now : Nat) :
    Reassembled admitted (delivered ++ (rx.acceptInOrder o [data] now).2)
        (rx.acceptInOrder o [data] now).1 ∧
      (∀ e ∈ (rx.acceptInOrder o [data] now).1.recvBuffer,
        e.1 ≠ (rx.acceptInOrder o [data] now).1.recvSequence) ∧
      (∀ x, rx.Held x → (rx.acceptInOrder o [data] now).1.Held x) ∧
      ∀ x, (rx.acceptInOrder o [data] now).1.Held x → rx.Held x ∨ x = o := by
  obtain ⟨rx', heq, hseq, hbuf⟩ | ⟨rx', heq, hlt, hnew, hseq, hbuf⟩ | ⟨rx', hnext, heq, hseq, hbuf⟩ :=
    rx.acceptInOrder_cases o [data] now
  · rw [heq, append_nil]
    unfold Stream.Held
    rw [hseq, hbuf]
    exact ⟨h.frame hseq hbuf, hgap, fun _ hx => hx, fun _ hx => .inl hx⟩
  · -- a new island is not a copy of a held segment, so its payload is the admitted one
    have hget : admitted[o]? = some data := by
      rcases hseg with hget | hold | ⟨e, he, heq⟩
      · exact hget
      · omega
      · exact absurd heq (hnew e he)
    have hheld := Stream.held_of_append hseq hbuf
    rw [heq, append_nil]
    refine ⟨⟨hseq ▸ h.delivered_eq, hseq ▸ h.cursor_le, fun e he => ?_⟩, ?_,
      fun x hx => (hheld x).2 (.inl hx), fun x hx => (hheld x).1 hx⟩
    · rw [hbuf] at he
      rcases mem_append.1 he with he | he
      · exact h.islands e he
      · exact ⟨data, by rwa [mem_singleton.1 he], by rw [mem_singleton.1 he]⟩
    · grind
  · -- nothing at the cursor is held, so here too the payload is the admitted one
    subst hnext
    have hget := hseg.resolve_right (Stream.not_held_next hgap)
    obtain ⟨hseq', hre⟩ := h.advance hbound hget hseq (hbuf ▸ List.Subset.refl _)
    obtain ⟨hre', hdrained⟩ := drain hbound rx.recvBuffer.length hre
    have hheld x := (hdrained x).trans (Stream.held_of_advance hseq' hbuf x)
    rw [heq]
    exact ⟨hre', Stream.drain_exit _ _ (by rw [hbuf]), fun x hx => (hheld x).2 (.inl hx),
      fun x hx => (hheld x).1 hx⟩

theorem accept_next (h : Reassembled admitted delivered rx) (hbound : admitted.length ≤ u32Max)
    (hget : admitted[rx.recvSequence]? = some data) (now : Nat) :
    rx.recvSequence < (rx.acceptInOrder rx.recvSequence [data] now).1.recvSequence := by
  obtain ⟨rx', heq, hseq, hbuf⟩ := rx.acceptInOrder_next [data] now
  obtain ⟨hseq', hre⟩ := h.advance hbound hget hseq (hbuf ▸ List.Subset.refl _)
  rw [heq]
  refine (Stream.drain_inv (P := fun rx'' out' => Reassembled admitted (delivered ++ out') rx'' ∧
    rx.recvSequence < rx''.recvSequence) ?_ rx.recvBuffer.length ⟨hre, by omega⟩).2
  rintro rx'' out' entry hfind ⟨hre', hlt⟩
  have hnext := (hre'.release hbound hfind).1
  rw [append_assoc] at hnext
  have hcursor := (hre'.release_cursor hbound hfind).2
  exact ⟨hnext, by omega⟩

end Reassembled

/-! ## The system -/

namespace ReliableDelivery

variable {e : Event}

structure State where
  tx : Stream
  rx : Stream
  /-- The growth budget of the receiver's session. -/
  tuning : SharedRecvTuning
  polled : Option OutboundSegment
  segments : List OutboundSegment
  sacks : List Sack
  /-- The chunks admitted so far, and the runs `accept_in_order` has returned so far. -/
  admitted : List Bytes
  delivered : List Bytes

inductive Event where
  | offer (o : Stream.Offer)
  | sendUnreliable (data : Bytes)
  | pollSend (cwndBudget deliveredNow deliveredTimeNow : Nat) (appLimitedNow : Bool) (now : Nat)
  | written
  | refused
  | segment (i now : Nat)
  | sack (i now : Nat)
  | windowUpdate (limit : Nat)
  | resetRto
  /-- The receiving application consumes `n` bytes. -/
  | consumed (n : Nat) (reliable : Bool) (now : Nat)
  /-- Other streams of the receiver's session take from the growth budget, or return to it. -/
  | growth (tuning : SharedRecvTuning)
deriving DecidableEq

def init : State where
  tx := .new
  rx := .new
  tuning := ⟨sessionRecvWindowGrowthBudget⟩
  polled := none
  segments := []
  sacks := []
  admitted := []
  delivered := []

def offered (s : State) (tx : Stream) (taken : Bool) (data : Bytes) : State :=
  { s with tx, admitted := if taken then s.admitted ++ [data] else s.admitted }

/-- A reliable segment arrives: `accept_in_order`, then `received_sack`. -/
def arrive (s : State) (segment : OutboundSegment) (now : Nat) : State :=
  let r := s.rx.acceptInOrder segment.streamOffset [segment.data] now
  { s with
    rx := r.1
    delivered := s.delivered ++ r.2
    sacks := s.sacks ++ (r.1.receivedSack 0 now).toList }

def step (s : State) : Event → Option State
  | .offer o => (s.tx.offer o).map fun r => offered s r.1 r.2 o.data
  | .sendUnreliable data => some { s with tx := s.tx.sendUnreliable data }
  | .pollSend budget dn dt limited now =>
    if s.polled.isSome then none
    else
      let r := s.tx.pollSend budget dn dt limited now
      some { s with tx := r.1, polled := r.2.toOption }
  | .written =>
    s.polled.map fun seg => { s with polled := none, segments := s.segments ++ [seg] }
  | .refused =>
    s.polled.map fun seg =>
      { s with
        polled := none
        tx := if seg.reliable then s.tx.markUnsent seg.streamOffset else s.tx }
  | .segment i now =>
    match s.segments[i]? with
    | none => none
    | some seg => if seg.reliable then some (arrive s seg now) else none
  | .sack i now => s.sacks[i]?.map fun k => { s with tx := (s.tx.onSack k now).1 }
  | .windowUpdate limit => some { s with tx := s.tx.applyPeerWindowLimit limit }
  | .resetRto => some { s with tx := s.tx.resetRto }
  | .consumed n reliable now =>
    let r := s.rx.recordAppConsumed s.tuning n reliable now
    some { s with rx := r.1, tuning := r.2.1 }
  | .growth tuning => some { s with tuning }

/-- What a step can do. -/
inductive Moves (s : State) : Event → State → Prop
  | offered {o : Stream.Offer} {tx : Stream} {taken : Bool}
      (hspec : (taken = true ∧ s.tx.Appends tx o.data) ∨ (taken = false ∧ tx = s.tx))
      (hadmits : s.tx.Admits tx o.data o.fin)
      (hfin : tx.localFinished = (s.tx.localFinished || o.fin && taken)) :
      Moves s (.offer o) (offered s tx taken o.data)
  | idles {e : Event} {tx : Stream} (hidles : s.tx.Idles tx)
      (hfin : tx.localFinished = s.tx.localFinished) : Moves s e { s with tx }
  | polled {budget dn dt now : Nat} {limited : Bool} {tx : Stream}
      {r : Except SendBlocked OutboundSegment} (hidle : s.polled = none) (hb : s.tx.Emitted tx r)
      (hfin : tx.localFinished = s.tx.localFinished) :
      Moves s (.pollSend budget dn dt limited now) { s with tx, polled := r.toOption }
  | written {seg : OutboundSegment} (hseg : s.polled = some seg) :
      Moves s .written { s with polled := none, segments := s.segments ++ [seg] }
  | refused {seg : OutboundSegment} (hseg : s.polled = some seg) :
      Moves s .refused { s with
        polled := none
        tx := if seg.reliable then s.tx.markUnsent seg.streamOffset else s.tx }
  | arrives {i now : Nat} {seg : OutboundSegment} (hseg : seg ∈ s.segments)
      (hrel : seg.reliable = true) : Moves s (.segment i now) (arrive s seg now)
  | acked {i now : Nat} {k : Sack} (hk : k ∈ s.sacks) :
      Moves s (.sack i now) { s with tx := (s.tx.onSack k now).1 }
  | granted (limit : Nat) :
      Moves s (.windowUpdate limit) { s with tx := s.tx.applyPeerWindowLimit limit }
  | consumed {n now : Nat} {reliable : Bool} {rx : Stream} {tuning : SharedRecvTuning}
      (hseq : rx.recvSequence = s.rx.recvSequence) (hbuf : rx.recvBuffer = s.rx.recvBuffer) :
      Moves s (.consumed n reliable now) { s with rx, tuning }
  | growth (tuning : SharedRecvTuning) : Moves s (.growth tuning) { s with tuning }

theorem step_moves {s s' : State} (hs : step s e = some s') : Moves s e s' := by
  cases e with
  | offer o =>
    obtain ⟨r, hr, rfl⟩ := map_eq_some_iff.1 hs
    exact .offered (Stream.offer_spec hr) (Stream.offer_admits hr) (Stream.offer_localFinished hr)
  | sendUnreliable | resetRto =>
    cases hs
    exact .idles ⟨⟨rfl, rfl, rfl, rfl⟩, rfl, rfl, rfl⟩ rfl
  | pollSend budget dn dt limited now =>
    simp only [step] at hs
    split at hs
    · cases hs
    · rename_i hidle
      cases hs
      exact .polled (by simpa using hidle) (s.tx.pollSend_emitted budget dn dt limited now)
        (s.tx.pollSend_localFinished budget dn dt limited now)
  | written =>
    obtain ⟨seg, hseg, rfl⟩ := map_eq_some_iff.1 hs
    exact .written hseg
  | refused =>
    obtain ⟨seg, hseg, rfl⟩ := map_eq_some_iff.1 hs
    exact .refused hseg
  | segment i now =>
    simp only [step] at hs
    split at hs
    · cases hs
    · rename_i hseg
      split at hs
      · cases hs
        exact .arrives (mem_of_getElem? hseg) ‹_›
      · cases hs
  | sack =>
    obtain ⟨k, hk, rfl⟩ := map_eq_some_iff.1 hs
    exact .acked (mem_of_getElem? hk)
  | windowUpdate limit =>
    cases hs
    exact .granted limit
  | consumed n reliable now =>
    cases hs
    obtain ⟨hseq, hbuf⟩ := s.rx.recordAppConsumed_frame s.tuning n reliable now
    exact .consumed hseq hbuf
  | growth tuning =>
    cases hs
    exact .growth tuning

/-- A reliable segment carries what was admitted at its offset, or repeats an offset that is held. -/
def Genuine (s : State) (seg : OutboundSegment) : Prop :=
  s.admitted[seg.streamOffset]? = some seg.data ∨ s.rx.Held seg.streamOffset

/-- Both ends, and the network carries only what supports them. -/
structure Coherent (s : State) : Prop where
  retains : Retains s.admitted s.rx.Held s.tx
  reassembled : Reassembled s.admitted s.delivered s.rx
  gap : ∀ e ∈ s.rx.recvBuffer, e.1 ≠ s.rx.recvSequence
  genuine : ∀ seg ∈ s.polled.toList ++ s.segments, seg.reliable = true → Genuine s seg
  sacks : ∀ k ∈ s.sacks, ∀ o, k.acks o = true → s.rx.Held o

theorem coherent_init : Coherent init where
  retains :=
    { assigned := rfl
      bound := Nat.zero_le _
      buffered := by simp [init, Stream.new, Stream.pending]
      retained := by simp [init]
      acked := by simp [init, Stream.new, Stream.lastAckedOffset] }
  reassembled :=
    { delivered_eq := rfl
      cursor_le := Nat.le_refl _
      islands := by simp [init, Stream.new] }
  gap := by simp [init, Stream.new]
  genuine := by simp [init]
  sacks := by simp [init]

namespace Coherent

variable {s s' : State} {tx : Stream} {data : Bytes}

section

variable (h : Coherent s) {seg : OutboundSegment}
include h

theorem keeps (hk : s.tx.Keeps tx) : Coherent { s with tx } :=
  ⟨h.retains.keeps hk, h.reassembled, h.gap, h.genuine, h.sacks⟩

theorem offered {taken : Bool}
    (hspec : (taken = true ∧ s.tx.Appends tx data) ∨ (taken = false ∧ tx = s.tx)) :
    Coherent (offered s tx taken data) := by
  rcases hspec with ⟨rfl, happ⟩ | ⟨rfl, rfl⟩
  · refine ⟨h.retains.appends happ, h.reassembled.append data, h.gap, fun seg hseg hrel => ?_,
      h.sacks⟩
    exact (h.genuine seg hseg hrel).imp_left fun hget => getElem?_append_of_some hget [data]
  · exact h

theorem polled {r : Except SendBlocked OutboundSegment}
    (hp : s.tx.Emitted tx r) : Coherent { s with tx, polled := r.toOption } := by
  refine ⟨h.retains.keeps hp.keeps, h.reassembled, h.gap, fun seg hmem hrel => ?_, h.sacks⟩
  rcases mem_append.1 hmem with hnew | hold
  · cases r with
    | error => cases hnew
    | ok =>
      cases mem_singleton.1 hnew
      rcases hp.reliable hrel with hpending | hacked
      · exact .inl (h.retains.buffered _ hpending)
      · exact .inr (h.retains.acked _ hacked)
  · exact h.genuine seg (mem_append_right _ hold) hrel

theorem arrive (hseg : Genuine s seg) (now : Nat) : Coherent (arrive s seg now) := by
  obtain ⟨hre, hgap, hheld, -⟩ := h.reassembled.accept h.retains.bound h.gap hseg now
  refine ⟨h.retains.mono hheld, hre, hgap, fun seg' hmem hrel => ?_, fun k hk o hacks => ?_⟩
  · exact (h.genuine seg' hmem hrel).imp_right (hheld _)
  · rcases mem_append.1 hk with hold | hnew
    · exact hheld o (h.sacks k hold o hacks)
    · exact Stream.receivedSack_held (mem_toList.1 hnew) hacks

theorem receiver {rx : Stream} (hseq : rx.recvSequence = s.rx.recvSequence)
    (hbuf : rx.recvBuffer = s.rx.recvBuffer) (tuning : SharedRecvTuning) :
    Coherent { s with rx, tuning } := by
  have hheld : ∀ o, s.rx.Held o → rx.Held o := by simp [*, Stream.Held]
  refine ⟨h.retains.mono hheld, h.reassembled.frame hseq hbuf, ?_, fun seg hseg hrel => ?_, ?_⟩
  · dsimp only
    rw [hseq, hbuf]
    exact h.gap
  · exact (h.genuine seg hseg hrel).imp_right (hheld _)
  · exact fun k hk o hacks => hheld o (h.sacks k hk o hacks)

theorem refused : Coherent { s with
      polled := none
      tx := if seg.reliable then s.tx.markUnsent seg.streamOffset else s.tx } := by
  have hkeeps : s.tx.Keeps (if seg.reliable then s.tx.markUnsent seg.streamOffset else s.tx) := by
    split
    · exact s.tx.markUnsent_keeps _
    · exact .refl _
  refine ⟨h.retains.keeps hkeeps, h.reassembled, h.gap, fun seg' hmem hrel => ?_, h.sacks⟩
  exact h.genuine seg' (mem_append_right _ hmem) hrel

theorem step {e : Event} (hs : step s e = some s') : Coherent s' := by
  cases step_moves hs with
  | offered hspec => exact h.offered hspec
  | idles hidles => exact h.keeps hidles.keeps
  | polled _ hb => exact h.polled hb
  | @written seg hseg =>
    refine ⟨h.retains, h.reassembled, h.gap, fun seg' hmem hrel => ?_, h.sacks⟩
    refine h.genuine seg' ?_ hrel
    simpa [hseg, or_comm] using hmem
  | refused => exact h.refused
  | arrives hseg hrel => exact h.arrive (h.genuine _ (mem_append_right _ hseg) hrel) _
  | @acked _ now k hk =>
    exact ⟨h.retains.onSack (h.sacks k hk) now, h.reassembled, h.gap, h.genuine, h.sacks⟩
  | granted => exact h.keeps ⟨rfl, rfl, rfl, rfl⟩
  | consumed hseq hbuf => exact h.receiver hseq hbuf _
  | growth tuning => exact h.receiver rfl rfl tuning

end

end Coherent

/-- **Reliable delivery.** In every run, what has been delivered is a prefix of what was admitted,
and every assigned offset that is neither delivered nor in the reorder buffer is in the send buffer,
with the payload that was admitted there. -/
theorem prefix_delivered_rest_retained {events : List Event} {s : State}
    (h : Lts.run step init events = some s) :
    s.delivered <+: s.admitted ∧ s.tx.reliableOffset = s.admitted.length ∧
      ∀ o < s.tx.reliableOffset, s.delivered.length ≤ o → (∀ e ∈ s.rx.recvBuffer, e.1 ≠ o) →
        ∃ p ∈ s.tx.sendBuffer, p.streamOffset = o ∧ s.admitted[o]? = some p.data := by
  have hc : Coherent s := Lts.run_inv (fun _ _ _ hi hs => hi.step hs) events coherent_init h
  have hre := hc.reassembled
  refine ⟨?_, hc.retains.assigned, fun o ho hdel hbuf => ?_⟩
  · rw [hre.delivered_eq]
    exact take_prefix ..
  · have hcursor : s.rx.recvSequence ≤ o := by
      rw [hre.delivered_eq, length_take, Nat.min_eq_left hre.cursor_le] at hdel
      exact hdel
    rcases hc.retains.retained o (hc.retains.assigned ▸ ho) with hheld | ⟨data, hmem⟩
    · rcases hheld with hlt | ⟨e, he, heq⟩
      · omega
      · exact absurd heq (hbuf e he)
    · obtain ⟨p, hp, hpq⟩ := mem_map.1 hmem
      cases hpq
      exact ⟨p, hp, rfl, hc.retains.buffered _ hmem⟩

/-- Three chunks and a FIN. The first write is refused, the second segment is lost and overtaken by
the third, acknowledgements arrive twice and late; the gap is then closed by a fast retransmission. -/
def overtaken : List Event :=
  [.offer (.sendReliable [1]), .offer (.trySendReliable [2]), .offer (.sendReliable [3]),
    .offer .tryQueueFin, .pollSend 4 0 0 false 0, .refused, .pollSend 4 0 0 false 1, .written,
    .pollSend 4 0 0 false 2, .written, .pollSend 4 0 0 false 3, .written, .pollSend 4 0 0 false 4,
    .written, .segment 2 5, .segment 0 6, .segment 3 7, .sack 2 8, .sack 2 9, .sack 0 2000000,
    .pollSend 4 0 0 false 2000001, .written, .segment 4 2000002]

theorem prefix_delivered_rest_retained_overtaken :
    ∃ s, Lts.run step init overtaken = some s ∧ s.delivered = [[1], [2], [3], []] ∧
      s.delivered <+: s.admitted := by
  have hrun : (Lts.run step init overtaken).map (·.delivered) = some [[1], [2], [3], []] := by
    decide +kernel
  obtain ⟨s, hs, hdel⟩ := map_eq_some_iff.1 hrun
  exact ⟨s, hs, hdel, (prefix_delivered_rest_retained hs).1⟩

end ReliableDelivery

end PhantomProtocol
