import PhantomProtocol.Transport.Proof.ReliableDelivery
import PhantomProtocol.Transport.Proof.SendBuffer

/-!
# The FIN is the last segment

A stream whose application admits nothing after the FIN, in the system of `ReliableDelivery`.
-/

namespace PhantomProtocol

open List

namespace Stream

variable {s s' : Stream} {seg : OutboundSegment} {data : Bytes}
  {admitted : List Bytes} {p' : PendingData}

theorem mem_replaced {pre post : List PendingData} {p q p' : PendingData}
    (hoff : q.streamOffset = p.streamOffset) (hfin : q.fin = p.fin) (h : p' ∈ pre ++ q :: post) :
    ∃ x ∈ pre ++ p :: post, p'.streamOffset = x.streamOffset ∧ p'.fin = x.fin := by
  rcases mem_append.1 h with h | h
  · exact ⟨p', mem_append_left _ h, rfl, rfl⟩
  · grind

theorem mem_markUnsent {o : Nat} (h : p' ∈ (s.markUnsent o).sendBuffer) :
    ∃ p ∈ s.sendBuffer, p'.streamOffset = p.streamOffset ∧ p'.fin = p.fin := by
  obtain ⟨heq, -⟩ | ⟨pre, p, post, hbuf, -, heq⟩ := s.markUnsent_cases o
  · rw [heq] at h
    exact ⟨p', h, rfl, rfl⟩
  · grind

theorem Emitted.mem {r : Except SendBlocked OutboundSegment} (h : s.Emitted s' r)
    (hp : p' ∈ s'.sendBuffer) :
    ∃ p ∈ s.sendBuffer, p'.streamOffset = p.streamOffset ∧ p'.fin = p.fin := by
  cases h with
  | blocked => exact ⟨p', hp, rfl, rfl⟩
  | unreliable hidles => exact ⟨p', hidles.buffer ▸ hp, rfl, rfl⟩
  | probe hidles => exact ⟨p', hidles.buffer ▸ hp, rfl, rfl⟩
  | copied _ hbuf hbuf' _ hcopied =>
    have hbills := hcopied.bills
    rw [hbuf'] at hp
    rw [hbuf]
    exact mem_replaced hbills.transmits.sameOffset hbills.sameFin hp

/-- Among the buffered segments, the flag is on the last one admitted, and on no other. -/
def FlagsEnd (s : Stream) (admitted : List Bytes) : Prop :=
  ∀ p ∈ s.sendBuffer, p.fin = true ↔ s.localFinished = true ∧ p.streamOffset + 1 = admitted.length

theorem FlagsEnd.frame (h : s.FlagsEnd admitted) (hbuf : ∀ p' ∈ s'.sendBuffer, ∃ p ∈ s.sendBuffer,
      p'.streamOffset = p.streamOffset ∧ p'.fin = p.fin)
    (hfin : s'.localFinished = s.localFinished) : s'.FlagsEnd admitted := by
  intro p' hp'
  obtain ⟨p, hp, hoff, heq⟩ := hbuf p' hp'
  rw [heq, hoff, hfin]
  exact h p hp

theorem FlagsEnd.admits {fin : Bool} (h : s.FlagsEnd admitted)
    (hopen : s.localFinished = false) (hassigned : s.reliableOffset = admitted.length)
    (hbuffered : ∀ q ∈ s.pending, admitted[q.1]? = some q.2) (hadmits : s.Admits s' data fin)
    (hfin : s'.localFinished = fin) : s'.FlagsEnd (admitted ++ [data]) := by
  intro p hp
  rcases hadmits.buffer p hp with hold | rfl
  · have hlt := (List.getElem?_eq_some_iff.1 (hbuffered _ (mem_map_of_mem hold))).1
    rw [length_append]
    refine iff_of_false (fun hflag => ?_) fun hlast => ?_
    · exact absurd (hopen.symm.trans ((h p hold).1 hflag).1) Bool.false_ne_true
    · exact absurd (Nat.succ.inj hlast.2) (Nat.ne_of_lt hlt)
  · simp [pendingData, hassigned, hfin]

end Stream

/-! ## The system -/

namespace ReliableDelivery

variable {s s' : State} {tx : Stream} {data : Bytes} {o : Nat}

/-- `o` is the offset of the FIN. -/
def IsEnd (s : State) (o : Nat) : Prop := s.tx.localFinished = true ∧ o + 1 = s.admitted.length

/-- The application offers nothing after the FIN. -/
def EndsWithFin (s : State) (e : Event) : Prop := ∀ o, e = .offer o → s.tx.localFinished = false

/-- The flag is on the segment at the last offset and on no other; a copy of that segment without it is
a probe, and repeats an offset the receiver holds. -/
structure FinLast (s : State) : Prop where
  admitted : s.tx.localFinished = true → s.admitted ≠ []
  buffered : ∀ p ∈ s.tx.sendBuffer, p.fin = true ↔ IsEnd s p.streamOffset
  flagged : ∀ seg ∈ s.polled.toList ++ s.segments, seg.reliable = true → seg.fin = true →
    IsEnd s seg.streamOffset
  unflagged : ∀ seg ∈ s.polled.toList ++ s.segments, seg.reliable = true → seg.fin = false →
    IsEnd s seg.streamOffset → s.rx.Held seg.streamOffset

theorem finLast_init : FinLast init where
  admitted := nofun
  buffered := by simp [init, Stream.new]
  flagged := by simp [init]
  unflagged := by simp [init]

theorem IsEnd.congr (h : IsEnd s o) (hfin : s'.tx.localFinished = s.tx.localFinished)
    (hadm : s'.admitted = s.admitted) : IsEnd s' o :=
  ⟨hfin ▸ h.1, hadm ▸ h.2⟩

namespace FinLast

section

variable (h : FinLast s)
include h

theorem frame (hbuf : ∀ p' ∈ s'.tx.sendBuffer, ∃ p ∈ s.tx.sendBuffer,
      p'.streamOffset = p.streamOffset ∧ p'.fin = p.fin)
    (hfin : s'.tx.localFinished = s.tx.localFinished) (hadm : s'.admitted = s.admitted)
    (hsegs : ∀ seg ∈ s'.polled.toList ++ s'.segments, seg ∈ s.polled.toList ++ s.segments)
    (hheld : ∀ o, s.rx.Held o → s'.rx.Held o) : FinLast s' where
  admitted hclosed := hadm ▸ h.admitted (hfin ▸ hclosed)
  buffered := by
    unfold IsEnd
    rw [hadm]
    exact Stream.FlagsEnd.frame h.buffered hbuf hfin
  flagged seg hseg hrel hflag := (h.flagged seg (hsegs seg hseg) hrel hflag).congr hfin hadm
  unflagged seg hseg hrel hflag hend :=
    hheld _ (h.unflagged seg (hsegs seg hseg) hrel hflag (hend.congr hfin.symm hadm.symm))

theorem sender (hbuf : ∀ p' ∈ tx.sendBuffer, ∃ p ∈ s.tx.sendBuffer,
      p'.streamOffset = p.streamOffset ∧ p'.fin = p.fin)
    (hfin : tx.localFinished = s.tx.localFinished) : FinLast { s with tx } :=
  h.frame hbuf hfin rfl (fun _ hseg => hseg) fun _ ho => ho

theorem offered {taken fin : Bool} (hc : Coherent s) (hopen : s.tx.localFinished = false)
    (hspec : (taken = true ∧ s.tx.Appends tx data) ∨ (taken = false ∧ tx = s.tx))
    (hadmits : s.tx.Admits tx data fin)
    (hfin : tx.localFinished = (s.tx.localFinished || fin && taken)) :
    FinLast (offered s tx taken data) := by
  rcases hspec with ⟨rfl, -⟩ | ⟨rfl, rfl⟩
  · rw [hopen, Bool.false_or, Bool.and_true] at hfin
    -- before this there is no end, and after it the end is the offset just assigned
    have hnone : ∀ o, ¬IsEnd s o := fun o hend => by
      rw [hend.1] at hopen
      cases hopen
    have hend : ∀ o, IsEnd (ReliableDelivery.offered s tx true data) o ↔
        fin = true ∧ o = s.admitted.length := by
      intro o
      simp [IsEnd, ReliableDelivery.offered, hfin]
    refine ⟨fun _ => ?_, Stream.FlagsEnd.admits h.buffered hopen hc.retains.assigned
      hc.retains.buffered hadmits hfin, fun seg hseg hrel hflag => ?_,
      fun seg hseg hrel hflag hlast => ?_⟩
    · simp [ReliableDelivery.offered]
    · exact absurd (h.flagged seg hseg hrel hflag) (hnone _)
    · rcases hc.genuine seg hseg hrel with hget | hheld
      · exact absurd ((hend _).1 hlast).2 (Nat.ne_of_lt (List.getElem?_eq_some_iff.1 hget).1)
      · exact hheld
  · exact h

theorem polled {r : Except SendBlocked OutboundSegment} (hc : Coherent s)
    (hb : s.tx.Emitted tx r) (hfin : tx.localFinished = s.tx.localFinished) :
    FinLast { s with tx, polled := r.toOption } := by
  -- the segment in hand carries its entry's flag, unless it is a probe
  have hnew : ∀ seg, r = .ok seg → seg.reliable = true →
      (seg.fin = true ↔ IsEnd s seg.streamOffset) ∨
        seg.fin = false ∧ s.rx.Held seg.streamOffset := by
    rintro seg rfl hrel
    cases hb with
    | unreliable _ hrel' => exact absurd (hrel'.symm.trans hrel) Bool.false_ne_true
    | @copied _ _ pre post p _ _ hbuf _ _ hcopied =>
      have hbills := hcopied.bills
      left
      rw [hbills.fin, hbills.transmits.streamOffset]
      exact h.buffered p (by simp [hbuf])
    | probe _ hacked _ hflag => exact .inr ⟨hflag, hc.retains.acked _ hacked⟩
  have hsender : FinLast { s with tx } := h.sender (fun _ hp => hb.mem hp) hfin
  have hcase : ∀ seg ∈ r.toOption.toList ++ s.segments,
      r = .ok seg ∨ seg ∈ s.polled.toList ++ s.segments := by
    intro seg hseg
    rcases mem_append.1 hseg with hseg | hseg
    · cases r with
      | error => cases hseg
      | ok =>
        cases mem_singleton.1 hseg
        exact .inl rfl
    · exact .inr (mem_append_right _ hseg)
  refine ⟨hsender.admitted, hsender.buffered, fun seg hseg hrel hflag => ?_,
    fun seg hseg hrel hflag hend => ?_⟩
  · rcases hcase seg hseg with hr | hold
    · rcases hnew seg hr hrel with hiff | ⟨hunflagged, -⟩
      · exact (hiff.1 hflag).congr hfin rfl
      · rw [hunflagged] at hflag
        cases hflag
    · exact hsender.flagged seg hold hrel hflag
  · rcases hcase seg hseg with hr | hold
    · rcases hnew seg hr hrel with hiff | ⟨-, hheld⟩
      · rw [hiff.2 (hend.congr hfin.symm rfl)] at hflag
        cases hflag
      · exact hheld
    · exact hsender.unflagged seg hold hrel hflag hend

theorem arrive {seg : OutboundSegment} (hc : Coherent s) (hseg : Genuine s seg)
    (now : Nat) : FinLast (arrive s seg now) := by
  obtain ⟨-, -, hheld, -⟩ := hc.reassembled.accept hc.retains.bound hc.gap hseg now
  exact h.frame (fun p hp => ⟨p, hp, rfl, rfl⟩) rfl rfl (fun _ hseg => hseg) hheld

theorem step {e : Event} (hc : Coherent s) (hs : step s e = some s')
    (hends : EndsWithFin s e) : FinLast s' := by
  cases step_moves hs with
  | offered hspec hadmits hfin => exact h.offered hc (hends _ rfl) hspec hadmits hfin
  | idles hidles hfin => exact h.sender (fun p hp => ⟨p, hidles.buffer ▸ hp, rfl, rfl⟩) hfin
  | polled _ hb hfin => exact h.polled hc hb hfin
  | written hseg =>
    refine h.frame (fun p hp => ⟨p, hp, rfl, rfl⟩) rfl rfl (fun seg' hmem => ?_) fun _ ho => ho
    simpa [hseg, or_comm] using hmem
  | @refused seg hseg =>
    refine h.frame (fun p hp => ?_) (s.tx.refused_localFinished seg) rfl
      (fun seg' hmem => mem_append_right _ hmem) fun _ ho => ho
    dsimp only at hp
    split at hp
    · exact Stream.mem_markUnsent hp
    · exact ⟨p, hp, rfl, rfl⟩
  | arrives hseg hrel =>
    exact h.arrive hc (hc.genuine _ (mem_append_right _ hseg) hrel) _
  | @acked _ now k =>
    refine h.sender (fun p hp => ?_) (s.tx.onSack_localFinished k now)
    obtain ⟨q, hq, -, cause, rfl⟩ := Stream.mem_onSack hp
    exact ⟨q, hq, rfl, rfl⟩
  | granted => exact h.sender (fun p hp => ⟨p, hp, rfl, rfl⟩) rfl
  | consumed hseq hbuf =>
    refine h.frame (fun p hp => ⟨p, hp, rfl, rfl⟩) rfl rfl (fun _ hseg => hseg) fun o ho => ?_
    unfold Stream.Held at ho ⊢
    dsimp only
    rwa [hseq, hbuf]
  | growth =>
    exact h.frame (fun p hp => ⟨p, hp, rfl, rfl⟩) rfl rfl (fun _ hseg => hseg) fun _ ho => ho

end

end FinLast

/-- Once there is an end, it stays. -/
theorem step_ends {e : Event} (hs : step s e = some s') (hends : EndsWithFin s e) :
    s'.tx.localFinished = s.tx.localFinished ∧ s'.admitted = s.admitted ∨
      s.tx.localFinished = false ∧ ∃ data, s'.admitted = s.admitted ++ [data] := by
  cases step_moves hs with
  | @offered o _ _ hspec =>
    rcases hspec with ⟨rfl, -⟩ | ⟨rfl, rfl⟩
    · exact .inr ⟨hends o rfl, o.data, rfl⟩
    · exact .inl ⟨rfl, rfl⟩
  | idles _ hfin => exact .inl ⟨hfin, rfl⟩
  | polled _ _ hfin => exact .inl ⟨hfin, rfl⟩
  | @refused seg => exact .inl ⟨s.tx.refused_localFinished seg, rfl⟩
  | @acked _ now k => exact .inl ⟨s.tx.onSack_localFinished k now, rfl⟩
  | _ => exact .inl ⟨rfl, rfl⟩

end ReliableDelivery

end PhantomProtocol
