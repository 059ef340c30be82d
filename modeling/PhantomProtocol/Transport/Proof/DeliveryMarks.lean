import PhantomProtocol.Transport.Proof.SendLedger

/-!
# Delivery marks

`delivered_at_send`, `delivered_time_at_send` and `app_limited_at_send` describe the flight a
segment first left with. Only Pass 2 of `poll_send` writes them, and it takes segments that carry no
send stamp; so they stay for as long as a segment that has left keeps its stamp, and only a refused
write takes that away.
-/

namespace PhantomProtocol

open List Option Bool

/-- What an acknowledgement of the segment turns into a delivery-rate sample. -/
def PendingData.marks (p : PendingData) : Nat × Option Nat × Bool :=
  (p.deliveredAtSend, p.deliveredTimeAtSend, p.appLimitedAtSend)

namespace Stream

variable {s s' : Stream} {seg : OutboundSegment} {p p' : PendingData}

/-- The empty segment of `try_persist_probe`: it repeats an offset that is acknowledged and no
longer buffered. -/
def Probes (s : Stream) (seg : OutboundSegment) : Prop :=
  seg.data = [] ∧ seg.fin = false ∧ s.lastAckedOffset = some seg.streamOffset ∧
    ∀ p ∈ s.sendBuffer, p.streamOffset ≠ seg.streamOffset

theorem Copied.again (h : Copied s s' seg p p') (hsent : p.sentAt.isSome = true) :
    seg.retransmit = true ∧ p'.marks = p.marks := by
  cases h with
  | fast _ _ hp' hseg =>
    subst hp' hseg
    exact ⟨rfl, rfl⟩
  | timeout _ _ hp' hseg =>
    subst hp' hseg
    exact ⟨rfl, rfl⟩
  | first hnone =>
    rw [hnone] at hsent
    cases hsent

end Stream

namespace SendLedger

variable {s s' : State} {e : Event} {o : Nat} {tx : Stream}

/-- A transmission of the segment at `o` was not refused. -/
def Left (s : State) (o : Nat) : Prop :=
  ∃ seg ∈ s.written, seg.reliable = true ∧ seg.streamOffset = o

instance (s : State) (o : Nat) : Decidable (Left s o) :=
  inferInstanceAs (Decidable (∃ seg ∈ s.written, seg.reliable = true ∧ seg.streamOffset = o))

/-- The segment at `o` has been handed out and its write is not settled. -/
def Held (s : State) (o : Nat) : Prop :=
  ∃ seg ∈ s.polled, seg.reliable = true ∧ seg.streamOffset = o

/-- What the sender keeps of the offset `o` as long as no retransmission of it is refused. -/
structure Wire (o : Nat) (s : State) : Prop where
  wellFormed : s.tx.WellFormed
  assigned : Left s o ∨ Held s o → o < s.tx.reliableOffset
  stamped : Left s o ∨ Held s o → ∀ p ∈ s.tx.sendBuffer, p.streamOffset = o → p.sentAt.isSome = true
  /-- What is handed out for `o` once a copy has left, is a further copy. -/
  inHand : Left s o → ∀ seg ∈ s.polled, seg.reliable = true → seg.streamOffset = o →
    seg.retransmit = false → ∀ p ∈ s.tx.sendBuffer, p.streamOffset ≠ o

theorem wire_init (o : Nat) : Wire o init where
  wellFormed := Stream.wellFormed_new
  assigned h := by simp [Left, Held, init] at h
  stamped h := by simp [Left, Held, init] at h
  inHand h := by simp [Left, init] at h

/-- The write of a retransmission of `o` is not refused. -/
def KeepsCopies (o : Nat) (s : State) (e : Event) (_ : State) : Prop :=
  e = .refused → ∀ seg ∈ s.polled, seg.reliable = true → seg.streamOffset = o →
    seg.retransmit = false

instance (o : Nat) (s : State) (e : Event) (s' : State) : Decidable (KeepsCopies o s e s') :=
  inferInstanceAs (Decidable (_ → ∀ seg ∈ s.polled, _ → _ → _))

/-- What a step may do to the segment at `o` once a transmission of it was not refused. -/
structure Pinned (o : Nat) (s : State) (_ : Event) (s' : State) : Prop where
  marks : Left s o → ∀ p' ∈ s'.tx.sendBuffer, p'.streamOffset = o →
    ∃ p ∈ s.tx.sendBuffer, p.streamOffset = o ∧ p'.marks = p.marks
  copies : Left s o → s.polled = none → ∀ seg ∈ s'.polled, seg.reliable = true →
    seg.streamOffset = o → seg.retransmit = true ∨ s.tx.Probes seg

namespace Wire

variable {seg : OutboundSegment}

section

variable (h : Wire o s) {r : Except SendBlocked OutboundSegment}
include h

theorem keeps (hpolled : s'.polled = s.polled) (hwritten : s'.written = s.written)
    (hwf : s'.tx.WellFormed) (hoff : s.tx.reliableOffset ≤ s'.tx.reliableOffset)
    (hbuf : ∀ p' ∈ s'.tx.sendBuffer, p'.streamOffset < s.tx.reliableOffset →
      ∃ p ∈ s.tx.sendBuffer, p'.streamOffset = p.streamOffset ∧ p'.sentAt = p.sentAt) :
    Wire o s' := by
  have hleft : Left s' o = Left s o := by
    unfold Left
    rw [hwritten]
  have hheld : Held s' o = Held s o := by
    unfold Held
    rw [hpolled]
  refine ⟨hwf, ?_, ?_, ?_⟩
  · rw [hleft, hheld]
    exact fun h' => (h.assigned h').trans_le hoff
  · rw [hleft, hheld]
    intro h' p' hp' heq
    obtain ⟨p, hp, hsame, hsent⟩ := hbuf p' hp' (heq ▸ h.assigned h')
    rw [hsent]
    exact h.stamped h' p hp (hsame ▸ heq)
  · rw [hleft, hpolled]
    intro h' seg hseg hrel heq hre p' hp' heq'
    obtain ⟨p, hp, hsame, -⟩ := hbuf p' hp' (heq' ▸ h.assigned (.inl h'))
    exact h.inHand h' seg hseg hrel heq hre p hp (hsame ▸ heq')

theorem copied {pre post : List PendingData} {p p' : PendingData}
    (hidle : s.polled = none) (hkeeps : s.tx.Keeps tx)
    (hbuf : s.tx.sendBuffer = pre ++ p :: post) (hbuf' : tx.sendBuffer = pre ++ p' :: post)
    (hcopied : Stream.Copied s.tx tx seg p p') :
    Wire o { s with tx, polled := some seg } := by
  have htx := hcopied.bills.transmits
  have hp : p ∈ s.tx.sendBuffer := by simp [hbuf]
  have hidles : ¬ Held s o := by
    rintro ⟨seg', hseg', -⟩
    rw [hidle] at hseg'
    cases hseg'
  refine ⟨h.wellFormed.keeps hkeeps, fun hleft => ?_, fun hleft q hq heq => ?_,
    fun hleft seg' hseg' hrel heq hre => ?_⟩
  · show o < tx.reliableOffset
    rw [hkeeps.reliableOffset]
    rcases hleft with hleft | ⟨seg', hseg', -, rfl⟩
    · exact h.assigned (.inl hleft)
    · cases hseg'
      rw [htx.streamOffset]
      exact h.wellFormed.below _ (mem_map_of_mem hp)
  · rcases h.wellFormed.mem_replace hbuf (hbuf' ▸ hq) with rfl | ⟨hold, hne⟩
    · exact htx.stamped
    · rcases hleft with hleft | ⟨seg', hseg', -, rfl⟩
      · exact h.stamped (.inl hleft) q hold heq
      · cases hseg'
        exact absurd (heq.trans htx.streamOffset) hne
  · -- a segment that has left carries a stamp, and is repeated
    cases hseg'
    have hsent := h.stamped (.inl hleft) p hp (htx.streamOffset.symm.trans heq)
    rw [(hcopied.again hsent).1] at hre
    cases hre

theorem emitted (hidle : s.polled = none)
    (hemitted : s.tx.Emitted tx r) : Wire o { s with tx, polled := r.toOption } := by
  cases hemitted with
  | blocked =>
    show Wire o { s with polled := none }
    rw [← hidle]
    exact h
  | copied hkeeps hbuf hbuf' _ hcopied => exact h.copied hidle hkeeps hbuf hbuf' hcopied
  | @unreliable _ seg hidles hrel _ _ =>
    have hw : Wire o { s with tx } :=
      h.keeps rfl rfl (h.wellFormed.keeps hidles.keeps) hidles.keeps.reliableOffset.ge
        fun p hp _ => ⟨p, hidles.buffer ▸ hp, rfl, rfl⟩
    have hheld : ¬ Held { s with tx, polled := some seg } o := by
      rintro ⟨seg', hseg', hrel', -⟩
      cases hseg'
      exact false_ne_true (hrel.symm.trans hrel')
    refine ⟨hw.wellFormed, fun hleft => hw.assigned (.inl (hleft.resolve_right hheld)),
      fun hleft => hw.stamped (.inl (hleft.resolve_right hheld)), fun _ seg' hseg' hrel' => ?_⟩
    cases hseg'
    exact absurd (hrel.symm.trans hrel') false_ne_true
  | @probe _ seg hidles hacked _ _ hrel _ _ =>
    have hw : Wire o { s with tx } :=
      h.keeps rfl rfl (h.wellFormed.keeps hidles.keeps) hidles.keeps.reliableOffset.ge
        fun p hp _ => ⟨p, hidles.buffer ▸ hp, rfl, rfl⟩
    obtain ⟨hlt, hgone⟩ := h.wellFormed.acked _ hacked
    have hother : ∀ p ∈ tx.sendBuffer, p.streamOffset ≠ seg.streamOffset := by
      intro p hp
      rw [hidles.buffer] at hp
      exact hgone _ (mem_map_of_mem hp)
    refine ⟨hw.wellFormed, fun hleft => ?_, fun hleft p hp heq => ?_,
      fun _ seg' hseg' _ heq _ => ?_⟩
    · rcases hleft with hleft | ⟨seg', hseg', -, rfl⟩
      · exact hw.assigned (.inl hleft)
      · cases hseg'
        exact hidles.keeps.reliableOffset.symm ▸ hlt
    · rcases hleft with hleft | ⟨seg', hseg', -, rfl⟩
      · exact hw.stamped (.inl hleft) p hp heq
      · cases hseg'
        exact absurd heq (hother p hp)
    · cases hseg'
      exact heq ▸ hother

theorem written (hseg : s.polled = some seg) :
    Wire o { s with polled := none, written := s.written ++ [seg] } := by
  have hleft : Left { s with polled := none, written := s.written ++ [seg] } o →
      Left s o ∨ Held s o := by
    rintro ⟨seg', hseg', hrel, heq⟩
    rcases mem_append.1 hseg' with hold | hnew
    · exact .inl ⟨seg', hold, hrel, heq⟩
    · exact .inr ⟨seg', by rw [hseg, mem_singleton.1 hnew]; rfl, hrel, heq⟩
  have hidle : ¬ Held { s with polled := none, written := s.written ++ [seg] } o := by
    rintro ⟨seg', hseg', -⟩
    cases hseg'
  exact ⟨h.wellFormed, fun h' => h.assigned (hleft (h'.resolve_right hidle)),
    fun h' => h.stamped (hleft (h'.resolve_right hidle)), fun _ seg' hseg' => by cases hseg'⟩

theorem refused (hseg : s.polled = some seg)
    (hc : seg.reliable = true → seg.streamOffset = o → seg.retransmit = false) :
    Wire o (refuse s seg) := by
  have hwritten : (refuse s seg).written = s.written := by
    unfold refuse
    split <;> rfl
  have hpolled : (refuse s seg).polled = none := by
    unfold refuse
    split <;> rfl
  have hleft : Left (refuse s seg) o ∨ Held (refuse s seg) o → Left s o := by
    rintro (hleft | ⟨seg', hseg', -⟩)
    · unfold Left at hleft
      rwa [hwritten] at hleft
    · rw [hpolled] at hseg'
      cases hseg'
  by_cases hrel : seg.reliable = true
  · have htx : (refuse s seg).tx = s.tx.markUnsent seg.streamOffset := by
      unfold refuse
      rw [if_pos hrel]
    have hkeeps := s.tx.markUnsent_keeps seg.streamOffset
    refine ⟨?_, fun h' => ?_, fun h' p' hp' heq => ?_, fun _ seg' hseg' => ?_⟩
    · rw [htx]
      exact h.wellFormed.keeps hkeeps
    · rw [htx, hkeeps.reliableOffset]
      exact h.assigned (.inl (hleft h'))
    · rw [htx] at hp'
      obtain ⟨heq', -⟩ | ⟨pre, p, post, hbuf, hoff, heq'⟩ := s.tx.markUnsent_cases seg.streamOffset
      · rw [heq'] at hp'
        exact h.stamped (.inl (hleft h')) p' hp' heq
      · rw [heq'] at hp'
        have hp : p ∈ s.tx.sendBuffer := by simp [hbuf]
        rcases h.wellFormed.mem_replace hbuf hp' with rfl | ⟨hold, -⟩
        · -- the refused segment would be a first transmission of one that has left
          have hso : seg.streamOffset = o := hoff.symm.trans heq
          exact absurd heq (h.inHand (hleft h') seg hseg hrel hso (hc hrel hso) p hp)
        · exact h.stamped (.inl (hleft h')) p' hold heq
    · rw [hpolled] at hseg'
      cases hseg'
  · have htx : (refuse s seg).tx = s.tx := by
      unfold refuse
      rw [if_neg hrel]
    refine ⟨htx ▸ h.wellFormed, fun h' => htx ▸ h.assigned (.inl (hleft h')),
      fun h' => htx ▸ h.stamped (.inl (hleft h')), fun _ seg' hseg' => ?_⟩
    rw [hpolled] at hseg'
    cases hseg'

theorem step (hs : step s e = some s') (hc : KeepsCopies o s e s') : Wire o s' := by
  cases step_effect hs with
  | offered _ hspec hadmits =>
    rcases hspec with ⟨rfl, happ⟩ | ⟨rfl, rfl⟩
    · refine h.keeps rfl rfl (h.wellFormed.appends happ) (happ.assigned ▸ Nat.le_succ _)
        fun p hp hlt => ?_
      rcases hadmits.buffer p hp with hp | rfl
      · exact ⟨p, hp, rfl, rfl⟩
      · exact absurd hlt (Nat.lt_irrefl _)
    · exact h
  | kept _ hk hbuf _ _ =>
    exact h.keeps rfl rfl (h.wellFormed.keeps hk) hk.reliableOffset.ge
      fun p hp _ => ⟨p, hbuf ▸ hp, rfl, rfl⟩
  | polled hidle hemitted => exact h.emitted hidle hemitted
  | written hseg => exact h.written hseg
  | refused hseg => exact h.refused hseg (hc rfl _ hseg)
  | ack o' now =>
    exact h.keeps rfl rfl (h.wellFormed.ack o' now) (s.tx.ack_totals o' now).1.ge
      fun p hp _ => ⟨p, Stream.mem_ack hp, rfl, rfl⟩
  | onSack k now =>
    refine h.keeps rfl rfl (h.wellFormed.onSack k now) (s.tx.onSack_reliableOffset k now).ge
      fun p hp _ => ?_
    obtain ⟨q, hq, -, cause, rfl⟩ := Stream.mem_onSack hp
    exact ⟨q, hq, rfl, rfl⟩

theorem pinned_emitted
    (hemitted : s.tx.Emitted tx r) : Pinned o s e { s with tx, polled := r.toOption } := by
  cases hemitted with
  | blocked => exact ⟨fun _ p hp heq => ⟨p, hp, heq, rfl⟩, fun _ _ seg hseg => by cases hseg⟩
  | unreliable hidles hrel _ _ =>
    refine ⟨fun _ p hp heq => ⟨p, hidles.buffer ▸ hp, heq, rfl⟩, fun _ _ seg hseg hrel' => ?_⟩
    cases hseg
    exact absurd (hrel.symm.trans hrel') false_ne_true
  | probe hidles hacked hdata hfin _ _ _ =>
    refine ⟨fun _ p hp heq => ⟨p, hidles.buffer ▸ hp, heq, rfl⟩, fun _ _ seg hseg _ _ => .inr ?_⟩
    cases hseg
    obtain ⟨-, hgone⟩ := h.wellFormed.acked _ hacked
    exact ⟨hdata, hfin, hacked, fun p hp => hgone _ (mem_map_of_mem hp)⟩
  | @copied _ _ pre post p p' _ hbuf hbuf' _ hcopied _ =>
    have htx := hcopied.bills.transmits
    have hp : p ∈ s.tx.sendBuffer := by simp [hbuf]
    refine ⟨fun hleft q hq heq => ?_, fun hleft _ seg hseg _ heq => .inl ?_⟩
    · rcases h.wellFormed.mem_replace hbuf (hbuf' ▸ hq) with rfl | ⟨hold, -⟩
      · have hpo : p.streamOffset = o := htx.sameOffset.symm.trans heq
        exact ⟨p, hp, hpo, (hcopied.again (h.stamped (.inl hleft) p hp hpo)).2⟩
      · exact ⟨q, hold, heq, rfl⟩
    · cases hseg
      exact (hcopied.again (h.stamped (.inl hleft) p hp (htx.streamOffset.symm.trans heq))).1

theorem pinned_keeps (htx : s'.tx = tx) (hpolled : s.polled = none → s'.polled = none)
    (hbuf : ∀ p' ∈ tx.sendBuffer, p'.streamOffset < s.tx.reliableOffset →
      ∃ p ∈ s.tx.sendBuffer, p'.streamOffset = p.streamOffset ∧ p'.marks = p.marks) :
    Pinned o s e s' where
  marks hleft p' hp' heq := by
    rw [htx] at hp'
    obtain ⟨p, hp, hsame, hmarks⟩ := hbuf p' hp' (heq ▸ h.assigned (.inl hleft))
    exact ⟨p, hp, hsame ▸ heq, hmarks⟩
  copies _ hidle seg hseg := by
    rw [hpolled hidle] at hseg
    cases hseg

theorem pinned (hs : SendLedger.step s e = some s') : Pinned o s e s' := by
  cases step_effect hs with
  | offered _ _ hadmits =>
    refine h.pinned_keeps rfl id fun p hp hlt => ?_
    rcases hadmits.buffer p hp with hp | rfl
    · exact ⟨p, hp, rfl, rfl⟩
    · exact absurd hlt (Nat.lt_irrefl _)
  | kept _ _ hbuf _ _ => exact h.pinned_keeps rfl id fun p hp _ => ⟨p, hbuf ▸ hp, rfl, rfl⟩
  | polled _ hemitted => exact h.pinned_emitted hemitted
  | written _ => exact h.pinned_keeps rfl (fun _ => rfl) fun p hp _ => ⟨p, hp, rfl, rfl⟩
  | @refused seg hseg =>
    refine h.pinned_keeps rfl (fun hidle => ?_) fun p' hp' _ => ?_
    · rw [hidle] at hseg
      cases hseg
    · unfold refuse at hp'
      split at hp'
      · obtain ⟨heq, -⟩ | ⟨pre, p, post, hbuf, -, heq⟩ := s.tx.markUnsent_cases seg.streamOffset
        · rw [heq] at hp'
          exact ⟨p', hp', rfl, rfl⟩
        · rw [heq] at hp'
          rcases h.wellFormed.mem_replace hbuf hp' with rfl | ⟨hold, -⟩
          · exact ⟨p, by simp [hbuf], rfl, rfl⟩
          · exact ⟨p', hold, rfl, rfl⟩
      · exact ⟨p', hp', rfl, rfl⟩
  | ack => exact h.pinned_keeps rfl id fun p hp _ => ⟨p, Stream.mem_ack hp, rfl, rfl⟩
  | onSack =>
    refine h.pinned_keeps rfl id fun p hp _ => ?_
    obtain ⟨q, hq, -, cause, rfl⟩ := Stream.mem_onSack hp
    exact ⟨q, hq, rfl, rfl⟩

end

end Wire

/-- **The marks belong to the first transmission.** In every run in which no retransmission of the
segment at `o` is refused: once a transmission of it was not refused, its marks never change, and
whatever is handed out for its offset is a retransmission or a persist probe. -/
theorem marks_pinned (o : Nat) (events : List Event)
    (hc : Lts.Along step (KeepsCopies o) init events) :
    Lts.Along step (Pinned o) init events := by
  refine Lts.along_of_inv ?_ ?_ events (wire_init o) hc
  · intro s e s' h hs hc
    exact h.step hs hc
  · intro s e s' h hs _
    exact h.pinned hs

/-- The first write of a chunk is refused and its second succeeds; the timer repeats it twice, and
in between the first write of another chunk is refused. -/
def repeated : List Event :=
  [.offer (.sendReliable [1]), .pollSend 9 0 0 false 0, .refused, .pollSend 9 4 5 true 1, .written,
    .pollSend 9 6 7 false 2000000000, .written, .offer (.sendReliable [2]),
    .pollSend 9 8 9 false 2000000001, .refused, .pollSend 0 8 9 false 8000000000]

theorem marks_pinned_repeated :
    (Lts.run step init repeated).map (fun s => s.tx.sendBuffer.map (·.marks)) =
        some [(4, some 5, true), (8, some 9, false)] ∧
      Lts.Along step (Pinned 0) init repeated :=
  ⟨by decide +kernel, marks_pinned 0 repeated (by decide +kernel)⟩

/-- 57 full chunks, of which the peer's window holds 56; these are written and acknowledged. -/
def stopped : List Event :=
  List.replicate 57 (.offer (.sendReliable (List.replicate 1156 0))) ++
    (List.replicate 56 [.pollSend 1156 0 0 false 0, .written]).flatten ++
    [.onSack ⟨55, 0, [(0, 55)]⟩ 1]

/-- A chunk is written, and the write of its retransmission refused. -/
def refusedCopy : List Event :=
  [.offer (.sendReliable [1]), .pollSend 9 0 0 false 0, .written, .pollSend 9 0 0 false 2000000000,
    .refused]

/-- The persist probe repeats the offset of a segment that has been written, and is not marked as a
retransmission. A segment whose retransmission was refused is taken up by Pass 2, which stamps it
with the marks of the day. -/
theorem offset_repeated_and_marks_moved :
    (∃ s s' seg, Lts.run step init stopped = some s ∧
      step s (.pollSend 1156 0 0 false 2) = some s' ∧ Left s 55 ∧ s.polled = none ∧
      s'.polled = some seg ∧ seg.reliable = true ∧ seg.streamOffset = 55 ∧
      seg.retransmit = false) ∧
    ∃ s s' p p', Lts.run step init refusedCopy = some s ∧
      step s (.pollSend 9 1 1 true 2000000001) = some s' ∧ Left s 0 ∧ s.tx.sendBuffer = [p] ∧
      s'.tx.sendBuffer = [p'] ∧ p'.streamOffset = p.streamOffset ∧ p'.marks ≠ p.marks := by
  constructor
  · have hrun : ((Lts.run step init stopped).bind fun s =>
        (step s (.pollSend 1156 0 0 false 2)).map fun s' => (s, s')).any (fun r =>
          decide (Left r.1 55 ∧ r.1.polled = none) && r.2.polled.any fun seg =>
            decide (seg.reliable = true ∧ seg.streamOffset = 55 ∧ seg.retransmit = false)) =
              true := by
      decide +kernel
    obtain ⟨⟨s, s'⟩, hsome, hprop⟩ := (any_eq_true _ _).1 hrun
    obtain ⟨s₀, hs₀, hmap⟩ := bind_eq_some_iff.1 hsome
    obtain ⟨s₁, hs₁, heq⟩ := map_eq_some_iff.1 hmap
    cases heq
    obtain ⟨hleft, hseg⟩ := and_eq_true_iff.1 hprop
    obtain ⟨seg, hsegsome, hseg⟩ := (any_eq_true _ _).1 hseg
    obtain ⟨hleft, hidle⟩ := of_decide_eq_true hleft
    exact ⟨s, s', seg, hs₀, hs₁, hleft, hidle, hsegsome, of_decide_eq_true hseg⟩
  · have hrun : ((Lts.run step init refusedCopy).bind fun s =>
        (step s (.pollSend 9 1 1 true 2000000001)).map fun s' => (s, s')).any (fun r =>
          decide (Left r.1 0) &&
            decide (r.1.tx.sendBuffer.map (fun p => (p.streamOffset, p.marks)) =
              [(0, 0, some 0, false)]) &&
            decide (r.2.tx.sendBuffer.map (fun p => (p.streamOffset, p.marks)) =
              [(0, 1, some 1, true)])) = true := by
      decide +kernel
    obtain ⟨⟨s, s'⟩, hsome, hprop⟩ := (any_eq_true _ _).1 hrun
    obtain ⟨s₀, hs₀, hmap⟩ := bind_eq_some_iff.1 hsome
    obtain ⟨s₁, hs₁, heq⟩ := map_eq_some_iff.1 hmap
    cases heq
    simp only [and_eq_true, decide_eq_true_eq] at hprop
    obtain ⟨⟨hleft, hbuf⟩, hbuf'⟩ := hprop
    obtain ⟨p, hp, hpm⟩ := map_eq_singleton_iff.1 hbuf
    obtain ⟨p', hp', hpm'⟩ := map_eq_singleton_iff.1 hbuf'
    obtain ⟨hoff, hmarks⟩ := Prod.mk.inj hpm
    obtain ⟨hoff', hmarks'⟩ := Prod.mk.inj hpm'
    refine ⟨s, s', p, p', hs₀, hs₁, hleft, hp, hp', hoff'.trans hoff.symm, ?_⟩
    rw [hmarks, hmarks']
    decide

end SendLedger

end PhantomProtocol
