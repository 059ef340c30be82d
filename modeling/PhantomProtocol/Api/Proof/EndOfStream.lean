import PhantomProtocol.Api.Proof.StreamReceive
import PhantomProtocol.Transport.Proof.ChargedDelivery
import PhantomProtocol.Transport.Proof.FinLast

/-!
# The end of a stream

A stream that its peer writes and closes, over a network that loses, repeats and reorders. The FIN
has an offset like any other segment; the receiver notes it whenever it sees it, and closes the
stream when its cursor is past it.
-/

namespace PhantomProtocol

open List Option

namespace EndOfStream

open ReliableDelivery (IsEnd FinLast Coherent Genuine)

/-! ## The receiver -/

/-- The frame that is being acknowledged: its offset, what it has released, and whether it is the
FIN. -/
def current (r : Receiver) : Option (Nat × List Bytes × Bool) :=
  r.handling.map fun h => (h.streamOffset, h.run, h.fin)

def pendingRun (r : Receiver) : List Bytes := ((current r).map (·.2.1)).getD []

/-- What follows the data on the delivery channel. -/
def closing (r : Receiver) : List DeliverItem :=
  if r.remoteFin.finished then .close :: if r.held then [] else [.retire] else []

theorem handOn_append (xs ys : List Bytes) : handOn (xs ++ ys) = handOn xs ++ handOn ys := by
  simp [handOn, FlowControl.deliverInOrderRun]

theorem close_not_mem_handOn (run : List Bytes) : DeliverItem.close ∉ handOn run := by
  simp [handOn]

theorem noteRemoteFin_cases (f : RemoteFin) (o : Nat) : f.noteRemoteFin o = f ∧ f.offset ≠ u32Max ∨
      f.offset = u32Max ∧ f.noteRemoteFin o = { f with offset := o } := by
  unfold RemoteFin.noteRemoteFin
  split
  · exact .inr ⟨‹_›, rfl⟩
  · exact .inl ⟨rfl, ‹_›⟩

theorem takeFin_offset (r : Receiver) (rx : Stream) (h : Handling) :
    (r.takeFin rx h).1.offset = r.remoteFin.offset ∧ (r.remoteFin.offset ≠ u32Max ∨ h.fin = false) ∨
      r.remoteFin.offset = u32Max ∧ h.fin = true ∧ (r.takeFin rx h).1.offset = h.streamOffset := by
  have htake : ∀ (f : RemoteFin) n, (f.takeInOrderFin n).1.offset = f.offset := by
    intro f n
    unfold RemoteFin.takeInOrderFin
    split
    · rfl
    · rfl
  unfold Receiver.takeFin
  rw [htake]
  by_cases hfin : h.fin = true
  · rw [if_pos hfin]
    obtain ⟨heq, hnoted⟩ | ⟨hnone, heq⟩ := noteRemoteFin_cases r.remoteFin h.streamOffset
    · exact .inl ⟨by rw [heq], .inl hnoted⟩
    · exact .inr ⟨hnone, hfin, by rw [heq]⟩
  · simp [*]

theorem takeFin_taken (r : Receiver) (rx : Stream) (h : Handling) :
    (r.takeFin rx h).2 = true ∧ r.remoteFin.finished = false ∧
        (r.takeFin rx h).1.finished = true ∧ (r.takeFin rx h).1.offset ≠ u32Max ∧
        (r.takeFin rx h).1.offset < rx.recvSequence ∨
      (r.takeFin rx h).2 = false ∧ (r.takeFin rx h).1.finished = r.remoteFin.finished ∧
        ((r.takeFin rx h).1.offset ≠ u32Max → (r.takeFin rx h).1.offset < rx.recvSequence →
          r.remoteFin.finished = true) := by
  have hnoted : ∀ (f : RemoteFin) o, (f.noteRemoteFin o).finished = f.finished := by
    grind [noteRemoteFin_cases]
  have hfinished : (if h.fin then r.remoteFin.noteRemoteFin h.streamOffset
      else r.remoteFin).finished = r.remoteFin.finished := by
    split
    · exact hnoted _ _
    · rfl
  unfold Receiver.takeFin
  dsimp only
  generalize (if h.fin then r.remoteFin.noteRemoteFin h.streamOffset else r.remoteFin) = f
    at hfinished
  rw [← hfinished]
  unfold RemoteFin.takeInOrderFin
  by_cases hpast : f.offset ≠ u32Max ∧ rx.recvSequence > f.offset
  · simp [*]
  · grind

/-! ## The invariant -/

/-- The delivery channel has the delivered runs, and the close behind them. -/
structure Inv (s : State) : Prop where
  coherent : Coherent s.link
  finLast : FinLast s.link
  noted : s.recv.remoteFin.offset ≠ u32Max → IsEnd s.link s.recv.remoteFin.offset
  flagged : ∀ o run, current s.recv = some (o, run, true) → IsEnd s.link o
  queue : ∃ done, s.link.delivered = done ++ pendingRun s.recv ∧
    s.recv.queue = handOn done ++ closing s.recv ∧
    (s.recv.remoteFin.finished = true → s.link.tx.localFinished = true ∧ done = s.link.admitted)
  /-- Once it holds the FIN the receiver has noted it, or is about to. -/
  seen : ∀ o, IsEnd s.link o → s.link.rx.Held o →
    s.recv.remoteFin.offset ≠ u32Max ∨ ∃ o run, current s.recv = some (o, run, true)
  taken : current s.recv = none → s.recv.remoteFin.offset ≠ u32Max →
    s.recv.remoteFin.offset < s.link.rx.recvSequence → s.recv.remoteFin.finished = true
  dropped : s.recv.held = false → s.recv.remoteFin.finished = true

theorem inv_init (session : Session) : Inv (init session) where
  coherent := ReliableDelivery.coherent_init
  finLast := ReliableDelivery.finLast_init
  noted hne := absurd rfl hne
  flagged := nofun
  queue := ⟨[], rfl, rfl, nofun⟩
  seen o hend := by cases hend.1
  taken _ hne := absurd rfl hne
  dropped := nofun

/-- The run has no transport failure: no rekey is attempted at the last epoch. -/
def Timely (s : State) (e : Event) (_ : State) : Prop :=
  match e with
  | .receiver (.ackStep _) =>
    ∀ h ∈ s.recv.handling, h.ack = .rekeying → s.recv.session.epoch ≠ 255
  | _ => True

instance (s : State) (e : Event) (s' : State) : Decidable (Timely s e s') :=
  match e with
  | .receiver (.ackStep _) => inferInstanceAs (Decidable
      (∀ h ∈ s.recv.handling, h.ack = .rekeying → s.recv.session.epoch ≠ 255))
  | .receiver (.frame ..) | .receiver (.sendFrame _) | .receiver (.sendStep _)
  | .receiver (.consumed ..) | .receiver .finAcked | .transport _ | .segment .. => .isTrue trivial

namespace Inv

variable {s s' : State} {r : Receiver} {kdf : Kdf} {sessionId : SessionId} {streamId : UInt16}
  {h : Handling} {link : ReliableDelivery.State} {seg : OutboundSegment}

theorem held_lt (h : Inv s) {o : Nat} (ho : s.link.rx.Held o) : o < s.link.admitted.length := by
  rcases ho with hlt | ⟨e, he, rfl⟩
  · exact hlt.trans_le h.coherent.reassembled.cursor_le
  · obtain ⟨data, hget, -⟩ := h.coherent.reassembled.islands e he
    exact (List.getElem?_eq_some_iff.1 hget).1

theorem sender (h : Inv s) (hcoherent : Coherent link)
    (hfin : FinLast link) (hdel : link.delivered = s.link.delivered)
    (hseq : link.rx.recvSequence = s.link.rx.recvSequence)
    (hbuf : link.rx.recvBuffer = s.link.rx.recvBuffer)
    (hends : link.tx.localFinished = s.link.tx.localFinished ∧ link.admitted = s.link.admitted ∨
      s.link.tx.localFinished = false ∧ ∃ data, link.admitted = s.link.admitted ++ [data]) :
    Inv { s with link } := by
  have hkept : s.link.tx.localFinished = true →
      link.tx.localFinished = true ∧ link.admitted = s.link.admitted := by
    intro hclosed
    rcases hends with ⟨hl, ha⟩ | ⟨hopen, -⟩
    · exact ⟨hl.trans hclosed, ha⟩
    · rw [hclosed] at hopen
      cases hopen
  have hend : ∀ o, IsEnd s.link o → IsEnd link o := by
    intro o hend
    obtain ⟨hl, ha⟩ := hkept hend.1
    exact ⟨hl, ha ▸ hend.2⟩
  obtain ⟨done, hdone, hqueue, hall⟩ := h.queue
  refine ⟨hcoherent, hfin, fun hne => hend _ (h.noted hne), fun o run hcur => hend o
    (h.flagged o run hcur), ⟨done, hdel.trans hdone, hqueue, fun hf => ?_⟩, fun o ho hheld => ?_,
    fun hcur hne hlt => h.taken hcur hne (hseq ▸ hlt), h.dropped⟩
  · simp_all
  · have hheld' : s.link.rx.Held o := by
      unfold Stream.Held at hheld ⊢
      dsimp only at hheld
      rwa [hseq, hbuf] at hheld
    rcases hends with ⟨hl, ha⟩ | ⟨-, data, ha⟩
    · exact h.seen o ⟨hl ▸ ho.1, ha ▸ ho.2⟩ hheld'
    · -- the receiver does not hold an offset that has just been assigned
      have hlt := h.held_lt hheld'
      have hlast := ho.2
      dsimp only at hlast
      rw [ha, length_append, length_singleton] at hlast
      omega

theorem receiver (h : Inv s) (hfin : r.remoteFin = s.recv.remoteFin)
    (hcur : current r = current s.recv) (hqueue : r.queue = s.recv.queue)
    (hheld : r.held = s.recv.held) : Inv { s with recv := r } := by
  have hclosing : closing r = closing s.recv := by
    unfold closing
    rw [hfin, hheld]
  refine ⟨h.coherent, h.finLast, hfin ▸ h.noted, hcur ▸ h.flagged, ?_, ?_, ?_, ?_⟩
  · dsimp only [pendingRun]
    rw [hcur, hqueue, hclosing, hfin]
    exact h.queue
  · dsimp only
    rw [hcur, hfin]
    exact h.seen
  · dsimp only
    rw [hcur, hfin]
    exact h.taken
  · dsimp only
    rw [hheld, hfin]
    exact h.dropped

theorem delivered_all (h : Inv s) {o : Nat} (hend : IsEnd s.link o)
    (hlt : o < s.link.rx.recvSequence) : s.link.delivered = s.link.admitted := by
  rw [h.coherent.reassembled.delivered_eq]
  have hlast := hend.2
  exact take_of_length_le (by omega)

theorem run_nil (h : Inv s) {done run : List Bytes} (hdone : done = s.link.admitted)
    (hdel : s.link.delivered = done ++ run) : run = [] := by
  have hlen := congrArg List.length hdel
  rw [h.coherent.reassembled.delivered_eq, length_take, length_append, hdone] at hlen
  exact eq_nil_of_length_eq_zero (by omega)

theorem takeFin_noted (hi : Inv s) (hh : s.recv.handling = some h) :
    (∀ o, (s.recv.takeFin s.link.rx h).1.offset = o → o ≠ u32Max → IsEnd s.link o) ∧
      ∀ o, IsEnd s.link o → s.link.rx.Held o →
        (s.recv.takeFin s.link.rx h).1.offset ≠ u32Max := by
  have hcur : current s.recv = some (h.streamOffset, h.run, h.fin) := by simp [current, hh]
  rcases takeFin_offset s.recv s.link.rx h with ⟨heq, hstays⟩ | ⟨-, hfin, heq⟩
  · rw [heq]
    refine ⟨fun o ho hne => ?_, fun o hend hheld => ?_⟩
    · subst ho
      exact hi.noted hne
    · rcases hi.seen o hend hheld with hne | ⟨o', run, hflag⟩
      · exact hne
      · simp_all
  · rw [heq]
    have hend : IsEnd s.link h.streamOffset := hi.flagged _ h.run (hfin ▸ hcur)
    refine ⟨fun o ho _ => ho ▸ hend, fun _ _ _ hmax => ?_⟩
    have hlast := hend.2
    have hbound := hi.coherent.retains.bound
    omega

theorem finish_queue (hi : Inv s) (hh : s.recv.handling = some h) (streamId : UInt16) :
    let r := s.recv.finish streamId s.link.rx h
    r.queue = handOn s.link.delivered ++ closing r ∧
      (r.remoteFin.finished = true →
        s.link.tx.localFinished = true ∧ s.link.delivered = s.link.admitted) ∧
      (r.held = false → r.remoteFin.finished = true) := by
  have hrun : pendingRun s.recv = h.run := by simp [pendingRun, current, hh]
  obtain ⟨done, hdel, hqueue, hall⟩ := hi.queue
  rw [hrun] at hdel
  obtain ⟨-, hfin, hcases⟩ := StreamReceive.finish_cases s.recv streamId s.link.rx h
  generalize s.recv.finish streamId s.link.rx h = r at hfin hcases ⊢
  dsimp only
  rcases takeFin_taken s.recv s.link.rx h with ⟨htook, hopen, hclosed, hne, hpast⟩ | ⟨htook, hsame, -⟩
  · -- the cursor is past the FIN for the first time
    have hheld : s.recv.held = true := by
      cases hheld : s.recv.held with
      | true => rfl
      | false => exact absurd (hi.dropped hheld) (by simp [hopen])
    have hend := (hi.takeFin_noted hh).1 _ rfl hne
    have hfinished : r.remoteFin.finished = true := hfin ▸ hclosed
    have hdata : s.recv.queue ++ handOn h.run = handOn s.link.delivered := by
      rw [hqueue, hdel, handOn_append, closing, hopen]
      simp
    refine ⟨?_, fun _ => ⟨hend.1, hi.delivered_all hend hpast⟩, fun _ => hfinished⟩
    unfold closing
    grind
  · obtain ⟨-, hr, hq⟩ : (s.recv.takeFin s.link.rx h).2 = false ∧ r.held = s.recv.held ∧
        r.queue = s.recv.queue ++ handOn h.run := by
      rcases hcases with hcase | ⟨htrue, -⟩
      · exact hcase
      · rw [htook] at htrue
        cases htrue
    have hfinished : r.remoteFin.finished = s.recv.remoteFin.finished := hfin ▸ hsame
    have hclosing : closing r = closing s.recv := by
      unfold closing
      rw [hfinished, hr]
    rw [hq, hqueue, hclosing, hfinished, hr]
    refine ⟨?_, fun hf => ?_, hi.dropped⟩
    · grind [handOn_append, closing, hi.run_nil, handOn, FlowControl.deliverInOrderRun]
    · simp [*, hi.run_nil, append_nil]

/-- The step that closes the stream. -/
theorem finish (hi : Inv s) (hh : s.recv.handling = some h) :
    Inv { s with recv := s.recv.finish streamId s.link.rx h } := by
  obtain ⟨hidle, hfin, -⟩ := StreamReceive.finish_cases s.recv streamId s.link.rx h
  obtain ⟨hqueue, hfinished, hdropped⟩ := hi.finish_queue hh streamId
  obtain ⟨hnoted, hseen⟩ := hi.takeFin_noted hh
  have hnone : current (s.recv.finish streamId s.link.rx h) = none := by simp [current, hidle]
  refine ⟨hi.coherent, hi.finLast, fun hne => ?_, fun o run hcur => ?_,
    ⟨s.link.delivered, ?_, hqueue, hfinished⟩, fun o hend hheld => .inl ?_, fun _ hne hlt => ?_,
    hdropped⟩
  · exact hnoted _ (congrArg RemoteFin.offset hfin).symm hne
  all_goals grind [pendingRun, takeFin_taken]

theorem fullyAcked (h : Inv s) : Inv { s with recv := s.recv.fullyAcked streamId } := by
  unfold Receiver.fullyAcked
  dsimp only
  split
  · rename_i hfinished
    unfold Receiver.retireStream
    split
    · exact h.receiver rfl rfl rfl rfl
    · rename_i hheld
      have hheld' : s.recv.held = true := by simpa using (not_or.1 hheld).2
      obtain ⟨done, hdel, hqueue, hall⟩ := h.queue
      refine ⟨h.coherent, h.finLast, h.noted, h.flagged, ⟨done, hdel, ?_, hall⟩, h.seen, h.taken,
        fun _ => hfinished⟩
      simp [hqueue, closing, hfinished, hheld']
  · exact h.receiver rfl rfl rfl rfl

theorem arrive (h : Inv s) (hidle : s.recv.handling = none)
    (hmem : seg ∈ s.link.segments) (hrel : seg.reliable = true) (pathId : UInt8) (now : Nat) :
    Inv { link := ReliableDelivery.arrive s.link seg now
          recv := (s.recv.accept streamId s.link.rx seg.streamOffset seg.data seg.fin pathId now).2 } := by
  have hseg := mem_append_right s.link.polled.toList hmem
  have hgen := h.coherent.genuine seg hseg hrel
  have hcoherent := h.coherent.arrive hgen now
  have hfinLast := h.finLast.arrive h.coherent hgen now
  have hnone : current s.recv = none := by simp [current, hidle]
  obtain ⟨done, hdel, hqueue, hall⟩ := h.queue
  have hdone : s.link.delivered = done := by simpa [pendingRun, hnone] using hdel
  obtain ⟨-, ⟨hsack, hsame⟩ | ⟨-, hnew, hoff, hrun, hfin, heq⟩⟩ :=
    StreamReceive.accept_cases s.recv streamId s.link.rx seg.streamOffset seg.data seg.fin pathId now
  · -- nothing is held, so that nothing was released either
    obtain ⟨hseq, hbuf⟩ := Stream.receivedSack_eq_none.1 hsack
    have hempty : (ReliableDelivery.arrive s.link seg now).delivered = [] := by
      rw [hcoherent.reassembled.delivered_eq]
      show List.take (s.link.rx.acceptInOrder seg.streamOffset [seg.data] now).1.recvSequence _ = []
      rw [hseq, take_zero]
    have hkept : (ReliableDelivery.arrive s.link seg now).delivered = s.link.delivered := by
      rw [hempty]
      exact (append_eq_nil_iff.1 hempty).1.symm
    rw [hsame]
    refine ⟨hcoherent, hfinLast, h.noted, h.flagged, ⟨done, hkept.trans hdel, hqueue, hall⟩,
      fun o _ hheld => ?_, fun _ _ hlt => ?_, h.dropped⟩
    · rcases hheld with hlt | ⟨e, he, -⟩
      · exact absurd (hseq ▸ hlt) (Nat.not_lt_zero _)
      · exact absurd (hbuf ▸ he) not_mem_nil
    · exact absurd (hseq ▸ hlt) (Nat.not_lt_zero _)
  · rw [heq]
    have hcur : current { s.recv with handling := some hnew } =
        some (seg.streamOffset, (s.link.rx.acceptInOrder seg.streamOffset [seg.data] now).2,
          seg.fin) := by
      simp [current, hoff, hrun, hfin]
    refine ⟨hcoherent, hfinLast, h.noted, fun o run hflag => ?_, ⟨done, ?_, hqueue, hall⟩,
      fun o hend hheld => ?_, fun hcur' => ?_, h.dropped⟩
    · simp only [hcur, Option.some.injEq, Prod.mk.injEq] at hflag
      exact hflag.1 ▸ h.finLast.flagged seg hseg hrel hflag.2.2
    · simp only [pendingRun, hcur, map_some, getD_some]
      rw [← hdone]
      rfl
    · -- the FIN was held before, and noted then, or this is it
      have hbefore : s.link.rx.Held o ∨ seg.fin = true := by
        obtain ⟨-, -, -, htaken⟩ :=
          h.coherent.reassembled.accept h.coherent.retains.bound h.coherent.gap hgen now
        rcases htaken o hheld with hold | rfl
        · exact .inl hold
        · cases hflag : seg.fin with
          | true => exact .inr rfl
          | false => exact .inl (h.finLast.unflagged seg hseg hrel hflag hend)
      rcases hbefore with hold | hflag
      · rcases h.seen o hend hold with hne | ⟨o', run, hcur'⟩
        · exact .inl hne
        · rw [hnone] at hcur'
          cases hcur'
      · exact .inr ⟨_, _, hflag ▸ hcur⟩
    · dsimp only at hcur'
      rw [hcur] at hcur'
      cases hcur'

theorem transport {e : ReliableDelivery.Event} (h : Inv s)
    (hoffers : offers s.link.tx e = true) (hs : ReliableDelivery.step s.link e = some link) :
    Inv { s with link } := by
  have hends : ReliableDelivery.EndsWithFin s.link e := by
    rintro o rfl
    simpa [offers] using hoffers
  have hrest : link.delivered = s.link.delivered ∧
      link.rx.recvSequence = s.link.rx.recvSequence ∧
      link.rx.recvBuffer = s.link.rx.recvBuffer := by
    cases ReliableDelivery.step_moves hs with
    | arrives => cases hoffers
    | consumed hseq hbuf => exact ⟨rfl, hseq, hbuf⟩
    | _ =>
      exact ⟨rfl, rfl, rfl⟩
  exact h.sender (h.coherent.step hs) (h.finLast.step h.coherent hs hends) hrest.1 hrest.2.1
    hrest.2.2 (ReliableDelivery.step_ends hs hends)

theorem ackStep {ct : Bytes} (h : Inv s)
    (htimely : ∀ h ∈ s.recv.handling, h.ack = .rekeying → s.recv.session.epoch ≠ 255)
    (hs : s.recv.ackStep kdf sessionId streamId s.link.rx ct = some r) :
    Inv { s with recv := r } := by
  obtain ⟨handling, hh, -⟩ := map_eq_some_iff.1 hs
  obtain ⟨hack, hsat, -⟩ | ⟨-, session, ⟨ack, -, rfl⟩ | rfl⟩ := StreamReceive.ackStep_cases hh hs
  · exact absurd hsat (htimely handling hh hack)
  · exact h.receiver rfl (by simp [current, hh]) rfl rfl
  · have hi : Inv { s with recv := { s.recv with session } } := h.receiver rfl rfl rfl rfl
    exact hi.finish hh

theorem step {e : Event} (h : Inv s) (hs : step kdf sessionId streamId s e = some s')
    (htimely : Timely s e s') : Inv s' := by
  cases e with
  | transport e =>
    simp only [EndOfStream.step] at hs
    split at hs
    · rename_i hoffers
      obtain ⟨link, hlink, rfl⟩ := map_eq_some_iff.1 hs
      exact h.transport hoffers hlink
    · cases hs
  | segment i pathId now =>
    simp only [EndOfStream.step] at hs
    split at hs
    · cases hs
    · rename_i seg hseg
      split at hs
      · rename_i hrel
        obtain ⟨r, hr, rfl⟩ := map_eq_some_iff.1 hs
        obtain ⟨hidle, -, ⟨hheld, rfl⟩ | ⟨hheld, rfl⟩⟩ := StreamReceive.step_frame hr
        · rw [if_neg (show ¬s.recv.held = true from Bool.eq_false_iff.1 hheld)]
          exact h
        · rw [if_pos (show s.recv.held = true from hheld)]
          exact h.arrive hidle (mem_of_getElem? hseg) hrel pathId now
      · cases hs
  | receiver e =>
    simp only [EndOfStream.step] at hs
    split at hs
    · rename_i hof
      obtain ⟨r, hr, rfl⟩ := map_eq_some_iff.1 hs
      cases e with
      | frame | consumed => cases hof
      | ackStep =>
        obtain ⟨recv, hrecv, rfl⟩ := map_eq_some_iff.1 hr
        exact h.ackStep htimely hrecv
      | sendFrame =>
        simp only [StreamReceive.step] at hr
        split at hr
        · cases hr
        · cases hr
          exact h.receiver rfl rfl rfl rfl
      | sendStep =>
        obtain ⟨recv, hrecv, rfl⟩ := map_eq_some_iff.1 hr
        obtain ⟨x, -, rfl⟩ := map_eq_some_iff.1 hrecv
        exact h.receiver rfl rfl rfl rfl
      | finAcked =>
        simp only [StreamReceive.step] at hr
        split at hr
        · cases hr
        · cases hr
          exact h.fullyAcked
    · cases hs

theorem count_close (h : Inv s) :
    s.recv.queue.count .close = if s.recv.remoteFin.finished then 1 else 0 := by
  obtain ⟨done, -, hqueue, -⟩ := h.queue
  rw [hqueue, count_append, count_eq_zero_of_not_mem (close_not_mem_handOn done), Nat.zero_add]
  unfold closing
  cases s.recv.remoteFin.finished with
  | false => rfl
  | true => grind

theorem length_le_cursor (h : Inv s) (hall : ∀ o < s.link.admitted.length, s.link.rx.Held o) :
    s.link.admitted.length ≤ s.link.rx.recvSequence := by
  by_contra hlt
  exact Stream.not_held_next h.coherent.gap (hall s.link.rx.recvSequence (by omega))

theorem closed (h : Inv s) (hidle : s.recv.handling = none)
    (hclosed : s.link.tx.localFinished = true)
    (hall : ∀ o < s.link.admitted.length, s.link.rx.Held o) :
    s.recv.remoteFin.finished = true := by
  have hpos := length_pos_iff.2 (h.finLast.admitted hclosed)
  have hcursor := h.length_le_cursor hall
  have hnone : current s.recv = none := by simp [current, hidle]
  have hend : IsEnd s.link (s.link.admitted.length - 1) := ⟨hclosed, by omega⟩
  rcases h.seen _ hend (hall _ (by omega)) with hne | ⟨o, run, hcur⟩
  · have hat := (h.noted hne).2
    exact h.taken hnone hne (by omega)
  · rw [hnone] at hcur
    cases hcur

theorem around_close (h : Inv s) {pre post : List DeliverItem}
    (hsplit : s.recv.queue = pre ++ .close :: post) :
    s.link.tx.localFinished = true ∧ pre = handOn s.link.admitted ∧ ∀ item ∈ post, item = .retire := by
  obtain ⟨done, -, hqueue, hall⟩ := h.queue
  have hdata := close_not_mem_handOn done
  unfold closing at hqueue
  cases hf : s.recv.remoteFin.finished with
  | false => simp_all
  | true =>
    obtain ⟨hclosed, rfl⟩ := hall hf
    rw [hf, if_pos rfl, hsplit] at hqueue
    have hrest : DeliverItem.close ∉ if s.recv.held then [] else [DeliverItem.retire] := by simp
    obtain ⟨rfl, -, rfl⟩ := (append_cons_inj_of_notMem hdata hrest).1 hqueue.symm
    simp [*]

theorem arrive_next (h : Inv s) (hmem : seg ∈ s.link.segments)
    (hrel : seg.reliable = true) (hnext : seg.streamOffset = s.link.rx.recvSequence) (now : Nat) :
    s.link.rx.recvSequence < (ReliableDelivery.arrive s.link seg now).rx.recvSequence := by
  have hgen := h.coherent.genuine seg (mem_append_right _ hmem) hrel
  unfold Genuine at hgen
  rw [hnext] at hgen
  have hget := hgen.resolve_right (Stream.not_held_next h.coherent.gap)
  show _ < (s.link.rx.acceptInOrder seg.streamOffset [seg.data] now).1.recvSequence
  rw [hnext]
  exact h.coherent.reassembled.accept_next h.coherent.retains.bound hget now

end Inv

theorem run_ackSteps {kdf : Kdf} {sessionId : SessionId} {streamId : UInt16} {ct : Bytes} (n : Nat)
    {s : State} {r : StreamReceive.State}
    (h : Lts.run (StreamReceive.step kdf sessionId streamId) s.receiver
      (List.replicate n (.ackStep ct)) = some r) :
    Lts.run (step kdf sessionId streamId) s (List.replicate n (.receiver (.ackStep ct))) =
      some { s with recv := r.recv } := by
  induction n generalizing s with
  | zero =>
    cases h
    rfl
  | succ n ih =>
    obtain ⟨r', hstep, hrun⟩ := Lts.run_cons_inv h
    obtain ⟨recv, hrecv, rfl⟩ := map_eq_some_iff.1 hstep
    have hs : step kdf sessionId streamId s (.receiver (.ackStep ct)) =
        some { s with recv } := by
      simp only [step, ofReceiver, hstep, if_true, map_some]
    rw [replicate_succ, Lts.run_cons_some hs]
    exact ih (s := { s with recv }) hrun

/-- **End of stream.** As long as no acknowledgement fails: the delivery channel has at most one
close, and has one when every offset is held and `handle_packet` has returned, which it does. Before
the close there is all the data of the stream, and behind it none. What arrives in order is not
refused, so that a FIN the reorder buffer had no room for is taken when it comes again. -/
theorem close_once_and_last {kdf : Kdf} {sessionId : SessionId} {streamId : UInt16}
    {session : Session} {s : State}
    (h : Lts.Leads (step kdf sessionId streamId) Timely (init session) s) :
    s.recv.queue.count .close ≤ 1 ∧
      (s.recv.handling = none → s.link.tx.localFinished = true →
        (∀ o < s.link.admitted.length, s.link.rx.Held o) → s.recv.queue.count .close = 1) ∧
      (∀ pre post, s.recv.queue = pre ++ .close :: post → s.link.tx.localFinished = true ∧
        pre = handOn s.link.admitted ∧ ∀ item ∈ post, item = .retire) ∧
      (∀ seg ∈ s.link.segments, seg.reliable = true →
        seg.streamOffset = s.link.rx.recvSequence → ∀ now,
          s.link.rx.recvSequence < (ReliableDelivery.arrive s.link seg now).rx.recvSequence) ∧
      ∀ ct, ∃ n s', Lts.run (step kdf sessionId streamId) s
        (List.replicate n (.receiver (.ackStep ct))) = some s' ∧ s'.recv.handling = none := by
  have hinv : Inv s := h.inv (fun _ _ _ hi hs ht => hi.step hs ht) (inv_init session)
  refine ⟨?_, fun hidle hclosed hall => ?_, fun pre post hsplit => hinv.around_close hsplit,
    fun seg hmem hrel hnext now => hinv.arrive_next hmem hrel hnext now, fun ct => ?_⟩
  · grind [hinv.count_close]
  · rw [hinv.count_close, if_pos (hinv.closed hidle hclosed hall)]
  · obtain ⟨n, r, hrun, hdone⟩ :=
      StreamReceive.handling_returns kdf sessionId streamId s.receiver ct
    exact ⟨n, _, run_ackSteps n hrun, hdone⟩

/-- A chunk and the FIN are written. -/
def chunkAndFin : List Event :=
  [.transport (.offer (.sendReliable [1])), .transport (.offer .tryQueueFin),
    .transport (.pollSend 9 0 0 false 0), .transport .written,
    .transport (.pollSend 9 0 0 false 1), .transport .written]

/-- The `i`-th segment arrives and is acknowledged. -/
def segmentAcked (i now : Nat) : List Event :=
  .segment i 0 now :: List.replicate 4 (.receiver (.ackStep []))

/-- The FIN arrives, then the chunk, then the FIN again. -/
def finFirst : List Event := chunkAndFin ++ segmentAcked 1 2 ++ segmentAcked 0 3 ++ segmentAcked 1 4

theorem close_once_and_last_finFirst :
    ∃ s, Lts.run (step Kdf.plain KeyAgreement.zeroSessionId 2)
        (init (Session.new Kdf.plain .aes256Gcm [] false)) finFirst = some s ∧
      s.recv.queue = [.data [1] true, .close] ∧ s.recv.queue.count .close ≤ 1 := by
  have hrun : (Lts.run (step Kdf.plain KeyAgreement.zeroSessionId 2)
      (init (Session.new Kdf.plain .aes256Gcm [] false)) finFirst).map (·.recv.queue) =
      some [.data [1] true, .close] := by
    decide +kernel
  have halong : Lts.Along (step Kdf.plain KeyAgreement.zeroSessionId 2) Timely
      (init (Session.new Kdf.plain .aes256Gcm [] false)) finFirst := by
    decide +kernel
  obtain ⟨s, hs, hqueue⟩ := map_eq_some_iff.1 hrun
  exact ⟨s, hs, hqueue, (close_once_and_last ⟨_, hs, halong⟩).1⟩

/-- The `i`-th segment arrives, and the send task rekeys while it is being acknowledged. -/
def segmentRaced (i now : Nat) : List Event :=
  [.segment i 0 now, .receiver (.ackStep []), .receiver (.sendStep []), .receiver (.ackStep [])]

/-- What was admitted, what was released, and the delivery channel; `none` while a frame is being
handled. -/
def settled (es : List Event) : Option (List Bytes × List Bytes × List DeliverItem) :=
  (Lts.run (step Kdf.plain KeyAgreement.zeroSessionId 2) (init StreamReceive.rekeysAlways) es).bind
    fun s => if s.recv.handling.isSome then none
      else some (s.link.admitted, s.link.delivered, s.recv.queue)

/-- Every offset has arrived. When the acknowledgement of the chunk fails, the close comes without
the chunk; when that of the FIN fails, the chunk comes without the close. -/
theorem close_without_data :
    settled (chunkAndFin ++ (StreamReceive.keepaliveSteps 4 ++ StreamReceive.aboutToRekey).map
          .receiver ++ segmentRaced 0 2 ++ segmentAcked 1 3) =
        some ([[1], []], [[1], []], [.close]) ∧
      settled (chunkAndFin ++ segmentAcked 0 2 ++ StreamReceive.aboutToRekey.map .receiver ++
          segmentRaced 1 3) =
        some ([[1], []], [[1], []], [.data [1] true]) :=
  ⟨by decide +kernel, by decide +kernel⟩

end EndOfStream

end PhantomProtocol
