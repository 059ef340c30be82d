import PhantomProtocol.Api.StreamReceive
import PhantomProtocol.Transport.Proof.Rekey

/-!
# What is accepted is handed on

`handle_packet` moves the receive cursor before it acknowledges, and hands the released run on after
that. There are two returns in between: `received_sack` has nothing to report, or `send_stream_sack`
fails.
-/

namespace PhantomProtocol

open List Option

namespace StreamReceive

open PhantomProtocol.Stream

/-! ## Reassembly under any frames -/

/-- The reorder buffer holds offsets above the cursor, each once. -/
structure Islands (rx : Stream) : Prop where
  above : ∀ e ∈ rx.recvBuffer, rx.recvSequence < e.1 ∧ e.1 ≤ u32Max
  nodup : (rx.recvBuffer.map (·.1)).Nodup
  cursor : rx.recvSequence ≤ u32Max

/-- With a segment at `o` the receiver has every offset up to the last. -/
def Exhausts (rx : Stream) (o : Nat) : Prop :=
  o = rx.recvSequence ∧ ∀ x, o < x → x ≤ u32Max → ∃ e ∈ rx.recvBuffer, e.1 = x

/-- The draining loop, entered with the payload `data` of the offset `o` and the buffer `buf`, has
released everything below `top`. -/
structure Drained (o : Nat) (data : Bytes) (buf : List (Nat × List Bytes)) (top : Nat) (rx : Stream)
    (out : List Bytes) : Prop where
  low : o < top
  high : top ≤ u32Max + 1
  cursor : rx.recvSequence = top % (u32Max + 1)
  buffer : ∀ e, e ∈ rx.recvBuffer ↔ e ∈ buf ∧ top ≤ e.1
  nodup : (rx.recvBuffer.map (·.1)).Nodup
  covered : ∀ x, o < x → x < top → ∃ e ∈ buf, e.1 = x
  run : ∀ d, d ∈ out ↔ d = data ∨ ∃ e ∈ buf, e.1 < top ∧ d ∈ e.2

variable {rx rx' : Stream} {o top : Nat} {data : Bytes} {out : List Bytes}
  {buf : List (Nat × List Bytes)}

theorem islands_new : Islands Stream.new where
  above := by simp [Stream.new]
  nodup := by simp [Stream.new]
  cursor := Nat.zero_le _

theorem Islands.frame (h : Islands rx) (hseq : rx'.recvSequence = rx.recvSequence)
    (hbuf : rx'.recvBuffer = rx.recvBuffer) : Islands rx' := by
  refine ⟨?_, ?_, ?_⟩
  · rw [hseq, hbuf]
    exact h.above
  · rw [hbuf]
    exact h.nodup
  · rw [hseq]
    exact h.cursor

theorem Islands.drained (h : Islands rx)
    (hseq : rx'.recvSequence = (rx.recvSequence + 1) % (u32Max + 1))
    (hbuf : rx'.recvBuffer = rx.recvBuffer) (data : Bytes) :
    Drained rx.recvSequence data rx.recvBuffer (rx.recvSequence + 1) rx' [data] where
  low := Nat.lt_succ_self _
  high := Nat.succ_le_succ h.cursor
  cursor := hseq
  buffer e := by
    rw [hbuf]
    exact ⟨fun he => ⟨he, (h.above e he).1⟩, fun he => he.1⟩
  nodup := hbuf ▸ h.nodup
  covered x hlow hhigh := by omega
  run d := by
    constructor
    · exact fun hd => .inl (mem_singleton.1 hd)
    · rintro (rfl | ⟨e, he, hlt, -⟩)
      · exact mem_singleton.2 rfl
      · have := (h.above e he).1
        omega

namespace Drained

section

variable (h : Drained o data buf top rx out)
include h

theorem release {entry : Nat × List Bytes} (hlast : ∀ e ∈ buf, e.1 ≤ u32Max)
    (hfind : rx.recvBuffer.find? (·.1 == rx.recvSequence) = some entry) :
    Drained o data buf (top + 1) (rx.release entry.2) (out ++ entry.2) := by
  have hat : entry.1 = rx.recvSequence := by simpa using List.find?_some hfind
  obtain ⟨hentry, htop⟩ := (h.buffer entry).1 (mem_of_find?_eq_some hfind)
  have hle : top ≤ u32Max := htop.trans (hlast entry hentry)
  have hcursor : rx.recvSequence = top := by
    rw [h.cursor, Nat.mod_eq_of_lt (Nat.lt_succ_of_le hle)]
  have hbuffer : ∀ e, e ∈ (rx.release entry.2).recvBuffer ↔ e ∈ rx.recvBuffer ∧ e.1 ≠ top := by
    intro e
    rw [← hcursor]
    exact Scan.mem_eraseP_key h.nodup
  refine ⟨Nat.lt_succ_of_lt h.low, Nat.succ_le_succ hle, ?_, fun e => ?_, ?_, fun x hlow hhigh => ?_,
    fun d => ?_⟩
  · show (rx.recvSequence + 1) % (u32Max + 1) = _
    rw [hcursor]
  · grind [h.buffer]
  · exact h.nodup.sublist (eraseP_sublist.map _)
  · rcases Nat.lt_succ_iff_lt_or_eq.1 hhigh with hlt | rfl
    · exact h.covered x hlow hlt
    · exact ⟨entry, hentry, hat.trans hcursor⟩
  · -- the entry released is the only one of its offset
    have hsame : ∀ e ∈ buf, e.1 = top → e = entry := fun e he heq =>
      inj_on_of_nodup_map h.nodup ((h.buffer e).2 ⟨he, heq.ge⟩)
        (mem_of_find?_eq_some hfind) (heq.trans (hat.trans hcursor).symm)
    rw [mem_append, h.run]
    constructor
    · grind
    · grind

theorem drain (hlast : ∀ e ∈ buf, e.1 ≤ u32Max) (fuel : Nat) :
    ∃ top', Drained o data buf top' (Stream.drain fuel rx out).1 (Stream.drain fuel rx out).2 := by
  refine Stream.drain_inv (P := fun rx' out' => ∃ top', Drained o data buf top' rx' out') ?_ fuel
    ⟨top, h⟩
  rintro rx' out' entry hfind ⟨top', h'⟩
  exact ⟨top' + 1, h'.release hlast hfind⟩

theorem wrapped_iff (hexit : ∀ e ∈ rx.recvBuffer, e.1 ≠ rx.recvSequence) :
    top = u32Max + 1 ↔ ∀ x, o < x → x ≤ u32Max → ∃ e ∈ buf, e.1 = x := by
  constructor
  · rintro rfl x hlow hhigh
    exact h.covered x hlow (Nat.lt_succ_of_le hhigh)
  · intro hall
    by_contra hne
    have hlt : top < u32Max + 1 := Nat.lt_of_le_of_ne h.high hne
    obtain ⟨e, he, heq⟩ := hall top h.low (Nat.le_of_lt_succ hlt)
    refine hexit e ((h.buffer e).2 ⟨he, heq.ge⟩) ?_
    rw [heq, h.cursor, Nat.mod_eq_of_lt hlt]

theorem nothing_held_iff (hlast : ∀ e ∈ buf, e.1 ≤ u32Max) :
    rx.recvSequence = 0 ∧ rx.recvBuffer = [] ↔ top = u32Max + 1 := by
  have hlow := h.low
  have hhigh := h.high
  rw [h.cursor]
  constructor
  · rintro ⟨hzero, -⟩
    by_contra hne
    rw [Nat.mod_eq_of_lt (by omega)] at hzero
    omega
  · rintro rfl
    refine ⟨Nat.mod_self _, eq_nil_iff_forall_not_mem.2 fun e he => ?_⟩
    obtain ⟨hmem, hge⟩ := (h.buffer e).1 he
    have := hlast e hmem
    omega

theorem islands (hlast : ∀ e ∈ buf, e.1 ≤ u32Max)
    (hexit : ∀ e ∈ rx.recvBuffer, e.1 ≠ rx.recvSequence) : Islands rx := by
  refine ⟨fun e he => ?_, h.nodup, ?_⟩
  · obtain ⟨hmem, hge⟩ := (h.buffer e).1 he
    have hle := hlast e hmem
    have hne := hexit e he
    rw [h.cursor, Nat.mod_eq_of_lt (by omega)] at hne ⊢
    omega
  · rw [h.cursor]
    exact Nat.le_of_lt_succ (Nat.mod_lt _ (Nat.succ_pos _))

end

end Drained

theorem Islands.accept_ahead (h : Islands rx) (ho : o ≤ u32Max) (hne : o ≠ rx.recvSequence)
    (data : Bytes) (now : Nat) :
    Islands (rx.acceptInOrder o [data] now).1 ∧ (rx.acceptInOrder o [data] now).2 = [] := by
  obtain ⟨rx', heq, hseq, hbuf⟩ | ⟨rx', heq, hlt, hnew, hseq, hbuf⟩ | ⟨-, hnext, -⟩ :=
    rx.acceptInOrder_cases o [data] now
  · rw [heq]
    exact ⟨h.frame hseq hbuf, rfl⟩
  · rw [heq]
    refine ⟨⟨fun e he => ?_, ?_, hseq ▸ h.cursor⟩, rfl⟩
    · rw [hseq]
      rcases mem_append.1 (hbuf ▸ he) with he | he
      · exact h.above e he
      · cases mem_singleton.1 he
        exact ⟨hlt, ho⟩
    · rw [hbuf, map_append, map_singleton, nodup_append]
      refine ⟨h.nodup, nodup_singleton _, fun x hx y hy => ?_⟩
      obtain ⟨e, he, rfl⟩ := mem_map.1 hx
      cases mem_singleton.1 hy
      exact hnew e he
  · exact absurd hnext hne

theorem Islands.accept_next (h : Islands rx) (data : Bytes) (now : Nat) :
    ∃ top, Drained rx.recvSequence data rx.recvBuffer top
        (rx.acceptInOrder rx.recvSequence [data] now).1
        (rx.acceptInOrder rx.recvSequence [data] now).2 ∧
      ∀ e ∈ (rx.acceptInOrder rx.recvSequence [data] now).1.recvBuffer,
        e.1 ≠ (rx.acceptInOrder rx.recvSequence [data] now).1.recvSequence := by
  obtain ⟨rx', heq, hseq, hbuf⟩ := rx.acceptInOrder_next [data] now
  rw [heq]
  obtain ⟨top, hdrained⟩ := (h.drained hseq hbuf data).drain (fun e he => (h.above e he).2)
    rx.recvBuffer.length
  exact ⟨top, hdrained, Stream.drain_exit _ _ (hbuf ▸ Nat.le_refl _)⟩

theorem Islands.accept (h : Islands rx) (ho : o ≤ u32Max) (data : Bytes) (now : Nat) :
    Islands (rx.acceptInOrder o [data] now).1 := by
  by_cases hnext : o = rx.recvSequence
  · obtain ⟨top, hdrained, hexit⟩ := h.accept_next data now
    rw [hnext]
    exact hdrained.islands (fun e he => (h.above e he).2) hexit
  · exact (h.accept_ahead ho hnext data now).1

/-! ## Handing on -/

theorem handOn_eq_nil {run : List Bytes} : handOn run = [] ↔ ∀ d ∈ run, d = [] := by
  simp [handOn, FlowControl.deliverInOrderRun, filter_eq_nil_iff]

/-- A frame whose acceptance leaves nothing to acknowledge has released data just when it was the
last one of the offset space, and there was data. -/
theorem Islands.unacked_iff (h : Islands rx) (ho : o ≤ u32Max) (data : Bytes) (now : Nat) :
    ((rx.acceptInOrder o [data] now).1.receivedSack 0 now = none →
        handOn (rx.acceptInOrder o [data] now).2 = []) ↔
      (Exhausts rx o → data = [] ∧ ∀ e ∈ rx.recvBuffer, ∀ d ∈ e.2, d = []) := by
  rw [receivedSack_eq_none, handOn_eq_nil]
  by_cases hnext : o = rx.recvSequence
  · obtain ⟨top, hdrained, hexit⟩ := h.accept_next data now
    have hlast : ∀ e ∈ rx.recvBuffer, e.1 ≤ u32Max := fun e he => (h.above e he).2
    unfold Exhausts
    rw [hnext, hdrained.nothing_held_iff hlast, hdrained.wrapped_iff hexit]
    simp only [true_and]
    refine imp_congr_right fun hall => ?_
    have htop := (hdrained.wrapped_iff hexit).2 hall
    constructor
    · intro hnil
      refine ⟨hnil data ((hdrained.run data).2 (.inl rfl)), fun e he d hd => ?_⟩
      have hlt := hlast e he
      exact hnil d ((hdrained.run d).2 (.inr ⟨e, he, by omega, hd⟩))
    · rintro ⟨hdata, hbuf⟩ d hd
      rcases (hdrained.run d).1 hd with rfl | ⟨e, he, -, hd⟩
      · exact hdata
      · exact hbuf e he d hd
  · rw [(h.accept_ahead ho hnext data now).2]
    exact iff_of_true (fun _ d hd => absurd hd not_mem_nil) fun hex => absurd hex.1 hnext

/-! ## The steps of an acknowledgement -/

section Ack

variable {kdf : Kdf} {sessionId : SessionId} {streamId : UInt16} {r r' : Receiver} {h : Handling}
  {ct : Bytes}

theorem retireStream_cases (r : Receiver) (streamId : UInt16) : r.retireStream streamId = r ∨
      r.retireStream streamId = { r with held := false, queue := r.queue ++ [.retire] } := by
  unfold Receiver.retireStream
  split
  · exact .inl rfl
  · exact .inr rfl

theorem finish_cases (r : Receiver) (streamId : UInt16) (rx : Stream) (h : Handling) :
    (r.finish streamId rx h).handling = none ∧
      (r.finish streamId rx h).remoteFin = (r.takeFin rx h).1 ∧
      ((r.takeFin rx h).2 = false ∧ (r.finish streamId rx h).held = r.held ∧
          (r.finish streamId rx h).queue = r.queue ++ handOn h.run ∨
        (r.takeFin rx h).2 = true ∧ ((r.finish streamId rx h).held = r.held ∧
            (r.finish streamId rx h).queue = r.queue ++ handOn h.run ++ [.close] ∨
          (r.finish streamId rx h).held = false ∧
            (r.finish streamId rx h).queue = r.queue ++ handOn h.run ++ [.close, .retire])) := by
  unfold Receiver.finish
  generalize r.takeFin rx h = taken
  obtain ⟨fin, took⟩ := taken
  cases took with
  | false => exact ⟨rfl, rfl, .inl ⟨rfl, rfl, rfl⟩⟩
  | true =>
    dsimp only
    rw [if_pos rfl]
    by_cases hacked : r.finAcked = true
    · rw [if_pos hacked]
      obtain heq | heq := retireStream_cases { r with
        handling := none
        queue := r.queue ++ handOn h.run ++ [.close]
        pendingWindowUpdate :=
          if h.isPersistProbe then stageWindowUpdateLimit r.pendingWindowUpdate rx.recvLimit
          else r.pendingWindowUpdate
        remoteFin := fin } streamId
      · simp_all
      · simp_all
    · simp [*]

theorem finish_handsOn (r : Receiver) (streamId : UInt16) (rx : Stream) (h : Handling) :
    r.queue ++ handOn h.run <+: (r.finish streamId rx h).queue := by
  obtain ⟨-, -, ⟨-, -, heq⟩ | ⟨-, ⟨-, heq⟩ | ⟨-, heq⟩⟩⟩ := finish_cases r streamId rx h
  · exact heq ▸ prefix_rfl
  · rw [heq]
    exact prefix_append ..
  · rw [heq]
    exact prefix_append ..

theorem buildStep_rekeying (hsat : r.session.epoch = 255) (f : OutFrame) :
    Session.buildStep kdf sessionId f ct r.session .rekeying = (r.session, .done none) := by
  simp [Session.buildStep, Session.rekey, hsat]

/-- A bound on the steps a builder has left. -/
def stepsLeft : Session.Build → Nat
  | .checking => 5
  | .rekeying => 4
  | .reading => 3
  | .stamping _ => 2
  | .sealing _ => 1
  | .done _ => 0

/-- A step of `send_stream_sack`: the rekey fails and `handle_packet` returns, the call goes on, or
it returns and the frame is finished. -/
theorem ackStep_cases (hh : r.handling = some h)
    (hs : r.ackStep kdf sessionId streamId rx ct = some r') :
    (h.ack = .rekeying ∧ r.session.epoch = 255 ∧ r' = { r with handling := none }) ∨
      ¬(h.ack = .rekeying ∧ r.session.epoch = 255) ∧
        ∃ session, (∃ ack, stepsLeft ack < stepsLeft h.ack ∧
            r' = { r with session, handling := some { h with ack } }) ∨
          r' = { r with session }.finish streamId rx h := by
  obtain ⟨h', hh', heq⟩ := map_eq_some_iff.1 hs
  cases Option.some.inj (hh.symm.trans hh')
  subst heq
  cases hack : h.ack with
  | checking =>
    refine .inr ⟨by simp, r.session, .inl ?_⟩
    cases hneeds : r.session.sendNeedsRekey with
    | false => exact ⟨.reading, by decide, by simp [Session.buildStep, hneeds]⟩
    | true => exact ⟨.rekeying, by decide, by simp [Session.buildStep, hneeds]⟩
  | rekeying =>
    by_cases hsat : r.session.epoch = 255
    · refine .inl ⟨rfl, hsat, ?_⟩
      rw [buildStep_rekeying hsat]
    · refine .inr ⟨fun hboth => hsat hboth.2, (r.session.rekey kdf).1, .inl ⟨.reading, by decide, ?_⟩⟩
      simp [Session.buildStep, Session.rekey, hsat]
  | reading =>
    exact .inr ⟨by simp, r.session, .inl ⟨
      .stamping (if r.session.rekeyUnconfirmed then PacketFlags.rekey else 0),
      Nat.lt_succ_self _, rfl⟩⟩
  | stamping extra =>
    exact .inr ⟨by simp, r.session.nextSendPn.1, .inl ⟨
      (Session.buildStep kdf sessionId h.ackFrame ct r.session (.stamping extra)).2,
      Nat.lt_succ_self _, rfl⟩⟩
  | sealing header =>
    exact .inr ⟨by simp, (r.session.encryptPacket header h.ackFrame.plaintext [] ct).1, .inr rfl⟩
  | done => exact .inr ⟨by simp, r.session, .inr rfl⟩

theorem ackStep_advances (hh : r.handling = some h) (kdf : Kdf) (sessionId : SessionId)
    (streamId : UInt16) (rx : Stream) (ct : Bytes) :
    ∃ r', r.ackStep kdf sessionId streamId rx ct = some r' ∧
      ∀ h' ∈ r'.handling, stepsLeft h'.ack < stepsLeft h.ack := by
  obtain ⟨r', hs⟩ : ∃ r', r.ackStep kdf sessionId streamId rx ct = some r' := by
    simp [Receiver.ackStep, hh]
  refine ⟨r', hs, fun h' hh' => ?_⟩
  obtain ⟨-, -, rfl⟩ | ⟨-, session, ⟨ack, hless, rfl⟩ | rfl⟩ := ackStep_cases hh hs
  · cases hh'
  · cases hh'
    exact hless
  · rw [(finish_cases ..).1] at hh'
    cases hh'

end Ack

/-! ## The system -/

variable {kdf : Kdf} {sessionId : SessionId} {streamId : UInt16} {s s' : State} {e : Event}
  {pathId : UInt8} {fin : Bool} {now : Nat}

/-- When `handle_packet` returns, what its frame has released is on the delivery channel, in order. -/
def HandsOn (s : State) (e : Event) (s' : State) : Prop :=
  match e with
  | .frame o data _ _ now =>
    s.recv.held = true → s'.recv.handling = none →
      s.recv.queue ++ handOn (s.rx.acceptInOrder o [data] now).2 <+: s'.recv.queue
  | .ackStep _ =>
    ∀ h ∈ s.recv.handling, s'.recv.handling = none → s.recv.queue ++ handOn h.run <+: s'.recv.queue
  | _ => True

/-- A frame does not complete the offset space, and no rekey is attempted at the last epoch, unless
there is no data to lose. -/
def Unhindered (s : State) (e : Event) (_ : State) : Prop :=
  match e with
  | .frame o data _ _ _ =>
    s.recv.held = true → Exhausts s.rx o → data = [] ∧ ∀ e ∈ s.rx.recvBuffer, ∀ d ∈ e.2, d = []
  | .ackStep _ =>
    ∀ h ∈ s.recv.handling, h.ack = .rekeying → s.recv.session.epoch = 255 → ∀ d ∈ h.run, d = []
  | _ => True

theorem append_prefix_self {queue items : List DeliverItem} :
    queue ++ items <+: queue ↔ items = [] := by
  constructor
  · intro h
    have hlen := h.length_le
    rw [length_append] at hlen
    exact eq_nil_of_length_eq_zero (by omega)
  · rintro rfl
    simp

theorem step_frame {data : Bytes}
    (hs : step kdf sessionId streamId s (.frame o data fin pathId now) = some s') :
    s.recv.handling = none ∧ o ≤ u32Max ∧
      (s.recv.held = false ∧ s' = s ∨
        s.recv.held = true ∧
          s' = { s with
            rx := (s.recv.accept streamId s.rx o data fin pathId now).1
            recv := (s.recv.accept streamId s.rx o data fin pathId now).2 }) := by
  simp only [step] at hs
  split at hs
  · cases hs
  · rename_i hready
    simp only [not_or, Bool.not_eq_true, isSome_eq_false_iff, isNone_iff_eq_none,
      Nat.not_lt] at hready
    grind

theorem accept_cases (r : Receiver) (streamId : UInt16) (rx : Stream) (o : Nat) (data : Bytes)
    (fin : Bool) (pathId : UInt8) (now : Nat) :
    (r.accept streamId rx o data fin pathId now).1 = (rx.acceptInOrder o [data] now).1 ∧
      ((rx.acceptInOrder o [data] now).1.receivedSack 0 now = none ∧
          (r.accept streamId rx o data fin pathId now).2 = r ∨
        (rx.acceptInOrder o [data] now).1.receivedSack 0 now ≠ none ∧
          ∃ h : Handling, h.streamOffset = o ∧ h.run = (rx.acceptInOrder o [data] now).2 ∧
            h.fin = fin ∧
            (r.accept streamId rx o data fin pathId now).2 = { r with handling := some h }) := by
  unfold Receiver.accept
  dsimp only
  split
  · rename_i hnone
    exact ⟨rfl, .inl ⟨hnone, rfl⟩⟩
  · simp [*]

theorem Islands.step (h : Islands s.rx) (hs : step kdf sessionId streamId s e = some s') :
    Islands s'.rx := by
  cases e with
  | frame _ data _ _ now =>
    obtain ⟨-, ho, ⟨-, rfl⟩ | ⟨-, rfl⟩⟩ := step_frame hs
    · exact h
    · dsimp only
      rw [(accept_cases ..).1]
      exact h.accept ho data now
  | ackStep | sendStep =>
    obtain ⟨r, -, rfl⟩ := map_eq_some_iff.1 hs
    exact h
  | sendFrame | finAcked => grind [StreamReceive.step]
  | consumed n reliable now =>
    cases hs
    obtain ⟨hseq, hbuf⟩ := s.rx.recordAppConsumed_frame s.tuning n reliable now
    exact h.frame hseq hbuf

theorem frame_handsOn_iff {data : Bytes} (hi : Islands s.rx)
    (hs : step kdf sessionId streamId s (.frame o data fin pathId now) = some s') :
    HandsOn s (.frame o data fin pathId now) s' ↔ Unhindered s (.frame o data fin pathId now) s' := by
  obtain ⟨hidle, ho, ⟨hdropped, rfl⟩ | ⟨hheld, rfl⟩⟩ := step_frame hs
  · simp [HandsOn, Unhindered, hdropped]
  · rw [show Unhindered s (.frame o data fin pathId now) _ ↔ (s.recv.held = true →
      Exhausts s.rx o → data = [] ∧ ∀ e ∈ s.rx.recvBuffer, ∀ d ∈ e.2, d = []) from Iff.rfl,
      ← hi.unacked_iff ho data now]
    refine imp_congr_right fun _ => ?_
    obtain ⟨-, ⟨hnone, hsame⟩ | ⟨hsome, h, -, -, -, hnew⟩⟩ :=
      accept_cases s.recv streamId s.rx o data fin pathId now
    all_goals simp [*, append_prefix_self]

theorem ackStep_handsOn_iff {ct : Bytes}
    (hs : step kdf sessionId streamId s (.ackStep ct) = some s') :
    HandsOn s (.ackStep ct) s' ↔ Unhindered s (.ackStep ct) s' := by
  obtain ⟨r, hr, rfl⟩ := map_eq_some_iff.1 hs
  obtain ⟨h, hh, -⟩ := map_eq_some_iff.1 hr
  have hiff : HandsOn s (.ackStep ct) { s with recv := r } ↔
      (r.handling = none → s.recv.queue ++ handOn h.run <+: r.queue) := by
    simp [HandsOn, hh]
  have hcond : Unhindered s (.ackStep ct) { s with recv := r } ↔
      (h.ack = .rekeying → s.recv.session.epoch = 255 → handOn h.run = []) := by
    simp [Unhindered, hh, handOn_eq_nil]
  rw [hiff, hcond]
  obtain ⟨hack, hsat, rfl⟩ | ⟨hgoes, session, ⟨ack, -, rfl⟩ | rfl⟩ := ackStep_cases hh hr
  · simp [hack, hsat, append_prefix_self]
  · exact iff_of_true (fun hnone => by cases hnone) fun hack hsat => absurd ⟨hack, hsat⟩ hgoes
  · exact iff_of_true (fun _ => finish_handsOn { s.recv with session } streamId s.rx h)
      fun hack hsat => absurd ⟨hack, hsat⟩ hgoes

theorem handling_returns (kdf : Kdf) (sessionId : SessionId) (streamId : UInt16) (s : State)
    (ct : Bytes) : ∃ n s', Lts.run (step kdf sessionId streamId) s (List.replicate n (.ackStep ct)) =
      some s' ∧ s'.recv.handling = none := by
  -- by induction on the steps the acknowledgement has left
  obtain ⟨m, hm⟩ : ∃ m, ∀ h ∈ s.recv.handling, stepsLeft h.ack < m :=
    ⟨6, fun h _ => by cases h.ack <;> simp [stepsLeft]⟩
  induction m generalizing s with
  | zero =>
    cases hh : s.recv.handling with
    | none => exact ⟨0, s, rfl, hh⟩
    | some h => exact absurd (hm h hh) (Nat.not_lt_zero _)
  | succ m ih =>
    cases hh : s.recv.handling with
    | none => exact ⟨0, s, rfl, hh⟩
    | some h =>
      obtain ⟨r, hr, hless⟩ := ackStep_advances hh kdf sessionId streamId s.rx ct
      have hnext : step kdf sessionId streamId s (.ackStep ct) = some { s with recv := r } := by
        simp [step, hr]
      obtain ⟨n, s', hrun, hdone⟩ := ih { s with recv := r } fun h' hh' =>
        (hless h' hh').trans_le (Nat.le_of_lt_succ (hm h hh))
      exact ⟨n + 1, s', (Lts.run_cons_some hnext _).trans hrun, hdone⟩

/-- **What is accepted is handed on, unless.** Under any frames, and however the send task runs in
between: every frame's data is on the delivery channel when `handle_packet` returns, if and only if
no frame with data completes the offset space, and no rekey is attempted at the last epoch while
there is data. And `handle_packet` does return. -/
theorem handsOn_iff (kdf : Kdf) (sessionId : SessionId) (streamId : UInt16) (session : Session)
    (es : List Event) :
    (Lts.Along (step kdf sessionId streamId) HandsOn (init session) es ↔
        Lts.Along (step kdf sessionId streamId) Unhindered (init session) es) ∧
      ∀ s ct, ∃ n s', Lts.run (step kdf sessionId streamId) s (List.replicate n (.ackStep ct)) =
        some s' ∧ s'.recv.handling = none := by
  refine ⟨?_, fun s ct => handling_returns kdf sessionId streamId s ct⟩
  refine Lts.along_iff (fun s => Islands s.rx) (fun s e s' hi hs _ => hi.step hs)
    (fun s e s' hi hs => ?_) es islands_new
  cases e with
  | frame o data fin pathId now => exact frame_handsOn_iff hi hs
  | ackStep ct => exact ackStep_handsOn_iff hs
  | sendFrame | sendStep | consumed | finAcked => exact Iff.rfl

/-- The send task seals a keepalive, in `n` steps. -/
def keepaliveSteps (n : Nat) : List Event :=
  .sendFrame (sendKeepalive 0 false) :: List.replicate n (.sendStep [])

/-- Every packet is followed by a rekey. -/
def rekeysAlways : Session := (Session.new Kdf.plain .aes256Gcm [] false).setRekeyThreshold 1

/-- With one packet sealed before, the send task is then about to rekey to the last epoch. -/
def aboutToRekey : List Event :=
  (List.replicate 254 (keepaliveSteps 5)).flatten ++ keepaliveSteps 1

/-- The acknowledgement of a frame is about to rekey too, and the send task is faster. -/
def racingRekey : List Event :=
  keepaliveSteps 4 ++ aboutToRekey ++ [.frame 0 [1] false 0 0, .ackStep [], .sendStep []]

/-- The same frame, retransmitted and acknowledged. -/
def retransmitted : List Event := .frame 0 [1] false 0 0 :: List.replicate 4 (.ackStep [])

/-- What is being handled, the cursor and the delivery channel. -/
def afterRekeys (es : List Event) : Option (Option (List Bytes) × Nat × List DeliverItem) :=
  (Lts.run (step Kdf.plain KeyAgreement.zeroSessionId 2) (init rekeysAlways) es).map
    fun s => (s.recv.handling.map (·.run), s.rx.recvSequence, s.recv.queue)

/-- The cursor has passed the frame, `handle_packet` returns without having handed it on, and it
does not hand on the retransmission either. -/
theorem accepted_and_lost :
    afterRekeys racingRekey = some (some [[1]], 1, []) ∧
      afterRekeys (racingRekey ++ [.ackStep []]) = some (none, 1, []) ∧
      afterRekeys (racingRekey ++ [.ackStep []] ++ retransmitted) = some (none, 1, []) :=
  ⟨by decide +kernel, by decide +kernel, by decide +kernel⟩

end StreamReceive

end PhantomProtocol
