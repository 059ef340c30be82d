import PhantomProtocol.Api.DeliveryBacklog
import PhantomProtocol.Api.Proof.StreamReceive

/-!
# What one frame can add to the delivery backlog

A call stays within the constant if and only if the run that its segment releases does; then the
backlog stays within the cap and the constant.
-/

namespace PhantomProtocol.DeliveryBacklog

open List

open StreamReceive (Islands)

variable {s s' : State} {id : UInt16} {held : Held} {f : Inbound} {env : Env} {rx : Stream}
  {o k n : Nat} {p : Bytes}

/-! ## The run behind a gap -/

theorem drain_behind {buf : List (Nat × List Bytes)} (hlast : ∀ e ∈ buf, e.1 ≤ u32Max)
    (fuel : Nat) :
    ∀ {rx : Stream} {top : Nat} (out : List Bytes), rx.recvSequence = top % (u32Max + 1) →
      top ≤ u32Max + 1 → (∀ e ∈ rx.recvBuffer, 0 < e.1) →
      (∀ x, top ≤ x → rx.recvBuffer.find? (·.1 == x) = buf.find? (·.1 == x)) →
      (Stream.drain fuel rx out).2 = out ++ (behind buf fuel top).flatMap (·.2) ∧
        (Stream.drain fuel rx out).1.recvSequence =
          (top + (behind buf fuel top).length) % (u32Max + 1) ∧
        top + (behind buf fuel top).length ≤ u32Max + 1 := by
  induction fuel with
  | zero => simp_all [Stream.drain, behind]
  | succ _ ih =>
    intro rx top out hseq htop hpos hsame
    rcases Nat.lt_or_eq_of_le htop with hlt | rfl
    · -- the cursor has not wrapped: both sides look at `top`
      rw [Nat.mod_eq_of_lt hlt] at hseq
      cases hfind : buf.find? (·.1 == top) with
      | none => simp [*, Stream.drain_none, behind, Nat.mod_eq_of_lt]
      | some e =>
        have hnext : rx.recvBuffer.find? (·.1 == rx.recvSequence) = some e := by simp [*]
        rw [Stream.drain_some hnext]
        obtain ⟨hrun, hcursor, hbound⟩ := @ih (rx.release e.2) (top + 1) (out ++ e.2)
          (by simp only [Stream.release, hseq]) hlt
          (fun e' he' => hpos e' (mem_of_mem_eraseP he')) (fun x hx => by
            show (rx.recvBuffer.eraseP (·.1 == rx.recvSequence)).find? (·.1 == x) = _
            rw [Scan.find?_eraseP_key (by omega), hsame x (by omega)])
        simp only [behind, hfind, flatMap_cons, length_cons]
        refine ⟨by rw [hrun, append_assoc], ?_, by omega⟩
        rw [hcursor]
        congr 1
        omega
    · -- it has: nothing is buffered at offset 0, and nothing beyond the last offset
      rw [Nat.mod_self] at hseq
      have hnone : rx.recvBuffer.find? (·.1 == rx.recvSequence) = none := by grind
      have hend : buf.find? (·.1 == u32Max + 1) = none := by grind
      rw [Stream.drain_none hnone]
      simp [behind, hend, hseq]

/-- The run that a segment at the cursor releases, read off the reorder buffer before it arrives. -/
theorem accept_behind (h : Islands rx) (data : Bytes) (now : Nat) :
    (rx.acceptInOrder rx.recvSequence [data] now).2 = data :: (nextRun rx).flatMap (·.2) ∧
      (rx.acceptInOrder rx.recvSequence [data] now).1.recvSequence =
        (rx.recvSequence + 1 + (nextRun rx).length) % (u32Max + 1) ∧
      rx.recvSequence + 1 + (nextRun rx).length ≤ u32Max + 1 := by
  obtain ⟨rx', heq, hseq, hbuf⟩ := rx.acceptInOrder_next [data] now
  rw [heq]
  have hcursor := h.cursor
  exact drain_behind (fun e he => (h.above e he).2) rx.recvBuffer.length [data] hseq (by omega)
    (fun e he => by have := (h.above e (hbuf ▸ he)).1; omega) (fun x _ => by rw [hbuf])

/-- There is nothing to acknowledge just when the offset space is used up. -/
theorem sack_isNone_iff (h : Islands rx) (data : Bytes) (now : Nat) :
    ((rx.acceptInOrder rx.recvSequence [data] now).1.receivedSack 0 now).isNone ↔
      ¬StaysBelow rx := by
  obtain ⟨-, hcursor, hbound⟩ := accept_behind h data now
  rw [Option.isNone_iff_eq_none, Stream.receivedSack_eq_none]
  obtain ⟨top, hdrained, -⟩ := h.accept_next data now
  rw [hdrained.nothing_held_iff fun e he => (h.above e he).2]
  have hlow := hdrained.low
  have hhigh := hdrained.high
  have hmod := hdrained.cursor.symm.trans hcursor
  unfold StaysBelow
  constructor
  · rintro rfl hbelow
    rw [Nat.mod_self, Nat.mod_eq_of_lt (by omega)] at hmod
    omega
  · intro hend
    have hall : rx.recvSequence + 1 + (nextRun rx).length = u32Max + 1 := by omega
    rw [hall, Nat.mod_self] at hmod
    by_contra hne
    rw [Nat.mod_eq_of_lt (by omega)] at hmod
    omega

/-! ## Charges -/

@[simp] theorem charges_nil : DeliverItem.charges [] = 0 := rfl

@[simp] theorem charges_append (xs ys : List DeliverItem) :
    DeliverItem.charges (xs ++ ys) = DeliverItem.charges xs + DeliverItem.charges ys := by
  simp [DeliverItem.charges]

@[simp] theorem charges_close : DeliverItem.charges [.close] = deliveryItemOverheadBytes := rfl

@[simp] theorem handOn_nil : handOn [] = [] := rfl

theorem charges_handOn_cons (d : Bytes) (run : List Bytes) :
    DeliverItem.charges (handOn (d :: run)) =
      (if d = [] then 0 else deliveryCharge d.length) + DeliverItem.charges (handOn run) := by
  cases d <;> simp [handOn, FlowControl.deliverInOrderRun, DeliverItem.charges, DeliverItem.charge]

/-- This is where `MAX_DELIVERY_CHARGE_PER_FRAME` comes from. -/
theorem charges_subs_le (remaining : Nat) (data : Bytes) :
    DeliverItem.charges (handOn (Decoalescer.subs remaining data)) ≤ 43 * data.length := by
  fun_induction Decoalescer.subs remaining data with
  | case1 => simp
  | case2 remaining hi lo rest len hfits ih =>
    have hlen : (rest.take len).length = len := length_take_of_le (by omega)
    rw [length_drop] at ih
    rw [charges_handOn_cons, hlen]
    simp only [length_cons]
    split
    · omega
    · rename_i hne
      have hpos : 0 < len := by grind
      simp only [deliveryCharge, deliveryItemOverheadBytes]
      omega
  | case3 => simp

theorem charges_unwrap_le {subs : List Bytes} (h : unwrapCoalescedPacket p = some subs)
    (hp : p.length ≤ maxRecvPayload) :
    DeliverItem.charges (handOn subs) ≤ maxDeliveryChargePerFrame := by
  unfold unwrapCoalescedPacket at h
  split at h
  · rename_i hi lo rest
    dsimp only at h
    split at h
    · cases h
      have hle := charges_subs_le (beNat [hi, lo]) rest
      have hmax : maxDeliveryChargePerFrame = 43 * (maxRecvPayload - 2) := by decide
      simp only [length_cons] at hp
      omega
    · cases h
  · cases h

/-! ## What the branches add -/

@[simp] theorem put_undelivered (s : State) (id : UInt16) (held : Option Held) :
    (s.put id held).undelivered = s.undelivered := rfl

@[simp] theorem put_taking (s : State) (id : UInt16) (held : Option Held) :
    (s.put id held).taking = s.taking := rfl

@[simp] theorem enqueue_taking (s : State) (id : UInt16) (items : List DeliverItem) :
    (s.enqueue id items).taking = s.taking := by
  unfold State.enqueue
  split <;> rfl

theorem enqueue_undelivered (s : State) (id : UInt16) (items : List DeliverItem) :
    (s.enqueue id items).undelivered =
      s.undelivered + if s.taking then DeliverItem.charges items else 0 := by
  unfold State.enqueue
  split <;> rfl

theorem enqueue_undelivered_le (s : State) (id : UInt16) (items : List DeliverItem) :
    (s.enqueue id items).undelivered ≤ s.undelivered + DeliverItem.charges items := by
  rw [enqueue_undelivered]
  split <;> omega

/-- Dropping a stream is not charged. -/
@[simp] theorem retireIf_undelivered (s : State) (id : UInt16) (retirable : Bool) :
    (s.retireIf id retirable).undelivered = s.undelivered := by
  unfold State.retireIf State.retireStream
  split
  · split
    · rfl
    · rw [enqueue_undelivered]
      simp [DeliverItem.charges, DeliverItem.charge]
  · rfl

theorem unorderedFin_undelivered_le (s : State) (id : UInt16) (fin : Bool) (env : Env) :
    (s.unorderedFin id fin env).undelivered ≤ s.undelivered + deliveryItemOverheadBytes := by
  unfold State.unorderedFin
  split
  · omega
  · rw [retireIf_undelivered]
    unfold State.takeUnorderedRemoteFin
    dsimp only
    (repeat' split) <;> try exact Nat.le_add_right _ _
    exact enqueue_undelivered_le _ _ [.close]

/-- A segment is charged for the run it releases and for the end of the stream. -/
theorem reliableSegment_undelivered (s : State) (id : UInt16) (held : Held) (o : Nat) (data : Bytes)
    (fin : Bool) (env : Env) :
    (s.reliableSegment id held o data fin env).undelivered =
      s.undelivered +
        if s.taking ∧ env.acked ∧
            ¬((held.rx.acceptInOrder o [data] env.now).1.receivedSack 0 env.now).isNone then
          DeliverItem.charges (handOn (held.rx.acceptInOrder o [data] env.now).2 ++
            if (State.takeFin held o fin
                (held.rx.acceptInOrder o [data] env.now).1.recvSequence).2 then [.close] else [])
        else 0 := by
  unfold State.reliableSegment
  dsimp only
  generalize held.rx.acceptInOrder o [data] env.now = accepted
  generalize State.takeFin held o fin accepted.1.recvSequence = taken
  cases hnone : (accepted.1.receivedSack 0 env.now).isNone <;> cases hack : env.acked <;>
    simp only [Bool.true_or, Bool.false_or, Bool.not_true, Bool.not_false, if_true] <;>
    cases htake : s.taking <;> cases taken.2 <;>
    simp [enqueue_undelivered, htake, Nat.add_assoc]

/-- Away from the cursor a segment releases at most the end of the stream. -/
theorem reliableSegment_ahead (h : Islands held.rx) (ho : o ≤ u32Max)
    (hne : o ≠ held.rx.recvSequence) (s : State) (id : UInt16) (data : Bytes) (fin : Bool)
    (env : Env) :
    (s.reliableSegment id held o data fin env).undelivered ≤
      s.undelivered + deliveryItemOverheadBytes := by
  rw [reliableSegment_undelivered, (h.accept_ahead ho hne data env.now).2]
  split
  · split <;> simp
  · omega

/-- At the cursor it is charged for what it sets free. -/
theorem reliableSegment_next (h : Islands held.rx) (s : State) (id : UInt16) (data : Bytes)
    (fin : Bool) (env : Env) :
    (s.reliableSegment id held held.rx.recvSequence data fin env).undelivered =
      s.undelivered +
        if s.taking ∧ env.acked ∧ StaysBelow held.rx then
          DeliverItem.charges (setFree held data fin)
        else 0 := by
  obtain ⟨hrun, hcursor, -⟩ := accept_behind h data env.now
  rw [reliableSegment_undelivered]
  simp only [sack_isNone_iff h, not_not]
  split
  · rename_i hfree
    have hlt : held.rx.recvSequence + 1 + (nextRun held.rx).length < u32Max + 1 :=
      Nat.lt_succ_of_le hfree.2.2
    rw [hrun, hcursor, Nat.mod_eq_of_lt hlt]
    rfl
  · rfl

/-! ## One call -/

/-- Every stream of the table reassembles what has arrived on it. -/
def Sound (s : State) : Prop := ∀ id held, s.streams id = some held → Islands held.rx

theorem Sound.target (h : Sound s) {opens : Bool} (ht : s.target id opens = some held) :
    Islands held.rx := by
  unfold State.target at ht
  cases hheld : s.streams id with
  | some =>
    rw [hheld] at ht
    cases ht
    exact h id held hheld
  | none =>
    rw [hheld] at ht
    cases opens with
    | true =>
      cases ht
      exact StreamReceive.islands_new
    | false => cases ht

theorem beNat_take_le (p : Bytes) : beNat (p.take reliableOffsetLen) ≤ u32Max := by
  have hlt := beNat_lt (p.take reliableOffsetLen)
  have hpow := Nat.pow_le_pow_right (by decide : 0 < 256) (length_take_le reliableOffsetLen p)
  exact Nat.le_of_lt_succ (hlt.trans_le hpow)

/-- The branches other than the reliable one stay within the constant. -/
theorem dispatch_le (s : State) (id : UInt16) (hp : p.length ≤ maxRecvPayload)
    (hseg : ¬f.isSegment) (henc : f.flags.contains PacketFlags.encrypted) :
    (s.dispatch f.flags id p env).undelivered ≤ s.undelivered + maxDeliveryChargePerFrame := by
  have hclose : deliveryItemOverheadBytes ≤ maxDeliveryChargePerFrame := by decide
  unfold State.dispatch
  split
  · omega
  split
  · split
    · have := unorderedFin_undelivered_le s id (f.flags.contains PacketFlags.fin) env
      omega
    · omega
  split
  · omega
  split
  · grind [charges_unwrap_le, enqueue_undelivered_le]
  rename_i hquiet hack hwindow hbundle
  split
  · rename_i hrel
    exact absurd (by simp_all [Inbound.isSegment]) hseg
  · have hroom : maxRecvPayload + 2 * deliveryItemOverheadBytes ≤ maxDeliveryChargePerFrame := by
      decide
    have hdata : (if p.isEmpty then s else s.enqueue id [.data p false]).undelivered ≤
        s.undelivered + (p.length + deliveryItemOverheadBytes) := by
      split
      · omega
      · exact enqueue_undelivered_le s id [.data p false]
    dsimp only
    generalize (if p.isEmpty then s else s.enqueue id [.data p false]) = s₁ at hdata
    split
    · have := unorderedFin_undelivered_le s₁ id true env
      omega
    · omega

/-- On the reliable branch the segment goes to its stream. -/
theorem dispatch_segment (s : State) (hseg : f.isSegment) (id : UInt16) :
    s.dispatch f.flags id p env =
      s.reliableFrame id p (f.flags.contains PacketFlags.fin) env := by
  simp only [Inbound.isSegment, Bool.and_eq_true, Bool.not_eq_true', any_eq_false,
    mem_cons, not_mem_nil, or_false, forall_eq_or_imp, forall_eq,
    Bool.not_eq_true] at hseg
  simp [*, State.dispatch]

/-- **One call** stays within the constant if and only if what it sets free does. -/
theorem handlePacket_within_iff (h : Sound s) (hwire : f.wireLen ≤ maxRecvFrame) :
    (s.handlePacket f env).undelivered ≤ s.undelivered + maxDeliveryChargePerFrame ↔
      Modest s f env := by
  have hclose : deliveryItemOverheadBytes ≤ maxDeliveryChargePerFrame := by decide
  unfold State.handlePacket Modest
  cases hopen : f.plaintext with
  | none => simp
  | some p =>
    simp only [Option.mem_def, Option.some.injEq, forall_eq']
    have hp : p.length ≤ maxRecvPayload := by
      have hfits := f.fits p hopen
      have hsize : maxRecvFrame = PacketHeader.size + maxRecvPayload + aeadOverhead := by decide
      omega
    by_cases henc : f.flags.contains PacketFlags.encrypted
    case neg => simp [*, Inbound.isSegment]
    rw [if_pos henc]
    by_cases hseg : f.isSegment
    case neg =>
      exact iff_of_true (dispatch_le s f.streamId hp hseg henc)
        fun held _ hseg' => absurd hseg' hseg
    rw [dispatch_segment s hseg]
    unfold State.reliableFrame
    split
    · exact iff_of_true (by omega) fun held _ _ hlong => by omega
    · rename_i hlong
      cases htarget : s.target f.streamId env.opens with
      | none => simp
      | some held =>
        have hislands := h.target htarget
        simp only [Option.some.injEq, forall_eq', hseg, forall_const, Nat.le_of_not_lt hlong]
        by_cases hnext : beNat (p.take reliableOffsetLen) = held.rx.recvSequence
        · rw [hnext, reliableSegment_next hislands]
          constructor
          · grind
          · grind
        · have := reliableSegment_ahead hislands (beNat_take_le p) hnext s f.streamId
            (p.drop reliableOffsetLen) (f.flags.contains PacketFlags.fin) env
          exact iff_of_true (by omega) fun _ _ hcursor => absurd hcursor hnext

/-! ## Runs -/

theorem sound_init : Sound init := fun _ _ h => nomatch h

theorem Sound.frame (h : Sound s) (heq : s'.streams = s.streams) : Sound s' := by
  intro id held hheld
  exact h id held (heq ▸ hheld)

theorem Sound.put (h : Sound s) (id : UInt16) {o : Option Held} (ho : ∀ held ∈ o, Islands held.rx) :
    Sound (s.put id o) := by
  intro id' held hheld
  by_cases hid : id' = id
  · subst hid
    exact ho held (by simpa [State.put] using hheld)
  · apply h id' held
    simpa [State.put, hid] using hheld

theorem Sound.putSome (h : Sound s) (id : UInt16) (hheld : Islands held.rx) :
    Sound (s.put id (some held)) :=
  h.put id (by simpa using hheld)

@[simp] theorem enqueue_streams (s : State) (id : UInt16) (items : List DeliverItem) :
    (s.enqueue id items).streams = s.streams := by
  unfold State.enqueue
  split <;> rfl

section

variable (h : Sound s)
include h

theorem Sound.enqueue (id : UInt16) (items : List DeliverItem) : Sound (s.enqueue id items) :=
  h.frame (enqueue_streams s id items)

theorem Sound.retireIf (id : UInt16) (retirable : Bool) : Sound (s.retireIf id retirable) := by
  unfold State.retireIf State.retireStream
  split
  · split
    · exact h
    · exact (h.put id (by simp)).enqueue id _
  · exact h

theorem Sound.unorderedFin (id : UInt16) (fin : Bool) (env : Env) :
    Sound (s.unorderedFin id fin env) := by
  unfold State.unorderedFin
  split
  · exact h
  · rename_i held hheld
    have hput : Sound (s.put id (some { held with
        remoteFin := held.remoteFin.noteUnorderedRemoteFin.1 })) :=
      h.putSome id (h id held hheld)
    apply Sound.retireIf
    unfold State.takeUnorderedRemoteFin
    dsimp only
    split <;> [split <;> [split; skip]; skip]
    · exact hput.enqueue id _
    · exact hput
    · exact h
    · exact h

theorem Sound.reliableSegment (hheld : Islands held.rx) (id : UInt16)
    (ho : o ≤ u32Max) (data : Bytes) (fin : Bool) (env : Env) :
    Sound (s.reliableSegment id held o data fin env) := by
  have haccept := hheld.accept ho data env.now
  unfold State.reliableSegment
  dsimp only
  generalize held.rx.acceptInOrder o [data] env.now = accepted at haccept ⊢
  have hput (fin' : RemoteFin) : Sound (s.put id (some ⟨accepted.1, fin'⟩)) := h.putSome id haccept
  split
  · exact hput held.remoteFin
  · have hlast (fin' : RemoteFin) : Sound (((s.put id (some ⟨accepted.1, held.remoteFin⟩)).put id
        (some ⟨accepted.1, fin'⟩)).enqueue id (handOn accepted.2)) :=
      ((hput held.remoteFin).putSome id haccept).enqueue id _
    split
    · exact ((hlast _).enqueue id _).retireIf id _
    · exact hlast _

theorem Sound.dispatch (flags : PacketFlags) (id : UInt16) (p : Bytes) (env : Env) :
    Sound (s.dispatch flags id p env) := by
  have hdata : Sound (if p.isEmpty then s else s.enqueue id [.data p false]) := by
    split
    · exact h
    · exact h.enqueue id _
  have hrel : Sound (s.reliableFrame id p (flags.contains PacketFlags.fin) env) := by
    unfold State.reliableFrame
    (repeat' split) <;> try exact h
    rename_i htarget
    exact h.reliableSegment (h.target htarget) id (beNat_take_le p) _ _ env
  unfold State.dispatch
  dsimp only
  generalize (if p.isEmpty then s else s.enqueue id [.data p false]) = s₁ at hdata ⊢
  (repeat' split) <;> first
    | exact h
    | exact h.unorderedFin id _ env
    | exact h.enqueue id _
    | exact hrel
    | exact hdata.unorderedFin id true env
    | exact hdata

theorem Sound.receive (f : Inbound) (env : Env) : Sound (s.receive f env) := by
  unfold State.receive State.handlePacket
  (repeat' split) <;> first
    | exact h
    | exact h.frame rfl
    | exact h.dispatch _ _ _ env

theorem Sound.credit (id : UInt16) (item : DeliverItem) (now : Nat) :
    Sound (s.credit id item now) := by
  unfold State.credit
  dsimp only
  split
  · rename_i payload reliable held hheld
    obtain ⟨hseq, hbuf⟩ := held.rx.recordAppConsumed_frame s.tuning
      (payload.length % (u32Max + 1)) reliable now
    exact (h.putSome _ ((h _ held hheld).frame hseq hbuf)).frame rfl
  · exact h

theorem Sound.step {e : Event} (hs : step s e = some s') : Sound s' := by
  cases e with
  | frame f env =>
    simp only [DeliveryBacklog.step, Option.ite_none_left_eq_some] at hs
    cases hs.2
    exact h.receive f env
  | deliver i now =>
    obtain ⟨⟨id, item⟩, -, rfl⟩ := Option.map_eq_some_iff.1 hs
    exact (h.credit id item now).frame rfl
  | strand =>
    obtain ⟨_, -, rfl⟩ := Option.map_eq_some_iff.1 hs
    exact h.frame rfl
  | «open» id =>
    simp only [DeliveryBacklog.step, Option.ite_none_left_eq_some] at hs
    cases hs.2
    exact h.putSome id StreamReceive.islands_new
  | drop id =>
    simp only [DeliveryBacklog.step, Option.ite_none_left_eq_some] at hs
    cases hs.2
    exact h.put id (by simp)
  | hangUp =>
    cases hs
    exact h.frame rfl

end

/-- The backlog stays within the cap and one frame. -/
def Bounded (s : State) : Prop := s.undelivered ≤ recvDeliveryHardCap + maxDeliveryChargePerFrame

theorem Bounded.step {e : Event} (h : Bounded s) (hs : step s e = some s')
    (hadds : AddsWithin s e s') : Bounded s' := by
  unfold Bounded at h ⊢
  cases e with
  | frame f env =>
    simp only [DeliveryBacklog.step, Option.ite_none_left_eq_some] at hs
    cases hs.2
    unfold State.receive
    split
    · exact h
    split
    · exact h
    · rename_i hcap hwire
      have hhandled : s.Handles f := ⟨Nat.le_of_not_lt hcap, Nat.le_of_not_lt hwire⟩
      have hlow := hhandled.1
      have hstep := hadds hhandled
      omega
  | deliver =>
    obtain ⟨⟨id, item⟩, -, rfl⟩ := Option.map_eq_some_iff.1 hs
    show s.undelivered - item.charge ≤ _
    omega
  | strand =>
    obtain ⟨_, -, rfl⟩ := Option.map_eq_some_iff.1 hs
    exact h
  | «open» id =>
    simp only [DeliveryBacklog.step, Option.ite_none_left_eq_some] at hs
    cases hs.2
    exact h
  | drop =>
    simp only [DeliveryBacklog.step, Option.ite_none_left_eq_some] at hs
    cases hs.2
    exact h
  | hangUp =>
    cases hs
    exact h

theorem adds_iff_setsFree (h : Sound s) (e : Event) :
    AddsWithin s e s' ↔ SetsFreeWithin s e s' := by
  cases e with
  | frame => exact imp_congr_right fun hhandled => handlePacket_within_iff h hhandled.2
  | _ => exact Iff.rfl

/-- The calls of a run add no more than the constant if and only if what its frames set free is
charged no more than that. Then the backlog stays within the cap and the constant. -/
theorem backlog_bounded (es : List Event) :
    (Lts.Along step AddsWithin init es ↔ Lts.Along step SetsFreeWithin init es) ∧
      (Lts.Along step SetsFreeWithin init es → ∀ s, Lts.run step init es = some s →
        s.undelivered ≤ recvDeliveryHardCap + maxDeliveryChargePerFrame) := by
  have hiff : Lts.Along step AddsWithin init es ↔ Lts.Along step SetsFreeWithin init es :=
    Lts.along_iff Sound (fun s e s' h hs _ => h.step hs) (fun s e s' h _ => adds_iff_setsFree h e)
      es sound_init
  refine ⟨hiff, ?_⟩
  intro halong s hrun
  have hstart : Bounded init := Nat.zero_le _
  exact Lts.run_inv_along (fun s e s' h hs hadds => Bounded.step h hs hadds) es hstart
    (hiff.2 halong) hrun

/-! ## A run behind one gap -/

/-- The payload of a peer that fills its frames. -/
def fullChunk : Bytes := replicate legacyAppChunk 0

def fullSegment (id : UInt16) (o : Nat) : Inbound where
  wireLen := maxRecvFrame
  flags := PacketFlags.reliable ||| PacketFlags.encrypted
  streamId := id
  plaintext := some (beBytes reliableOffsetLen o ++ fullChunk)
  fits := by
    intro p hp
    cases hp
    rw [length_append, beBytes_length, fullChunk, length_replicate]
    decide

/-- Nothing is in the way, and this side does not close its half. -/
def smooth : Env := { now := 0, sackOk := true, opens := true, acked := true, retirable := false }

theorem handlePacket_fullSegment (ho : o ≤ u32Max) (ht : s.target id true = some held) :
    s.handlePacket (fullSegment id o) smooth =
      s.reliableSegment id held o fullChunk false smooth := by
  have hseg : (fullSegment id o).isSegment := by
    simp only [Inbound.isSegment, fullSegment]
    decide
  have hoffset : beNat ((beBytes reliableOffsetLen o ++ fullChunk).take reliableOffsetLen) = o := by
    rw [take_left' (beBytes_length _ _), beNat_beBytes]
    exact Nat.mod_eq_of_lt (Nat.lt_succ_of_le ho)
  have hlong : ¬(beBytes reliableOffsetLen o ++ fullChunk).length < reliableOffsetLen := by simp
  show (if (fullSegment id o).flags.contains PacketFlags.encrypted then
    s.dispatch (fullSegment id o).flags id (beBytes reliableOffsetLen o ++ fullChunk) smooth
    else s) = _
  rw [if_pos (by simp only [fullSegment]; decide), dispatch_segment s hseg]
  unfold State.reliableFrame
  rw [if_neg hlong, hoffset, drop_left' (beBytes_length _ _)]
  have hfin : (fullSegment id o).flags.contains PacketFlags.fin = false := by
    simp only [fullSegment]
    decide
  simp only [show smooth.opens = true from rfl, ht, hfin]

theorem reliableSegment_smooth {accepted : Stream × List Bytes}
    (haccept : held.rx.acceptInOrder o [fullChunk] 0 = accepted) (hfin : held.remoteFin = .new)
    (hheld : accepted.1.recvSequence ≠ 0 ∨ accepted.1.recvBuffer ≠ []) :
    s.reliableSegment id held o fullChunk false smooth =
      (s.put id (some ⟨accepted.1, .new⟩)).enqueue id (handOn accepted.2) := by
  have hsack : (accepted.1.receivedSack 0 0).isNone = false := by
    rw [← Bool.not_eq_true, Option.isNone_iff_eq_none, Stream.receivedSack_eq_none]
    tauto
  simp [State.reliableSegment, smooth, haccept, hsack, hfin, State.takeFin,
    RemoteFin.takeInOrderFin, RemoteFin.new, State.put]

@[simp] theorem target_put_self (s : State) (id : UInt16) (held : Held) (opens : Bool) :
    (s.put id (some held)).target id opens = some held := by
  simp [State.target, State.put]

theorem target_put_of_ne {id' : UInt16} (hne : id' ≠ id) (s : State) (o : Option Held)
    (opens : Bool) : (s.put id o).target id' opens = s.target id' opens := by
  simp [State.target, State.put, hne]

@[simp] theorem enqueue_target (s : State) (id id' : UInt16) (items : List DeliverItem)
    (opens : Bool) : (s.enqueue id items).target id' opens = s.target id' opens := by
  simp [State.target]

@[simp] theorem put_ended (s : State) (id : UInt16) (held : Option Held) :
    (s.put id held).ended = s.ended := rfl

@[simp] theorem enqueue_ended (s : State) (id : UInt16) (items : List DeliverItem) :
    (s.enqueue id items).ended = s.ended := by
  unfold State.enqueue
  split <;> rfl

/-- The segments `1` to `k`. -/
def waiting (k : Nat) : List (Nat × List Bytes) := (range' 1 k).map (·, [fullChunk])

/-- On stream 4, `n` full segments are waiting to be delivered; on stream 2, `k` are waiting for the
one before them. -/
structure Filled (k n : Nat) (s : State) : Prop where
  taking : s.taking = true
  running : s.ended = false
  backlog : s.undelivered = n * deliveryCharge legacyAppChunk
  gapped : ∃ rx, s.target 2 true = some ⟨rx, .new⟩ ∧ rx.recvSequence = 0 ∧
    rx.recvBuffer = waiting k ∧ rx.recvBufferBytes = k * legacyAppChunk ∧
    rx.advertisedRecvWindow = initialStreamWindow
  flowing : ∃ rx, s.target 4 true = some ⟨rx, .new⟩ ∧ rx.recvSequence = n ∧ rx.recvBuffer = []

theorem filled_init : Filled 0 0 init where
  taking := rfl
  running := rfl
  backlog := rfl
  gapped := ⟨.new, rfl, rfl, rfl, rfl, rfl⟩
  flowing := ⟨.new, rfl, rfl, rfl⟩

theorem step_fullSegment (hrun : s.ended = false) (hcap : s.undelivered ≤ recvDeliveryHardCap)
    (id : UInt16) (o : Nat) :
    step s (.frame (fullSegment id o) smooth) =
      some (s.handlePacket (fullSegment id o) smooth) := by
  have hwire : ¬maxRecvFrame < (fullSegment id o).wireLen := Nat.lt_irrefl _
  simp only [step, hrun, State.receive, if_neg (Nat.not_lt.2 hcap), if_neg hwire]
  rfl

theorem fullCharge : deliveryCharge legacyAppChunk = 1428 := rfl

@[simp] theorem payloadBytes_fullChunk : Stream.payloadBytes [fullChunk] = legacyAppChunk := by
  simp [Stream.payloadBytes, fullChunk]

theorem charges_handOn_full (run : List Bytes) : DeliverItem.charges (handOn (fullChunk :: run)) =
      deliveryCharge legacyAppChunk + DeliverItem.charges (handOn run) := by
  have hlen : fullChunk.length = legacyAppChunk := length_replicate
  have hne : fullChunk ≠ [] := ne_nil_of_length_pos (by rw [hlen]; decide)
  rw [charges_handOn_cons, if_neg hne, hlen]

theorem waiting_succ (k : Nat) : waiting (k + 1) = waiting k ++ [(k + 1, [fullChunk])] := by
  simp [waiting, range'_concat, Nat.add_comm]

/-- A segment ahead of the gap is buffered. -/
theorem Filled.gap {k : Nat} (h : Filled k 0 s) (hk : k < 39) :
    Lts.Can step (Filled (k + 1) 0) s := by
  obtain ⟨rx, htarget, hseq, hbuf, hbytes, hwindow⟩ := h.gapped
  obtain ⟨rx4, htarget4, hseq4, hbuf4⟩ := h.flowing
  have haccept : rx.acceptInOrder (k + 1) [fullChunk] 0 = ({ rx with
      lastDataRecvAt := some 0
      recvBuffer := waiting (k + 1)
      recvBufferBytes := (k + 1) * legacyAppChunk }, []) := by
    have hnew : (waiting k).any (·.1 == k + 1) = false := by
      simp only [waiting, any_map, any_eq_false, mem_range'_1, Function.comp]
      intro x hx
      simp
      omega
    have hroom : k * legacyAppChunk + legacyAppChunk ≤ 40 * legacyAppChunk := by
      unfold legacyAppChunk
      omega
    have hlimit : 40 * legacyAppChunk ≤ initialStreamWindow + initialStreamWindow := by
      unfold legacyAppChunk initialStreamWindow
      omega
    have hlength : (waiting k).length < maxRecvReorder := by
      rw [waiting, length_map, length_range', maxRecvReorder]
      omega
    have hbound : min (k * legacyAppChunk + legacyAppChunk) u64Max ≤
        initialStreamWindow + initialStreamWindow :=
      (Nat.min_le_left _ _).trans (hroom.trans hlimit)
    simp [Stream.acceptInOrder, hseq, hbuf, hbytes, hwindow, hnew, hlength, hbound,
      Stream.recvReorderByteLimit, waiting_succ, Nat.succ_mul]
  have hback : s.undelivered ≤ recvDeliveryHardCap := by
    rw [h.backlog, Nat.zero_mul]
    exact Nat.zero_le _
  apply Lts.Can.next (step_fullSegment h.running hback 2 (k + 1))
  apply Lts.Can.here
  rw [handlePacket_fullSegment (by unfold u32Max; omega) htarget,
    reliableSegment_smooth haccept rfl (.inr (by simp [waiting_succ]))]
  refine ⟨by simpa using h.taking, by simpa using h.running, ?_,
    ⟨_, (enqueue_target ..).trans (target_put_self ..), hseq, rfl, rfl, hwindow⟩,
    ⟨rx4, ?_, hseq4, hbuf4⟩⟩
  · rw [enqueue_undelivered, handOn_nil, charges_nil, ite_self, put_undelivered, Nat.add_zero,
      h.backlog]
  · rw [enqueue_target, target_put_of_ne (by decide), htarget4]

/-- A segment without a gap before it is waiting to be delivered. -/
theorem Filled.flow (h : Filled k n s) (hn : n < 2937) : Lts.Can step (Filled k (n + 1)) s := by
  obtain ⟨rx, htarget, hrest⟩ := h.gapped
  obtain ⟨rx4, htarget4, hseq4, hbuf4⟩ := h.flowing
  have haccept : rx4.acceptInOrder n [fullChunk] 0 = ({ rx4 with
      lastDataRecvAt := some 0
      recvSequence := n + 1 }, [fullChunk]) := by
    have hmod : (n + 1) % (u32Max + 1) = n + 1 := Nat.mod_eq_of_lt (by unfold u32Max; omega)
    simp [Stream.acceptInOrder, hseq4, hbuf4, Stream.drain, hmod]
  have hback : s.undelivered ≤ recvDeliveryHardCap := by
    rw [h.backlog, fullCharge]
    unfold recvDeliveryHardCap
    omega
  apply Lts.Can.next (step_fullSegment h.running hback 4 n)
  apply Lts.Can.here
  rw [handlePacket_fullSegment (by unfold u32Max; omega) htarget4,
    reliableSegment_smooth haccept rfl (.inl (Nat.succ_ne_zero n))]
  refine ⟨by simpa using h.taking, by simpa using h.running, ?_, ⟨rx, ?_, hrest⟩,
    ⟨_, (enqueue_target ..).trans (target_put_self ..), rfl, hbuf4⟩⟩
  · rw [enqueue_undelivered, put_taking, h.taking, if_pos rfl, charges_handOn_full, handOn_nil,
      charges_nil, put_undelivered, h.backlog, Nat.succ_mul, Nat.add_zero]
  · rw [enqueue_target, target_put_of_ne (by decide), htarget]

theorem behind_waiting (k fuel j : Nat) (h : j + fuel = k) :
    behind (waiting k) fuel (j + 1) = (range' (j + 1) fuel).map (·, [fullChunk]) := by
  induction fuel generalizing j with
  | zero => rfl
  | succ _ ih =>
    have hfind : (waiting k).find? (·.1 == j + 1) = some (j + 1, [fullChunk]) := by
      rw [waiting, find?_map, Option.map_eq_some_iff]
      grind [find?_range'_eq_some]
    simp only [behind, hfind, range'_succ, map_cons]
    rw [ih (j + 1) (by omega)]

theorem charges_chunks (l : List Nat) :
    DeliverItem.charges (handOn ((l.map (·, [fullChunk])).flatMap (·.2))) =
      l.length * deliveryCharge legacyAppChunk := by
  induction l with
  | nil => rfl
  | cons o l ih =>
    rw [map_cons, flatMap_cons, singleton_append, charges_handOn_full, ih,
      length_cons, Nat.succ_mul, Nat.add_comm]

/-- The segment that closes the gap. -/
theorem Filled.close (h : Filled k n s) (hsound : Sound s) (hk : k < u32Max) :
    (s.handlePacket (fullSegment 2 0) smooth).undelivered =
      s.undelivered + (k + 1) * deliveryCharge legacyAppChunk := by
  obtain ⟨rx, htarget, hseq, hbuf, -, -⟩ := h.gapped
  have hrun : nextRun rx = waiting k := by
    rw [nextRun, hseq, hbuf, waiting, length_map, length_range']
    exact behind_waiting k k 0 (Nat.zero_add k)
  have hlen : (waiting k).length = k := by rw [waiting, length_map, length_range']
  have hbelow : StaysBelow rx := by
    rw [StaysBelow, hrun, hseq, hlen]
    omega
  have hnext := reliableSegment_next (hsound.target htarget) s 2 fullChunk false smooth
  rw [handlePacket_fullSegment (Nat.zero_le _) htarget]
  rw [hseq] at hnext
  have hitems : setFree ⟨rx, .new⟩ fullChunk false =
      handOn (((0 :: range' 1 k).map (·, [fullChunk])).flatMap (·.2)) := by
    simp [setFree, hrun, waiting, State.takeFin, RemoteFin.takeInOrderFin, RemoteFin.new]
  rw [hnext, if_pos ⟨h.taking, rfl, hbelow⟩, hitems, charges_chunks, length_cons,
    length_range']

/-- Thirty-nine full segments wait behind a gap while the backlog is just below the cap. The frame
that closes the gap adds more than the constant, and takes the backlog beyond the cap and the
constant. -/
theorem cascade_exceeds :
    ∃ s f env, Lts.Reaches step init s ∧ s.Handles f ∧
      s.undelivered + maxDeliveryChargePerFrame < (s.handlePacket f env).undelivered ∧
      recvDeliveryHardCap + maxDeliveryChargePerFrame < (s.handlePacket f env).undelivered := by
  have hgap : Lts.Can step (Filled 39 0) init :=
    Lts.Can.iterate (Q := fun k => Filled k 0) (fun k hk s h => h.gap hk) filled_init
  have hfull : Lts.Can step (Filled 39 2937) init :=
    hgap.bind fun t ht =>
      Lts.Can.iterate (Q := fun n => Filled 39 n) (fun n hn s h => h.flow hn) ht
  obtain ⟨s, hreach, hs⟩ := hfull
  have hsound : Sound s := hreach.inv Sound (fun _ _ _ h hs => h.step hs) sound_init
  have hclose := hs.close hsound (by decide)
  have hback := hs.backlog
  rw [fullCharge] at hback hclose
  have hmax : maxDeliveryChargePerFrame = 55986 := by decide
  have hcap : recvDeliveryHardCap = 4194304 := by decide
  refine ⟨s, fullSegment 2 0, smooth, hreach, ⟨?_, Nat.le_refl _⟩, ?_, ?_⟩ <;> omega

end PhantomProtocol.DeliveryBacklog
