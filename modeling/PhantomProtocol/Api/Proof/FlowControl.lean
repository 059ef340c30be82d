import PhantomProtocol.Api.Proof.RetryWrap
import PhantomProtocol.Transport.Proof.ChargedDelivery
import PhantomProtocol.Transport.Proof.RecvLedger

/-!
# Flow control is safe and does not stall

The two ledgers of a stream and the limits on the way between them, over every run of `FlowControl`.
-/

namespace PhantomProtocol

open List Option Lts

namespace FlowControl

open PhantomProtocol.Stream

variable {s s' : State} {e : Event} {data : Bytes} {limit : Nat} {fin : Bool}

/-! ## The receiver -/

def queued (queue : List (Bytes × Bool)) : Nat := ((queue.filter (·.2)).map (·.1.length)).sum

theorem queued_append (xs ys : List (Bytes × Bool)) :
    queued (xs ++ ys) = queued xs + queued ys := by
  simp [queued]

theorem queued_deliverInOrderRun (run : List Bytes) :
    queued (deliverInOrderRun run) = payloadBytes run := by
  induction run with
  | nil => rfl
  | cons data run ih =>
    have hcons : queued (deliverInOrderRun (data :: run)) =
        data.length + queued (deliverInOrderRun run) := by
      cases data with
      | nil | cons => simp [deliverInOrderRun, queued]
    rw [hcons, ih]
    simp [payloadBytes]

/-- The receiver has issued no more than what it has consumed and its window. -/
structure Granted (s : State) : Prop where
  coherent : ReliableDelivery.Coherent s.link
  chunks : ∀ data ∈ s.link.admitted, data.length ≤ maxAppChunk
  credited : s.link.rx.bytesConsumed + queued s.queue ≤ payloadBytes s.link.delivered
  initial : initialStreamWindow ≤ s.link.rx.advertisedRecvWindow
  window : s.link.rx.advertisedRecvWindow ≤ maxRecvWindow
  unreported : s.link.rx.bytesSinceLastUpdate < initialStreamWindow / 2
  issued : ∀ l ∈ s.issued, l ≤ s.link.rx.bytesConsumed + s.link.rx.advertisedRecvWindow
  staged : s.pendingWindowUpdate ≠ 0 → s.pendingWindowUpdate ∈ s.issued
  inHand : ∀ l ∈ s.flushing, l ∈ s.issued
  updates : ∀ l ∈ s.updates, l ∈ s.issued
  applied : ∀ l ∈ s.applied, l ∈ s.issued
  peer : ∃ l ∈ s.issued, s.link.tx.peerSendLimit ≤ l

/-- The latest limit leaves out what has been consumed and not reported. -/
def Latest (s : State) : Prop :=
  ∃ l ∈ s.issued.head?, s.link.rx.bytesConsumed + s.link.rx.advertisedRecvWindow ≤
    l + s.link.rx.bytesSinceLastUpdate

theorem granted_init : Granted init where
  coherent := ReliableDelivery.coherent_init
  chunks := by simp [init, ReliableDelivery.init]
  credited := Nat.le_refl _
  initial := Nat.le_refl _
  window := by decide
  unreported := by decide
  issued := by
    intro l hl
    cases mem_singleton.1 hl
    exact Nat.le_refl _
  staged h := absurd rfl h
  inHand := by simp [init]
  updates := by simp [init]
  applied _ hl := hl
  peer := ⟨_, mem_singleton.2 rfl, Nat.le_refl _⟩

theorem latest_init : Latest init := ⟨initialStreamWindow, rfl, Nat.le_refl _⟩

namespace Granted

section

variable (h : Granted s)
  {rest : List (Bytes × Bool)} {seg : OutboundSegment} {reliable : Bool} {data : Bytes}
include h

theorem delivered_bound : payloadBytes s.link.delivered + maxRecvWindow ≤ u64Max := by
  have hre := h.coherent.reassembled
  have hchunks : ∀ data ∈ s.link.delivered, data.length ≤ maxAppChunk := by
    rw [hre.delivered_eq]
    exact fun data hd => h.chunks data (mem_of_mem_take hd)
  have hlen : s.link.delivered.length ≤ u32Max := by
    rw [hre.delivered_eq]
    exact (length_take_le _ _).trans (hre.cursor_le.trans h.coherent.retains.bound)
  have hle := (payloadBytes_le hchunks).trans (Nat.mul_le_mul_right maxAppChunk hlen)
  have hroom : u32Max * maxAppChunk + maxRecvWindow ≤ u64Max := by decide
  omega

theorem recvLimit_eq :
    s.link.rx.recvLimit = s.link.rx.bytesConsumed + s.link.rx.advertisedRecvWindow := by
  have hbound := h.delivered_bound
  have hcredited := h.credited
  have hwindow := h.window
  unfold recvLimit
  omega

theorem relink {link : ReliableDelivery.State} (queue : List (Bytes × Bool))
    (hcoherent : ReliableDelivery.Coherent link)
    (hchunks : ∀ data ∈ link.admitted, data.length ≤ maxAppChunk)
    (hledger : link.rx.ledger = s.link.rx.ledger)
    (hcredited : s.link.rx.bytesConsumed + queued queue ≤ payloadBytes link.delivered)
    (hpeer : link.tx.peerSendLimit = s.link.tx.peerSendLimit) :
    Granted { s with link, queue } := by
  simp only [ledger, Prod.mk.injEq] at hledger
  obtain ⟨hcons, hwin, hun⟩ := hledger
  exact
    { coherent := hcoherent
      chunks := hchunks
      credited := hcons ▸ hcredited
      initial := hwin ▸ h.initial
      window := hwin ▸ h.window
      unreported := hun ▸ h.unreported
      issued := by
        dsimp only
        rw [hcons, hwin]
        exact h.issued
      staged := h.staged
      inHand := h.inHand
      updates := h.updates
      applied := h.applied
      peer := hpeer ▸ h.peer }

/-- The receiver states its limit. -/
theorem issue {limit : Nat} (hlimit : limit = s.link.rx.recvLimit) :
    Granted (issue s limit) ∧ Latest (FlowControl.issue s limit) := by
  rw [h.recvLimit_eq] at hlimit
  refine ⟨{ h with issued := ?_, staged := ?_, inHand := ?_, updates := ?_, applied := ?_, peer := ?_ },
    limit, rfl, ?_⟩
  · rintro l (_ | ⟨_, hl⟩)
    · exact hlimit ▸ Nat.le_refl _
    · exact h.issued l hl
  · intro hne
    simp only [FlowControl.issue, stageWindowUpdateLimit] at hne ⊢
    rcases Nat.le_total s.pendingWindowUpdate limit with hle | hle
    · rw [Nat.max_eq_right hle]
      exact mem_cons_self
    · rw [Nat.max_eq_left hle] at hne ⊢
      exact mem_cons_of_mem _ (h.staged hne)
  · exact fun l hl => mem_cons_of_mem _ (h.inHand l hl)
  · exact fun l hl => mem_cons_of_mem _ (h.updates l hl)
  · exact fun l hl => mem_cons_of_mem _ (h.applied l hl)
  · obtain ⟨l, hl, hle⟩ := h.peer
    exact ⟨l, mem_cons_of_mem _ hl, hle⟩
  · rw [hlimit]
    exact Nat.le_add_right ..

theorem consume_cases (hqueue : s.queue = (data, reliable) :: rest) (now : Nat) :
    ∃ rx tuning n limit, s.link.rx.Credits rx n limit ∧
      rx.recvSequence = s.link.rx.recvSequence ∧ rx.recvBuffer = s.link.rx.recvBuffer ∧
      n + queued rest ≤ queued s.queue ∧
      FlowControl.consume { s with queue := rest } data reliable now =
        limit.elim { s with queue := rest, link := { s.link with rx, tuning } }
          (FlowControl.issue { s with
            queue := rest, link := { s.link with rx, tuning } }) := by
  cases reliable with
  | false =>
    -- unreliable bytes are not credited
    refine ⟨s.link.rx, s.link.tuning, 0, none, ?_, rfl, rfl, ?_, rfl⟩
    · exact ⟨rfl, Nat.le_refl _, h.window, h.unreported, nofun, fun _ => ⟨rfl, rfl⟩⟩
    · simp [hqueue, queued]
  | true =>
    have hlen : data.length % (u32Max + 1) ≤ data.length := Nat.mod_le ..
    have hsum : queued s.queue = data.length + queued rest := by simp [hqueue, queued]
    have hcredited := h.credited
    have hbound := h.delivered_bound
    have hcredits := recordAppConsumed_credits (s := s.link.rx) (n := data.length % (u32Max + 1))
      s.link.tuning now (by omega) h.window
    obtain ⟨hseq, hbuf⟩ := s.link.rx.recordAppConsumed_frame s.link.tuning
      (data.length % (u32Max + 1)) true now
    refine ⟨_, (s.link.rx.recordAppConsumed s.link.tuning (data.length % (u32Max + 1)) true now).2.1,
      _, _, hcredits, hseq, hbuf, by omega, ?_⟩
    grind [FlowControl.consume]

/-- The delivery task takes a payload. -/
theorem consume (hl : Latest s) (hqueue : s.queue = (data, reliable) :: rest) (now : Nat) :
    Granted (FlowControl.consume { s with queue := rest } data reliable now) ∧
      Latest (FlowControl.consume { s with queue := rest } data reliable now) := by
  obtain ⟨rx, tuning, n, limit, hcredits, hseq, hbuf, hqueued, heq⟩ := h.consume_cases hqueue now
  have hcons := hcredits.consumed
  have hgrows := hcredits.grows
  have hcredited := h.credited
  have hgranted : Granted { s with
      queue := rest, link := { s.link with rx, tuning } } :=
    { h with
      coherent := h.coherent.receiver hseq hbuf tuning
      credited := by
        dsimp only
        omega
      initial := h.initial.trans hgrows
      window := hcredits.window
      unreported := hcredits.unreported
      issued := fun l hl => by
        have := h.issued l hl
        dsimp only
        omega }
  rw [heq]
  cases limit with
  | some limit => exact hgranted.issue (hcredits.stated limit rfl)
  | none =>
    refine ⟨hgranted, ?_⟩
    obtain ⟨l, hhead, hle⟩ := hl
    obtain ⟨hwin, hun⟩ := hcredits.silent rfl
    refine ⟨l, hhead, ?_⟩
    simp only [elim_none]
    omega

theorem arrive (hl : Latest s)
    (hgen : ReliableDelivery.Genuine s.link seg) (now : Nat) (acked : Bool) :
    Granted (FlowControl.arrive s seg now acked) ∧
      Latest (FlowControl.arrive s seg now acked) := by
  have hledger := s.link.rx.acceptInOrder_ledger seg.streamOffset [seg.data] now
  have hcoherent := h.coherent.arrive hgen now
  have hcredited := h.credited
  have hdelivered : payloadBytes (ReliableDelivery.arrive s.link seg now).delivered =
      payloadBytes s.link.delivered +
        payloadBytes (s.link.rx.acceptInOrder seg.streamOffset [seg.data] now).2 :=
    payloadBytes_append ..
  have hlatest : ∀ queue, Latest { s with
      link := ReliableDelivery.arrive s.link seg now, queue } := by
    intro queue
    simp only [ledger, Prod.mk.injEq] at hledger
    obtain ⟨hcons, hwin, hun⟩ := hledger
    unfold Latest
    simp only [ReliableDelivery.arrive]
    rw [hcons, hwin, hun]
    exact hl
  unfold FlowControl.arrive
  dsimp only
  cases acked with
  | false =>
    rw [if_neg Bool.false_ne_true]
    refine ⟨h.relink s.queue hcoherent h.chunks hledger ?_ rfl, hlatest s.queue⟩
    omega
  | true =>
    rw [if_pos rfl]
    have hgranted := h.relink (s.queue ++ deliverInOrderRun
        (s.link.rx.acceptInOrder seg.streamOffset [seg.data] now).2) hcoherent h.chunks hledger
      (by rw [queued_append, queued_deliverInOrderRun]; omega) rfl
    split
    · exact hgranted.issue rfl
    · exact ⟨hgranted, hlatest _⟩

theorem arriveUnreliable (hl : Latest s) : Granted (FlowControl.arriveUnreliable s seg) ∧
      Latest (FlowControl.arriveUnreliable s seg) := by
  unfold FlowControl.arriveUnreliable
  split
  · exact ⟨h, hl⟩
  · refine ⟨{ h with credited := ?_ }, hl⟩
    rw [queued_append]
    exact h.credited

end

end Granted

/-- What the transport's own events leave alone. -/
structure Carries (link link' : ReliableDelivery.State) : Prop where
  rx : link'.rx = link.rx
  delivered : link'.delivered = link.delivered
  limit : link'.tx.peerSendLimit = link.tx.peerSendLimit
  chunks : ∀ data ∈ link'.admitted, data ∈ link.admitted ∨ data.length ≤ maxAppChunk

theorem carries_offered {link : ReliableDelivery.State} {tx : Stream}
    (taken : Bool) (hadmits : link.tx.Admits tx data fin) (hsize : data.length ≤ maxAppChunk) :
    Carries link (ReliableDelivery.offered link tx taken data) := by
  refine ⟨rfl, rfl, hadmits.limit, fun d hd => ?_⟩
  unfold ReliableDelivery.offered at hd
  dsimp only at hd
  split at hd
  · grind
  · exact .inl hd

theorem transport_carries {link link' : ReliableDelivery.State} {e : ReliableDelivery.Event}
    (ho : offers e = true) (hs : ReliableDelivery.step link e = some link') :
    Carries link link' := by
  cases ReliableDelivery.step_moves hs with
  | offered _ hadmits => exact carries_offered _ hadmits (of_decide_eq_true ho)
  | idles hidles => exact ⟨rfl, rfl, hidles.limit, fun _ => .inl⟩
  | polled _ hb => exact ⟨rfl, rfl, hb.limit, fun _ => .inl⟩
  | @refused seg =>
    refine ⟨rfl, rfl, ?_, fun _ => .inl⟩
    dsimp only
    split
    · obtain ⟨heq, -⟩ | ⟨pre, p, post, -, -, heq⟩ := link.tx.markUnsent_cases seg.streamOffset
      · rw [heq]
      · rw [heq]
    · rfl
  | acked => exact ⟨rfl, rfl, (foldl_retire_totals _ _ link.tx).2, fun _ => .inl⟩
  | written | growth => exact ⟨rfl, rfl, rfl, fun _ => .inl⟩
  | arrives | granted | consumed => cases ho

/-- What each step finds and leaves. -/
inductive Steps (s : State) : Event → State → Prop
  | transport {e : ReliableDelivery.Event} {link : ReliableDelivery.State} (ho : offers e = true)
      (hlink : ReliableDelivery.step s.link e = some link) :
      Steps s (.transport e) { s with link }
  | arrive {seg : OutboundSegment} {i now : Nat} {acked : Bool}
      (hseg : s.link.segments[i]? = some seg) (hrel : seg.reliable = true) :
      Steps s (.segment i now acked) (arrive s seg now acked)
  | arriveUnreliable {seg : OutboundSegment} {i now : Nat} {acked : Bool} :
      Steps s (.segment i now acked) (arriveUnreliable s seg)
  | consume {data : Bytes} {reliable : Bool} {rest : List (Bytes × Bool)} {now : Nat}
      (hqueue : s.queue = (data, reliable) :: rest) :
      Steps s (.consume now) (consume { s with queue := rest } data reliable now)
  | flush (hidle : s.flushing = none) :
      Steps s .flush { s with
        pendingWindowUpdate := (takePendingWindowUpdate s.pendingWindowUpdate).1
        flushing := (takePendingWindowUpdate s.pendingWindowUpdate).2 }
  | written {limit : Nat} (hlimit : s.flushing = some limit) :
      Steps s (.flushed true) { s with flushing := none, updates := s.updates ++ [limit] }
  | refused {limit : Nat} (hlimit : s.flushing = some limit) :
      Steps s (.flushed false) { s with
        flushing := none
        pendingWindowUpdate := stageWindowUpdateLimit s.pendingWindowUpdate limit }
  | windowUpdate {i limit : Nat} (hlimit : s.updates[i]? = some limit) :
      Steps s (.windowUpdate i) { s with
        link := { s.link with tx := s.link.tx.applyPeerWindowLimit limit }
        applied := limit :: s.applied }

theorem step_steps (hs : step s e = some s') : Steps s e s' := by
  cases e with
  | transport =>
    obtain ⟨ho, hs⟩ := ite_none_right_eq_some.1 hs
    obtain ⟨link, hlink, rfl⟩ := map_eq_some_iff.1 hs
    exact .transport ho hlink
  | segment =>
    obtain ⟨seg, hseg, rfl⟩ := map_eq_some_iff.1 hs
    split
    · exact .arrive hseg ‹_›
    · exact .arriveUnreliable
  | consume =>
    simp only [FlowControl.step] at hs
    split at hs
    · cases hs
    · cases hs
      exact .consume ‹_›
  | flush =>
    obtain ⟨hidle, ⟨⟩⟩ := ite_none_left_eq_some.1 hs
    exact .flush (by simpa using hidle)
  | flushed ok =>
    obtain ⟨limit, hlimit, rfl⟩ := map_eq_some_iff.1 hs
    cases ok with
    | true => exact .written hlimit
    | false => exact .refused hlimit
  | windowUpdate =>
    obtain ⟨limit, hlimit, rfl⟩ := map_eq_some_iff.1 hs
    exact .windowUpdate hlimit

theorem takePendingWindowUpdate_some {pending limit : Nat}
    (h : limit ∈ (takePendingWindowUpdate pending).2) : limit = pending ∧ limit ≠ 0 := by
  unfold takePendingWindowUpdate at h
  split at h
  · cases h
  · cases h
    exact ⟨rfl, ‹_›⟩

theorem Granted.step (h : Granted s) (hl : Latest s) (hs : step s e = some s') :
    Granted s' ∧ Latest s' := by
  cases step_steps hs with
  | transport ho hlink =>
    have hc := transport_carries ho hlink
    refine ⟨h.relink s.queue (h.coherent.step hlink) (fun data hd => ?_) (by rw [hc.rx]) ?_
      hc.limit, ?_⟩
    · exact (hc.chunks data hd).elim (h.chunks data) id
    · exact hc.delivered ▸ h.credited
    · unfold Latest
      dsimp only
      rw [hc.rx]
      exact hl
  | arrive hseg hrel =>
    have hmem := mem_append_right s.link.polled.toList (mem_of_getElem? hseg)
    exact h.arrive hl (h.coherent.genuine _ hmem hrel) _ _
  | arriveUnreliable => exact h.arriveUnreliable hl
  | consume hqueue => exact h.consume hl hqueue _
  | flush =>
    refine ⟨{ h with staged := fun hne => absurd rfl hne, inHand := fun l hmem => ?_ }, hl⟩
    obtain ⟨rfl, hne⟩ := takePendingWindowUpdate_some hmem
    exact h.staged hne
  | written hlimit =>
    refine ⟨{ h with inHand := by simp, updates := fun l hmem => ?_ }, hl⟩
    rcases mem_append.1 hmem with hmem | hmem
    · exact h.updates l hmem
    · cases mem_singleton.1 hmem
      exact h.inHand _ hlimit
  | refused hlimit =>
    refine ⟨{ h with inHand := by simp, staged := fun hne => ?_ }, hl⟩
    simp only [stageWindowUpdateLimit] at hne ⊢
    rcases Nat.le_total s.pendingWindowUpdate _ with hle | hle
    · rw [Nat.max_eq_right hle]
      exact h.inHand _ hlimit
    · rw [Nat.max_eq_left hle] at hne ⊢
      exact h.staged hne
  | @windowUpdate _ limit hlimit =>
    have hissued := h.updates limit (mem_of_getElem? hlimit)
    refine ⟨{ h with
      coherent := h.coherent.keeps ⟨rfl, rfl, rfl, rfl⟩, applied := ?_, peer := ?_ }, hl⟩
    · rintro l (_ | ⟨_, hmem⟩)
      · exact hissued
      · exact h.applied l hmem
    · obtain ⟨l, hmem, hle⟩ := h.peer
      grind [applyPeerWindowLimit]

/-! ## The way of a limit -/

/-- What a step does to the slot, to the send loop and to the frames written. -/
inductive Staged (s s' : State) : Prop
  | idle (hslot : s'.pendingWindowUpdate = s.pendingWindowUpdate) (hhand : s'.flushing = s.flushing)
      (hsent : s'.updates = s.updates)
  | issued (hslot : s'.pendingWindowUpdate = max s.pendingWindowUpdate s'.link.rx.recvLimit)
      (hhand : s'.flushing = s.flushing) (hsent : s'.updates = s.updates)
  | taken (hslot : s'.pendingWindowUpdate = 0) (hidle : s.flushing = none)
      (hhand : ∀ l ∈ s'.flushing, l = s.pendingWindowUpdate ∧ l ≠ 0) (hsent : s'.updates = s.updates)
  | written {l : Nat} (hslot : s'.pendingWindowUpdate = s.pendingWindowUpdate)
      (hhand : s.flushing = some l) (hidle : s'.flushing = none) (hsent : s'.updates = s.updates ++ [l])
  | failed {l : Nat} (hslot : s'.pendingWindowUpdate = max s.pendingWindowUpdate l)
      (hhand : s.flushing = some l) (hidle : s'.flushing = none) (hsent : s'.updates = s.updates)

/-- The limit the receiver would state now. -/
def allowance (s : State) : Nat := s.link.rx.bytesConsumed + s.link.rx.advertisedRecvWindow

theorem allowance_eq_of_ledger (h : s'.link.rx.ledger = s.link.rx.ledger) :
    allowance s' = allowance s := by
  simp only [ledger, Prod.mk.injEq] at h
  unfold allowance
  rw [h.1, h.2.1]

theorem Granted.step_staged (h : Granted s) (hs : FlowControl.step s e = some s') :
    Staged s s' ∧ allowance s ≤ allowance s' := by
  cases step_steps hs with
  | transport ho hlink =>
    refine ⟨.idle rfl rfl rfl, Nat.le_of_eq ?_⟩
    unfold allowance
    rw [(transport_carries ho hlink).rx]
  | arrive _ _ =>
    refine ⟨?_, Nat.le_of_eq (allowance_eq_of_ledger ?_).symm⟩
    · unfold FlowControl.arrive
      dsimp only
      split
      · split
        · exact .issued rfl rfl rfl
        · exact .idle rfl rfl rfl
      · exact .idle rfl rfl rfl
    · rw [arrive_link]
      exact s.link.rx.acceptInOrder_ledger ..
  | arriveUnreliable =>
    unfold FlowControl.arriveUnreliable
    split
    · exact ⟨.idle rfl rfl rfl, Nat.le_refl _⟩
    · exact ⟨.idle rfl rfl rfl, Nat.le_refl _⟩
  | consume hqueue =>
    obtain ⟨rx, tuning, n, limit, hcredits, -, -, -, heq⟩ := h.consume_cases hqueue _
    have hle : s.link.rx.bytesConsumed + s.link.rx.advertisedRecvWindow ≤
        rx.bytesConsumed + rx.advertisedRecvWindow := by
      have hcons := hcredits.consumed
      have hgrows := hcredits.grows
      omega
    rw [heq]
    cases limit with
    | none => exact ⟨.idle rfl rfl rfl, hle⟩
    | some limit =>
      refine ⟨.issued ?_ rfl rfl, hle⟩
      rw [hcredits.stated limit rfl]
      rfl
  | flush hidle =>
    exact ⟨.taken rfl hidle (fun l hl => takePendingWindowUpdate_some hl) rfl, Nat.le_refl _⟩
  | written hlimit => exact ⟨.written rfl hlimit rfl rfl, Nat.le_refl _⟩
  | refused hlimit => exact ⟨.failed rfl hlimit rfl rfl, Nat.le_refl _⟩
  | windowUpdate _ => exact ⟨.idle rfl rfl rfl, Nat.le_refl _⟩

/-- The receiver has been asked for its limit: whatever the send loop takes from now on is at least
`limit`. -/
structure Answering (limit : Nat) (s : State) : Prop where
  granted : Granted s
  latest : Latest s
  allowed : limit ≤ allowance s
  slot : s.pendingWindowUpdate = 0 ∨ limit ≤ s.pendingWindowUpdate
  inHand : ∀ l ∈ s.flushing, limit ≤ l ∨ limit ≤ s.pendingWindowUpdate

theorem Answering.step (h : Answering limit s)
    (hs : FlowControl.step s e = some s') : Answering limit s' := by
  obtain ⟨hgranted, hlatest⟩ := h.granted.step h.latest hs
  obtain ⟨hstaged, hmono⟩ := h.granted.step_staged hs
  have hallowed := h.allowed.trans hmono
  have hslot := h.slot
  refine ⟨hgranted, hlatest, hallowed, ?_, ?_⟩
  · cases hstaged with
    | idle hslot' => exact hslot' ▸ hslot
    | issued hslot' =>
      rw [hgranted.recvLimit_eq] at hslot'
      exact .inr (hslot' ▸ hallowed.trans (Nat.le_max_right ..))
    | taken hslot' => exact .inl hslot'
    | written hslot' => exact hslot' ▸ hslot
    | @failed l hslot' hhand =>
      have hl := h.inHand l hhand
      rw [hslot']
      omega
  · cases hstaged with
    | idle hslot' hhand =>
      rw [hhand, hslot']
      exact h.inHand
    | issued hslot' =>
      rw [hgranted.recvLimit_eq] at hslot'
      exact fun l _ => .inr (hslot' ▸ hallowed.trans (Nat.le_max_right ..))
    | taken => grind
    | written _ _ hidle => simp [hidle]
    | failed _ _ hidle => simp [hidle]

theorem Granted.updates_keep (h : Granted s) (hs : FlowControl.step s e = some s')
    {j l : Nat} (hj : s.updates[j]? = some l) : s'.updates[j]? = some l := by
  obtain ⟨hstaged, -⟩ := h.step_staged hs
  cases hstaged with
  | idle _ _ hsent => rwa [hsent]
  | issued _ _ hsent => rwa [hsent]
  | taken _ _ _ hsent => rwa [hsent]
  | written => grind
  | failed _ _ _ hsent => rwa [hsent]

/-! ## Both ends -/

def CountsCopies (s : State) (e : Event) (_ : State) : Prop :=
  e = .transport .refused → s.link.tx.CountsCopies s.link.polled

instance (s : State) (e : Event) (s' : State) : Decidable (CountsCopies s e s') :=
  inferInstanceAs (Decidable (_ → _))

/-- Both ends, and the sender's ledger. -/
structure Inv (s : State) : Prop where
  granted : Granted s
  latest : Latest s
  charged : ReliableDelivery.Charged s.link
  applied : ∀ l ∈ s.applied, l ≤ s.link.tx.peerSendLimit

theorem inv_init : Inv init where
  granted := granted_init
  latest := latest_init
  charged := ReliableDelivery.charged_init
  applied l hl := by
    cases mem_singleton.1 hl
    exact Nat.le_refl _

theorem step_link (hs : step s e = some s') :
    (∃ limit ∈ s.updates, s'.link = { s.link with tx := s.link.tx.applyPeerWindowLimit limit } ∧
        s'.applied = limit :: s.applied) ∨
      s'.applied = s.applied ∧ s'.link.tx.peerSendLimit = s.link.tx.peerSendLimit ∧
        (s'.link = s.link ∨ ∃ e', ReliableDelivery.step s.link e' = some s'.link ∧
          ReliableDelivery.Fits e' ∧
            (CountsCopies s e s' → ReliableDelivery.CountsCopies s.link e')) := by
  cases step_steps hs with
  | @transport e _ ho hlink =>
    refine .inr ⟨rfl, (transport_carries ho hlink).limit,
      .inr ⟨e, hlink, ?_, fun hc he => hc (he ▸ rfl)⟩⟩
    have hsize : maxAppChunk ≤ u32Max := by decide
    cases e with
    | offer => exact (of_decide_eq_true ho).trans hsize
    | _ => trivial
  | @arrive seg i now acked hseg hrel =>
    have hstep : ReliableDelivery.step s.link (.segment i now) =
        some (ReliableDelivery.arrive s.link seg now) := by
      simp only [ReliableDelivery.step, hseg, hrel, if_true]
    refine .inr ⟨arrive_applied .., by rw [arrive_link]; rfl, .inr ⟨.segment i now, ?_, ?_⟩⟩
    · rw [arrive_link, hstep]
    · exact ⟨trivial, fun _ he => by cases he⟩
  | arriveUnreliable => simp
  | @consume data reliable _ now _ =>
    refine .inr ⟨consume_applied .., by rw [consume_link],
      .inr ⟨.consumed (data.length % (u32Max + 1)) reliable now, ?_, trivial, ?_⟩⟩
    · rw [consume_link]
      rfl
    · exact fun _ he => by cases he
  | flush | written | refused => exact .inr ⟨rfl, rfl, .inl rfl⟩
  | windowUpdate hlimit => exact .inl ⟨_, mem_of_getElem? hlimit, rfl, rfl⟩

/-- The peer's limit never goes down. -/
theorem peerSendLimit_mono (hs : step s e = some s') :
    s.link.tx.peerSendLimit ≤ s'.link.tx.peerSendLimit := by
  obtain ⟨limit, -, hlink, -⟩ | ⟨-, hsame, -⟩ := step_link hs
  · rw [hlink]
    exact Nat.le_max_left ..
  · exact Nat.le_of_eq hsame.symm

namespace Inv

theorem consumed_le (h : Inv s) : s.link.rx.bytesConsumed ≤ s.link.tx.bytesSent := by
  have hcredited := h.granted.credited
  have hdelivered := h.charged.delivered_le
  omega

theorem ceiling (h : Inv s) {l : Nat} (hl : l ∈ s.issued) :
    min l (min (s.link.tx.bytesSent + maxSendWindow) u64Max) = l := by
  have hissued := h.granted.issued l hl
  have hconsumed := h.consumed_le
  have hcredited := h.granted.credited
  have hwindow : s.link.rx.advertisedRecvWindow ≤ maxSendWindow := h.granted.window
  have hbound : payloadBytes s.link.delivered + maxSendWindow ≤ u64Max := h.granted.delivered_bound
  omega

theorem sent_le (h : Inv s) :
    s.link.tx.bytesSent ≤ s.link.rx.bytesConsumed + s.link.rx.advertisedRecvWindow := by
  obtain ⟨l, hl, hle⟩ := h.granted.peer
  exact h.charged.balance.limit.trans (hle.trans (h.granted.issued l hl))

theorem step {e : Event} (h : Inv s) (hs : step s e = some s') (hc : CountsCopies s e s') :
    Inv s' := by
  obtain ⟨hgranted, hlatest⟩ := h.granted.step h.latest hs
  obtain ⟨limit, hlimit, hlink, happlied⟩ | ⟨happlied, hsame, hlink⟩ := step_link hs
  · refine ⟨hgranted, hlatest, ?_, ?_⟩
    · rw [hlink]
      exact h.charged.step (e := .windowUpdate limit) rfl trivial nofun
    · -- the limit takes effect as it was stated
      have hceiling := h.ceiling (h.granted.updates limit hlimit)
      rw [happlied, hlink]
      simp only [applyPeerWindowLimit, hceiling]
      rintro l (_ | ⟨_, hl⟩)
      · exact Nat.le_max_right ..
      · exact (h.applied l hl).trans (Nat.le_max_left ..)
  · refine ⟨hgranted, hlatest, ?_, ?_⟩
    · rcases hlink with hlink | ⟨e', hstep, hfits, hcopies⟩
      · exact hlink ▸ h.charged
      · exact h.charged.step hstep hfits (hcopies hc)
    · rw [happlied, hsame]
      exact h.applied

theorem of_leads (h : Leads FlowControl.step CountsCopies init s) : Inv s :=
  h.inv (fun _ _ _ hi hs hp => hi.step hs hp) inv_init

end Inv

theorem Wired.volume_le {n : Nat} (h : Wired s n) :
    n * maxAppChunk ≤ volume (carried s.link.segments) := by
  have hbytes : payloadBytes ((List.replicate n chunk).take n) = n * maxAppChunk := by
    simp [payloadBytes, chunk_length]
  rw [← hbytes]
  refine payloadBytes_take_le fun o ho => ⟨chunk, ?_, .inr (h o ho)⟩
  rw [List.getElem?_replicate, if_pos ho]

/-- **Flow control is safe.** In every run that counts copies: the sender has charged no more than
what the receiver has consumed and its window, and what it has charged is what it has written and is
writing; its limit is at most one the receiver has issued, and never goes down; and every limit
issued takes effect as it was stated, whenever it arrives. -/
theorem sent_within_window (h : Leads step CountsCopies init s) :
    s.link.tx.bytesSent ≤ s.link.rx.bytesConsumed + s.link.rx.advertisedRecvWindow ∧
      s.link.tx.bytesSent = volume (carried (s.link.segments ++ s.link.polled.toList)) ∧
      (∃ l ∈ s.issued, s.link.tx.peerSendLimit ≤ l) ∧
      (∀ s', Reaches step s s' → s.link.tx.peerSendLimit ≤ s'.link.tx.peerSendLimit) ∧
      ∀ l ∈ s.issued, min l (min (s.link.tx.bytesSent + maxSendWindow) u64Max) = l := by
  have hinv := Inv.of_leads h
  refine ⟨hinv.sent_le, ?_, hinv.granted.peer, fun s' hs' => ?_, fun l hl => hinv.ceiling hl⟩
  · rw [carried_append]
    exact hinv.charged.balance.total
  · exact hs'.mono (f := fun t => t.link.tx.peerSendLimit) fun _ _ _ hs => peerSendLimit_mono hs

/-- A chunk whose first write is refused arrives twice and is consumed; an empty one asks for the
limit, and the answer arrives twice. -/
def refusedOnce : List Event :=
  [.transport (.offer (.sendReliable [1, 2, 3])), .transport (.pollSend 9 0 0 false 0),
    .transport .refused, .transport (.pollSend 9 0 0 false 1), .transport .written,
    .segment 0 2 true, .segment 0 3 true, .consume 4, .transport (.sack 0 5),
    .transport (.offer (.sendReliable [])), .transport (.pollSend 9 0 0 false 6),
    .transport .written, .segment 1 7 true, .flush, .flushed true, .windowUpdate 0, .windowUpdate 0]

theorem sent_within_window_refusedOnce :
    ∃ s, run step init refusedOnce = some s ∧ s.link.tx.bytesSent = 3 ∧
      s.link.tx.peerSendLimit = initialStreamWindow + 3 ∧
      s.link.tx.bytesSent ≤ s.link.rx.bytesConsumed + s.link.rx.advertisedRecvWindow := by
  have hrun : (run step init refusedOnce).map
      (fun s => (s.link.tx.bytesSent, s.link.tx.peerSendLimit)) =
      some (3, initialStreamWindow + 3) := by
    decide +kernel
  have halong : Along step CountsCopies init refusedOnce := by decide +kernel
  obtain ⟨s, hs, heq⟩ := map_eq_some_iff.1 hrun
  obtain ⟨hsent, hlimit⟩ := Prod.mk.inj heq
  exact ⟨s, hs, hsent, hlimit, (sent_within_window ⟨_, hs, halong⟩).1⟩

/-- One chunk is retransmitted 2^32 times, and the last of these writes is refused. Then 56 chunks
fill the window, of which nothing is consumed: there is one chunk too many on the wire. -/
theorem sent_exceeds_window :
    ∃ s, Reaches step init s ∧
      s.link.rx.bytesConsumed + s.link.rx.advertisedRecvWindow <
        volume (carried (s.link.segments ++ s.link.polled.toList)) := by
  have hwrapped := quiet_init.wraps (fun _ ho => absurd ho (Nat.not_lt_zero _)) (by decide)
    (by decide)
  have hfilled : Can step (fun t => Quiet t (56 + 1) (56 + 1) (56 + 1) (56 * maxAppChunk) [] ∧
      Wired t (56 + 1)) init := by
    refine hwrapped.bind fun t ht => Can.iterate (Q := fun k t =>
      Quiet t (k + 1) (k + 1) (k + 1) (k * maxAppChunk) [] ∧ Wired t (k + 1)) (fun k hk u hu => ?_)
      (by simpa using ht)
    have hoffsets : 58 ≤ u32Max := by decide
    have hroom : 56 * maxAppChunk ≤ initialStreamWindow := by decide
    have hmul := Nat.mul_le_mul_right maxAppChunk (Nat.succ_le_of_lt hk)
    rw [Nat.succ_mul] at hmul ⊢
    exact hu.1.delivers hu.2 (by omega) (hmul.trans hroom)
  obtain ⟨s, hs, hquiet, hwired⟩ := hfilled
  refine ⟨s, hs, ?_⟩
  have hvolume := hwired.volume_le
  have hconsumed := hquiet.consumed
  have hwindow : initialStreamWindow < (56 + 1) * maxAppChunk := by decide
  rw [hquiet.polled, hquiet.window, toList_none, append_nil]
  omega

theorem Granted.probed {seg : OutboundSegment} {i now : Nat} {s₁ : State} (h : Granted s)
    (hl : Latest s) (hseg : s.link.segments[i]? = some seg) (hrel : seg.reliable = true)
    (hempty : seg.data = []) (hfin : seg.fin = false)
    (hs : FlowControl.step s (.segment i now true) = some s₁) :
    allowance s₁ ≤ s₁.pendingWindowUpdate ∧ s₁.pendingWindowUpdate ≠ 0 := by
  obtain ⟨hgranted, -⟩ := h.step hl hs
  have heq : s₁ = FlowControl.arrive s seg now true := by
    simpa [FlowControl.step, hseg, hrel] using hs.symm
  have hstaged : s₁.pendingWindowUpdate = max s.pendingWindowUpdate s₁.link.rx.recvLimit := by
    rw [heq]
    simp only [FlowControl.arrive, hempty, hfin, if_true]
    rfl
  have hslot : allowance s₁ ≤ s₁.pendingWindowUpdate := by
    rw [hstaged, hgranted.recvLimit_eq]
    exact Nat.le_max_right ..
  have hinitial := hgranted.initial
  have hwindow : 0 < initialStreamWindow := by decide
  refine ⟨hslot, ?_⟩
  unfold allowance at hslot
  omega

theorem run_answer (hidle : s.flushing = none) (hpos : s.pendingWindowUpdate ≠ 0) :
    run step s [.flush, .flushed true, .windowUpdate s.updates.length] = some { s with
      link := { s.link with tx := s.link.tx.applyPeerWindowLimit s.pendingWindowUpdate }
      pendingWindowUpdate := 0
      updates := s.updates ++ [s.pendingWindowUpdate]
      applied := s.pendingWindowUpdate :: s.applied } := by
  simp [run, step, takePendingWindowUpdate, hidle, hpos]

theorem run_flush {s₃ : State} (h : run step s [.flush, .flushed true] = some s₃) :
    s.flushing = none ∧ s.pendingWindowUpdate ≠ 0 ∧
      s₃ = { s with
        pendingWindowUpdate := 0, updates := s.updates ++ [s.pendingWindowUpdate] } := by
  obtain ⟨t, ht, hrest⟩ := run_cons_inv h
  obtain ⟨u, hu, hnil⟩ := run_cons_inv hrest
  cases hnil
  simp only [step] at ht
  split at ht
  · cases ht
  · rename_i hidle
    cases ht
    have hnone : s.flushing = none := by simpa using hidle
    by_cases hzero : s.pendingWindowUpdate = 0
    · simp [step, takePendingWindowUpdate, hzero] at hu
    · simp_all [step, takePendingWindowUpdate, map_some]

theorem leads_flush {s₃ : State} (h : run step s [.flush, .flushed true] = some s₃) :
    Leads step CountsCopies s s₃ :=
  ⟨_, h, fun _ _ => ⟨nofun, fun _ _ => ⟨nofun, trivial⟩⟩⟩

theorem Inv.answered {s₂ s₃ s₄ s₅ : State} (h : Inv s) (hans : Answering limit s)
    (h₂ : Leads FlowControl.step CountsCopies s s₂)
    (h₃ : run FlowControl.step s₂ [.flush, .flushed true] = some s₃)
    (h₄ : Leads FlowControl.step CountsCopies s₃ s₄)
    (h₅ : FlowControl.step s₄ (.windowUpdate s₂.updates.length) = some s₅) :
    limit ≤ s₅.link.tx.peerSendLimit ∧ s₅.link.tx.peerSendLimit ≤ allowance s₅ := by
  have hstep : ∀ t e t', Inv t → FlowControl.step t e = some t' → CountsCopies t e t' → Inv t' :=
    fun _ _ _ hi hs hc => hi.step hs hc
  have hans₂ : Answering limit s₂ := h₂.reaches.inv _ (fun _ _ _ hi hs => hi.step hs) hans
  have hinv₃ : Inv s₃ := (leads_flush h₃).inv hstep (h₂.inv hstep h)
  have hinv₄ : Inv s₄ := h₄.inv hstep hinv₃
  have hinv₅ : Inv s₅ := hinv₄.step h₅ nofun
  obtain ⟨-, hne, heq⟩ := run_flush h₃
  have hle : limit ≤ s₂.pendingWindowUpdate := hans₂.slot.resolve_left hne
  have hwritten : s₃.updates[s₂.updates.length]? = some s₂.pendingWindowUpdate := by simp [*]
  have hkept : Granted s₄ ∧ Latest s₄ ∧
      s₄.updates[s₂.updates.length]? = some s₂.pendingWindowUpdate := by
    refine h₄.reaches.inv (fun t => Granted t ∧ Latest t ∧
      t.updates[s₂.updates.length]? = some s₂.pendingWindowUpdate) (fun t e t' hi hs => ?_)
      ⟨hinv₃.granted, hinv₃.latest, hwritten⟩
    obtain ⟨hg, hl⟩ := hi.1.step hi.2.1 hs
    exact ⟨hg, hl, hi.1.updates_keep hs hi.2.2⟩
  refine ⟨?_, ?_⟩
  · obtain ⟨l, hl, rfl⟩ := map_eq_some_iff.1 h₅
    cases Option.some.inj (hkept.2.2.symm.trans hl)
    have hceiling := hinv₄.ceiling (hinv₄.granted.updates _ (mem_of_getElem? hl))
    simp only [applyPeerWindowLimit, hceiling]
    exact hle.trans (Nat.le_max_right ..)
  · obtain ⟨l, hl, hpeer⟩ := hinv₅.granted.peer
    exact hpeer.trans (hinv₅.granted.issued l hl)

/-- **An idle receiver's peer is not stalled.** In every run that counts copies: once the sender has
applied the latest limit and the receiver has consumed all it was charged, more than half the
initial window is open. And after a probe has arrived, the frame the send loop writes next raises
the sender's limit, whenever it arrives, to what the receiver allowed when it was asked at least,
and to what it allows now at most; when nothing comes between, to that amount. -/
theorem window_reopens (h : Leads step CountsCopies init s) :
    (∀ l ∈ s.issued.head?, l ∈ s.applied → s.link.tx.bytesSent = s.link.rx.bytesConsumed →
        s.link.tx.bytesSent + initialStreamWindow / 2 < s.link.tx.peerSendLimit) ∧
      ∀ i seg now s₁, s.link.segments[i]? = some seg → seg.reliable = true → seg.data = [] →
        seg.fin = false → step s (.segment i now true) = some s₁ →
        (∀ s₂ s₃ s₄ s₅, Leads step CountsCopies s₁ s₂ →
          run step s₂ [.flush, .flushed true] = some s₃ →
          Leads step CountsCopies s₃ s₄ →
          step s₄ (.windowUpdate s₂.updates.length) = some s₅ →
          allowance s₁ ≤ s₅.link.tx.peerSendLimit ∧ s₅.link.tx.peerSendLimit ≤ allowance s₅) ∧
        (s₁.flushing = none → ∃ s₅,
          run step s₁ [.flush, .flushed true, .windowUpdate s₁.updates.length] = some s₅ ∧
          s₅.link.tx.peerSendLimit = allowance s₁ ∧ allowance s₅ = allowance s₁) := by
  have hinv := Inv.of_leads h
  refine ⟨fun l hhead happ hidle => ?_, fun i seg now s₁ hseg hrel hempty hfin hs => ?_⟩
  · obtain ⟨l', hhead', hle⟩ := hinv.latest
    cases Option.some.inj (mem_def.1 hhead ▸ mem_def.1 hhead')
    have hlimit := hinv.applied l happ
    have hinitial := hinv.granted.initial
    have hunreported := hinv.granted.unreported
    omega
  · have hinv₁ := hinv.step hs nofun
    obtain ⟨hslot, hpos⟩ := hinv.granted.probed hinv.latest hseg hrel hempty hfin hs
    have hans : Answering (allowance s₁) s₁ :=
      ⟨hinv₁.granted, hinv₁.latest, Nat.le_refl _, .inr hslot, fun _ _ => .inr hslot⟩
    refine ⟨fun s₂ s₃ s₄ s₅ h₂ h₃ h₄ h₅ => hinv₁.answered hans h₂ h₃ h₄ h₅, fun hidle => ?_⟩
    have hflush : run step s₁ [.flush, .flushed true] = some { s₁ with
        pendingWindowUpdate := 0, updates := s₁.updates ++ [s₁.pendingWindowUpdate] } := by
      simp [run, step, takePendingWindowUpdate, hidle, hpos]
    have hrun := run_answer hidle hpos
    rw [show [Event.flush, .flushed true, .windowUpdate s₁.updates.length] =
      [.flush, .flushed true] ++ [.windowUpdate s₁.updates.length] from rfl, run_append,
      hflush] at hrun
    obtain ⟨_, hlast, hnil⟩ := run_cons_inv hrun
    cases hnil
    obtain ⟨hlow, hhigh⟩ := hinv₁.answered hans ⟨[], rfl, trivial⟩ hflush ⟨[], rfl, trivial⟩ hlast
    exact ⟨_, run_answer hidle hpos, Nat.le_antisymm hhigh hlow, rfl⟩

/-- A chunk is sent and consumed, and an empty one is on the way. -/
def asking : List Event :=
  [.transport (.offer (.sendReliable [1])), .transport (.pollSend 9 0 0 false 0),
    .transport .written, .segment 0 1 true, .consume 2, .transport (.offer (.sendReliable [])),
    .transport (.pollSend 9 0 0 false 3), .transport .written]

theorem window_reopens_asking :
    ∃ s s₁ s₅, run step init asking = some s ∧ step s (.segment 1 4 true) = some s₁ ∧
      s.link.tx.bytesSent + initialStreamWindow / 2 < s.link.tx.peerSendLimit ∧
      run step s₁ [.flush, .flushed true, .windowUpdate 0] = some s₅ ∧
      s₅.link.tx.peerSendLimit = initialStreamWindow + 1 := by
  have hrun : (run step init asking).map (fun s =>
      (s.issued, s.applied, s.link.tx.bytesSent, s.link.rx.bytesConsumed, s.link.segments[1]?)) =
      some ([initialStreamWindow], [initialStreamWindow], 1, 1,
        some ⟨1, [], true, false, false, none, false⟩) := by
    decide +kernel
  have hasked : (run step init (asking ++ [.segment 1 4 true])).map
      (fun s => (s.flushing, s.updates, allowance s)) = some (none, [], initialStreamWindow + 1) := by
    decide +kernel
  have halong : Along step CountsCopies init asking := by decide +kernel
  obtain ⟨s, hs, heq⟩ := map_eq_some_iff.1 hrun
  simp only [Prod.mk.injEq] at heq
  obtain ⟨hissued, happlied, hsent, hconsumed, hseg⟩ := heq
  obtain ⟨s₁, hs₁, heq₁⟩ := map_eq_some_iff.1 hasked
  simp only [Prod.mk.injEq] at heq₁
  obtain ⟨hidle, hupdates, hallowed⟩ := heq₁
  rw [run_append, hs] at hs₁
  obtain ⟨_, hstep, hnil⟩ := run_cons_inv hs₁
  cases hnil
  obtain ⟨hopen, hanswer⟩ := window_reopens ⟨_, hs, halong⟩
  obtain ⟨s₅, hs₅, hlimit, -⟩ := (hanswer 1 _ 4 s₁ hseg rfl rfl rfl hstep).2 hidle
  rw [hupdates] at hs₅
  refine ⟨s, s₁, s₅, hs, hstep, ?_, hs₅, hlimit.trans hallowed⟩
  exact hopen initialStreamWindow (by rw [hissued]; rfl) (by rw [happlied]; simp)
    (hsent.trans hconsumed.symm)

theorem can_overdraw :
    Can step (fun t => Quiet t (851 + 56) (851 + 56) 0 (56 * maxAppChunk) [] ∧
      Wired t (851 + 56)) init := by
  have hoffsets : 1000 ≤ u32Max := by decide
  have hroom : 56 * maxAppChunk ≤ initialStreamWindow := by decide
  have hwrapped : Can step (fun t => Quiet t 851 851 0 0 [] ∧ Wired t 851) init := by
    refine Can.iterate (Q := fun k t => Quiet t k k 0 0 [] ∧ Wired t k) (fun k hk t ht => ?_)
      ⟨quiet_init, fun _ ho => absurd ho (Nat.not_lt_zero _)⟩
    exact (ht.1.wraps ht.2 (by omega) (by decide)).bind fun u hu =>
      hu.1.consume hu.2 (by omega)
  refine hwrapped.bind fun t ht => Can.iterate (Q := fun k t =>
    Quiet t (851 + k) (851 + k) 0 (k * maxAppChunk) [] ∧ Wired t (851 + k)) (fun k hk u hu => ?_)
    (by simpa using ht)
  have hmul := Nat.mul_le_mul_right maxAppChunk (Nat.succ_le_of_lt hk)
  rw [Nat.succ_mul] at hmul ⊢
  exact (hu.1.delivers hu.2 (by omega) (hmul.trans hroom)).bind fun v hv =>
    hv.1.consume hv.2 (by omega)

theorem can_probe : Can step (fun t => t.applied = [initialStreamWindow] ∧ t.flushing = none ∧
      ⟨906, [], true, false, false, none, false⟩ ∈ t.link.segments ∧
      t.link.tx.bytesSent = 56 * maxAppChunk ∧ t.link.tx.peerSendLimit = initialStreamWindow ∧
      allowance t = 907 * maxAppChunk + initialStreamWindow) init := by
  refine can_overdraw.bind fun t ht => ?_
  obtain ⟨u, hu, hq, -⟩ := ht.1.send (by decide)
  have hpoll := pollSend_probe (n := 906) hq.unreliable hq.buffer
    (by rw [hq.sent, hq.limit]; decide) hq.acked hq.unprobed
  refine .next hu (can_write hq.polled hpoll (.here ⟨hq.applied, hq.flushing, ?_, hq.sent, hq.limit, ?_⟩))
  · exact mem_append_right _ (mem_singleton.2 rfl)
  · have hconsumed : u.link.rx.bytesConsumed = 907 * maxAppChunk := hq.consumed
    unfold allowance
    dsimp only
    rw [hconsumed, hq.window]

/-- 851 chunks are each retransmitted 2^32 times, the last write refused, and consumed; 56 more use
up the window. All window updates are lost. The next chunk is held up, and a probe is sent: its
answer does not raise the limit to what the receiver allows. -/
theorem answer_clamped :
    ∃ s i seg s₁ s₅, Reaches step init s ∧ s.applied = [initialStreamWindow] ∧
      s.link.segments[i]? = some seg ∧ seg.reliable = true ∧ seg.data = [] ∧ seg.fin = false ∧
      step s (.segment i 0 true) = some s₁ ∧
      run step s₁ [.flush, .flushed true, .windowUpdate s₁.updates.length] = some s₅ ∧
      allowance s₅ = allowance s₁ ∧ s₅.link.tx.peerSendLimit < allowance s₅ := by
  obtain ⟨s, hs, happlied, hidle, hmem, hsent, hlimit, hallowed⟩ := can_probe
  obtain ⟨i, hi⟩ := List.getElem?_of_mem hmem
  obtain ⟨hgranted, hlatest⟩ : Granted s ∧ Latest s :=
    hs.inv (fun t => Granted t ∧ Latest t) (fun _ _ _ hi hstep => hi.1.step hi.2 hstep)
      ⟨granted_init, latest_init⟩
  obtain ⟨s₁, hs₁⟩ : ∃ s₁, step s (.segment i 0 true) = some s₁ := by
    simp [step, hi]
  have harrive : s₁ = arrive s ⟨906, [], true, false, false, none, false⟩ 0 true := by
    simpa [step, hi] using hs₁.symm
  have htx : s₁.link.tx = s.link.tx := by
    rw [harrive, arrive_link]
    rfl
  have hsame : allowance s₁ = allowance s := by
    refine allowance_eq_of_ledger ?_
    rw [harrive, arrive_link]
    exact s.link.rx.acceptInOrder_ledger ..
  obtain ⟨-, hpos⟩ := hgranted.probed hlatest hi rfl rfl rfl hs₁
  refine ⟨s, i, _, s₁, _, hs, happlied, hi, rfl, rfl, rfl, hs₁, run_answer (harrive ▸ hidle) hpos, rfl, ?_⟩
  have hceiling : max initialStreamWindow (56 * maxAppChunk + maxSendWindow) <
      907 * maxAppChunk + initialStreamWindow := by decide
  calc (s₁.link.tx.applyPeerWindowLimit s₁.pendingWindowUpdate).peerSendLimit
      ≤ max initialStreamWindow (56 * maxAppChunk + maxSendWindow) := by
        simp only [applyPeerWindowLimit, htx, hsent, hlimit]
        omega
    _ < allowance s₁ := by rw [hsame, hallowed]; exact hceiling

end FlowControl

end PhantomProtocol
