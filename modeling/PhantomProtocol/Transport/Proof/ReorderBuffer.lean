import PhantomProtocol.Lib.Run
import PhantomProtocol.Transport.Proof.RecvLedger
import PhantomProtocol.Transport.Proof.SackCodec

/-!
# The reorder buffer and what is said about it

`accept_in_order` takes segments in any order and hands them on in the order of their offsets; what
is ahead of the cursor waits in `recv_buffer`, within a number of entries and a number of bytes.
`received_sack` tells the sender what has arrived.
-/

namespace PhantomProtocol

open List

namespace ReorderBuffer

open PhantomProtocol.Stream (payloadBytes drain)

/-- The payload bytes of buffered segments. -/
def heldBytes (buffer : List (Nat × List Bytes)) : Nat := (buffer.map (payloadBytes ·.2)).sum

inductive Event where
  | accept (sequence : Nat) (payloads : List Bytes) (now : Nat)
  /-- The delivery task reports what the application has taken, which may raise the window and with
  it the limit on buffered bytes. -/
  | consume (tuning : SharedRecvTuning) (n : Nat) (reliable : Bool) (now : Nat)

def step (s : Stream) : Event → Option Stream
  | .accept sequence payloads now =>
    if sequence < u32Max then some (s.acceptInOrder sequence payloads now).1 else none
  | .consume tuning n reliable now => some (s.recordAppConsumed tuning n reliable now).1

/-- What the buffer satisfies while it is drained; `Tracked.release` is one turn of the loop. -/
structure Tracked (s : Stream) : Prop where
  cursor : s.recvSequence ≤ u32Max
  ahead : ∀ e ∈ s.recvBuffer, s.recvSequence ≤ e.1 ∧ e.1 < u32Max
  distinct : (s.recvBuffer.map (·.1)).Nodup
  bytes : s.recvBufferBytes = heldBytes s.recvBuffer
  entries : s.recvBuffer.length ≤ maxRecvReorder
  within : s.recvBufferBytes ≤ s.recvReorderByteLimit
  window : s.advertisedRecvWindow ≤ maxRecvWindow

/-- The reorder buffer between calls: the segment at the cursor is missing. -/
structure Accounted (s : Stream) : Prop extends Tracked s where
  above : ∀ e ∈ s.recvBuffer, s.recvSequence < e.1

theorem accounted_new : Accounted .new where
  cursor := Nat.zero_le _
  ahead e he := by cases he
  distinct := nodup_nil
  bytes := rfl
  entries := Nat.zero_le _
  within := Nat.zero_le _
  window := by decide
  above e he := by cases he

theorem heldBytes_append (buffer : List (Nat × List Bytes)) (e : Nat × List Bytes) :
    heldBytes (buffer ++ [e]) = heldBytes buffer + payloadBytes e.2 := by
  simp [heldBytes]

theorem heldBytes_eraseP {buffer : List (Nat × List Bytes)} {p : Nat × List Bytes → Bool}
    {e : Nat × List Bytes} (h : buffer.find? p = some e) :
    heldBytes buffer = payloadBytes e.2 + heldBytes (buffer.eraseP p) := by
  obtain ⟨hp, pre, post, rfl, hpre⟩ := List.find?_eq_some_iff_append.1 h
  have hnot : ∀ a ∈ pre, ¬p a = true := fun a ha => by simpa using hpre a ha
  rw [eraseP_append_right _ hnot, eraseP_cons_of_pos hp]
  simp only [heldBytes, map_append, map_cons, sum_append, sum_cons]
  omega

namespace Tracked

variable {s : Stream}

theorem limit_lt (h : Tracked s) : s.recvReorderByteLimit < u64Max := by
  have hwindow := h.window
  have hlimit : maxRecvWindow + initialStreamWindow < u64Max := by decide
  unfold Stream.recvReorderByteLimit
  omega

theorem release {e : Nat × List Bytes} (h : Tracked s)
    (hfind : s.recvBuffer.find? (·.1 == s.recvSequence) = some e) : Tracked (s.release e.2) := by
  have hat : e.1 = s.recvSequence := by simpa using List.find?_some hfind
  have hlt := (h.ahead e (mem_of_find?_eq_some hfind)).2
  have hbytes := h.bytes
  have hwithin := h.within
  have hlimit := h.limit_lt
  have hsplit := heldBytes_eraseP hfind
  have hseq : (s.recvSequence + 1) % (u32Max + 1) = s.recvSequence + 1 :=
    Nat.mod_eq_of_lt (by omega)
  have hless : (s.recvBufferBytes + (u64Max + 1) - payloadBytes e.2) % (u64Max + 1) =
      heldBytes (s.recvBuffer.eraseP (·.1 == s.recvSequence)) := by
    rw [show s.recvBufferBytes + (u64Max + 1) - payloadBytes e.2 =
      heldBytes (s.recvBuffer.eraseP (·.1 == s.recvSequence)) + (u64Max + 1) by omega,
      Nat.add_mod_right]
    exact Nat.mod_eq_of_lt (by omega)
  refine ⟨?_, fun q hq => ?_, ?_, hless, ?_, ?_, h.window⟩
  · show (s.recvSequence + 1) % (u32Max + 1) ≤ u32Max
    omega
  · show (s.recvSequence + 1) % (u32Max + 1) ≤ q.1 ∧ _
    obtain ⟨hmem, hne⟩ := (Scan.mem_eraseP_key h.distinct).1 hq
    obtain ⟨hge, htop⟩ := h.ahead q hmem
    exact ⟨by omega, htop⟩
  · exact h.distinct.sublist (eraseP_sublist.map _)
  · exact eraseP_sublist.length_le.trans h.entries
  · show (s.recvBufferBytes + (u64Max + 1) - payloadBytes e.2) % (u64Max + 1) ≤
      s.recvReorderByteLimit
    omega

theorem drain (h : Tracked s) (fuel : Nat) (out : List Bytes) : Tracked (drain fuel s out).1 :=
  Stream.drain_inv (P := fun s _ => Tracked s) (fun _ _ _ hfind h => h.release hfind) fuel h

end Tracked

namespace Accounted

variable {s s' : Stream} {e : Event}

section

variable (h : Accounted s)
include h

theorem next (payloads : List Bytes) (now : Nat) (hlt : s.recvSequence < u32Max) :
    Accounted (Stream.drain s.recvBuffer.length
      { s with lastDataRecvAt := some now, recvSequence := (s.recvSequence + 1) % (u32Max + 1) }
      payloads).1 := by
  have hseq : (s.recvSequence + 1) % (u32Max + 1) = s.recvSequence + 1 :=
    Nat.mod_eq_of_lt (by omega)
  have hstart : Tracked { s with
      lastDataRecvAt := some now, recvSequence := (s.recvSequence + 1) % (u32Max + 1) } := by
    refine ⟨?_, fun q hq => ?_, h.distinct, h.bytes, h.entries, h.within, h.window⟩
    · show (s.recvSequence + 1) % (u32Max + 1) ≤ u32Max
      omega
    · have habove := h.above q hq
      exact ⟨by dsimp only; omega, (h.ahead q hq).2⟩
  have hend := hstart.drain s.recvBuffer.length payloads
  refine ⟨hend, fun q hq => ?_⟩
  -- the loop has a turn for every entry, so it ends at a gap
  have hgap := Stream.drain_exit (s := { s with
    lastDataRecvAt := some now, recvSequence := (s.recvSequence + 1) % (u32Max + 1) })
    s.recvBuffer.length payloads (Nat.le_refl _) q hq
  have hge := (hend.ahead q hq).1
  omega

theorem island {o : Nat} {payloads : List Bytes} (now : Nat)
    (hahead : s.recvSequence < o) (htop : o < u32Max) (hnew : ∀ q ∈ s.recvBuffer, q.1 ≠ o)
    (hentries : s.recvBuffer.length < maxRecvReorder)
    (hbytes : min (s.recvBufferBytes + payloadBytes payloads) u64Max ≤ s.recvReorderByteLimit) :
    Accounted { s with
      lastDataRecvAt := some now
      recvBuffer := s.recvBuffer ++ [(o, payloads)]
      recvBufferBytes := s.recvBufferBytes + payloadBytes payloads } := by
  have hlimit := h.limit_lt
  have habove : ∀ q ∈ s.recvBuffer ++ [(o, payloads)], s.recvSequence < q.1 ∧ q.1 < u32Max := by
    intro q hq
    rcases mem_append.1 hq with hq | hq
    · exact ⟨h.above q hq, (h.ahead q hq).2⟩
    · rw [mem_singleton.1 hq]
      exact ⟨hahead, htop⟩
  refine ⟨⟨h.cursor, fun q hq => ?_, ?_, ?_, ?_, ?_, h.window⟩, fun q hq => (habove q hq).1⟩
  · exact ⟨Nat.le_of_lt (habove q hq).1, (habove q hq).2⟩
  · rw [map_append, nodup_append]
    refine ⟨h.distinct, nodup_singleton _, fun a ha b hb heq => ?_⟩
    obtain ⟨q, hq, rfl⟩ := mem_map.1 ha
    exact hnew q hq (heq.trans (mem_singleton.1 hb))
  · dsimp only
    rw [heldBytes_append, h.bytes]
  · rw [length_append, length_singleton]
    omega
  · show s.recvBufferBytes + payloadBytes payloads ≤ s.recvReorderByteLimit
    omega

theorem accept {o : Nat} (payloads : List Bytes) (now : Nat) (htop : o < u32Max) :
    Accounted (s.acceptInOrder o payloads now).1 := by
  have hsame : Accounted { s with lastDataRecvAt := some now } :=
    ⟨⟨h.cursor, h.ahead, h.distinct, h.bytes, h.entries, h.within, h.window⟩, h.above⟩
  unfold Stream.acceptInOrder
  dsimp only
  split
  · exact hsame
  rename_i hnotold
  split
  · rename_i hne
    split
    · rename_i hroom
      simp only [Bool.and_eq_true, Bool.not_eq_true', any_eq_false, beq_iff_eq,
        decide_eq_true_eq] at hroom
      obtain ⟨⟨hnew, hentries⟩, hbytes⟩ := hroom
      exact h.island now (by omega) htop hnew hentries hbytes
    · exact hsame
  · rename_i hcursor
    have hcursor : o = s.recvSequence := not_not.1 hcursor
    exact h.next payloads now (hcursor ▸ htop)

theorem consume (tuning : SharedRecvTuning) (n : Nat) (reliable : Bool)
    (now : Nat) : Accounted (s.recordAppConsumed tuning n reliable now).1 := by
  obtain ⟨hgrows, hwindow⟩ := Stream.recordAppConsumed_window h.window tuning n reliable now
  obtain ⟨_, _, window, _, heq⟩ := s.recordAppConsumed_changes tuning n reliable now
  rw [heq] at hgrows hwindow ⊢
  refine ⟨⟨h.cursor, h.ahead, h.distinct, h.bytes, h.entries, ?_, hwindow⟩, h.above⟩
  have hwithin := h.within
  unfold Stream.recvReorderByteLimit at hwithin ⊢
  dsimp only at hgrows ⊢
  omega

theorem step (hs : step s e = some s') : Accounted s' := by
  cases e with
  | accept o payloads now =>
    obtain ⟨htop, ⟨⟩⟩ := Option.ite_none_right_eq_some.1 hs
    exact h.accept payloads now htop
  | consume tuning n reliable now =>
    cases hs
    exact h.consume tuning n reliable now

end

end Accounted

/-! ## Acknowledgements -/

/-- What the acknowledgement `k` says about the receiver `s`. -/
structure Truthful (s : Stream) (k : Sack) : Prop where
  sound : ∀ o, k.acks o = true → s.Held o
  /-- It covers all that has arrived when that can be written with `MAX_SACK_RANGES` ranges. -/
  complete : (∃ ranges : List (Nat × Nat), ranges.length ≤ maxSackRanges ∧
    ∀ o, Ranges.covers ranges o = true ↔ s.Held o) → ∀ o, s.Held o → k.acks o = true
  delivered : ∀ o < s.recvSequence, k.acks o = true
  /-- … and the largest offset in the reorder buffer. -/
  largest : ∀ e ∈ s.recvBuffer, (∀ q ∈ s.recvBuffer, q.1 ≤ e.1) → k.acks e.1 = true

theorem Accounted.truthful {s : Stream} {k : Sack} {delay now : Nat} (h : Accounted s)
    (hk : s.receivedSack delay now = some k) : Truthful s k := by
  obtain ⟨_, hbuilt⟩ := Stream.receivedSack_some hk
  have hproper := Stream.proper_heldRanges fun e he => Nat.le_of_lt (h.ahead e he).2
  refine ⟨fun o => Stream.receivedSack_held hk, fun hfew o ho => ?_, fun o ho => ?_,
    fun e he hmax => ?_⟩
  · grind [Stream.covers_heldRanges, Sack.acks_of_few]
  · exact Sack.acks_run hbuilt hproper (fun x hx => Stream.covers_heldRanges.2 (.inl hx)) ho
  · apply Sack.acks_max hbuilt hproper (Stream.covers_heldRanges.2 (.inr ⟨e, he, rfl⟩))
    intro x hx
    rcases Stream.covers_heldRanges.1 hx with hx | ⟨q, hq, rfl⟩
    · have habove := h.above e he
      omega
    · exact hmax q hq

/-- **Reorder buffer accounting and SACK truth.** After any sequence of arrivals at offsets below
`u32::MAX`, in any order and however often, the buffer holds distinct offsets above the cursor, its
byte count is what it holds, and it is within its two bounds; the next arrival leaves it within the
limit on bytes in force then; and the acknowledgement, which there is as soon as anything has arrived,
is truthful. -/
theorem accounted_and_truthful {events : List Event} {s : Stream}
    (h : Lts.run step .new events = some s) :
    ((s.recvBuffer.map (·.1)).Nodup ∧ (∀ e ∈ s.recvBuffer, s.recvSequence < e.1) ∧
        s.recvBufferBytes = heldBytes s.recvBuffer ∧ s.recvBuffer.length ≤ maxRecvReorder) ∧
      (∀ o < u32Max, ∀ payloads now,
        (s.acceptInOrder o payloads now).1.recvBufferBytes ≤ s.recvReorderByteLimit) ∧
      ∀ delay now, (s.receivedSack delay now = none ↔ s.recvSequence = 0 ∧ s.recvBuffer = []) ∧
        ∀ k, s.receivedSack delay now = some k → Truthful s k := by
  have hacc : Accounted s := Lts.run_inv (fun _ _ _ hi hs => hi.step hs) events accounted_new h
  refine ⟨⟨hacc.distinct, hacc.above, hacc.bytes, hacc.entries⟩, fun o ho payloads now => ?_,
    fun delay now => ⟨Stream.receivedSack_eq_none, fun k hk => hacc.truthful hk⟩⟩
  have hwithin := (hacc.accept payloads now ho).within
  have hledger := s.acceptInOrder_ledger o payloads now
  simp only [Stream.ledger, Prod.mk.injEq] at hledger
  unfold Stream.recvReorderByteLimit at hwithin ⊢
  rwa [hledger.2.1] at hwithin

/-- Offset 1 is missing, and a segment comes twice. -/
def outOfOrder : List Event :=
  [.accept 2 [[1]] 0, .accept 0 [[2]] 1, .consume ⟨0⟩ 1 true 2, .accept 4 [[3, 4]] 3,
    .accept 2 [[9]] 4, .accept 3 [[5], [6]] 5]

theorem accounted_and_truthful_outOfOrder :
    ∃ s k, Lts.run step .new outOfOrder = some s ∧ s.recvSequence = 1 ∧
      s.recvBuffer.map (·.1) = [2, 4, 3] ∧ s.recvBufferBytes = 5 ∧
      s.receivedSack 7 6 = some k ∧ k.ranges = [(2, 4), (0, 0)] ∧ Truthful s k := by
  obtain ⟨s, k, hrun, hseq, hbuf, hbytes, hsack, hranges⟩ : ∃ s k,
      Lts.run step .new outOfOrder = some s ∧ s.recvSequence = 1 ∧
      s.recvBuffer.map (·.1) = [2, 4, 3] ∧ s.recvBufferBytes = 5 ∧
      s.receivedSack 7 6 = some k ∧ k.ranges = [(2, 4), (0, 0)] :=
    ⟨_, _, rfl, rfl, rfl, rfl, rfl, rfl⟩
  refine ⟨s, k, hrun, hseq, hbuf, hbytes, hsack, hranges, ?_⟩
  exact ((accounted_and_truthful hrun).2.2 7 6).2 k hsack

theorem Accounted.canonical {s : Stream} {k : Sack} {delay now : Nat} (h : Accounted s)
    (hdelay : delay ≤ u32Max) (hk : s.receivedSack delay now = some k) : k.Canonical := by
  have hranges : ∀ r ∈ s.heldRanges, r.1 ≤ r.2 ∧ r.2 ≤ u32Max := by
    intro r hr
    have hle := (Stream.proper_heldRanges (fun e he => (h.ahead e he).2.le) r hr).1
    refine ⟨hle, ?_⟩
    -- the upper end is an offset held
    have hheld := Stream.covers_heldRanges.1 (Ranges.covers_iff.2 ⟨r, hr, hle, le_rfl⟩)
    rcases hheld with hlt | ⟨e, he, heq⟩
    · exact hlt.le.trans h.cursor
    · exact heq ▸ (h.ahead e he).2.le
  unfold Stream.receivedSack at hk
  split at hk
  · cases hk
  · refine Sack.canonical_of_fromInclusiveRanges hranges ?_ hk
    split
    · exact hdelay
    · cases s.lastDataRecvAt <;> simp

/-- **Acknowledgements across the wire.** Whatever has arrived, the sender decodes the frame of an
acknowledgement and drops all of its segments below the receiver's cursor, and only segments that
the receiver holds. -/
theorem sack_frame_acknowledges {events : List Event} {s tx : Stream} {k : Sack} {delay now : Nat}
    (h : Lts.run step .new events = some s) (hdelay : delay ≤ u32Max)
    (hk : s.receivedSack delay now = some k) (later : Nat) :
    ∃ k', Sack.fromWire k.toWire = .ok k' ∧ ∀ q ∈ tx.pending,
      (q ∈ (tx.onSack k' later).1.pending → s.recvSequence ≤ q.1) ∧
        (q ∉ (tx.onSack k' later).1.pending → s.Held q.1) := by
  have hacc : Accounted s := Lts.run_inv (fun _ _ _ hi hs => hi.step hs) events accounted_new h
  have htrue := hacc.truthful hk
  refine ⟨k, (hacc.canonical hdelay hk).fromWire_toWire, fun q hq => ?_⟩
  simp only [Stream.onSack_pending, mem_filter, hq, true_and, Bool.not_eq_true', Bool.not_eq_false]
  exact ⟨fun hnot => not_lt.1 fun hlt => by simp [htrue.delivered q.1 hlt] at hnot, htrue.sound q.1⟩

/-- A sender whose first four segments are unacknowledged. -/
def fourPending : Stream :=
  [[0], [1], [2], [3]].foldl (fun tx data => (tx.enqueue data false).1) .new

/-- Segment 0 is dropped, and the missing one is kept. -/
theorem sack_frame_acknowledges_outOfOrder : ∃ s k k', Lts.run step .new outOfOrder = some s ∧
    s.receivedSack 7 6 = some k ∧ Sack.fromWire k.toWire = .ok k' ∧
      (0, [0]) ∉ (fourPending.onSack k' 9).1.pending ∧
      (1, [1]) ∈ (fourPending.onSack k' 9).1.pending := by
  obtain ⟨s, k, hrun, hseq, hmissing, hsack⟩ : ∃ s k, Lts.run step .new outOfOrder = some s ∧
      s.recvSequence = 1 ∧ (∀ e ∈ s.recvBuffer, e.1 ≠ 1) ∧ s.receivedSack 7 6 = some k :=
    ⟨_, _, rfl, rfl, by decide, rfl⟩
  obtain ⟨k', hwire, hdrops⟩ :=
    @sack_frame_acknowledges _ _ fourPending _ _ _ hrun (by decide) hsack 9
  refine ⟨s, k, k', hrun, hsack, hwire, fun h => ?_, by_contra fun h => ?_⟩
  · have := (hdrops _ (by decide)).1 h
    omega
  · rcases (hdrops _ (by decide)).2 h with hlt | ⟨e, he, heq⟩
    · omega
    · exact hmissing e he heq

end ReorderBuffer

end PhantomProtocol
