import PhantomProtocol.Transport.Proof.SendBuffer

/-!
# The clamp on `largest_acked`

`on_sack` bounds the peer's `largest_acked` by `reliable_offset`, the next offset to assign, where
the highest offset assigned is one below it.
-/

namespace PhantomProtocol.Stream

open List

variable {s : Stream} {k : Sack} {now cursor largest : Nat} {threshold : Option Nat}
  {p : PendingData} {f g : PendingData → Option LossCause}

/-- The acknowledgement with `largest_acked` cut down to the highest offset assigned. -/
def clamped (s : Stream) (k : Sack) : Sack :=
  { k with largestAcked := min k.largestAcked (s.reliableOffset - 1) }

/-- The segment is on the wire and not flagged, and lies where the next offset to assign decides: it
is the last one assigned and its time is up, or it was never resent and `PACKET_THRESHOLD` above it
is the next offset to assign. -/
def AtEdge (cursor : Nat) (threshold : Option Nat) (now : Nat) (p : PendingData) : Prop :=
  p.lost = none ∧ ∃ sentAt ∈ p.sentAt,
    (p.streamOffset + 1 = cursor ∧ threshold.any (· ≤ now - sentAt) = true) ∨
    (p.retries = 0 ∧ p.streamOffset < cursor ∧
      min (p.streamOffset + packetThreshold) u32Max = cursor)

/-- The packet threshold declares a segment lost only when `PACKET_THRESHOLD` offsets above it have
been assigned. The pairs are the segments before and after. -/
def PacketRule (s : Stream) (k : Sack) (now : Nat) : Prop :=
  ∀ r ∈ (s.kept k).zip (s.onSack k now).1.sendBuffer, r.1.lost = none →
    r.2.lost.any LossCause.byPacket = true → r.1.streamOffset + packetThreshold < s.reliableOffset

/-! ## One segment -/

/-- Which arm of the loss detector is recorded. -/
def verdict : Bool → Bool → Option LossCause
  | true, true => some .bothThresholds
  | true, false => some .packetThreshold
  | false, true => some .timeThreshold
  | false, false => none

theorem verdict_left_inj {a b c : Bool} : verdict a c = verdict b c ↔ a = b := by
  cases a <;> cases b <;> cases c <;> decide

theorem verdict_eq_none {a b : Bool} : verdict a b = none ↔ a = false ∧ b = false := by
  cases a <;> cases b <;> decide

/-- The packet threshold reaches the segment. -/
def packetLost (largest : Nat) (p : PendingData) : Bool :=
  p.retries == 0 && decide (min (p.streamOffset + packetThreshold) u32Max ≤ largest)

theorem lossOf_sent {sentAt largest : Nat} (hlost : p.lost = none) (hsent : p.sentAt = some sentAt) :
    lossOf largest threshold now p =
      if largest ≤ p.streamOffset then none
      else verdict (packetLost largest p) (threshold.any (· ≤ now - sentAt)) := by
  unfold lossOf
  rw [hlost, hsent]
  rfl

theorem lossOf_flagged (h : p.lost ≠ none) : lossOf largest threshold now p = none := by
  unfold lossOf
  split
  · exact absurd ‹_› h
  · rfl

theorem lossOf_unsent (h : p.sentAt = none) : lossOf largest threshold now p = none := by
  unfold lossOf
  split
  · rename_i hsent
    rw [h] at hsent
    cases hsent
  · rfl

theorem packetLost_eq_true : packetLost largest p = true ↔
    p.retries = 0 ∧ min (p.streamOffset + packetThreshold) u32Max ≤ largest := by
  simp [packetLost]

theorem packetLost_eq_false : packetLost largest p = false ↔
    ¬(p.retries = 0 ∧ min (p.streamOffset + packetThreshold) u32Max ≤ largest) := by
  rw [← packetLost_eq_true, Bool.not_eq_true]

theorem atEdge_sent {sentAt : Nat} (hlost : p.lost = none) (hsent : p.sentAt = some sentAt) :
    AtEdge cursor threshold now p ↔
      (p.streamOffset + 1 = cursor ∧ threshold.any (· ≤ now - sentAt) = true) ∨
      (p.retries = 0 ∧ p.streamOffset < cursor ∧
        min (p.streamOffset + packetThreshold) u32Max = cursor) := by
  simp [AtEdge, hlost, hsent]

/-- **Where the one offset matters.** -/
theorem lossOf_cursor_eq_iff (hcursor : cursor ≤ u32Max) :
    lossOf cursor threshold now p = lossOf (cursor - 1) threshold now p ↔
      ¬AtEdge cursor threshold now p := by
  by_cases hlost : p.lost = none
  · cases hsent : p.sentAt with
    | none =>
      rw [lossOf_unsent hsent, lossOf_unsent hsent]
      refine iff_of_true rfl ?_
      rintro ⟨-, sentAt, hmem, -⟩
      rw [hsent] at hmem
      cases hmem
    | some sentAt =>
      rw [lossOf_sent hlost hsent, lossOf_sent hlost hsent, atEdge_sent hlost hsent]
      generalize threshold.any (· ≤ now - sentAt) = timeLost
      have hthree : packetThreshold = 3 := rfl
      by_cases habove : cursor ≤ p.streamOffset
      · grind
      · rw [if_neg habove]
        by_cases hlast : p.streamOffset + 1 = cursor
        · -- behind the cursor, but not behind the highest offset assigned
          rw [if_pos (by omega), verdict_eq_none, packetLost_eq_false]
          cases timeLost with
          | false => grind
          | true => simp [hlast]
        · rw [if_neg (by omega), verdict_left_inj, Bool.eq_iff_iff, packetLost_eq_true,
            packetLost_eq_true]
          by_cases hretries : p.retries = 0
          · simp only [hretries, true_and]
            omega
          · simp [hretries, hlast]
  · rw [lossOf_flagged hlost, lossOf_flagged hlost]
    refine iff_of_true rfl ?_
    rintro ⟨h, -⟩
    exact hlost h

/-! ## The whole buffer -/

theorem onSack_eq_flag (s : Stream) (k : Sack) (now : Nat) : s.onSack k now =
      s.flag k now (lossOf (min k.largestAcked s.reliableOffset) (s.timeThreshold k now) now) :=
  rfl

theorem onSack_clamped (s : Stream) (k : Sack) (now : Nat) : s.onSack (s.clamped k) now =
      s.flag k now
        (lossOf (min k.largestAcked (s.reliableOffset - 1)) (s.timeThreshold k now) now) := by
  have hmin : min (min k.largestAcked (s.reliableOffset - 1)) s.reliableOffset =
      min k.largestAcked (s.reliableOffset - 1) := by omega
  rw [onSack_eq_flag, ← hmin]
  rfl

theorem flag_congr (h : ∀ p ∈ s.kept k, f p = g p) : s.flag k now f = s.flag k now g := by
  have hmap : ((s.kept k).map fun p => { p with lost := p.lost.or (f p) }) =
      (s.kept k).map fun p => { p with lost := p.lost.or (g p) } := by
    apply map_congr_left
    intro p hp
    rw [h p hp]
  have hfilter : ((s.kept k).filter fun p => (f p).isSome) =
      (s.kept k).filter fun p => (g p).isSome := by
    apply filter_congr
    intro p hp
    rw [h p hp]
  unfold flag
  rw [hmap, hfilter]

theorem flag_inj (h : s.flag k now f = s.flag k now g)
    (hp : p ∈ s.kept k) (hlost : p.lost = none) : f p = g p := by
  have hbuf : ((s.kept k).map fun p => { p with lost := p.lost.or (f p) }) =
      (s.kept k).map fun p => { p with lost := p.lost.or (g p) } :=
    congrArg (fun r : Stream × SackResult => r.1.sendBuffer) h
  have heq := map_inj_left.1 hbuf p hp
  rw [hlost] at heq
  exact congrArg PendingData.lost heq

theorem mem_zip_flag {f : PendingData → Option LossCause} {r : PendingData × PendingData}
    (h : r ∈ (s.kept k).zip (s.flag k now f).1.sendBuffer) : r.2.lost = r.1.lost.or (f r.1) := by
  have hzip : ∀ (l : List PendingData) (g : PendingData → PendingData),
      l.zip (l.map g) = l.map fun p => (p, g p) := by
    intro l g
    have hmap := zip_map' (f := id) (g := g) (l := l)
    rwa [map_id] at hmap
  have hbuf : (s.flag k now f).1.sendBuffer =
      (s.kept k).map fun p => { p with lost := p.lost.or (f p) } := rfl
  rw [hbuf, hzip] at h
  obtain ⟨p, -, rfl⟩ := mem_map.1 h
  rfl

theorem packetRule_of_clamped (hcursor : s.reliableOffset ≤ u32Max)
    (h : s.onSack k now = s.onSack (s.clamped k) now) : PacketRule s k now := by
  intro r hr hlost hpackets
  rw [h, onSack_clamped] at hr
  rw [mem_zip_flag hr, hlost, Option.none_or] at hpackets
  obtain ⟨cause, hloss, hcause⟩ := (Option.any_eq_true _ _).1 hpackets
  obtain ⟨-, hbehind, hle⟩ := lossOf_byPacket hloss hcause
  omega

/-- **What an inflated acknowledgement proves.** `on_sack` acts as if `largest_acked` were at most
the highest offset assigned, and its packet threshold counts assigned offsets only, exactly when
`largest_acked` is an assigned offset anyway, or no segment it leaves in the buffer is at the edge. -/
theorem onSack_eq_clamped_iff (k : Sack) (now : Nat) (hcursor : s.reliableOffset ≤ u32Max) :
    (s.onSack k now = s.onSack (s.clamped k) now ∧ PacketRule s k now) ↔
      (k.largestAcked < s.reliableOffset ∨ ∀ p ∈ s.sendBuffer, k.acks p.streamOffset = false →
        ¬AtEdge s.reliableOffset (s.timeThreshold k now) now p) := by
  rw [and_iff_left_of_imp (packetRule_of_clamped hcursor)]
  by_cases hsent : k.largestAcked < s.reliableOffset
  · refine iff_of_true ?_ (.inl hsent)
    rw [onSack_clamped, onSack_eq_flag, Nat.min_eq_left (by omega), Nat.min_eq_left (by omega)]
  · have hkept : ∀ p, p ∈ s.kept k ↔ p ∈ s.sendBuffer ∧ k.acks p.streamOffset = false := by
      intro p
      simp [kept, mem_filter]
    rw [or_iff_right hsent, onSack_clamped, onSack_eq_flag, Nat.min_eq_right (by omega),
      Nat.min_eq_right (by omega)]
    constructor
    · intro h p hp hacks hedge
      have heq := flag_inj h ((hkept p).2 ⟨hp, hacks⟩) hedge.1
      exact (lossOf_cursor_eq_iff hcursor).1 heq hedge
    · grind [flag_congr, lossOf_cursor_eq_iff]

/-- A stream that has sent three segments of one byte. -/
def threeSent : Stream :=
  let admitted := (((new.trySendReliable [1]).1.trySendReliable [2]).1.trySendReliable [3]).1
  (((admitted.pollSend 9 0 0 false 0).1.pollSend 9 0 0 false 0).1.pollSend 9 0 0 false 0).1

/-- Nothing is acknowledged, but the peer states that it saw offset 1000. -/
def inflatedSack : Sack := ⟨1000, 0, [(1000, 1000)]⟩

/-- With three offsets assigned, the first one is declared lost: two have been assigned above it,
and the next to assign is taken for the third. -/
theorem inflatedSack_declares_loss :
    threeSent.reliableOffset = 3 ∧ (threeSent.onSack inflatedSack 0).2.lost = [⟨0, 1⟩] ∧
      (threeSent.onSack (threeSent.clamped inflatedSack) 0).2.lost = [] := by
  decide

/-- An acknowledgement of what was sent. -/
theorem honestSack_clamped :
    threeSent.onSack ⟨2, 0, [(2, 2)]⟩ 0 = threeSent.onSack (threeSent.clamped ⟨2, 0, [(2, 2)]⟩) 0 ∧
      PacketRule threeSent ⟨2, 0, [(2, 2)]⟩ 0 :=
  (onSack_eq_clamped_iff _ 0 (by decide)).2 (.inl (by decide))

end PhantomProtocol.Stream
