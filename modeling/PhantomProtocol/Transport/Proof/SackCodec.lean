import PhantomProtocol.Transport.Sack

/-!
# The wire form of selective acknowledgements

What every SACK that is built or decoded satisfies, and that such a SACK survives the wire.
-/

namespace PhantomProtocol.Sack

open List Option

variable {k : Sack} {rest : List (Nat × Nat)} {buf : Bytes}

/-- One to `MAX_SACK_RANGES` ranges, highest first, with a number missing between any two, the first
of which ends at `largest_acked`. -/
structure Canonical (k : Sack) : Prop where
  nonempty : 1 ≤ k.ranges.length
  count : k.ranges.length ≤ maxSackRanges
  separated : Ranges.Separated u32Max k.ranges
  top : k.ranges.head?.map Prod.snd = some k.largestAcked
  largest : k.largestAcked ≤ u32Max
  delay : k.ackDelayUs ≤ u32Max

/-! ## Decoding what was encoded -/

theorem lt_of_le_u32Max {n : Nat} (h : n ≤ u32Max) : n < 256 ^ 4 := by
  unfold u32Max at h
  omega

theorem readContinuations_continuations (pre : Bytes) {prevLow : Nat}
    (hprev : prevLow ≤ u32Max) (hproper : ∀ r ∈ rest, r.1 ≤ r.2)
    (hgaps : rest.Pairwise fun a b => b.2 + 1 < a.1) (hbelow : ∀ r ∈ rest, r.2 + 1 < prevLow) :
    readContinuations (pre ++ continuations prevLow rest) rest.length pre.length prevLow =
      .ok rest := by
  induction rest generalizing pre prevLow with
  | nil => rfl
  | cons r rest ih =>
    obtain ⟨low, high⟩ := r
    obtain ⟨hnext, hgaps'⟩ := pairwise_cons.1 hgaps
    obtain ⟨hle, hproper'⟩ := forall_mem_cons.1 hproper
    obtain ⟨hlt, -⟩ := forall_mem_cons.1 hbelow
    simp only at hle hlt hnext
    have hgap : beAt (pre ++ continuations prevLow ((low, high) :: rest)) pre.length 4 =
        prevLow - 1 - high := by
      rw [continuations, append_assoc]
      exact beAt_append pre _ rfl (lt_of_le_u32Max (by omega))
    have hlen : beAt (pre ++ continuations prevLow ((low, high) :: rest)) (pre.length + 4) 4 =
        high - low := by
      rw [continuations, append_assoc, ← append_assoc pre]
      apply beAt_append _ _ _ (lt_of_le_u32Max (by omega))
      rw [length_append, beBytes_length]
    have hrest := ih (pre ++ beBytes 4 (prevLow - 1 - high) ++ beBytes 4 (high - low))
      (show low ≤ u32Max by omega) hproper' hgaps' hnext
    have hsame : pre ++ beBytes 4 (prevLow - 1 - high) ++ beBytes 4 (high - low) ++
        continuations low rest = pre ++ continuations prevLow ((low, high) :: rest) := by
      simp only [continuations, append_assoc]
    rw [hsame, length_append, length_append, beBytes_length, beBytes_length, Nat.add_assoc] at hrest
    have hhigh : prevLow - 1 - (prevLow - 1 - high) = high := by omega
    have hlow : high - (high - low) = low := by omega
    rw [length_cons, readContinuations, hgap, hlen, if_neg (by omega), if_neg (by omega),
      if_neg (by omega)]
    simp only [hhigh, hlow]
    rw [if_neg (by omega), if_neg (by omega), hrest]
    rfl

theorem length_continuations (prevLow : Nat) (rest : List (Nat × Nat)) :
    (continuations prevLow rest).length = continuationBytes * rest.length := by
  induction rest generalizing prevLow with
  | nil => rfl
  | cons _ _ ih =>
    simp only [continuations, length_append, beBytes_length, ih, length_cons, continuationBytes]
    omega

/-- **Round trip.** -/
theorem Canonical.fromWire_toWire (h : k.Canonical) : fromWire k.toWire = .ok k := by
  obtain ⟨largest, delay, ranges⟩ := k
  obtain ⟨hne, hcount, hsep, htop, hlargest, hdelay⟩ := h
  cases ranges with
  | nil => cases hne
  | cons first rest =>
    obtain ⟨low, high⟩ := first
    have htop' : high = largest := Option.some.inj htop
    subst htop'
    simp only [maxSackRanges, length_cons] at hcount hlargest hdelay
    obtain ⟨hbelow, hgaps⟩ := pairwise_cons.1 hsep.gaps
    obtain ⟨⟨hle, -⟩, hproper⟩ := forall_mem_cons.1 hsep.proper
    simp only at hle hbelow
    -- the frame, field by field
    have hwire : toWire ⟨high, delay, (low, high) :: rest⟩ = beBytes 4 high ++ (beBytes 4 delay ++
        (beBytes 2 (rest.length + 1) ++ (beBytes 4 (high - low) ++ continuations low rest))) := by
      simp only [toWire, length_cons, append_assoc]
      rw [Nat.min_eq_left (by omega)]
    have hlen : (toWire ⟨high, delay, (low, high) :: rest⟩).length =
        14 + continuationBytes * rest.length := by
      simp only [hwire, length_append, beBytes_length, length_continuations]
      omega
    have hlargestAt : beAt (toWire ⟨high, delay, (low, high) :: rest⟩) 0 4 = high := by
      rw [hwire]
      exact beAt_append [] _ rfl (lt_of_le_u32Max hlargest)
    have hdelayAt : beAt (toWire ⟨high, delay, (low, high) :: rest⟩) 4 4 = delay := by
      rw [hwire]
      exact beAt_append (beBytes 4 high) _ (beBytes_length ..) (lt_of_le_u32Max hdelay)
    have hcountAt : beAt (toWire ⟨high, delay, (low, high) :: rest⟩) 8 2 = rest.length + 1 := by
      grind [append_assoc, length_append, beBytes_length, beAt_append]
    have hlenAt : beAt (toWire ⟨high, delay, (low, high) :: rest⟩) 10 4 = high - low := by
      rw [hwire, ← append_assoc (beBytes 4 high), ← append_assoc (_ ++ beBytes 4 delay)]
      apply beAt_append (beBytes 4 high ++ beBytes 4 delay ++ beBytes 2 (rest.length + 1))
      · simp only [length_append, beBytes_length]
      · exact lt_of_le_u32Max (by omega)
    have hrest := readContinuations_continuations
      (beBytes 4 high ++ beBytes 4 delay ++ beBytes 2 (rest.length + 1) ++ beBytes 4 (high - low))
      (show low ≤ u32Max by omega) (fun r hr => (hproper r hr).1) hgaps hbelow
    have hsame : beBytes 4 high ++ beBytes 4 delay ++ beBytes 2 (rest.length + 1) ++
        beBytes 4 (high - low) ++ continuations low rest =
        toWire ⟨high, delay, (low, high) :: rest⟩ := by
      simp only [hwire, append_assoc]
    have hpos : (beBytes 4 high ++ beBytes 4 delay ++ beBytes 2 (rest.length + 1) ++
        beBytes 4 (high - low)).length = 14 := by
      simp only [length_append, beBytes_length]
    rw [hsame, hpos] at hrest
    have hlow : high - (high - low) = low := by omega
    unfold fromWire
    rw [hlargestAt, hdelayAt, hcountAt, hlenAt, hlen]
    simp only [minWireLen, maxSackRanges, fixedHdrLen, Nat.add_sub_cancel, hlow, hrest]
    rw [if_neg (by omega), if_neg (by omega), if_neg (by omega), if_neg (by omega),
      if_neg (by omega)]
    rfl

/-! ## What the decoder accepts -/

theorem map_eq_ok {ε α β : Type} {f : α → β} {e : Except ε α} {b : β}
    (h : e.map f = .ok b) : ∃ a, e = .ok a ∧ f a = b := by
  cases e with
  | error => cases h
  | ok a => exact ⟨a, rfl, Except.ok.inj h⟩

theorem readContinuations_ok {turns pos prevLow : Nat}
    (h : readContinuations buf turns pos prevLow = .ok rest) :
    rest.length = turns ∧ (∀ r ∈ rest, r.1 ≤ r.2 ∧ r.2 + 1 < prevLow) ∧
      rest.Pairwise fun a b => b.2 + 1 < a.1 := by
  induction turns generalizing pos prevLow rest with
  | zero =>
    cases h
    exact ⟨rfl, by simp, List.Pairwise.nil⟩
  | succ turns ih =>
    unfold readContinuations at h
    simp only at h
    split at h
    · cases h
    split at h
    · cases h
    split at h
    · cases h
    split at h
    · cases h
    split at h
    · cases h
    obtain ⟨rest', hrest, rfl⟩ := map_eq_ok h
    obtain ⟨hcount, hbelow, hgaps⟩ := ih hrest
    refine ⟨by rw [length_cons, hcount], ?_, pairwise_cons.2 ⟨?_, hgaps⟩⟩
    · grind
    · intro r hr
      exact (hbelow r hr).2

/-- What the decoder accepts is canonical, whatever bytes it is given. -/
theorem canonical_of_fromWire (h : fromWire buf = .ok k) : k.Canonical := by
  unfold fromWire at h
  simp only at h
  split at h
  · cases h
  split at h
  · cases h
  split at h
  · cases h
  split at h
  · cases h
  split at h
  · cases h
  obtain ⟨rest, hrest, rfl⟩ := map_eq_ok h
  obtain ⟨hcount, hbelow, hgaps⟩ := readContinuations_ok hrest
  have hlargest := beAt_lt buf 0 4
  have hdelay := beAt_lt buf 4 4
  refine ⟨by simp, ?_, ⟨?_, pairwise_cons.2 ⟨fun r hr => (hbelow r hr).2, hgaps⟩⟩, rfl, ?_, ?_⟩
  · simp only [length_cons, hcount]
    omega
  · rw [forall_mem_cons]
    refine ⟨⟨Nat.sub_le .., ?_⟩, fun r hr => ⟨(hbelow r hr).1, ?_⟩⟩
    · simp only [u32Max]
      omega
    · have hr1 := hbelow r hr
      simp only [u32Max]
      omega
  · simp only [u32Max]
    omega
  · simp only [u32Max]
    omega

/-! ## What is built from a set -/

theorem fromReceived_eq (received : List Nat) (delay : Nat) :
    fromReceived received delay = fromInclusiveRanges (received.map fun seq => (seq, seq)) delay := by
  rw [fromReceived, fromInclusiveRanges,
    map_insertionSort (· ≤ ·) (fun a b : Nat × Nat => a.1 ≤ b.1)]
  intro a _ b _
  exact Iff.rfl

theorem covers_received (received : List Nat) (x : Nat) :
    Ranges.covers (received.map fun seq => (seq, seq)) x = true ↔ x ∈ received := by
  rw [Ranges.covers_iff]
  constructor
  · grind
  · intro hx
    exact ⟨(x, x), mem_map.2 ⟨x, hx, rfl⟩, Nat.le_refl _, Nat.le_refl _⟩

theorem reduceRanges_sublist (desc : List (Nat × Nat)) : (reduceRanges desc).Sublist desc := by
  unfold reduceRanges
  split
  · rename_i hmany
    have hdrop : desc.getLast? = (desc.drop (maxSackRanges - 1)).getLast? := by
      rw [List.getLast?_drop, if_neg (by omega)]
    have hlast : ∀ l : List (Nat × Nat), l.getLast?.toList.Sublist l := by grind
    grind [take_append_drop]
  · exact List.Sublist.refl _

theorem length_reduceRanges_le (desc : List (Nat × Nat)) :
    (reduceRanges desc).length ≤ maxSackRanges := by
  unfold reduceRanges
  split
  · have hlast : desc.getLast?.toList.length ≤ 1 := by
      cases desc.getLast? with
      | none => exact Nat.zero_le 1
      | some => exact Nat.le_refl 1
    rw [length_append, length_take]
    simp only [maxSackRanges] at *
    omega
  · omega

theorem head?_reduceRanges (desc : List (Nat × Nat)) : (reduceRanges desc).head? = desc.head? := by
  unfold reduceRanges
  split
  · cases desc with
    | nil | cons => rfl
  · rfl

theorem largestAcked_of_fromInclusiveRanges {ranges : List (Nat × Nat)} {delay : Nat}
    (h : fromInclusiveRanges ranges delay = some k) :
    k.ackDelayUs = delay ∧ (mergedRanges ranges).head?.map Prod.snd = some k.largestAcked := by
  unfold fromInclusiveRanges fromAscendingCoalesced at h
  unfold mergedRanges
  split at h
  · cases h
  · rename_i heq
    cases h
    rw [heq]
    exact ⟨rfl, rfl⟩

section

variable {ranges : List (Nat × Nat)} {delay : Nat} {k : Sack}

theorem canonical_of_fromInclusiveRanges (hranges : ∀ r ∈ ranges, r.1 ≤ r.2 ∧ r.2 ≤ u32Max)
    (hdelay : delay ≤ u32Max) (h : fromInclusiveRanges ranges delay = some k) : k.Canonical := by
  have hproper : ∀ r ∈ ranges, Ranges.Proper u32Max r := by
    intro r hr
    obtain ⟨hle, hmax⟩ := hranges r hr
    exact ⟨hle, hle.trans hmax⟩
  have hsep := separated_mergedRanges hproper
  obtain ⟨hdelay', htop⟩ := largestAcked_of_fromInclusiveRanges h
  have hkept := fromInclusiveRanges_some h
  have hhead : k.ranges.head? = (mergedRanges ranges).head? := by rw [hkept, head?_reduceRanges]
  obtain ⟨first, hfirst, hlargest⟩ := map_eq_some_iff.1 htop
  refine ⟨?_, ?_, ?_, ?_, ?_, ?_⟩
  · grind
  · rw [hkept]
    exact length_reduceRanges_le _
  · rw [hkept]
    exact hsep.sublist (reduceRanges_sublist _)
  · rw [hhead, htop]
  · -- the highest offset comes from one of the ranges given
    have hmem := mem_of_head? hfirst
    have hcov : Ranges.covers ranges first.2 = true := by
      rw [← covers_mergedRanges]
      exact Ranges.covers_iff.2 ⟨first, hmem, (hsep.proper first hmem).1, Nat.le_refl _⟩
    obtain ⟨r, hr, -, hle⟩ := Ranges.covers_iff.1 hcov
    rw [← hlargest]
    exact hle.trans (hranges r hr).2
  · rw [hdelay']
    exact hdelay

/-- `k` acknowledges `S` as a whole if it has at most `MAX_SACK_RANGES` maximal runs, and otherwise
its lowest run and its `MAX_SACK_RANGES - 1` highest. -/
structure Reports (k : Sack) (S : Set Nat) : Prop where
  whole : {r | Ranges.MaximalRun S r}.ncard ≤ maxSackRanges → ∀ x, k.acks x = true ↔ x ∈ S
  reduced : maxSackRanges < {r | Ranges.MaximalRun S r}.ncard → ∀ x, k.acks x = true ↔
    ∃ r, Ranges.MaximalRun S r ∧ (r.1 ≤ x ∧ x ≤ r.2) ∧
      ((∀ q, Ranges.MaximalRun S q → r.1 ≤ q.1) ∨
        {q | Ranges.MaximalRun S q ∧ r.1 < q.1}.ncard < maxSackRanges - 1)

theorem reports_of_fromInclusiveRanges (hranges : ∀ r ∈ ranges, r.1 ≤ r.2 ∧ r.2 ≤ u32Max)
    (h : fromInclusiveRanges ranges delay = some k) :
    k.Reports {x | Ranges.covers ranges x = true} := by
  have hproper : ∀ r ∈ ranges, Ranges.Proper u32Max r := by
    intro r hr
    obtain ⟨hle, hmax⟩ := hranges r hr
    exact ⟨hle, hle.trans hmax⟩
  have hsep := separated_mergedRanges hproper
  have hset : {x | Ranges.covers ranges x = true} =
      {x | Ranges.covers (mergedRanges ranges) x = true} := by
    ext x
    exact (covers_mergedRanges ranges x).symm
  rw [hset]
  constructor
  · intro hfew x
    rw [hsep.ncard_maximalRuns] at hfew
    rw [acks, fromInclusiveRanges_some h, reduceRanges, if_neg (by omega)]
    rfl
  · intro hmany x
    rw [hsep.ncard_maximalRuns] at hmany
    rw [acks, fromInclusiveRanges_some h, reduceRanges, if_pos hmany, Ranges.covers_iff]
    constructor
    · rintro ⟨r, hr, hx⟩
      rcases mem_append.1 hr with htake | hlast
      · have hmem := mem_of_mem_take htake
        exact ⟨r, hsep.mem_iff_maximalRun.1 hmem, hx, .inr ((hsep.mem_take_iff hmem).1 htake)⟩
      · have hlast := mem_toList.1 hlast
        have hmem := mem_of_getLast? hlast
        exact ⟨r, hsep.mem_iff_maximalRun.1 hmem, hx, .inl ((hsep.mem_getLast_iff hmem).1 hlast)⟩
    · rintro ⟨r, hrun, hx, hkept⟩
      have hmem := hsep.mem_iff_maximalRun.2 hrun
      refine ⟨r, mem_append.2 ?_, hx⟩
      rcases hkept with hlow | habove
      · exact .inr (mem_toList.2 ((hsep.mem_getLast_iff hmem).2 hlow))
      · exact .inl ((hsep.mem_take_iff hmem).2 habove)

end

/-- **The codec is exact and canonical.** What is built from offsets, built from ranges or decoded
survives the wire; what is decoded is canonical and acknowledges its ranges; what is built
acknowledges the set it was built from, up to the runs there is no room for. -/
theorem codec_exact :
    (∀ (received : List Nat) (delay : Nat), (∀ x ∈ received, x ≤ u32Max) → delay ≤ u32Max →
      (received ≠ [] → fromReceived received delay ≠ none) ∧
      ∀ k, fromReceived received delay = some k →
        fromWire k.toWire = .ok k ∧ k.Reports {x | x ∈ received}) ∧
    (∀ (ranges : List (Nat × Nat)) (delay : Nat), (∀ r ∈ ranges, r.1 ≤ r.2 ∧ r.2 ≤ u32Max) →
      delay ≤ u32Max →
      (ranges ≠ [] → fromInclusiveRanges ranges delay ≠ none) ∧
      ∀ k, fromInclusiveRanges ranges delay = some k →
        fromWire k.toWire = .ok k ∧ k.Reports {x | ∃ r ∈ ranges, r.1 ≤ x ∧ x ≤ r.2}) ∧
    ∀ (buf : Bytes) (k : Sack), fromWire buf = .ok k →
      fromWire k.toWire = .ok k ∧ k.Canonical ∧
        ∀ x, k.acks x = true ↔ ∃ r ∈ k.ranges, r.1 ≤ x ∧ x ≤ r.2 := by
  refine ⟨fun received delay hreceived hdelay => ?_, fun ranges delay hranges hdelay => ?_,
    fun buf k h => ?_⟩
  · have hranges : ∀ r ∈ received.map fun seq => (seq, seq), r.1 ≤ r.2 ∧ r.2 ≤ u32Max := by
      intro r hr
      obtain ⟨seq, hseq, rfl⟩ := mem_map.1 hr
      exact ⟨Nat.le_refl _, hreceived seq hseq⟩
    rw [fromReceived_eq]
    refine ⟨fun hne => fromInclusiveRanges_ne_none (by simpa using hne) delay, fun k h => ?_⟩
    refine ⟨(canonical_of_fromInclusiveRanges hranges hdelay h).fromWire_toWire, ?_⟩
    have hreports := reports_of_fromInclusiveRanges hranges h
    simp only [covers_received] at hreports
    exact hreports
  · refine ⟨fun hne => fromInclusiveRanges_ne_none hne delay, fun k h => ?_⟩
    refine ⟨(canonical_of_fromInclusiveRanges hranges hdelay h).fromWire_toWire, ?_⟩
    have hreports := reports_of_fromInclusiveRanges hranges h
    simp only [Ranges.covers_iff] at hreports
    exact hreports
  · have hcanonical := canonical_of_fromWire h
    exact ⟨hcanonical.fromWire_toWire, hcanonical, fun x => Ranges.covers_iff⟩

/-- Offsets at both ends of the sequence space, received out of order and twice. -/
theorem codec_exact_ends : ∃ k, fromReceived [4294967295, 0, 7, 6, 4294967295] 250 = some k ∧
    fromWire k.toWire = .ok k ∧ k.Canonical := by
  obtain ⟨hreceived, -, hwire⟩ := codec_exact
  obtain ⟨-, hbuilt⟩ := hreceived [4294967295, 0, 7, 6, 4294967295] 250 (by decide) (by decide)
  obtain ⟨k, hk⟩ : ∃ k, fromReceived [4294967295, 0, 7, 6, 4294967295] 250 = some k := ⟨_, rfl⟩
  obtain ⟨hround, -⟩ := hbuilt k hk
  exact ⟨k, hk, hround, (hwire _ k hround).2.1⟩

end PhantomProtocol.Sack
