import PhantomProtocol.Lib.Ranges
import PhantomProtocol.Transport.Types

/-!
# Selective acknowledgements

`transport::sack`: an acknowledgement as a list of inclusive ranges of stream offsets, highest
first, built from the ranges a receiver holds and reduced to what the wire form can carry.
-/

namespace PhantomProtocol

open List

def maxSackRanges : Nat := 32

structure Sack where
  largestAcked : Nat
  ackDelayUs : Nat
  ranges : List (Nat × Nat)
deriving DecidableEq, Repr

namespace Sack

variable {ranges : List (Nat × Nat)}

/-- `acks`: the offset is covered by one of the ranges. -/
def acks (k : Sack) (seq : Nat) : Bool := Ranges.covers k.ranges seq

/-- What is kept of a descending list of ranges: all of it, or the highest `MAX_SACK_RANGES - 1` and
the lowest. -/
def reduceRanges (desc : List (Nat × Nat)) : List (Nat × Nat) :=
  if maxSackRanges < desc.length then desc.take (maxSackRanges - 1) ++ desc.getLast?.toList else desc

def fromAscendingCoalesced (ascRanges : List (Nat × Nat)) (ackDelayUs : Nat) : Option Sack :=
  match ascRanges.reverse with
  | [] => none
  | first :: rest => some ⟨first.2, ackDelayUs, reduceRanges (first :: rest)⟩

/-- `from_inclusive_ranges`: sort by the lower end, merge, reduce. Ranges with the same lower end
merge into one, so that the sort is unstable makes no difference. -/
def fromInclusiveRanges (ranges : List (Nat × Nat)) (ackDelayUs : Nat) : Option Sack :=
  fromAscendingCoalesced
    (Ranges.coalesce u32Max (ranges.insertionSort fun a b => a.1 ≤ b.1)) ackDelayUs

/-- `from_received`: sort, merge, reduce. An offset is a range of its own that the merging loop
extends. -/
def fromReceived (received : List Nat) (ackDelayUs : Nat) : Option Sack :=
  fromAscendingCoalesced
    (Ranges.coalesce u32Max ((received.insertionSort (· ≤ ·)).map fun seq => (seq, seq))) ackDelayUs

/-- The `(gap, len)` pairs of `to_wire`, below a range that starts at `prevLow`. -/
def continuations (prevLow : Nat) : List (Nat × Nat) → Bytes
  | [] => []
  | (low, high) :: rest =>
    beBytes 4 (prevLow - 1 - high) ++ beBytes 4 (high - low) ++ continuations low rest

/-- `to_wire`. A SACK always has a range. -/
def toWire (k : Sack) : Bytes :=
  beBytes 4 k.largestAcked ++ beBytes 4 k.ackDelayUs ++ beBytes 2 (min k.ranges.length 65535) ++
    match k.ranges with
    | [] => []
    | (firstLow, firstHigh) :: rest =>
      beBytes 4 (firstHigh - firstLow) ++ continuations firstLow rest

/-! ## Decoding -/

def minWireLen : Nat := 14
def fixedHdrLen : Nat := 10
def continuationBytes : Nat := 8

inductive SackError where
  | truncated
  | tooManyRanges
  | malformed
deriving DecidableEq, Repr

/-- The loop of `from_wire` over the `(gap, len)` pairs, with the number of turns left, the bytes
consumed so far and the low end of the range before. -/
def readContinuations (buf : Bytes) : Nat → Nat → Nat → Except SackError (List (Nat × Nat))
  | 0, _, _ => .ok []
  | turns + 1, pos, prevLow =>
    let gap := beAt buf pos 4
    let len := beAt buf (pos + 4) 4
    if gap = 0 then .error .malformed
    else if prevLow < 1 then .error .malformed
    else if prevLow - 1 < gap then .error .malformed
    else
      let high := prevLow - 1 - gap
      if high < len then .error .malformed
      else
        let low := high - len
        if low > high then .error .malformed
        else (readContinuations buf turns (pos + 8) low).map fun rest => (low, high) :: rest

/-- `from_wire`. Bytes behind the last range are not looked at. -/
def fromWire (buf : Bytes) : Except SackError Sack :=
  if buf.length < minWireLen then .error .truncated
  else
    let largestAcked := beAt buf 0 4
    let ackDelayUs := beAt buf 4 4
    let rangeCount := beAt buf 8 2
    if rangeCount = 0 then .error .malformed
    else if maxSackRanges < rangeCount then .error .tooManyRanges
    else if buf.length < fixedHdrLen + 4 + continuationBytes * (rangeCount - 1) then
      .error .truncated
    else
      let firstLen := beAt buf 10 4
      if largestAcked < firstLen then .error .malformed
      else
        let firstLow := largestAcked - firstLen
        (readContinuations buf (rangeCount - 1) 14 firstLow).map fun rest =>
          ⟨largestAcked, ackDelayUs, (firstLow, largestAcked) :: rest⟩

theorem reduceRanges_subset (desc : List (Nat × Nat)) : reduceRanges desc ⊆ desc := by
  unfold reduceRanges
  split
  · intro r hr
    rcases mem_append.1 hr with htop | hlast
    · exact mem_of_mem_take htop
    · exact mem_of_getLast? (Option.mem_toList.1 hlast)
  · exact List.Subset.refl _

/-- The ranges after sorting and merging, highest first. -/
def mergedRanges (ranges : List (Nat × Nat)) : List (Nat × Nat) :=
  (Ranges.coalesce u32Max (ranges.insertionSort fun a b => a.1 ≤ b.1)).reverse

theorem covers_mergedRanges (ranges : List (Nat × Nat)) (x : Nat) :
    Ranges.covers (mergedRanges ranges) x = true ↔ Ranges.covers ranges x = true := by
  have : Std.Total fun a b : Nat × Nat => a.1 ≤ b.1 := ⟨fun a b => Nat.le_total a.1 b.1⟩
  have : IsTrans (Nat × Nat) fun a b => a.1 ≤ b.1 := ⟨fun _ _ _ => Nat.le_trans⟩
  rw [mergedRanges, Ranges.covers_congr fun r => mem_reverse,
    Ranges.covers_coalesce (pairwise_insertionSort _ _)]
  exact Ranges.covers_congr fun r => mem_insertionSort _

theorem fromInclusiveRanges_some {delay : Nat} {k : Sack}
    (h : fromInclusiveRanges ranges delay = some k) :
    k.ranges = reduceRanges (mergedRanges ranges) := by
  unfold fromInclusiveRanges fromAscendingCoalesced at h
  unfold mergedRanges
  split at h
  · cases h
  · rename_i heq
    cases h
    rw [heq]

/-- However many ranges are given up, nothing is acknowledged that was not in the set it was built
from. -/
theorem acks_fromInclusiveRanges {delay seq : Nat} {k : Sack}
    (h : fromInclusiveRanges ranges delay = some k) (hseq : k.acks seq = true) :
    Ranges.covers ranges seq = true := by
  rw [acks, fromInclusiveRanges_some h] at hseq
  exact (covers_mergedRanges ranges seq).1 (Ranges.covers_mono (reduceRanges_subset _) hseq)

theorem fromInclusiveRanges_ne_none (h : ranges ≠ []) (delay : Nat) :
    fromInclusiveRanges ranges delay ≠ none := by
  have hsorted : ranges.insertionSort (fun a b => a.1 ≤ b.1) ≠ [] := by
    intro hnil
    have hlen := length_insertionSort (fun a b : Nat × Nat => a.1 ≤ b.1) ranges
    rw [hnil] at hlen
    exact h (eq_nil_of_length_eq_zero hlen.symm)
  have hmerged : (ranges.insertionSort fun a b => a.1 ≤ b.1).foldl (Ranges.push u32Max) [] ≠ [] :=
    Ranges.foldl_push_ne_nil (.inr hsorted)
  unfold fromInclusiveRanges fromAscendingCoalesced Ranges.coalesce
  rw [reverse_reverse]
  split
  · exact absurd ‹_› hmerged
  · simp

/-! ## What is acknowledged -/

theorem head_mem_reduceRanges (first : Nat × Nat) (rest : List (Nat × Nat)) :
    first ∈ reduceRanges (first :: rest) := by
  unfold reduceRanges
  split
  · exact mem_append_left _ mem_cons_self
  · exact mem_cons_self

theorem getLast_mem_reduceRanges {desc : List (Nat × Nat)} {r : Nat × Nat}
    (h : r ∈ desc.getLast?) : r ∈ reduceRanges desc := by
  unfold reduceRanges
  split
  · exact mem_append_right _ (Option.mem_toList.2 h)
  · exact mem_of_getLast? h

section

variable {ranges : List (Nat × Nat)} {delay : Nat} {k : Sack}

theorem separated_mergedRanges (h : ∀ r ∈ ranges, Ranges.Proper u32Max r) :
    Ranges.Separated u32Max (mergedRanges ranges) :=
  Ranges.separated_coalesce fun r hr => h r ((mem_insertionSort _).1 hr)

section

variable (h : fromInclusiveRanges ranges delay = some k)
include h

section

variable (hproper : ∀ r ∈ ranges, Ranges.Proper u32Max r) {seq : Nat}
include hproper

/-- A set that can be written with `MAX_SACK_RANGES` ranges is acknowledged as a whole. -/
theorem acks_of_few {few : List (Nat × Nat)} (hfew : few.length ≤ maxSackRanges)
    (hsame : ∀ x, Ranges.covers few x = true ↔ Ranges.covers ranges x = true)
    (hseq : Ranges.covers ranges seq = true) : k.acks seq = true := by
  have hle : (mergedRanges ranges).length ≤ few.length := by
    apply (separated_mergedRanges hproper).length_le
    intro x
    rw [covers_mergedRanges, hsame]
  rw [acks, fromInclusiveRanges_some h, reduceRanges, if_neg (by omega), covers_mergedRanges]
  exact hseq

/-- What is not given up. -/
theorem acks_run {n seq : Nat}
    (hrun : ∀ x < n, Ranges.covers ranges x = true) (hseq : seq < n) : k.acks seq = true := by
  obtain ⟨r, hr, hcov⟩ := (separated_mergedRanges hproper).run_last (Nat.zero_lt_of_lt hseq)
    fun x hx => (covers_mergedRanges ranges x).2 (hrun x hx)
  rw [acks, fromInclusiveRanges_some h]
  exact Ranges.covers_iff.2 ⟨r, getLast_mem_reduceRanges hr, hcov seq hseq⟩

theorem acks_max (hseq : Ranges.covers ranges seq = true)
    (hmax : ∀ x, Ranges.covers ranges x = true → x ≤ seq) : k.acks seq = true := by
  have hsep := separated_mergedRanges hproper
  have hcov := (covers_mergedRanges ranges seq).2 hseq
  rw [acks, fromInclusiveRanges_some h]
  cases hmerged : mergedRanges ranges with
  | nil =>
    rw [hmerged] at hcov
    cases hcov
  | cons first rest =>
    rw [hmerged] at hsep hcov
    have hfirst := (hsep.proper first mem_cons_self).1
    have hend : first.2 ≤ seq := by
      apply hmax
      rw [← covers_mergedRanges, hmerged]
      exact Ranges.covers_iff.2 ⟨first, mem_cons_self, hfirst, Nat.le_refl _⟩
    have hle := hsep.le_head hcov
    exact Ranges.covers_iff.2 ⟨first, head_mem_reduceRanges first rest, by omega, hle⟩

end

end

end

end Sack

end PhantomProtocol
