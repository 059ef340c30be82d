import Mathlib.Data.Nat.Bitwise
import PhantomProtocol.Security.ReplayWindow

/-!
# The replay window remembers what it accepted

The window stands for a set of packet numbers, as far as it reaches: `accept` takes a number exactly
if it is new and not too old, and then stands for the set with that number.
-/

namespace PhantomProtocol.ReplayWindow

variable {w : ReplayWindow} {bitmap : Vector UInt64 windowWords} {seen : Set UInt64}
  {k : Nat} {seq : UInt64}

/-! ## Bits -/

def bit (bitmap : Vector UInt64 windowWords) (i : Nat) : Bool :=
  (word bitmap (i / 64)).toNat.testBit (i % 64)

theorem toNat_shift (hk : k < 64) : (UInt64.ofNat k).toNat % 64 = k := by
  rw [UInt64.toNat_ofNat']
  omega

theorem testBit_shiftLeft (x : UInt64) {k j : Nat} (hk : k < 64) (hj : j < 64) :
    (x <<< UInt64.ofNat k).toNat.testBit j = (decide (k ≤ j) && x.toNat.testBit (j - k)) := by
  rw [UInt64.toNat_shiftLeft, toNat_shift hk, Nat.testBit_mod_two_pow, Nat.testBit_shiftLeft]
  simp [hj]

theorem testBit_shiftRight (x : UInt64) (hk : k < 64) (j : Nat) :
    (x >>> UInt64.ofNat k).toNat.testBit j = x.toNat.testBit (k + j) := by
  rw [UInt64.toNat_shiftRight, toNat_shift hk, Nat.testBit_shiftRight]

theorem testBit_of_le (x : UInt64) {j : Nat} (hj : 64 ≤ j) : x.toNat.testBit j = false :=
  Nat.testBit_lt_two_pow (x.toNat_lt.trans_le (Nat.pow_le_pow_right (by decide) hj))

theorem word_ofFn (f : Fin windowWords → UInt64) {i : Nat} (hi : i < windowWords) :
    word (Vector.ofFn f) i = f ⟨i, hi⟩ := by
  simp [word, hi]

theorem word_set {i j : Nat} (x : UInt64) (hi : i < windowWords) :
    word (bitmap.setIfInBounds i x) j = if i = j then x else word bitmap j := by
  unfold word
  rw [Vector.getElem?_setIfInBounds]
  split
  · simp
  · rfl

theorem bit_replicate (i : Nat) : bit (Vector.replicate windowWords 0) i = false := by
  unfold bit word
  rw [Vector.getElem?_replicate]
  split <;> simp

theorem bit_or_mask (hk : k < windowBits) (i : Nat) :
    bit (bitmap.setIfInBounds (k / 64) (word bitmap (k / 64) ||| 1 <<< UInt64.ofNat (k % 64))) i =
      (decide (i = k) || bit bitmap i) := by
  have hword : k / 64 < windowWords := by
    unfold windowBits at hk
    unfold windowWords
    omega
  have hmod : k % 64 < 64 := Nat.mod_lt _ (by decide)
  unfold bit
  rw [word_set _ hword]
  by_cases heq : k / 64 = i / 64
  · have hone : (1 : UInt64).toNat = 2 ^ 0 := rfl
    rw [if_pos heq, ← heq, UInt64.toNat_or, Nat.testBit_or,
      testBit_shiftLeft _ hmod (Nat.mod_lt _ (by decide)), hone, Nat.testBit_two_pow, Bool.or_comm]
    congr 1
    rw [← Bool.decide_and, decide_eq_decide]
    omega
  · rw [if_neg heq, decide_eq_false (by rintro rfl; exact heq rfl), Bool.false_or]

theorem bit_or_one (i : Nat) :
    bit (bitmap.setIfInBounds 0 (word bitmap 0 ||| 1)) i = (decide (i = 0) || bit bitmap i) :=
  bit_or_mask (k := 0) (by decide) i

/-- The bitmap after the first number. -/
theorem bit_set_one (i : Nat) :
    bit (bitmap.setIfInBounds 0 1) i = (decide (i = 0) || (decide (64 ≤ i) && bit bitmap i)) := by
  unfold bit
  rw [word_set _ (by decide)]
  by_cases hlow : i < 64
  · have hone : (1 : UInt64).toNat = 2 ^ 0 := rfl
    rw [if_pos (by omega), hone, Nat.testBit_two_pow, decide_eq_false (by omega : ¬64 ≤ i),
      Bool.false_and, Bool.or_false, decide_eq_decide]
    omega
  · grind

theorem and_mask_ne_zero (x : UInt64) (hk : k < 64) :
    x &&& 1 <<< UInt64.ofNat k ≠ 0 ↔ x.toNat.testBit k = true := by
  have hmask : ((1 : UInt64) <<< UInt64.ofNat k).toNat = 2 ^ k := by
    apply Nat.eq_of_testBit_eq
    intro j
    rw [Nat.testBit_two_pow]
    by_cases hj : j < 64
    · have hone : (1 : UInt64).toNat = 2 ^ 0 := rfl
      rw [testBit_shiftLeft _ hk hj, hone, Nat.testBit_two_pow, ← Bool.decide_and, decide_eq_decide]
      omega
    · rw [testBit_of_le _ (by omega), decide_eq_false (by omega)]
  rw [Ne, ← UInt64.toNat_inj, UInt64.toNat_and, hmask, Nat.and_two_pow]
  cases x.toNat.testBit k with
  | true | false => simp

theorem testBit_moved (wordShift : Nat) {q : Nat} (hq : q < windowWords) (j : Nat) :
    (word (if wordShift > 0 then
        Vector.ofFn fun i => if i.1 < wordShift then 0 else word bitmap (i.1 - wordShift)
      else bitmap) q).toNat.testBit j =
      (decide (wordShift ≤ q) && (word bitmap (q - wordShift)).toNat.testBit j) := by
  split
  · rw [word_ofFn _ hq]
    by_cases hlt : q < wordShift
    · simp [hlt, Nat.not_le.2 hlt]
    · simp [hlt, Nat.not_lt.1 hlt]
  · simp_all

theorem bit_sub_eq {shift i q j : Nat} {a : Prop} [Decidable a] (ha : a ↔ shift ≤ i)
    (hq : shift ≤ i → (i - shift) / 64 = q ∧ (i - shift) % 64 = j) :
    (decide a && (word bitmap q).toNat.testBit j) =
      (decide (shift ≤ i) && bit bitmap (i - shift)) := by
  rw [decide_eq_decide.2 ha]
  by_cases hle : shift ≤ i
  · obtain ⟨rfl, rfl⟩ := hq hle
    rfl
  · rw [decide_eq_false hle, Bool.false_and, Bool.false_and]

/-- **`shift_left`.** Every bit moves up by the shift, and the lowest become 0. -/
theorem bit_shiftLeft (shift : Nat) {i : Nat} (hi : i < windowBits) :
    bit (shiftLeft bitmap shift) i = (decide (shift ≤ i) && bit bitmap (i - shift)) := by
  have hq : i / 64 < windowWords := by
    unfold windowBits at hi
    unfold windowWords
    omega
  have hj : i % 64 < 64 := Nat.mod_lt _ (by decide)
  unfold bit shiftLeft
  dsimp only
  by_cases hbits : shift % 64 > 0
  · have hk : shift % 64 < 64 := Nat.mod_lt _ (by decide)
    rw [if_pos hbits, word_ofFn _ hq]
    dsimp only
    by_cases hlow : shift % 64 ≤ i % 64
    · -- the bit stays within its word, and the carry has no bit as high
      have hshl : ∀ x : UInt64, (x <<< UInt64.ofNat (shift % 64)).toNat.testBit (i % 64) =
          x.toNat.testBit (i % 64 - shift % 64) := by
        intro x
        rw [testBit_shiftLeft x hk hj, decide_eq_true hlow, Bool.true_and]
      have hcarry : ∀ x : UInt64,
          (x >>> UInt64.ofNat (64 - shift % 64)).toNat.testBit (i % 64) = false := by
        intro x
        rw [testBit_shiftRight x (by omega), testBit_of_le x (by omega)]
      split
      · rename_i hzero
        rw [hshl, testBit_moved _ (by decide)]
        exact bit_sub_eq (by omega) (by omega)
      · rw [UInt64.toNat_or, Nat.testBit_or, hshl, hcarry, Bool.or_false, testBit_moved _ hq]
        exact bit_sub_eq (by omega) (by omega)
    · -- the bit is carried over from the word below
      have hshl : ∀ x : UInt64,
          (x <<< UInt64.ofNat (shift % 64)).toNat.testBit (i % 64) = false := by
        intro x
        rw [testBit_shiftLeft x hk hj, decide_eq_false hlow, Bool.false_and]
      split
      · rename_i hzero
        rw [hshl, decide_eq_false (by omega), Bool.false_and]
      · rename_i hne
        rw [UInt64.toNat_or, Nat.testBit_or, hshl, Bool.false_or, testBit_shiftRight _ (by omega),
          testBit_moved _ (by omega)]
        exact bit_sub_eq (by omega) (by omega)
  · rw [if_neg hbits, testBit_moved _ hq]
    exact bit_sub_eq (by omega) (by omega)

/-! ## The set the window stands for -/

/-- The window stands for the set `seen`: the highest member is the watermark, and below it the bits
say which numbers are members, as far as the window reaches. -/
structure Remembers (w : ReplayWindow) (seen : Set UInt64) : Prop where
  empty : w.initialized = false → seen = ∅
  high : w.initialized = true → w.highWatermark ∈ seen ∧ ∀ s ∈ seen, s ≤ w.highWatermark
  bits : ∀ i < windowBits, bit w.bitmap i = true ↔ ∃ s ∈ seen, s.toNat + i = w.highWatermark.toNat

theorem remembers_new : Remembers .new ∅ where
  empty _ := rfl
  high h := by cases h
  bits i _ := by
    rw [show (new : ReplayWindow).bitmap = Vector.replicate windowWords 0 from rfl, bit_replicate]
    simp

section

variable (h : Remembers w seen)
include h

theorem Remembers.mem_iff (hle : seq ≤ w.highWatermark)
    (hin : (w.highWatermark - seq).toNat < windowBits) :
    seq ∈ seen ↔ bit w.bitmap (w.highWatermark - seq).toNat = true := by
  have hsub := UInt64.toNat_sub_of_le _ _ hle
  grind [h.bits, UInt64.toNat_inj, UInt64.le_iff_toNat_le]

/-- **When `accept` takes a number**: it is new, and not too far below the highest. -/
theorem Remembers.accept_iff (seq : UInt64) :
    (w.accept seq).2 = true ↔ seq ∉ seen ∧ ∀ s ∈ seen, s.toNat < seq.toNat + windowBits := by
  unfold ReplayWindow.accept acceptOn
  simp only [toNat_mod_usize]
  cases hinit : w.initialized with
  | false => simp [h.empty hinit]
  | true =>
    obtain ⟨hmem, hmax⟩ := h.high hinit
    simp only [Bool.not_true, Bool.false_eq_true, if_false]
    by_cases hgt : seq > w.highWatermark
    · rw [if_pos hgt]
      grind [UInt64.lt_iff_toNat_lt, UInt64.not_lt, UInt64.le_iff_toNat_le]
    · rw [if_neg hgt]
      have hle : seq ≤ w.highWatermark := UInt64.not_lt.1 hgt
      have hsub := UInt64.toNat_sub_of_le _ _ hle
      have hle' := UInt64.le_iff_toNat_le.1 hle
      by_cases hold : (w.highWatermark - seq).toNat ≥ windowBits
      · grind
      · rw [if_neg hold, h.mem_iff hle (by omega), bit,
          ← and_mask_ne_zero _ (Nat.mod_lt _ (by decide))]
        have hnear : ∀ s ∈ seen, s.toNat < seq.toNat + windowBits := by
          grind [UInt64.le_iff_toNat_le]
        split
        · simp_all
        · simp_all

theorem Remembers.raise (hinit : w.initialized = true)
    (hgt : w.highWatermark < seq) : Remembers (w.accept seq).1 (insert seq seen) := by
  obtain ⟨hmem, hmax⟩ := h.high hinit
  have hgt' := UInt64.lt_iff_toNat_lt.1 hgt
  have hshift := UInt64.toNat_sub_of_le _ _ (UInt64.le_of_lt hgt)
  unfold ReplayWindow.accept acceptOn
  simp only [hinit, Bool.not_true, Bool.false_eq_true, if_false, if_pos hgt, toNat_mod_usize]
  refine ⟨fun hf => Bool.noConfusion hf, fun _ => ⟨Set.mem_insert _ _, ?_⟩, fun i hi => ?_⟩
  · grind
  · -- `i` below the new watermark is `i - shift` below the old one
    have hmoved : bit (if (seq - w.highWatermark).toNat ≥ windowBits then
          Vector.replicate windowWords 0 else shiftLeft w.bitmap (seq - w.highWatermark).toNat) i =
        true ↔ ∃ s ∈ seen, s.toNat + i = seq.toNat := by
      split
      · grind [bit_replicate, UInt64.le_iff_toNat_le]
      · rw [bit_shiftLeft _ hi, Bool.and_eq_true, decide_eq_true_eq]
        constructor
        · rintro ⟨hle, hbit⟩
          obtain ⟨s, hs, heq⟩ := (h.bits _ (by omega)).1 hbit
          exact ⟨s, hs, by omega⟩
        · rintro ⟨s, hs, heq⟩
          have := UInt64.le_iff_toNat_le.1 (hmax s hs)
          exact ⟨by omega, (h.bits _ (by omega)).2 ⟨s, hs, by omega⟩⟩
    rw [bit_or_one, Bool.or_eq_true, decide_eq_true_eq, hmoved]
    constructor
    · simp
    · simp

theorem Remembers.mark (hinit : w.initialized = true)
    (hle : seq ≤ w.highWatermark) (hin : (w.highWatermark - seq).toNat < windowBits) :
    Remembers
      { w with
        bitmap := w.bitmap.setIfInBounds ((w.highWatermark - seq).toNat / 64)
          (word w.bitmap ((w.highWatermark - seq).toNat / 64) |||
            1 <<< UInt64.ofNat ((w.highWatermark - seq).toNat % 64)) }
      (insert seq seen) := by
  obtain ⟨hmem, hmax⟩ := h.high hinit
  have hsub := UInt64.toNat_sub_of_le _ _ hle
  have hle' := UInt64.le_iff_toNat_le.1 hle
  refine ⟨fun hf => ?_, fun _ => ⟨Set.mem_insert_of_mem _ hmem, ?_⟩, fun i hi => ?_⟩
  · rw [show w.initialized = false from hf] at hinit
    cases hinit
  · rintro s (rfl | hs)
    · exact hle
    · exact hmax s hs
  · dsimp only
    rw [bit_or_mask hin, Bool.or_eq_true, decide_eq_true_eq, h.bits i hi]
    constructor
    · grind
    · grind

/-- **`accept` records what it takes**, and a number it refuses changes nothing. -/
theorem Remembers.accept (seq : UInt64) :
    ((w.accept seq).2 = true ∧ Remembers (w.accept seq).1 (insert seq seen)) ∨
      ((w.accept seq).2 = false ∧ (w.accept seq).1 = w) := by
  cases hinit : w.initialized with
  | false =>
    left
    have hnone := h.empty hinit
    simp only [ReplayWindow.accept, acceptOn, hinit, Bool.not_false, if_true, true_and]
    subst hnone
    refine ⟨fun hf => Bool.noConfusion hf, fun _ => ⟨Set.mem_insert _ _, ?_⟩, fun i hi => ?_⟩
    · simp
    · have hclear : bit w.bitmap i = false := by
        rw [← Bool.not_eq_true, h.bits i hi]
        rintro ⟨s, hs, -⟩
        exact Set.notMem_empty s hs
      rw [bit_set_one, hclear, Bool.and_false, Bool.or_false, decide_eq_true_eq]
      constructor
      · rintro rfl
        exact ⟨seq, Set.mem_insert _ _, rfl⟩
      · rintro ⟨s, rfl | hs, heq⟩
        · exact Nat.left_eq_add.1 heq.symm
        · exact absurd hs (Set.notMem_empty s)
  | true =>
    by_cases hgt : seq > w.highWatermark
    · refine .inl ⟨?_, h.raise hinit hgt⟩
      simp [ReplayWindow.accept, acceptOn, hinit, if_pos hgt]
    · have hle : seq ≤ w.highWatermark := UInt64.not_lt.1 hgt
      simp only [ReplayWindow.accept, acceptOn, hinit, Bool.not_true, Bool.false_eq_true, if_false,
        if_neg hgt, toNat_mod_usize]
      split
      · exact .inr ⟨rfl, rfl⟩
      · rename_i hin
        split
        · exact .inr ⟨rfl, rfl⟩
        · have hmark := h.mark hinit hle (by omega)
          rw [hinit] at hmark
          exact .inl ⟨rfl, hmark⟩

end

end PhantomProtocol.ReplayWindow
