import PhantomProtocol.Api.FrameBuilders
import Mathlib.Data.Nat.Size

/-!
# Size padding

`padme` rounds a length up to a multiple of a power of two that depends on the length's own
logarithm. Within one power of two that is a rounding to a fixed grid; a length that is carried into
the next power of two lands on it, which is on the coarser grid there.
-/

namespace PhantomProtocol

open List

/-- The bits that `padme` clears of a length with logarithm `e`. -/
def maskBits (e : Nat) : Nat := e - e.size

/-- `n` rounded up to the next multiple of `2 ^ k`. -/
def roundUp (n k : Nat) : Nat := (n + (2 ^ k - 1)) / 2 ^ k * 2 ^ k

theorem le_roundUp (n k : Nat) : n ≤ roundUp n k := by
  have hmod := Nat.mod_lt (n + (2 ^ k - 1)) (Nat.two_pow_pos k)
  have hdiv := Nat.div_add_mod' (n + (2 ^ k - 1)) (2 ^ k)
  unfold roundUp
  omega

theorem roundUp_lt (n k : Nat) : roundUp n k < n + 2 ^ k := by
  have hle := Nat.div_mul_le_self (n + (2 ^ k - 1)) (2 ^ k)
  have hpos := Nat.two_pow_pos k
  unfold roundUp
  omega

theorem roundUp_mono {n m : Nat} (k : Nat) (h : n ≤ m) : roundUp n k ≤ roundUp m k :=
  Nat.mul_le_mul_right _ (Nat.div_le_div_right (Nat.add_le_add_right h _))

theorem dvd_roundUp (n k : Nat) : 2 ^ k ∣ roundUp n k := Nat.dvd_mul_left ..

/-- On the grid nothing is rounded. -/
theorem roundUp_of_dvd {n k : Nat} (h : 2 ^ k ∣ n) : roundUp n k = n := by
  obtain ⟨q, rfl⟩ := h
  have hpos := Nat.two_pow_pos k
  rw [roundUp, Nat.mul_add_div hpos, Nat.div_eq_of_lt (by omega), Nat.add_zero, Nat.mul_comm]

theorem roundUp_le_of_dvd {n m k : Nat} (hle : n ≤ m) (h : 2 ^ k ∣ m) : roundUp n k ≤ m :=
  (roundUp_mono k hle).trans_eq (roundUp_of_dvd h)

theorem size_eq_log2 {e : Nat} (h : e ≠ 0) : e.size = e.log2 + 1 := by
  apply le_antisymm
  · exact Nat.size_le.2 Nat.lt_log2_self
  · exact Nat.lt_size.2 (Nat.log2_self_le h)

theorem size_le_self (e : Nat) : e.size ≤ e := Nat.size_le.2 Nat.lt_two_pow_self

theorem padme_eq (l : Nat) : padme l = roundUp l (maskBits l.log2) := by
  unfold padme
  split
  · rename_i hle
    have hcases : l = 0 ∨ l = 1 ∨ l = 2 := by omega
    rcases hcases with rfl | rfl | rfl <;> decide
  · rename_i hgt
    have hpos : l.log2 ≠ 0 := by
      have hle : 1 ≤ l.log2 := (Nat.le_log2 (by omega)).2 (by omega)
      omega
    simp only [if_neg hpos, roundUp, maskBits, size_eq_log2 hpos]

theorem maskBits_le (e : Nat) : maskBits e ≤ e := Nat.sub_le ..

theorem le_padme (l : Nat) : l ≤ padme l := by
  rw [padme_eq]
  exact le_roundUp ..

/-- The carry goes no further than to the next power of two. -/
theorem padme_le (l : Nat) : padme l ≤ 2 ^ (l.log2 + 1) := by
  rw [padme_eq]
  apply roundUp_le_of_dvd (Nat.le_of_lt Nat.lt_log2_self)
  exact Nat.pow_dvd_pow 2 ((maskBits_le _).trans (Nat.le_succ _))

theorem padme_mono {l m : Nat} (h : l ≤ m) : padme l ≤ padme m := by
  rcases Nat.eq_zero_or_pos l with rfl | hpos
  · exact Nat.zero_le _
  · have hlog : l.log2 ≤ m.log2 :=
      (Nat.le_log2 (by omega)).2 ((Nat.log2_self_le (by omega)).trans h)
    rcases Nat.eq_or_lt_of_le hlog with heq | hlt
    · rw [padme_eq, padme_eq, heq]
      exact roundUp_mono _ h
    · calc padme l ≤ 2 ^ (l.log2 + 1) := padme_le l
        _ ≤ 2 ^ m.log2 := Nat.pow_le_pow_right (by decide) hlt
        _ ≤ m := Nat.log2_self_le (by omega)
        _ ≤ padme m := le_padme m

theorem padme_padme (l : Nat) : padme (padme l) = padme l := by
  rcases Nat.eq_zero_or_pos l with rfl | hpos
  · decide
  · rcases Nat.eq_or_lt_of_le (padme_le l) with heq | hlt
    · -- carried into the next power of two
      rw [heq, padme_eq, Nat.log2_two_pow]
      exact roundUp_of_dvd (Nat.pow_dvd_pow 2 (maskBits_le _))
    · have hlog : (padme l).log2 = l.log2 := by
        have hge := (Nat.log2_self_le (by omega : l ≠ 0)).trans (le_padme l)
        exact (Nat.log2_eq_iff (by have := le_padme l; omega)).2 ⟨hge, hlt⟩
      rw [padme_eq (padme l), hlog, padme_eq l]
      exact roundUp_of_dvd (dvd_roundUp ..)

theorem padme_sub_lt {l : Nat} (h : 0 < l) : (padme l - l) * 2 ^ l.log2.size < l := by
  have hlt := roundUp_lt l (maskBits l.log2)
  rw [← padme_eq] at hlt
  have hpos := Nat.two_pow_pos l.log2.size
  calc (padme l - l) * 2 ^ l.log2.size < 2 ^ maskBits l.log2 * 2 ^ l.log2.size := by
        apply Nat.mul_lt_mul_of_pos_right _ hpos
        have := Nat.two_pow_pos (maskBits l.log2)
        omega
    _ = 2 ^ l.log2 := by rw [← Nat.pow_add, maskBits, Nat.sub_add_cancel (size_le_self _)]
    _ ≤ l := Nat.log2_self_le (by omega)

theorem div_mul_eq_and {x k : Nat} (hk : k ≤ 64) (hx : x < 2 ^ 64) :
    x / 2 ^ k * 2 ^ k = x &&& (2 ^ 64 - 1 - (2 ^ k - 1)) := by
  have hmask : 2 ^ 64 - 1 - (2 ^ k - 1) = (2 ^ (64 - k) - 1) * 2 ^ k := by
    have hle : 2 ^ k ≤ 2 ^ 64 := Nat.pow_le_pow_right (by decide) hk
    have hpos := Nat.two_pow_pos k
    rw [Nat.sub_mul, ← Nat.pow_add, Nat.sub_add_cancel hk]
    omega
  apply Nat.eq_of_testBit_eq
  intro j
  rw [hmask, Nat.testBit_and, Nat.testBit_mul_two_pow, Nat.testBit_mul_two_pow,
    Nat.testBit_two_pow_sub_one, Nat.testBit_div_two_pow]
  by_cases hj : k ≤ j
  · rw [Nat.sub_add_cancel hj]
    by_cases hj' : j < 64
    · simp [hj, show j - k < 64 - k by omega]
    · rw [Nat.testBit_lt_two_pow (hx.trans_le (Nat.pow_le_pow_right (by decide) (by omega)))]
      simp
  · simp [hj]

/-- The rounding with the mask of the source, in 64 bits. -/
theorem padme_eq_and {l : Nat} (h : l < 2 ^ 62) : let mask := 2 ^ maskBits l.log2 - 1
    padme l = (l + mask) &&& (2 ^ 64 - 1 - mask) := by
  have hbits : maskBits l.log2 < 62 := by
    apply (maskBits_le _).trans_lt
    by_cases hzero : l = 0
    · simp [hzero]
    · exact (Nat.log2_lt hzero).2 h
  have hpow : 2 ^ maskBits l.log2 ≤ 2 ^ 62 := Nat.pow_le_pow_right (by decide) hbits.le
  rw [padme_eq]
  exact div_mul_eq_and (by omega) (by omega)

/-! ## The trailer -/

/-- The size on the wire of a plaintext that is not padded. -/
def wireSize (plaintextLen : Nat) : Nat := PacketHeader.size + plaintextLen + aeadOverhead

theorem paddingTrailerLen_eq (n : Nat) : paddingTrailerLen n .padme =
    if maxShapedWire - padLenField < wireSize n then 0
    else min (padme (wireSize n + padLenField)) maxShapedWire - wireSize n := by
  have hle := le_padme (wireSize n + padLenField)
  have hmax : maxShapedWire = 1184 := rfl
  have hfield : padLenField = 2 := rfl
  show (if min (padme (wireSize n + padLenField)) maxShapedWire ≥ wireSize n + padLenField then _
    else _) = _
  by_cases hbig : maxShapedWire - padLenField < wireSize n
  · rw [if_pos hbig, if_neg (by omega)]
  · rw [if_neg hbig, if_pos (by omega)]
    rfl

theorem stripPadding_append (plaintext : Bytes) {n : Nat} (hn : n < 2 ^ 16) :
    stripPadding (plaintext ++ List.replicate n 0 ++ beBytes 2 n) = .ok plaintext := by
  have hread : beNat (beBytes 2 n) = n := by
    rw [beNat_beBytes, Nat.mod_eq_of_lt (by omega)]
  have hlen : (plaintext ++ List.replicate n 0 ++ beBytes 2 n).length =
      (plaintext.length + n) + padLenField := by
    simp [padLenField]
    omega
  unfold stripPadding
  simp only [hlen, Nat.add_sub_cancel]
  rw [if_neg (by omega), drop_left' (by simp), hread, if_neg (by omega), Nat.add_sub_cancel,
    append_assoc, take_left]

theorem stripPadding_appendPadding {trailer : Nat} (plaintext : Bytes) (h : padLenField ≤ trailer) :
    stripPadding (appendPadding plaintext trailer) = .ok plaintext := by
  rw [appendPadding, if_neg (Nat.not_lt.2 h)]
  exact stripPadding_append plaintext (Nat.mod_lt _ (by decide))

/-- At least the length field goes. -/
theorem stripPadding_ne (plaintext : Bytes) : stripPadding plaintext ≠ .ok plaintext := by
  unfold stripPadding
  intro h
  split at h
  · cases h
  · grind [length_take, padLenField, Except.ok.inj]

/-- **Padding.** `padme` is monotone, idempotent, never below the length and above it by less than
one part in `2 ^ S`; the trailer brings the wire size to the bucket, or is 0 if that is above the
limit for shaped packets; and a trailer that is not 0 is stripped again. -/
theorem padding_spec :
    ((∀ l m, l < 2 ^ 62 → m < 2 ^ 62 → l ≤ m → padme l ≤ padme m) ∧
      ∀ l, l < 2 ^ 62 → padme (padme l) = padme l ∧ l ≤ padme l ∧
        (3 ≤ l → (padme l - l) * 2 ^ l.log2.size < l)) ∧
      (∀ n, (paddingTrailerLen n .padme = 0 ↔ maxShapedWire - padLenField < wireSize n) ∧
        (wireSize n ≤ maxShapedWire - padLenField →
          wireSize n + paddingTrailerLen n .padme =
            min (padme (wireSize n + padLenField)) maxShapedWire)) ∧
      ∀ plaintext : Bytes, paddingTrailerLen plaintext.length .padme ≠ 0 →
        stripPadding (appendPadding plaintext (paddingTrailerLen plaintext.length .padme)) =
          .ok plaintext := by
  have htrailer : ∀ n, wireSize n ≤ maxShapedWire - padLenField →
      wireSize n + padLenField ≤ min (padme (wireSize n + padLenField)) maxShapedWire := by
    intro n hn
    apply le_min (le_padme _)
    unfold maxShapedWire padLenField at *
    omega
  refine ⟨⟨fun l m _ _ h => padme_mono h, fun l _ => ⟨padme_padme l, le_padme l, fun h =>
    padme_sub_lt (by omega)⟩⟩, fun n => ⟨⟨fun h => ?_, fun h => ?_⟩, fun h => ?_⟩, ?_⟩
  · by_contra hsmall
    rw [paddingTrailerLen_eq, if_neg hsmall] at h
    have hroom := htrailer n (Nat.not_lt.1 hsmall)
    have hfield : padLenField = 2 := rfl
    omega
  · rw [paddingTrailerLen_eq, if_pos h]
  · rw [paddingTrailerLen_eq, if_neg (Nat.not_lt.2 h)]
    have hroom := htrailer n h
    omega
  · intro plaintext hne
    apply stripPadding_appendPadding
    rw [paddingTrailerLen_eq] at hne ⊢
    split at hne
    · exact absurd rfl hne
    · grind

theorem padding_spec_hundred :
    (padme 100 - 100) * 2 ^ (Nat.log2 100).size < 100 ∧
      stripPadding (appendPadding [1, 2, 3] (paddingTrailerLen 3 .padme)) = .ok [1, 2, 3] := by
  constructor
  · exact (padding_spec.1.2 100 (by decide)).2.2 (by decide)
  · exact padding_spec.2.2 [1, 2, 3] (by decide)

/-- A plaintext too long to be padded has no trailer, and its last two bytes are not one. The sender
does not flag it, so that the receiver does not try. -/
theorem stripPadding_unpadded :
    let plaintext : Bytes := List.replicate 1152 0
    paddingTrailerLen plaintext.length .padme = 0 ∧
      stripPadding (appendPadding plaintext (paddingTrailerLen plaintext.length .padme)) ≠
        .ok plaintext := by
  intro plaintext
  have hzero : paddingTrailerLen plaintext.length .padme = 0 := by
    rw [length_replicate, paddingTrailerLen_eq, if_pos (by decide)]
  refine ⟨hzero, ?_⟩
  rw [hzero]
  exact stripPadding_ne plaintext

end PhantomProtocol
