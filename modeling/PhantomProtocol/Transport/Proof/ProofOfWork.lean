import PhantomProtocol.Transport.Proof.RetryGate
import Mathlib.Data.Nat.Size

/-!
# The proof-of-work test

`check_leading_zeros` counts in a `u8`. A hash of 32 zero bytes has 256 leading zero bits, one more
than the counter holds, and is the only hash that it miscounts.
-/

namespace PhantomProtocol.Handshake

open List UInt8

variable {b : UInt8}

/-- The leading zero bits of a byte string. -/
def leadingZeroBits (bytes : Bytes) : Nat := 8 * bytes.length - (beNat bytes).size

theorem beNat_cons (b : UInt8) (bytes : Bytes) :
    beNat (b :: bytes) = b.toNat * 256 ^ bytes.length + beNat bytes := by
  induction bytes using reverseRecOn with
  | nil => simp [beNat]
  | append_singleton _ _ ih =>
    simp only [beNat, ← cons_append, foldl_append, foldl_cons, foldl_nil,
      length_append, length_singleton, Nat.pow_succ] at ih ⊢
    rw [ih]
    ring

theorem size_beNat_cons (hb : b ≠ 0) (bytes : Bytes) :
    (beNat (b :: bytes)).size = b.toNat.log2 + 1 + 8 * bytes.length := by
  have hpos : b.toNat ≠ 0 := fun h => hb (UInt8.toNat_inj.1 h)
  have hrest := beNat_lt bytes
  have hpow : (256 : Nat) ^ bytes.length = 2 ^ (8 * bytes.length) := by rw [Nat.pow_mul]
  rw [hpow] at hrest
  rw [beNat_cons, hpow]
  apply le_antisymm
  · rw [Nat.size_le, Nat.pow_add]
    have hlt : b.toNat + 1 ≤ 2 ^ (b.toNat.log2 + 1) := Nat.lt_log2_self
    calc b.toNat * 2 ^ (8 * bytes.length) + beNat bytes
        < (b.toNat + 1) * 2 ^ (8 * bytes.length) := by rw [Nat.add_mul, Nat.one_mul]; omega
      _ ≤ _ := Nat.mul_le_mul_right _ hlt
  · rw [Nat.add_right_comm, Nat.add_one_le_iff, Nat.lt_size, Nat.pow_add]
    exact le_add_right (Nat.mul_le_mul_right _ (Nat.log2_self_le hpos))

theorem leadingZeroBits_zero (bytes : Bytes) :
    leadingZeroBits (0 :: bytes) = 8 + leadingZeroBits bytes := by
  have hle : (beNat bytes).size ≤ 8 * bytes.length := by
    rw [Nat.size_le, Nat.pow_mul]
    exact beNat_lt bytes
  simp only [leadingZeroBits, beNat_cons, UInt8.toNat_zero, Nat.zero_mul, Nat.zero_add, length_cons]
  omega

theorem leadingZeroBits_cons (hb : b ≠ 0) (bytes : Bytes) :
    leadingZeroBits (b :: bytes) = 7 - b.toNat.log2 := by
  simp only [leadingZeroBits, size_beNat_cons hb, length_cons]
  omega

theorem countZeros_eq (bytes : Bytes) (zeros : UInt8) :
    countZeros bytes zeros = zeros + UInt8.ofNat (leadingZeroBits bytes) := by
  induction bytes generalizing zeros with
  | nil => simp [countZeros, leadingZeroBits]
  | cons =>
    grind [countZeros, leadingZeroBits_zero, ofNat_add, add_assoc, leadingZeroBits_cons]

theorem leadingZeroBits_lt {bytes : Bytes} (h : ∃ b ∈ bytes, b ≠ 0) :
    leadingZeroBits bytes < 8 * bytes.length := by
  induction bytes with
  | nil => simp at h
  | cons b bytes ih =>
    by_cases hb : b = 0
    · subst hb
      have hrest : ∃ c ∈ bytes, c ≠ 0 := by simpa using h
      have hlt := ih hrest
      rw [leadingZeroBits_zero, length_cons]
      omega
    · rw [leadingZeroBits_cons hb, length_cons]
      omega

theorem leadingZeroBits_replicate (n : Nat) : leadingZeroBits (replicate n 0) = 8 * n := by
  induction n with
  | zero => rfl
  | succ n ih =>
    rw [replicate_succ, leadingZeroBits_zero, ih]
    omega

/-- **The test of a proof of work.** On a hash of 32 bytes the counter does not overflow and the
test is exact at every difficulty if and only if some byte of the hash is not zero. What
`solve_with_bound` returns verifies for two minutes in any case, both sides counting alike. -/
theorem checkLeadingZeros_exact_iff (hash : Bytes) (hlen : hash.length = 32) :
    (((countZeros hash 0).toNat = leadingZeroBits hash ∧
        ∀ difficulty : UInt8,
          checkLeadingZeros hash difficulty = true ↔ difficulty.toNat ≤ leadingZeroBits hash) ↔
        ∃ b ∈ hash, b ≠ 0) ∧
      ∀ (macs : CookieMacs) (difficulty : UInt8) (clientId secret : Bytes) (issued now : SystemTime)
        (maxIters : UInt64) (sol : PoWSolution),
        issued.nanos ≤ now.nanos → now.nanos ≤ issued.nanos + powValidity * nanosPerSecond →
        let challenge := newStateless macs difficulty clientId secret issued
        solveWithBound macs challenge maxIters = some sol →
          verify macs challenge sol clientId secret now = true := by
  constructor
  · constructor
    · intro ⟨hcount, _⟩
      by_contra hzero
      push Not at hzero
      rw [eq_replicate_of_mem hzero, hlen, leadingZeroBits_replicate] at hcount
      exact absurd hcount (by decide)
    · intro hbyte
      have hlt := leadingZeroBits_lt hbyte
      have hcount : (countZeros hash 0).toNat = leadingZeroBits hash := by
        rw [countZeros_eq, UInt8.zero_add, UInt8.toNat_ofNat_of_lt' (by rw [UInt8.size]; omega)]
      refine ⟨hcount, fun difficulty => ?_⟩
      rw [checkLeadingZeros, decide_eq_true_eq, le_iff_toNat_le, hcount]
  · intro macs difficulty clientId secret issued now maxIters sol hlater hsoon challenge hsolve
    have hsolves : Solves macs challenge sol := solves_of_solveFrom hsolve
    have hexpired : secs now ≤ secs issued + powValidity := by
      unfold secs powValidity nanosPerSecond at *
      omega
    have hverify := verify_new hlater hexpired hsolves
    rwa [hsolves.1] at hverify

/-- A hash with one bit set; and a challenge of difficulty 8, solved in the fourth turn and checked
two minutes later. -/
theorem checkLeadingZeros_exact_one :
    (checkLeadingZeros (1 :: replicate 31 0) 7 = true ↔
      (7 : UInt8).toNat ≤ leadingZeroBits (1 :: replicate 31 0)) ∧
      let secret := replicate 32 7
      let challenge := newStateless plainMacs 8 (IpText.toText localhost) secret hourEnd
      solveWithBound plainMacs challenge 3 = none ∧
        solveWithBound plainMacs challenge 4 = some ⟨challenge.nonce, 3⟩ ∧
        verify plainMacs challenge ⟨challenge.nonce, 3⟩ (IpText.toText localhost) secret
          ⟨hourEnd.nanos + powValidity * nanosPerSecond, by decide⟩ = true := by
  obtain ⟨hexact, hverifies⟩ := checkLeadingZeros_exact_iff (1 :: replicate 31 0) rfl
  refine ⟨(hexact.2 ⟨1, by simp, by decide⟩).2 7, by decide, by decide, ?_⟩
  exact hverifies _ _ _ _ _ _ 4 _ (by decide) (by decide) (by decide)

/-- 32 zero bytes fail the test at difficulty 1: the counter has come back to zero. -/
theorem checkLeadingZeros_zeros :
    (replicate 32 (0 : UInt8)).length = 32 ∧
      checkLeadingZeros (replicate 32 0) 1 = false ∧
      (1 : UInt8).toNat ≤ leadingZeroBits (replicate 32 0) := by
  refine ⟨rfl, by decide, ?_⟩
  rw [leadingZeroBits_replicate]
  decide

end PhantomProtocol.Handshake
