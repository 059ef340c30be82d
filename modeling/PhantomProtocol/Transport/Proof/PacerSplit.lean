import PhantomProtocol.Transport.Proof.Pacer

/-!
# What asking costs

A refill credits whole bytes and moves its mark to the present, so that the fraction of a byte it
rounds off is lost. Only a refill that finds less than a byte leaves its mark, and with it the
fraction, where it is.
-/

namespace PhantomProtocol.Pacer

/-- `can_send` is called after each of the waits. -/
def asking (p : Pacer) (elapsed : Nat) : List Nat → Pacer
  | [] => p
  | ns :: waits => asking (p.canSend (elapsed + ns)).1 (elapsed + ns) waits

/-- What the calls leave uncredited of the time since `mark`, in billionths of a byte. A refill leaves
what it rounds off and what an `i64` cannot hold; the time after the last one is left as a whole. -/
def unrefilled (rate mark elapsed : Nat) : List Nat → Nat
  | [] => rate * (elapsed - mark)
  | ns :: waits =>
    let now := nowNs (elapsed + ns)
    let whole := rate * (now - mark) / nanosPerSec
    if whole = 0 then unrefilled rate mark (elapsed + ns) waits
    else
      rate * (now - mark) - (toI64 whole).toNat * nanosPerSec +
        unrefilled rate now (elapsed + ns) waits

variable {p : Pacer} {elapsed : Nat}

theorem tokens_le_asking (henabled : p.enabled = true) (waits : List Nat) :
    p.tokens ≤ (p.asking elapsed waits).tokens := by
  induction waits generalizing p elapsed with
  | nil => exact le_refl _
  | cons ns _ ih =>
    rw [asking, canSend_fst _ _ henabled]
    apply le_trans (p.tokens_le_refillTokens (elapsed + ns))
    apply ih
    rw [enabled_refillTokens]
    exact henabled

theorem tokens_refillTokens_of_lt (h : (p.refillTokens elapsed).tokens < burstFor p.rateBps) :
    (p.refillTokens elapsed).tokens = p.tokens + toI64 (p.accrued elapsed) := by
  rw [tokens_refillTokens] at h ⊢
  omega

theorem toI64_mul_le (rate span : Nat) :
    (toI64 (rate * span / nanosPerSec)).toNat * nanosPerSec ≤ rate * span := by
  have hheld : (toI64 (rate * span / nanosPerSec)).toNat ≤ rate * span / nanosPerSec :=
    Int.toNat_le.2 (min_le_left ..)
  calc (toI64 (rate * span / nanosPerSec)).toNat * nanosPerSec
    _ ≤ rate * span / nanosPerSec * nanosPerSec := Nat.mul_le_mul_right _ hheld
    _ ≤ rate * span := Nat.div_mul_le_self ..

/-- **Credit and loss.** While the bucket stays below its cap, the credit added and what is not
credited make up what the rate allows since the mark. -/
theorem credit_add_unrefilled (henabled : p.enabled = true) (hmark : p.lastRefillNs ≤ nowNs elapsed)
    (waits : List Nat) (hcap : (p.asking elapsed waits).tokens < burstFor p.rateBps) :
    ((p.asking elapsed waits).tokens - p.tokens) * nanosPerSec +
        unrefilled p.rateBps p.lastRefillNs elapsed waits =
      ((p.rateBps * (elapsed + waits.sum - p.lastRefillNs) : Nat) : Int) := by
  induction waits generalizing p elapsed with
  | nil => simp [asking, unrefilled]
  | cons ns waits ih =>
    have henabled' : (p.refillTokens (elapsed + ns)).enabled = true := by simp [*]
    have hlater : nowNs elapsed ≤ nowNs (elapsed + ns) := by
      unfold nowNs
      omega
    have hclock : nowNs (elapsed + ns) ≤ elapsed + ns := Nat.min_le_left ..
    rw [asking, canSend_fst _ _ henabled] at hcap ⊢
    rw [unrefilled, List.sum_cons, ← Nat.add_assoc]
    by_cases hnone : p.accrued (elapsed + ns) = 0
    · rw [refillTokens_of_accrued_eq_zero p _ hnone] at hcap ⊢
      have hwhole : p.rateBps * (nowNs (elapsed + ns) - p.lastRefillNs) / nanosPerSec = 0 := hnone
      simp only [hwhole, if_true]
      exact ih henabled (hmark.trans hlater) hcap
    · have hbelow := lt_of_le_of_lt (tokens_le_asking henabled' waits) hcap
      have htokens := tokens_refillTokens_of_lt hbelow
      have hlast : (p.refillTokens (elapsed + ns)).lastRefillNs = nowNs (elapsed + ns) := by
        rw [lastRefillNs_refillTokens, if_neg hnone]
      have hrest := ih henabled' hlast.le (by rw [rateBps_refillTokens]; exact hcap)
      rw [rateBps_refillTokens, hlast, htokens] at hrest
      have hwhole : ¬p.rateBps * (nowNs (elapsed + ns) - p.lastRefillNs) / nanosPerSec = 0 := hnone
      have hheld := toI64_mul_le p.rateBps (nowNs (elapsed + ns) - p.lastRefillNs)
      have hnonneg := toI64_nonneg (p.accrued (elapsed + ns))
      -- the time since the mark is the time up to this refill and the time since
      have htime : p.rateBps * (elapsed + ns + waits.sum - p.lastRefillNs) =
          p.rateBps * (nowNs (elapsed + ns) - p.lastRefillNs) +
            p.rateBps * (elapsed + ns + waits.sum - nowNs (elapsed + ns)) := by
        rw [← Nat.mul_add]
        congr 1
        omega
      simp only [hwhole, if_false]
      rw [htime]
      change (toI64 (p.accrued (elapsed + ns))).toNat * nanosPerSec ≤ _ at hheld
      change _ + ((_ - (toI64 (p.accrued (elapsed + ns))).toNat * nanosPerSec + _ : Nat) : Int) = _
      grind

/-- **When asking costs no credit.** Below the cap, the credit added over an interval is at least what
the rate allows in it, less one byte, exactly when what the calls leave uncredited is at most a byte,
the fraction of a byte that the interval ends on, and what was uncredited when it began. -/
theorem asking_keeps_credit_iff (p : Pacer) (henabled : p.enabled = true) (elapsed : Nat)
    (hmark : p.lastRefillNs ≤ nowNs elapsed) (waits : List Nat)
    (hcap : (p.asking elapsed waits).tokens < burstFor p.rateBps) :
    ((p.rateBps * waits.sum / nanosPerSec : Nat) : Int) - 1 ≤
        (p.asking elapsed waits).tokens - p.tokens ↔
      unrefilled p.rateBps p.lastRefillNs elapsed waits ≤
        nanosPerSec + p.rateBps * waits.sum % nanosPerSec +
          p.rateBps * (elapsed - p.lastRefillNs) := by
  have htotal := credit_add_unrefilled henabled hmark waits hcap
  have hclock : nowNs elapsed ≤ elapsed := Nat.min_le_left ..
  have htime : p.rateBps * (elapsed + waits.sum - p.lastRefillNs) =
      p.rateBps * (elapsed - p.lastRefillNs) + p.rateBps * waits.sum := by
    rw [← Nat.mul_add]
    congr 1
    omega
  have hrate := Nat.div_add_mod (p.rateBps * waits.sum) nanosPerSec
  rw [htime] at htotal
  simp only [nanosPerSec] at *
  omega

/-- At 1.5 bytes a microsecond, with a question every other microsecond. -/
theorem asking_keeps_credit_two_calls :
    ((new 1500000).consume 1000).tokens = 15384 ∧
      5 ≤ (((new 1500000).consume 1000).asking 0 [2000, 2000]).tokens - 15384 := by
  have hkeeps := (asking_keeps_credit_iff ((new 1500000).consume 1000) (by decide) 0 (by decide)
    [2000, 2000] (by decide)).2 (by decide)
  have hrate : ((((new 1500000).consume 1000).rateBps * [2000, 2000].sum / nanosPerSec : Nat) : Int) -
      1 = 5 := by decide
  have htokens : ((new 1500000).consume 1000).tokens = 15384 := by decide
  rw [hrate, htokens] at hkeeps
  exact ⟨htokens, hkeeps⟩

/-- With a question every microsecond each refill credits one byte and throws half a byte away: four
bytes in the time of six. -/
theorem asking_loses_credit :
    ((new 1500000).consume 1000).enabled = true ∧
      (((new 1500000).consume 1000).asking 0 [1000, 1000, 1000, 1000]).tokens <
        burstFor ((new 1500000).consume 1000).rateBps ∧
      ¬(((((new 1500000).consume 1000).rateBps * [1000, 1000, 1000, 1000].sum / nanosPerSec : Nat) :
          Int) - 1 ≤
        (((new 1500000).consume 1000).asking 0 [1000, 1000, 1000, 1000]).tokens -
          ((new 1500000).consume 1000).tokens) := by
  decide

end PhantomProtocol.Pacer
