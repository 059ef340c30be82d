import Mathlib.Tactic.Positivity
import PhantomProtocol.Lib.Run
import PhantomProtocol.Lib.TokenBucket
import PhantomProtocol.Transport.Pacer

/-!
# What the pacer lets through, and when

A sender that asks before each send stays within the burst allowance, the rate and two sends, over
any interval (`Pacing.paced_sends_le`); when the wait that `time_until_credit` gives is long enough
(`Pacer.wait_suffices_iff`).
-/

namespace PhantomProtocol

namespace Pacer

variable (p : Pacer) (elapsed : Nat) {bytes : Nat}

/-! ## A refill -/

@[simp] theorem rateBps_refillTokens : (p.refillTokens elapsed).rateBps = p.rateBps := by
  unfold refillTokens
  split_ifs <;> rfl

@[simp] theorem enabled_refillTokens : (p.refillTokens elapsed).enabled = p.enabled := by
  unfold refillTokens
  split_ifs <;> rfl

theorem accrued_of_not_elapsed (h : nowNs elapsed - p.lastRefillNs = 0) : p.accrued elapsed = 0 := by
  simp [accrued, h]

theorem refillTokens_of_accrued_eq_zero (h : p.accrued elapsed = 0) :
    p.refillTokens elapsed = p := by
  unfold refillTokens
  split_ifs <;> rfl

theorem lastRefillNs_refillTokens : (p.refillTokens elapsed).lastRefillNs =
      if p.accrued elapsed = 0 then p.lastRefillNs else nowNs elapsed := by
  by_cases h : p.accrued elapsed = 0
  · rw [refillTokens_of_accrued_eq_zero p elapsed h, if_pos h]
  · have hspan : nowNs elapsed - p.lastRefillNs ≠ 0 := fun h0 =>
      h (accrued_of_not_elapsed p elapsed h0)
    simp [refillTokens, h, hspan]

theorem burstFor_le_maxBurstBytes (rate : Nat) : burstFor rate ≤ maxBurstBytes :=
  max_le (by decide) (min_le_right ..)

/-- A refill, in closed form. -/
theorem tokens_refillTokens : (p.refillTokens elapsed).tokens =
      min (p.tokens + toI64 (p.accrued elapsed)) (burstFor p.rateBps) := by
  have hle := p.tokens_le
  have hge := p.tokens_ge
  have hcredit := toI64_nonneg (p.accrued elapsed)
  have hcap : burstFor p.rateBps < i64Max :=
    lt_of_le_of_lt (burstFor_le_maxBurstBytes _) (by decide)
  by_cases h : p.accrued elapsed = 0
  · rw [refillTokens_of_accrued_eq_zero p elapsed h, h]
    simp [toI64, i64Max, hle]
  · have hspan : nowNs elapsed - p.lastRefillNs ≠ 0 := fun h0 =>
      h (accrued_of_not_elapsed p elapsed h0)
    simp only [refillTokens, h, hspan, if_false, saturatingAdd]
    omega

theorem tokens_le_refillTokens : p.tokens ≤ (p.refillTokens elapsed).tokens := by
  rw [tokens_refillTokens]
  exact le_min (Int.le_add_of_nonneg_right (toI64_nonneg _)) p.tokens_le

theorem refillTokens_pos_iff :
    0 < (p.refillTokens elapsed).tokens ↔ 0 < p.tokens + toI64 (p.accrued elapsed) := by
  rw [tokens_refillTokens, lt_min_iff]
  exact and_iff_left (burstFor_pos _)

/-- A question for credit, in closed form. -/
theorem canSend_eq_true_iff (henabled : p.enabled = true) :
    (p.canSend elapsed).2 = true ↔ 0 < p.tokens + toI64 (p.accrued elapsed) := by
  rw [canSend, if_pos henabled, decide_eq_true_eq, refillTokens_pos_iff]

/-! ## Credit, with what has not been refilled yet -/

/-- The credit at an instant, in billionths of a byte, as if fractions could be refilled. -/
def credit : Int :=
  p.tokens * nanosPerSec + p.rateBps * ((nowNs elapsed - p.lastRefillNs : Nat) : Int)

theorem tokens_mul_le_credit : p.tokens * nanosPerSec ≤ p.credit elapsed :=
  Int.le_add_of_nonneg_right (by positivity)

theorem credit_add_le (d : Nat) : p.credit elapsed ≤ p.credit (elapsed + d) ∧
      p.credit (elapsed + d) ≤ p.credit elapsed + p.rateBps * d := by
  have hspan : nowNs elapsed - p.lastRefillNs ≤ nowNs (elapsed + d) - p.lastRefillNs ∧
      nowNs (elapsed + d) - p.lastRefillNs ≤ nowNs elapsed - p.lastRefillNs + d := by
    unfold nowNs
    omega
  have hlow : (p.rateBps * ((nowNs elapsed - p.lastRefillNs : Nat) : Int)) ≤
      p.rateBps * ((nowNs (elapsed + d) - p.lastRefillNs : Nat) : Int) := by
    exact_mod_cast Nat.mul_le_mul_left _ hspan.1
  have hhigh : (p.rateBps * ((nowNs (elapsed + d) - p.lastRefillNs : Nat) : Int)) ≤
      p.rateBps * ((nowNs elapsed - p.lastRefillNs + d : Nat) : Int) := by
    exact_mod_cast Nat.mul_le_mul_left _ hspan.2
  rw [Nat.cast_add, Int.mul_add] at hhigh
  unfold credit
  omega

/-- A refill turns accrued time into tokens and keeps at most what it found; what is left is a full
bucket and less than a byte. -/
theorem credit_refillTokens_le : (p.refillTokens elapsed).credit elapsed ≤ p.credit elapsed ∧
      (p.refillTokens elapsed).credit elapsed < (burstFor p.rateBps + 1) * nanosPerSec := by
  have hcap := p.tokens_le
  by_cases h : p.accrued elapsed = 0
  · rw [refillTokens_of_accrued_eq_zero p elapsed h]
    refine ⟨le_refl _, ?_⟩
    have hfraction : p.rateBps * (nowNs elapsed - p.lastRefillNs) < nanosPerSec :=
      (Nat.div_eq_zero_iff.1 h).resolve_left (by decide)
    have hfraction' : (p.rateBps * ((nowNs elapsed - p.lastRefillNs : Nat) : Int)) <
        (nanosPerSec : Int) := by
      exact_mod_cast hfraction
    unfold credit
    have : p.tokens * nanosPerSec ≤ burstFor p.rateBps * nanosPerSec := by gcongr
    rw [Int.add_mul, Int.one_mul]
    omega
  · have hmark : (p.refillTokens elapsed).lastRefillNs = nowNs elapsed := by
      rw [lastRefillNs_refillTokens, if_neg h]
    have hcredit : (p.refillTokens elapsed).credit elapsed =
        (p.refillTokens elapsed).tokens * nanosPerSec := by
      simp [credit, hmark]
    rw [hcredit]
    constructor
    · -- whole bytes of what accrued, at most all of it
      have htokens : (p.refillTokens elapsed).tokens ≤ p.tokens + p.accrued elapsed := by
        rw [tokens_refillTokens]
        exact (min_le_left _ _).trans (Int.add_le_add_left (min_le_left _ _) _)
      have hwhole : (p.accrued elapsed * nanosPerSec : Int) ≤
          p.rateBps * ((nowNs elapsed - p.lastRefillNs : Nat) : Int) := by
        exact_mod_cast Nat.div_mul_le_self ..
      have : (p.refillTokens elapsed).tokens * nanosPerSec ≤
          (p.tokens + p.accrued elapsed) * nanosPerSec := by gcongr
      rw [Int.add_mul] at this
      unfold credit
      omega
    · have hle := (p.refillTokens elapsed).tokens_le
      rw [rateBps_refillTokens] at hle
      have : (0 : Int) < nanosPerSec := by decide
      gcongr
      omega

theorem tokens_consume (henabled : p.enabled = true) (htokens : 0 < p.tokens)
    (hbytes : (bytes : Int) ≤ i64Max) : (p.consume bytes).tokens = p.tokens - bytes := by
  have hle := p.tokens_le
  have hcap : burstFor p.rateBps ≤ maxBurstBytes := burstFor_le_maxBurstBytes _
  have hconst : maxBurstBytes < i64Max ∧ i64Min = -i64Max - 1 := by decide
  have htaken : toI64 bytes = bytes := min_eq_left hbytes
  simp only [consume, henabled, if_true, saturatingSub, htaken]
  omega

@[simp] theorem enabled_consume (bytes : Nat) : (p.consume bytes).enabled = p.enabled := by
  unfold consume
  split_ifs <;> rfl

@[simp] theorem rateBps_consume (bytes : Nat) : (p.consume bytes).rateBps = p.rateBps := by
  unfold consume
  split_ifs <;> rfl

@[simp] theorem lastRefillNs_consume (bytes : Nat) :
    (p.consume bytes).lastRefillNs = p.lastRefillNs := by
  unfold consume
  split_ifs <;> rfl

theorem credit_consume (henabled : p.enabled = true) (htokens : 0 < p.tokens)
    (hbytes : (bytes : Int) ≤ i64Max) :
    (p.consume bytes).credit elapsed = p.credit elapsed - bytes * nanosPerSec := by
  simp only [credit, rateBps_consume, lastRefillNs_consume,
    tokens_consume p henabled htokens hbytes, Int.sub_mul]
  omega

theorem canSend_fst (henabled : p.enabled = true) :
    (p.canSend elapsed).1 = p.refillTokens elapsed := by
  rw [canSend, if_pos henabled]

theorem timeUntilCredit_fst (henabled : p.enabled = true) :
    (p.timeUntilCredit elapsed).1 = p.refillTokens elapsed := by
  simp only [timeUntilCredit, henabled, if_true]
  split_ifs <;> rfl

end Pacer

/-! ## A sender that asks before it sends -/

namespace Pacing

open Lts Pacer

structure State where
  pacer : Pacer
  elapsed : Nat
  /-- `can_send` has returned true since the last send. -/
  cleared : Bool
  /-- When how many bytes were sent, the latest first. -/
  sends : List (Nat × Nat)
deriving DecidableEq

inductive Event where
  | wait (ns : Nat)
  | canSend
  | timeUntilCredit
  | availableTokens
  | send (bytes : Nat)
deriving DecidableEq

/-- `most` is the largest send. -/
def step (most : Nat) (s : State) : Event → Option State
  | .wait ns => some { s with elapsed := s.elapsed + ns }
  | .canSend =>
    some { s with
      pacer := (s.pacer.canSend s.elapsed).1
      cleared := s.cleared || (s.pacer.canSend s.elapsed).2 }
  | .timeUntilCredit => some { s with pacer := (s.pacer.timeUntilCredit s.elapsed).1 }
  | .availableTokens => some { s with pacer := (s.pacer.availableTokens s.elapsed).1 }
  | .send bytes =>
    if s.cleared = true ∧ bytes ≤ most then
      some { s with
        pacer := s.pacer.consume bytes
        cleared := false
        sends := (s.elapsed, bytes) :: s.sends }
    else none

/-- A pacer that has cleared nothing yet. -/
def start (p : Pacer) (elapsed : Nat) : State := ⟨p, elapsed, false, []⟩

/-- The pacer as a bucket, in billionths of a byte. A question for credit leaves at most the
allowance and a fraction, and lets a send out at a whole byte. -/
def meter (rate most : Nat) : TokenBucket.Meter where
  unit := nanosPerSec
  rate
  cap := (burstFor rate + 1) * nanosPerSec - 1
  floor := nanosPerSec
  most
  floor_le := by
    have := burstFor_pos rate
    simp only [nanosPerSec]
    omega

def bucket (s : State) : TokenBucket.State :=
  ⟨s.pacer.credit s.elapsed, s.elapsed, s.cleared, s.sends⟩

/-- The pacer is the bucket it is meant to be. -/
structure Metering (rate most : Nat) (s : State) : Prop where
  enabled : s.pacer.enabled = true
  rateBps : s.pacer.rateBps = rate
  cleared : s.cleared = true → 0 < s.pacer.tokens
  metered : TokenBucket.Metered (meter rate most) (bucket s)

variable {rate most : Nat} {s s' : State}

theorem Metering.refill (h : Metering rate most s) {cleared : Bool}
    (hcleared : cleared = true → 0 < (s.pacer.refillTokens s.elapsed).tokens) :
    Metering rate most
      { s with pacer := s.pacer.refillTokens s.elapsed, cleared } := by
  obtain ⟨hle, hcap⟩ := s.pacer.credit_refillTokens_le s.elapsed
  rw [h.rateBps] at hcap
  refine ⟨?_, ?_, hcleared, h.metered.step (.check hle (Int.le_sub_one_of_lt hcap) ?_)⟩
  · rw [enabled_refillTokens]
    exact h.enabled
  · rw [rateBps_refillTokens]
    exact h.rateBps
  · intro hc
    show (nanosPerSec : Int) ≤ (s.pacer.refillTokens s.elapsed).credit s.elapsed
    have htokens := hcleared hc
    have := (s.pacer.refillTokens s.elapsed).tokens_mul_le_credit s.elapsed
    simp only [nanosPerSec] at this ⊢
    omega

theorem Metering.pass (h : Metering rate most s) (ns : Nat) :
    Metering rate most { s with elapsed := s.elapsed + ns } := by
  obtain ⟨hge, hle⟩ := s.pacer.credit_add_le s.elapsed ns
  rw [h.rateBps] at hle
  exact ⟨h.enabled, h.rateBps, h.cleared, h.metered.step (.pass ns hge hle)⟩

theorem Metering.spend (h : Metering rate most s) {bytes : Nat} (hcleared : s.cleared = true)
    (hmost : bytes ≤ most) (hbytes : (bytes : Int) ≤ i64Max) :
    Metering rate most { s with
      pacer := s.pacer.consume bytes, cleared := false, sends := (s.elapsed, bytes) :: s.sends } := by
  have hcredit := s.pacer.credit_consume s.elapsed h.enabled (h.cleared hcleared) hbytes
  refine ⟨?_, ?_, (by cases ·), ?_⟩
  · rw [enabled_consume]
    exact h.enabled
  · rw [rateBps_consume]
    exact h.rateBps
  · unfold bucket
    rw [hcredit]
    exact h.metered.step (.spend hcleared hmost)

/-- A send that an `i64` can hold. -/
def FitsI64 (_ : State) (e : Event) (_ : State) : Prop :=
  match e with
  | .send bytes => (bytes : Int) ≤ i64Max
  | _ => True

instance (s : State) (e : Event) (s' : State) : Decidable (FitsI64 s e s') := by
  unfold FitsI64
  split <;> infer_instance

theorem Metering.step {e : Event} (h : Metering rate most s) (hs : Pacing.step most s e = some s')
    (hbytes : FitsI64 s e s') : Metering rate most s' := by
  have hkept : s.cleared = true → 0 < (s.pacer.refillTokens s.elapsed).tokens := fun hc =>
    lt_of_lt_of_le (h.cleared hc) (s.pacer.tokens_le_refillTokens s.elapsed)
  cases e with
  | wait ns =>
    cases hs
    exact h.pass ns
  | canSend =>
    simp only [Pacing.step, canSend_fst _ _ h.enabled] at hs
    cases hs
    refine h.refill fun hc => ?_
    rcases Bool.or_eq_true_iff.1 hc with hc | hc
    · exact hkept hc
    · exact (refillTokens_pos_iff ..).2 ((canSend_eq_true_iff _ _ h.enabled).1 hc)
  | timeUntilCredit =>
    simp only [Pacing.step, timeUntilCredit_fst _ _ h.enabled] at hs
    cases hs
    exact h.refill hkept
  | availableTokens =>
    cases hs
    exact h.refill hkept
  | send =>
    obtain ⟨⟨hcleared, hmost⟩, ⟨⟩⟩ := Option.ite_none_right_eq_some.1 hs
    exact h.spend hcleared hmost hbytes

theorem metering_start (p : Pacer) (henabled : p.enabled = true) (elapsed : Nat) :
    Metering p.rateBps most (start p elapsed) :=
  ⟨henabled, rfl, (by cases ·), .init rfl rfl⟩

/-- **The pacer holds a sender to its rate.** From any enabled pacer, when the sender asks for
credit before each send and no send is larger than an `i64` holds, then what is sent in an interval
is at most the burst allowance, what the rate allows in it and two sends; and no more than the
allowance is ever stored. -/
theorem paced_sends_le (p : Pacer) (henabled : p.enabled = true) (elapsed : Nat) (es : List Event)
    (hbytes : Along (step most) FitsI64 (start p elapsed) es)
    (hrun : run (step most) (start p elapsed) es = some s) :
    (∀ t ns, (TokenBucket.spentIn s.sends t (t + ns) * nanosPerSec : Int) ≤
      (burstFor p.rateBps + 2 * most) * nanosPerSec + p.rateBps * ns) ∧
    s.pacer.tokens ≤ burstFor p.rateBps := by
  have hmet : Metering p.rateBps most s :=
    run_inv_along (fun _ _ _ h hs hb => h.step hs hb) es (metering_start p henabled elapsed) hbytes
      hrun
  refine ⟨fun t ns => ?_, ?_⟩
  · have hbound := hmet.metered.bound t (t + ns)
    simp only [meter, bucket, Nat.add_sub_cancel_left] at hbound
    rw [Int.add_mul] at hbound
    rw [Int.add_mul]
    have : (2 * most : Int) * nanosPerSec = 2 * (most * nanosPerSec) := Int.mul_assoc ..
    omega
  · rw [← hmet.rateBps]
    exact s.pacer.tokens_le

theorem paced_sends_le_first_flight :
    ∃ s, run (step 1200) (start (new 3000) 0) [.canSend, .send 1200, .wait 7, .canSend, .send 900] =
        some s ∧
      s.sends = [(7, 900), (0, 1200)] ∧
      (∀ t ns, (TokenBucket.spentIn s.sends t (t + ns) * nanosPerSec : Int) ≤
        (burstFor 3000 + 2 * 1200) * nanosPerSec + 3000 * ns) ∧
      s.pacer.tokens ≤ burstFor 3000 := by
  obtain ⟨s, hrun, hsends⟩ : ∃ s, run (step 1200) (start (new 3000) 0)
      [.canSend, .send 1200, .wait 7, .canSend, .send 900] = some s ∧
      s.sends = [(7, 900), (0, 1200)] := ⟨_, rfl, rfl⟩
  exact ⟨s, hrun, hsends, paced_sends_le (new 3000) rfl 0 _ (by decide) hrun⟩

/-- A debit stops at `i64::MAX`: of a send twice as large half is forgiven, so four of them go out
in the time of one and a half. -/
theorem sent_beyond_rate :
    ∃ s, run (step u64Max) (start (new u64Max) 0)
        [.canSend, .send u64Max, .wait 500000000, .canSend, .send u64Max, .wait 500000000,
          .canSend, .send u64Max, .wait 500000000, .canSend, .send u64Max] = some s ∧
      ¬(TokenBucket.spentIn s.sends 0 (0 + 1500000000) * nanosPerSec : Int) ≤
        (burstFor (new u64Max).rateBps + 2 * u64Max) * nanosPerSec +
          (new u64Max).rateBps * 1500000000 :=
  ⟨_, rfl, by decide +kernel⟩

end Pacing

/-! ## The wait for credit -/

namespace Pacer

variable (p : Pacer) (elapsed : Nat)

/-- The bytes that have to accrue until there is credit; none are owed when there is. -/
def owed : Int := 1 - (p.tokens + toI64 (p.accrued elapsed))

def mark : Nat := if p.accrued elapsed = 0 then p.lastRefillNs else nowNs elapsed

/-- The bytes owed fit one refill and accrue before the clock stops, and what rounding the wait down
takes off has accrued since the mark already. -/
def WaitCovers : Prop :=
  p.owed elapsed ≤ 0 ∨
    p.owed elapsed ≤ i64Max ∧
      p.owed elapsed * nanosPerSec ≤ p.rateBps * ((u64Max - p.mark elapsed : Nat) : Int) ∧
      p.owed elapsed * nanosPerSec % p.rateBps ≤ p.rateBps * ((elapsed : Int) - p.mark elapsed)

instance : Decidable (p.WaitCovers elapsed) := by
  unfold WaitCovers
  infer_instance

variable {p elapsed} {elapsed' : Nat}

theorem accrued_mono (h : elapsed ≤ elapsed') : p.accrued elapsed ≤ p.accrued elapsed' := by
  unfold accrued nowNs
  gcongr

theorem toI64_mono {m n : Nat} (h : m ≤ n) : toI64 m ≤ toI64 n := by
  unfold toI64
  omega

theorem canSend_mono (henabled : p.enabled = true) (hle : elapsed ≤ elapsed')
    (h : (p.canSend elapsed).2 = true) : (p.canSend elapsed').2 = true := by
  rw [canSend_eq_true_iff p _ henabled] at h ⊢
  have := toI64_mono (accrued_mono (p := p) hle)
  omega

theorem accrued_refillTokens_self : (p.refillTokens elapsed).accrued elapsed = 0 := by
  by_cases h : p.accrued elapsed = 0
  · rw [refillTokens_of_accrued_eq_zero p elapsed h]
    exact h
  · have hmark : (p.refillTokens elapsed).lastRefillNs = nowNs elapsed := by
      rw [lastRefillNs_refillTokens, if_neg h]
    simp [accrued, hmark]

theorem canSend_iff_not_owed (henabled : p.enabled = true) :
    (p.canSend elapsed).2 = true ↔ p.owed elapsed ≤ 0 := by
  rw [canSend_eq_true_iff p _ henabled]
  unfold owed
  omega

theorem canSend_refillTokens_self (henabled : p.enabled = true) :
    ((p.refillTokens elapsed).canSend elapsed).2 = true ↔ (p.canSend elapsed).2 = true := by
  rw [canSend_eq_true_iff _ _ (by rw [enabled_refillTokens]; exact henabled),
    canSend_eq_true_iff _ _ henabled, accrued_refillTokens_self, ← refillTokens_pos_iff]
  simp [toI64, i64Max]

theorem tokens_refillTokens_of_owed (h : 0 < p.owed elapsed) :
    (p.refillTokens elapsed).tokens = 1 - p.owed elapsed := by
  have hcap := burstFor_pos p.rateBps
  rw [tokens_refillTokens]
  unfold owed at h ⊢
  omega

theorem timeUntilCredit_of_owed (henabled : p.enabled = true) (h : 0 < p.owed elapsed) :
    (p.timeUntilCredit elapsed).2 =
      min ((min (p.owed elapsed) i64Max).toNat * nanosPerSec / p.rateBps) u64Max := by
  have htokens := tokens_refillTokens_of_owed h
  have hnone : ¬0 < (p.refillTokens elapsed).tokens := by omega
  have hrate : max p.rateBps 1 = p.rateBps := max_eq_left (le_trans (by decide) p.rate_ge)
  have hdeficit : saturatingSub 1 (p.refillTokens elapsed).tokens = min (p.owed elapsed) i64Max := by
    have : i64Min ≤ 0 := by decide
    have : 0 ≤ i64Max := by decide
    unfold saturatingSub
    omega
  simp only [timeUntilCredit, henabled, if_true, hnone, if_false, waitFor, rateBps_refillTokens,
    hrate, hdeficit]

/-- There is credit at `elapsed'`, asked for after a refill that left debt, when the bytes owed have
accrued since the mark and one refill can hold them. -/
theorem canSend_refillTokens_iff (henabled : p.enabled = true) (h : 0 < p.owed elapsed)
    (elapsed' : Nat) :
    ((p.refillTokens elapsed).canSend elapsed').2 = true ↔
      p.owed elapsed ≤ i64Max ∧ p.owed elapsed * nanosPerSec ≤
        p.rateBps * ((nowNs elapsed' - p.mark elapsed : Nat) : Int) := by
  have hmark : (p.refillTokens elapsed).lastRefillNs = p.mark elapsed :=
    lastRefillNs_refillTokens p elapsed
  have haccrued : (p.owed elapsed ≤ ((p.refillTokens elapsed).accrued elapsed' : Nat)) ↔
      p.owed elapsed * nanosPerSec ≤
        p.rateBps * ((nowNs elapsed' - p.mark elapsed : Nat) : Int) := by
    unfold accrued
    rw [rateBps_refillTokens, hmark, Int.natCast_div, Int.le_ediv_iff_mul_le (by decide)]
    norm_cast
  rw [canSend_eq_true_iff _ _ (by rw [enabled_refillTokens]; exact henabled),
    tokens_refillTokens_of_owed h, ← haccrued, toI64]
  omega

/-- What accrues from the mark on during a wait for `n`, rounded down, is `n` when the remainder has
accrued before the wait and the clock does not stop in it. -/
theorem le_accrued_wait_iff {n rate : Nat} (hn : 0 < n) (mark : Nat) :
    n ≤ rate * (nowNs (elapsed + min (n / rate) u64Max) - mark) ↔
      n ≤ rate * (u64Max - mark) ∧ ((n % rate : Nat) : Int) ≤ rate * ((elapsed : Int) - mark) := by
  have hnow : nowNs (elapsed + min (n / rate) u64Max) - mark =
      min (u64Max - mark) (elapsed + n / rate - mark) := by
    unfold nowNs
    omega
  rw [hnow, ← Nat.mul_min_mul_left, le_min_iff, and_congr_right_iff]
  intro _
  have hdiv : (rate : Int) * (n / rate : Nat) + (n % rate : Nat) = n := by
    exact_mod_cast Nat.div_add_mod n rate
  by_cases hmark : mark ≤ elapsed + n / rate
  · rw [← Int.ofNat_le, Nat.cast_mul, Nat.cast_sub hmark, Nat.cast_add, ← hdiv]
    constructor <;> intro h <;> linarith
  · -- the mark is after the wait: nothing accrues
    have hearly : (rate : Int) * ((elapsed : Int) - mark) ≤ rate * -(n / rate : Nat) :=
      mul_le_mul_of_nonneg_left (by omega) (by omega)
    rw [Nat.sub_eq_zero_of_le (by omega)]
    constructor <;> intro h <;> linarith

theorem owed_le_accrued_wait_iff (h : 0 < p.owed elapsed) :
    p.owed elapsed * nanosPerSec ≤
        p.rateBps * ((nowNs (elapsed + min ((p.owed elapsed).toNat * nanosPerSec / p.rateBps) u64Max) -
          p.mark elapsed : Nat) : Int) ↔
      p.owed elapsed * nanosPerSec ≤ p.rateBps * ((u64Max - p.mark elapsed : Nat) : Int) ∧
        p.owed elapsed * nanosPerSec % p.rateBps ≤
          p.rateBps * ((elapsed : Int) - p.mark elapsed) := by
  obtain ⟨owed, howed⟩ := Int.eq_ofNat_of_zero_le h.le
  rw [howed] at h ⊢
  have hpos : 0 < owed * nanosPerSec := Nat.mul_pos (by omega) (by decide)
  exact_mod_cast le_accrued_wait_iff hpos (p.mark elapsed)

/-- **When the wait suffices.** A sender that waits as long as `time_until_credit` says, or longer,
finds credit, and is told not to wait only when there is credit, exactly when the wait, rounded
down, covers what is owed. -/
theorem wait_suffices_iff (p : Pacer) (henabled : p.enabled = true) (elapsed : Nat) :
    ((∀ ns, (p.timeUntilCredit elapsed).2 ≤ ns →
        ((p.timeUntilCredit elapsed).1.canSend (elapsed + ns)).2 = true) ∧
      ((p.timeUntilCredit elapsed).2 = 0 → (p.canSend elapsed).2 = true)) ↔
    p.WaitCovers elapsed := by
  have henabled' : (p.refillTokens elapsed).enabled = true := by simp [*]
  rw [timeUntilCredit_fst p elapsed henabled]
  by_cases howed : p.owed elapsed ≤ 0
  · -- there is credit, and waiting does not lose it
    have hcan : (p.canSend elapsed).2 = true := (canSend_iff_not_owed henabled).2 howed
    refine iff_of_true ⟨fun ns _ => ?_, fun _ => hcan⟩ (.inl howed)
    exact canSend_mono henabled' (Nat.le_add_right elapsed ns)
      ((canSend_refillTokens_self henabled).2 hcan)
  · have hpos : 0 < p.owed elapsed := Int.not_le.1 howed
    have hwait := timeUntilCredit_of_owed henabled hpos
    constructor
    · intro h
      have hcan := h.1 _ (Nat.le_refl _)
      rw [hwait, canSend_refillTokens_iff henabled hpos] at hcan
      rw [min_eq_left hcan.1] at hcan
      exact .inr ⟨hcan.1, (owed_le_accrued_wait_iff hpos).1 hcan.2⟩
    · intro h
      obtain ⟨hmax, hcovers⟩ := h.resolve_left howed
      rw [min_eq_left hmax] at hwait
      have hcan : ((p.refillTokens elapsed).canSend (elapsed + (p.timeUntilCredit elapsed).2)).2 =
          true := by
        rw [hwait, canSend_refillTokens_iff henabled hpos]
        exact ⟨hmax, (owed_le_accrued_wait_iff hpos).2 hcovers⟩
      refine ⟨fun ns hns => canSend_mono henabled' (Nat.add_le_add_left hns elapsed) hcan, ?_⟩
      intro hzero
      rw [hzero] at hcan
      exact (canSend_refillTokens_self henabled).1 hcan

/-- The nanosecond that has passed since the mark makes up for the one rounded away. -/
theorem wait_suffices_after_one_ns :
    (((new 1024).consume 16384).timeUntilCredit 1).2 = 976562 ∧
      ∀ ns, (((new 1024).consume 16384).timeUntilCredit 1).2 ≤ ns →
        ((((new 1024).consume 16384).timeUntilCredit 1).1.canSend (1 + ns)).2 = true := by
  have hall := (wait_suffices_iff ((new 1024).consume 16384) (by decide) 1).2 (by decide)
  exact ⟨by decide, hall.1⟩

/-- The wait is rounded down. At 3000 bytes a second the first byte takes 333333.3 ns, and after
333333 ns there is none; at 2 GB a second it takes half a nanosecond, and no wait is asked for. -/
theorem wait_falls_short :
    (((new 3000).consume 16384).timeUntilCredit 0).2 = 333333 ∧
      ((((new 3000).consume 16384).timeUntilCredit 0).1.canSend (0 + 333333)).2 = false ∧
      (((new 2000000000).consume 524288).timeUntilCredit 0).2 = 0 ∧
      (((new 2000000000).consume 524288).canSend 0).2 = false := by
  decide

end Pacer

end PhantomProtocol
