import PhantomProtocol.Transport.Types

/-!
# The pacer

`transport::pacer::Pacer`: a token bucket that turns a congestion window into a rate. The bucket is
signed; a send that is larger than the credit it was let out against is carried as debt. `elapsed`
is what `epoch.elapsed()` reads, in nanoseconds.

The data pump is the only task that consults the pacer, so each call is one step, and a
compare-exchange loop succeeds at its first turn.
-/

namespace PhantomProtocol

def i64Max : Int := 2 ^ 63 - 1
def i64Min : Int := -2 ^ 63

def saturatingAdd (a b : Int) : Int := max i64Min (min (a + b) i64Max)

def saturatingSub (a b : Int) : Int := max i64Min (min (a - b) i64Max)

/-- `i64::try_from(n).unwrap_or(i64::MAX)`. -/
def toI64 (n : Nat) : Int := min n i64Max

namespace Pacer

def minPacingRate : Nat := 1024
/-- `BURST_INTERVAL`, 4 ms. -/
def burstInterval : Nat := 4000000
def minBurstBytes : Int := 16 * 1024
def maxBurstBytes : Int := 512 * 1024
def nanosPerSec : Nat := 1000000000

def burstFor (rate : Nat) : Int :=
  max minBurstBytes (min (toI64 (rate * burstInterval / nanosPerSec)) maxBurstBytes)

theorem minBurstBytes_le_burstFor (rate : Nat) : minBurstBytes ≤ burstFor rate := le_max_left ..

theorem burstFor_pos (rate : Nat) : 0 < burstFor rate :=
  lt_of_lt_of_le (by decide) (minBurstBytes_le_burstFor rate)

theorem i64Min_le_saturatingSub (a b : Int) : i64Min ≤ saturatingSub a b := le_max_left ..

theorem saturatingSub_le {a b cap : Int} (hb : 0 ≤ b) (hcap : i64Min ≤ cap) (h : a ≤ cap) :
    saturatingSub a b ≤ cap := by
  refine max_le hcap ((min_le_left _ _).trans ?_)
  omega

theorem toI64_nonneg (n : Nat) : 0 ≤ toI64 n :=
  le_min (Int.natCast_nonneg n) (by decide)

theorem i64Min_le_burstFor (rate : Nat) : i64Min ≤ burstFor rate :=
  le_trans (by decide) (burstFor_pos rate).le

end Pacer

open Pacer in
structure Pacer where
  /-- Credit in bytes; below zero it is debt. -/
  tokens : Int
  rateBps : Nat
  /-- Nanoseconds since the pacer was made. -/
  lastRefillNs : Nat
  enabled : Bool
  rate_ge : minPacingRate ≤ rateBps
  tokens_ge : i64Min ≤ tokens
  tokens_le : tokens ≤ burstFor rateBps
deriving DecidableEq

namespace Pacer

/-- The clock as the pacer reads it, `u64::try_from(epoch.elapsed().as_nanos())`. -/
def nowNs (elapsed : Nat) : Nat := min elapsed u64Max

def new (initialRateBps : Nat) : Pacer where
  tokens := burstFor (max initialRateBps minPacingRate)
  rateBps := max initialRateBps minPacingRate
  lastRefillNs := 0
  enabled := true
  rate_ge := le_max_right ..
  tokens_ge := i64Min_le_burstFor _
  tokens_le := le_refl _

def unlimited : Pacer := { new u64Max with enabled := false }

/-- What has accrued since the last refill, in whole bytes. -/
def accrued (p : Pacer) (elapsed : Nat) : Nat :=
  p.rateBps * (nowNs elapsed - p.lastRefillNs) / nanosPerSec

/-- `refill_tokens`. With less than a byte accrued the mark stays where it is. -/
def refillTokens (p : Pacer) (elapsed : Nat) : Pacer :=
  if nowNs elapsed - p.lastRefillNs = 0 then p
  else if p.accrued elapsed = 0 then p
  else
    { p with
      tokens := min (saturatingAdd p.tokens (toI64 (p.accrued elapsed))) (burstFor p.rateBps)
      lastRefillNs := nowNs elapsed
      tokens_ge := le_min (le_max_left ..) (i64Min_le_burstFor _)
      tokens_le := min_le_right .. }

def canSend (p : Pacer) (elapsed : Nat) : Pacer × Bool :=
  if p.enabled then (p.refillTokens elapsed, 0 < (p.refillTokens elapsed).tokens) else (p, true)

def consume (p : Pacer) (bytes : Nat) : Pacer :=
  if p.enabled then
    { p with
      tokens := saturatingSub p.tokens (toI64 bytes)
      tokens_ge := i64Min_le_saturatingSub ..
      tokens_le := saturatingSub_le (toI64_nonneg _) (i64Min_le_burstFor _) p.tokens_le }
  else p

def waitFor (p : Pacer) (deficit : Nat) : Nat :=
  min (deficit * nanosPerSec / max p.rateBps 1) u64Max

/-- `time_until_credit`, in nanoseconds. -/
def timeUntilCredit (p : Pacer) (elapsed : Nat) : Pacer × Nat :=
  if p.enabled then
    let p := p.refillTokens elapsed
    if 0 < p.tokens then (p, 0) else (p, p.waitFor (saturatingSub 1 p.tokens).toNat)
  else (p, 0)

def tryConsume (p : Pacer) (bytes elapsed : Nat) : Pacer × Bool :=
  if p.enabled then
    let p := p.refillTokens elapsed
    if h : p.tokens < toI64 bytes then (p, false)
    else
      ({ p with
          tokens := p.tokens - toI64 bytes
          tokens_ge := le_trans (by decide) (Int.sub_nonneg.2 (Int.not_lt.1 h))
          tokens_le := (Int.sub_le_self _ (toI64_nonneg _)).trans p.tokens_le }, true)
  else (p, true)

/-- `time_until_available`, in nanoseconds. -/
def timeUntilAvailable (p : Pacer) (bytes elapsed : Nat) : Pacer × Nat :=
  if p.enabled then
    let p := p.refillTokens elapsed
    if toI64 bytes ≤ p.tokens then (p, 0)
    else (p, p.waitFor (saturatingSub (toI64 bytes) p.tokens).toNat)
  else (p, 0)

/-- `set_rate`. Credit beyond the new allowance is dropped. -/
def setRate (p : Pacer) (rateBps : Nat) : Pacer :=
  { p with
    rateBps := max rateBps minPacingRate
    tokens := min p.tokens (burstFor (max rateBps minPacingRate))
    rate_ge := le_max_right ..
    tokens_ge := le_min p.tokens_ge (i64Min_le_burstFor _)
    tokens_le := min_le_right .. }

/-- `set_enabled`. Enabling restarts the refill clock and forgives debt. -/
def setEnabled (p : Pacer) (enabled : Bool) (elapsed : Nat) : Pacer :=
  if enabled then
    { p with
      lastRefillNs := nowNs elapsed
      tokens := max 0 (min p.tokens (burstFor p.rateBps))
      enabled := true
      tokens_ge := le_trans (by decide) (le_max_left ..)
      tokens_le := max_le (burstFor_pos _).le (min_le_right ..) }
  else { p with enabled := false }

/-- `available_tokens`, with debt reported as zero. -/
def availableTokens (p : Pacer) (elapsed : Nat) : Pacer × Nat :=
  (p.refillTokens elapsed, (max (p.refillTokens elapsed).tokens 0).toNat)

end Pacer

end PhantomProtocol
