import PhantomProtocol.Transport.Types

/-!
# Path liveness

`transport::liveness`: the probe timeout, the verdict of one liveness sweep, and the gate of the
idle keep-alive. Durations are nanoseconds and saturate where the code saturates.
-/

namespace PhantomProtocol

/-- `Duration::MAX`. -/
def durationMax : Nat := u64Max * 1000000000 + 999999999

def Duration.saturatingMul (d k : Nat) : Nat := min (d * k) durationMax

def Duration.fromMillis (ms : Nat) : Nat := ms * 1000000

structure LivenessConfig where
  minPto : Nat
  pathDownPtos : Nat
  idleTimeout : Nat
  keepaliveInterval : Option Nat
deriving DecidableEq, Repr

namespace LivenessConfig

def default : LivenessConfig where
  minPto := Duration.fromMillis 200
  pathDownPtos := 5
  idleTimeout := Duration.fromMillis 30000
  keepaliveInterval := some (Duration.fromMillis 15000)

def pto (cfg : LivenessConfig) (minRtt : Nat) : Nat :=
  let scaled := Duration.saturatingMul minRtt 3
  if scaled > cfg.minPto then scaled else cfg.minPto

/-- `path_down_after`: the inbound silence, with data outstanding, past which the path is down. -/
def pathDownAfter (cfg : LivenessConfig) (minRtt : Nat) : Nat :=
  Duration.saturatingMul (cfg.pto minRtt) cfg.pathDownPtos

end LivenessConfig

inductive LivenessVerdict where
  | unchanged
  | pathDown
  | recovered
  | dead
deriving DecidableEq, Repr

def livenessVerdict (silence inflight minRtt : Nat) (inMigrating : Bool) (migratingFor : Nat)
    (cfg : LivenessConfig) : LivenessVerdict :=
  if inMigrating then
    -- inbound life beats the idle timeout, also at its edge
    if silence ≤ cfg.pto minRtt then .recovered
    else if migratingFor > cfg.idleTimeout then .dead
    else .unchanged
  else if inflight > 0 ∧ silence > cfg.pathDownAfter minRtt then .pathDown
  else .unchanged

theorem livenessVerdict_pathDown_iff {silence inflight minRtt : Nat} {inMigrating : Bool}
    {migratingFor : Nat} {cfg : LivenessConfig} :
    livenessVerdict silence inflight minRtt inMigrating migratingFor cfg = .pathDown ↔
      inMigrating = false ∧ 0 < inflight ∧ cfg.pathDownAfter minRtt < silence := by
  unfold livenessVerdict
  cases inMigrating with
  | true =>
    simp only [if_true]
    split
    · simp
    · split <;> simp
  | false =>
    simp only [Bool.false_eq_true, if_false]
    split <;> simp_all

def shouldSendKeepalive (connected : Bool) (inflight inboundSilence sinceLastKeepalive : Nat)
    (cfg : LivenessConfig) : Bool :=
  match cfg.keepaliveInterval with
  | none => false
  | some iv => connected && inflight == 0 && iv ≤ inboundSilence && iv ≤ sinceLastKeepalive

end PhantomProtocol
