import Mathlib.Algebra.Order.Ring.Nat

/-!
# Retransmission timeout

`transport::stream::RtoEstimator`, the RFC 6298 estimator of one stream. Instants and durations are
nanoseconds; the difference of two instants is zero when the second is the earlier one, as
`duration_since` has it.
-/

namespace PhantomProtocol

/-- `Duration::from_millis`. -/
def millis (n : Nat) : Nat := n * 1000000

structure RtoEstimator where
  srtt : Option Nat
  minRtt : Option Nat
  rttvar : Nat
  backoffShift : Nat
deriving DecidableEq, Repr

namespace RtoEstimator

def initialRto : Nat := millis 1000
def minRto : Nat := millis 200
def maxRto : Nat := millis 60000
def granularity : Nat := millis 1
def maxBackoffShift : Nat := 6

def new : RtoEstimator := ⟨none, none, 0, 0⟩

def onRttSample (e : RtoEstimator) (r : Nat) : RtoEstimator where
  minRtt := some ((e.minRtt.map (min · r)).getD r)
  srtt :=
    match e.srtt with
    | none => some r
    | some srtt => some ((srtt * 7 + r) / 8)
  rttvar :=
    match e.srtt with
    | none => r / 2
    | some srtt => (e.rttvar * 3 + ((srtt - r) + (r - srtt))) / 4
  backoffShift := 0

/-- `rto`. A product past the range of `Duration` is replaced by `MAX_RTO`, which is also what the
clamp makes of it. -/
def rto (e : RtoEstimator) : Nat :=
  let base :=
    match e.srtt with
    | none => initialRto
    | some srtt => srtt + max granularity (e.rttvar * 4)
  min (max (base * 2 ^ e.backoffShift) minRto) maxRto

def onTimeout (e : RtoEstimator) : RtoEstimator :=
  { e with backoffShift := min (e.backoffShift + 1) maxBackoffShift }

/-- `reset`, for a switch to another network path. -/
def reset (_ : RtoEstimator) : RtoEstimator := new

end RtoEstimator

end PhantomProtocol
