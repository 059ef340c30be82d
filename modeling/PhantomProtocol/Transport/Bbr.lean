import PhantomProtocol.Lib.WindowExtremum
import PhantomProtocol.Transport.BandwidthEstimator
import PhantomProtocol.Transport.Rto

/-!
# The bandwidth and round-trip model

`transport::bandwidth_estimator` beyond its flight counters: the two windowed filters, round trips
counted by delivered bytes, the guard on the peer's claimed acknowledgement delay, the loss-bounded
window and the BBR phases. Instants and durations are nanoseconds.

The arithmetic in `f64` is a parameter (`Float64`); no result depends on how it rounds. Counters
that only diagnostics read are left out.
-/

namespace PhantomProtocol

/-- `WindowFilter`. The window stands oldest first. -/
structure WindowFilter where
  window : List (Nat × Nat)
  windowSize : Nat
  minSeparation : Nat
deriving DecidableEq, Repr

namespace WindowFilter

/-- `WINDOW_FILTER_MAX_ENTRIES`. -/
def maxEntries : Nat := 1024

def new (windowSize : Nat) : WindowFilter := ⟨[], windowSize, windowSize / (maxEntries - 1)⟩

def expire (f : WindowFilter) (now : Nat) : WindowFilter :=
  { f with window := WindowExtremum.expire f.windowSize now f.window }

def head (f : WindowFilter) : Option Nat := f.window.head?.map (·.2)

def tooSoon (f : WindowFilter) (now : Nat) : Bool :=
  WindowExtremum.tooSoon f.minSeparation now f.window

/-- The loop that pops what the new value dominates from the back. -/
def popDominated (le : Nat → Nat → Prop) [DecidableRel le] (f : WindowFilter) (value : Nat) :
    WindowFilter :=
  { f with window := WindowExtremum.prune le value f.window }

def pushSeparatedMax (f : WindowFilter) (now value : Nat) : WindowFilter :=
  if (f.head.any fun reading => value < reading) && f.tooSoon now then f
  else { f with window := f.window ++ [(now, value)] }

def pushSeparatedMin (f : WindowFilter) (now value : Nat) : WindowFilter :=
  if (f.head.any fun reading => value > reading) && f.tooSoon now then f
  else { f with window := f.window ++ [(now, value)] }

def updateMax (f : WindowFilter) (now value : Nat) : WindowFilter × Nat :=
  let f := ((f.expire now).popDominated (· ≤ ·) value).pushSeparatedMax now value
  (f, f.head.getD value)

def updateMin (f : WindowFilter) (now value : Nat) : WindowFilter × Nat :=
  let f := ((f.expire now).popDominated (· ≥ ·) value).pushSeparatedMin now value
  (f, f.head.getD value)

end WindowFilter

inductive BbrState where
  | startup
  | probeBw
  | drain
  | probeRtt
deriving DecidableEq, Repr

structure DeliverySample where
  deliveredBytes : Nat
  deliveredAt : Nat
  sentAt : Nat
  ackedAt : Nat
  packetBytes : Nat
  isAppLimited : Bool
  ackDelayUs : Nat
  rttSampled : Bool
deriving DecidableEq, Repr

/-- A gain, in hundredths. -/
abbrev Gain := Nat

/-- The `f64` arithmetic of the estimator. -/
structure Float64 where
  /-- `(n as f64 * gain) as u64`. -/
  scale : Nat → Gain → Nat
  /-- `(bytes as f64 / time.as_secs_f64()) as u64`. -/
  perSecond : Nat → Nat → Nat
  /-- `(rate as f64 * time.as_secs_f64()) as u64`. -/
  during : Nat → Nat → Nat
  /-- `a as f64 >= b as f64 * gain`. -/
  reaches : Nat → Nat → Gain → Bool
  /-- `(a as f64) > (b as f64) * gain`. -/
  exceeds : Nat → Nat → Gain → Bool

/-- Without rounding. -/
def Float64.exact : Float64 where
  scale n gain := n * gain / 100
  perSecond bytes time := bytes * 1000000000 / time
  during rate time := rate * time / 1000000000
  reaches a b gain := b * gain ≤ a * 100
  exceeds a b gain := b * gain < a * 100

/-- `Duration::from_micros`. -/
def micros (n : Nat) : Nat := n * 1000

/-- `u64::try_from(duration.as_micros()).unwrap_or(u64::MAX)`. -/
def wholeMicros (duration : Nat) : Nat := min (duration / 1000) u64Max

/-- `ack_delay_adjusted_rtt`. The sum of a floor and a delay is far below the range of a
`Duration`. -/
def ackDelayAdjustedRtt (latestRtt : Nat) (rttFloor : Option Nat) (ackDelayUs : Nat) : Nat :=
  match rttFloor with
  | none => latestRtt
  | some floor =>
    if floor + micros ackDelayUs ≤ latestRtt then latestRtt - micros ackDelayUs else latestRtt

/-- `BandwidthEstimator`, with the counters it shares with the pump. -/
structure BbrEstimator extends BandwidthEstimator where
  state : BbrState
  btlBw : Nat
  minRtt : Nat
  bwFilter : WindowFilter
  rttFilter : WindowFilter
  rttFilterSeeded : Bool
  pacingGain : Gain
  cwndGain : Gain
  /-- A `u32` that wraps. -/
  roundCount : Nat
  nextRoundDelivered : Nat
  roundStart : Bool
  filledPipe : Bool
  fullBw : Nat
  roundsWithoutGrowth : Nat
  inflightHi : Option Nat
  lastProbeRttTime : Nat
  probeRttEntered : Option Nat
  probeRttReferenceRtt : Nat
  probeRttDrainedAt : Option Nat
  priorState : BbrState
  appLimited : Bool
  appLimitedAtDelivered : Nat
  roundDeliveredMark : Nat
deriving DecidableEq, Repr

namespace BbrEstimator

def probeBwGains : List Gain := [125, 75, 100, 100]
def startupPacingGain : Gain := 200
/-- `1.0 + STARTUP_GROWTH_THRESHOLD`. -/
def startupGrowth : Gain := 125
def startupRoundsLimit : Nat := 3
def initialMinRtt : Nat := millis 100
def probeRttInterval : Nat := millis 10000
def bwFilterWindow : Nat := millis 10000
def rttFilterWindow : Nat := millis 10000
def probeRttDuration : Nat := millis 200
def probeRttMaxDrainRoundTrips : Nat := 2
/-- `PROBE_RTT_CWND_PACKETS * MIN_PACKET_SIZE`. -/
def floorWindow : Nat := 4 * 1400
def lossThresh : Gain := 2
def inflightHiBeta : Gain := 70
def inflightHiFloorGain : Gain := 125
def inflightHiRelaxGain : Gain := 125
def defaultCwndGain : Gain := 200

def new (now : Nat) : BbrEstimator where
  toBandwidthEstimator := .new now
  state := .startup
  btlBw := 0
  minRtt := initialMinRtt
  bwFilter := .new bwFilterWindow
  rttFilter := .new rttFilterWindow
  rttFilterSeeded := false
  pacingGain := startupPacingGain
  cwndGain := defaultCwndGain
  roundCount := 0
  nextRoundDelivered := 0
  roundStart := false
  filledPipe := false
  fullBw := 0
  roundsWithoutGrowth := 0
  inflightHi := none
  lastProbeRttTime := now
  probeRttEntered := none
  probeRttReferenceRtt := initialMinRtt
  probeRttDrainedAt := none
  priorState := .probeBw
  appLimited := false
  appLimitedAtDelivered := 0
  roundDeliveredMark := 0

/-! ## Flight -/

def onSend (e : BbrEstimator) (bytes : Nat) : BbrEstimator :=
  { e with toBandwidthEstimator := e.toBandwidthEstimator.onSend bytes }

def onRetransmit (e : BbrEstimator) (bytes : Nat) : BbrEstimator :=
  { e with toBandwidthEstimator := e.toBandwidthEstimator.onRetransmit bytes }

def onLoss (e : BbrEstimator) (bytes : Nat) : BbrEstimator :=
  { e with toBandwidthEstimator := e.toBandwidthEstimator.onLoss bytes }

def bookCopy (e : BbrEstimator) (bytes : Nat) (first : Bool) : BbrEstimator :=
  { e with toBandwidthEstimator := e.toBandwidthEstimator.bookCopy bytes first }

theorem inflight_bookCopy (e : BbrEstimator) (bytes : Nat) (first : Bool) :
    (e.bookCopy bytes first).inflightBytes = e.inflightBytes - bytes :=
  e.toBandwidthEstimator.inflight_bookCopy bytes first

/-! ## Derived quantities -/

section Derived

variable (fp : Float64) (e : BbrEstimator)

def bdp : Nat := fp.during e.btlBw e.minRtt

def cwnd : Nat :=
  if e.state = .probeRtt then floorWindow
  else
    let target := fp.scale (e.bdp fp) e.cwndGain
    max ((e.inflightHi.map (min target)).getD target) floorWindow

def pacingRateFloor : Nat := if e.minRtt = 0 then u64Max else fp.perSecond floorWindow e.minRtt

def pacingRate : Nat := max (fp.scale e.btlBw e.pacingGain) (e.pacingRateFloor fp)

def rttFloor : Option Nat := if e.rttFilterSeeded then some e.minRtt else none

def noteAppLimitedDrain : BbrEstimator :=
  if e.cwnd fp ≤ e.inflightBytes then e
  else
    { e with
      appLimited := true
      appLimitedAtDelivered := min (e.deliveredBytes + e.inflightBytes) u64Max }

def pipeIsDrained : Bool := e.inflightBytes ≤ floorWindow

def probeRttHold : Nat := max probeRttDuration e.probeRttReferenceRtt

def probeRttCeiling : Nat := e.probeRttReferenceRtt * probeRttMaxDrainRoundTrips + e.probeRttHold

end Derived

/-! ## The state machine -/

def updateRound (e : BbrEstimator) (packetDelivered : Nat) : BbrEstimator :=
  if e.nextRoundDelivered ≤ packetDelivered then
    { e with
      nextRoundDelivered := e.deliveredBytes
      roundCount := (e.roundCount + 1) % (u32Max + 1)
      roundStart := true }
  else { e with roundStart := false }

def transitionTo (e : BbrEstimator) (newState : BbrState) : BbrEstimator :=
  match newState with
  | .startup =>
    { e with state := .startup, pacingGain := startupPacingGain, cwndGain := defaultCwndGain }
  | .drain => { e with state := .drain, pacingGain := 75, cwndGain := defaultCwndGain }
  | .probeBw => { e with state := .probeBw, pacingGain := 100, cwndGain := defaultCwndGain }
  | .probeRtt => { e with state := .probeRtt, pacingGain := 100, cwndGain := 100 }

section Machine

variable (fp : Float64)

def adaptInflightBound (e : BbrEstimator) (isAppLimited : Bool) : BbrEstimator :=
  let roundLost := e.roundBytesLost
  let roundTotal := min (e.deliveredBytes - e.roundDeliveredMark + roundLost) u64Max
  let e := { e with roundDeliveredMark := e.deliveredBytes, roundBytesLost := 0 }
  if roundTotal = 0 then e
  else if isAppLimited ∨ e.state = .probeRtt ∨ e.state = .startup then e
  else
    let target := fp.scale (e.bdp fp) e.cwndGain
    let floor := fp.scale (e.bdp fp) inflightHiFloorGain
    if fp.exceeds roundLost roundTotal lossThresh then
      { e with inflightHi := some (max (fp.scale target inflightHiBeta) floor) }
    else
      { e with
        inflightHi := e.inflightHi.bind fun hi =>
          let relaxed := fp.scale hi inflightHiRelaxGain
          if target ≤ relaxed then none else some (max relaxed floor) }

def checkStartupFullBandwidth (e : BbrEstimator) (isAppLimited : Bool) : BbrEstimator :=
  if e.filledPipe ∨ e.roundStart = false ∨ isAppLimited then e
  else if fp.reaches e.btlBw e.fullBw startupGrowth then
    { e with fullBw := e.btlBw, roundsWithoutGrowth := 0 }
  else
    let e := { e with roundsWithoutGrowth := min (e.roundsWithoutGrowth + 1) u32Max }
    if startupRoundsLimit ≤ e.roundsWithoutGrowth then
      { e with filledPipe := true }.transitionTo .drain
    else e

/-- The `ProbeRTT` arm of `update_state`. -/
def probeRttTurn (e : BbrEstimator) (now : Nat) : BbrEstimator :=
  match e.probeRttEntered with
  | none => { e with probeRttDrainedAt := none }.transitionTo .probeBw
  | some entered =>
    let drainedAt := if e.pipeIsDrained then some (e.probeRttDrainedAt.getD now) else none
    let e := { e with probeRttDrainedAt := drainedAt }
    if (drainedAt.any fun drained => e.probeRttHold ≤ now - drained) ∨
        e.probeRttCeiling ≤ now - entered then
      { e with
        lastProbeRttTime := now
        probeRttEntered := none
        probeRttDrainedAt := none }.transitionTo e.priorState
    else e

def updateState (e : BbrEstimator) (now : Nat) (isAppLimited : Bool) : BbrEstimator :=
  if e.state ≠ .probeRtt ∧ e.state ≠ .startup ∧ probeRttInterval ≤ now - e.lastProbeRttTime then
    { { e with priorState := e.state }.transitionTo .probeRtt with
      probeRttEntered := some now
      probeRttReferenceRtt := e.minRtt
      probeRttDrainedAt := if e.pipeIsDrained then some now else none }
  else
    match e.state with
    | .startup => e.checkStartupFullBandwidth fp isAppLimited
    | .drain =>
      if e.inflightBytes ≤ e.bdp fp ∨ e.bdp fp = 0 then e.transitionTo .probeBw else e
    | .probeBw =>
      { e with
        pacingGain := probeBwGains.getD (e.roundCount % probeBwGains.length) 100
        cwndGain := defaultCwndGain }
    | .probeRtt => e.probeRttTurn now

/-! ## An acknowledgement -/

/-- The part of `on_ack` that counts the bytes. -/
def countDelivery (e : BbrEstimator) (sample : DeliverySample) : BbrEstimator :=
  { e with
    toBandwidthEstimator := e.toBandwidthEstimator.onAck sample.packetBytes sample.ackedAt }

/-- The part of `on_ack` that times the round trip. -/
def sampleRtt (e : BbrEstimator) (sample : DeliverySample) (adjustedRtt : Nat) : BbrEstimator :=
  let rttUs := wholeMicros adjustedRtt
  if sample.rttSampled ∧ 0 < rttUs then
    let (rttFilter, minRttUs) := e.rttFilter.updateMin sample.ackedAt rttUs
    { e with rttFilter, minRtt := micros minRttUs, rttFilterSeeded := true }
  else e

/-- The part of `on_ack` that measures the delivery rate. -/
def sampleRate (e : BbrEstimator) (sample : DeliverySample) : BbrEstimator :=
  let deliveredDuring := e.deliveredBytes - sample.deliveredBytes
  let interval := max (sample.ackedAt - sample.sentAt) (sample.ackedAt - sample.deliveredAt)
  let deliveryRate :=
    if interval ≠ 0 ∧ 0 < deliveredDuring then fp.perSecond deliveredDuring interval else 0
  if 0 < deliveryRate ∧ (sample.isAppLimited = false ∨ e.btlBw ≤ deliveryRate) then
    let (bwFilter, btlBw) := e.bwFilter.updateMax sample.ackedAt deliveryRate
    { e with bwFilter, btlBw }
  else e

/-- The part of `on_ack` that closes an application-limited phase. -/
def endAppLimited (e : BbrEstimator) : BbrEstimator :=
  if e.appLimited ∧ e.appLimitedAtDelivered < e.deliveredBytes then { e with appLimited := false }
  else e

/-- The part of `on_ack` after the round trip. -/
def settle (e : BbrEstimator) (sample : DeliverySample) : BbrEstimator :=
  let e := (e.sampleRate fp sample).endAppLimited
  let e := if e.roundStart then e.adaptInflightBound fp sample.isAppLimited else e
  e.updateState fp sample.ackedAt sample.isAppLimited

/-- `on_ack`, with the pacing rate and the round trip it returns. -/
def onAck (e : BbrEstimator) (sample : DeliverySample) : BbrEstimator × Nat × Nat :=
  let e := (e.countDelivery sample).updateRound sample.deliveredBytes
  let adjustedRtt :=
    ackDelayAdjustedRtt (sample.ackedAt - sample.sentAt) e.rttFloor sample.ackDelayUs
  let e := (e.sampleRtt sample adjustedRtt).settle fp sample
  (e, e.pacingRate fp, adjustedRtt)

end Machine

end BbrEstimator

end PhantomProtocol
