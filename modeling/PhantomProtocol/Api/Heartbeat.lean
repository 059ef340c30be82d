import PhantomProtocol.Api.SessionEnd
import PhantomProtocol.Transport.BandwidthEstimator

/-!
# The heartbeat of the pump

`api::session`: the tick arm of `run_data_pump` drains the streams, sends an idle keep-alive PING
when the path has been silent (`maybe_send_keepalive`) and then sweeps for liveness
(`apply_liveness`). The receive task notes every authenticated packet in between
(`Session::update_activity`), and books what it acknowledges.

The state also records, for the statements only, what has gone out since the last inbound packet and
whether that packet left something counted as outstanding.
-/

namespace PhantomProtocol

namespace Heartbeat

/-- Where the tick arm stands. -/
inductive Phase where
  /-- Waiting in `select!`, or draining for another arm. -/
  | loop
  /-- Draining the streams for the tick. -/
  | drain
  /-- The PING is on the wire, not yet marked outstanding. -/
  | pinged
  | sweep
deriving DecidableEq, Repr

structure State where
  now : Nat
  phase : Phase
  estimator : BandwidthEstimator
  minRtt : Nat
  lastActivity : Nat
  keepaliveOutstanding : Bool
  lastKeepalive : Nat
  migratingSince : Option Nat
  connection : ConnectionState
  died : Bool
  /-- When the reliable segments and PINGs since the last inbound packet went out, the latest
  first. -/
  pending : List Nat
  /-- The last inbound packet left something outstanding that was sent before it. -/
  carried : Bool
deriving DecidableEq, Repr

inductive Event where
  | advance (d : Nat)
  | tick
  /-- A reliable segment goes out, for the first time or again. -/
  | segment (bytes : Nat) (again : Bool)
  /-- `maybe_send_keepalive`; `sent` when the transport took the PING. -/
  | keepalive (sent : Bool)
  | markKeepalive
  /-- `apply_liveness`. -/
  | sweep
  | inbound
  /-- It acknowledges a segment; the round-trip filter then reads `minRtt`. -/
  | acked (bytes minRtt : Nat)
deriving DecidableEq, Repr

namespace State

/-- `last_activity_elapsed`. -/
def silence (s : State) : Nat := s.now - s.lastActivity

/-- In-flight bytes, with a PING that is outstanding folded in. -/
def effectiveInflight (s : State) : Nat :=
  if s.keepaliveOutstanding then max s.estimator.inflightBytes 1 else s.estimator.inflightBytes

/-- `path_down_ptos` times the PTO. -/
def answerTime (s : State) (cfg : LivenessConfig) : Nat := cfg.pathDownAfter s.minRtt

def putOnWire (s : State) : State := { s with pending := s.now :: s.pending }

/-- `poll_send` books a first transmission, and moves the bytes of a repeated one. -/
def sendSegment (s : State) (bytes : Nat) (again : Bool) : State :=
  let estimator := if again then s.estimator.onRetransmit bytes else s.estimator
  { s.putOnWire with estimator := estimator.onSend bytes }

/-- `maybe_send_keepalive` up to the send. `set_state` follows `migrating_since`, so the session is
`Connected` exactly when that is unset. -/
def maybeSendKeepalive (s : State) (cfg : LivenessConfig) (sent : Bool) : State :=
  if shouldSendKeepalive s.migratingSince.isNone s.effectiveInflight s.silence
      (s.now - s.lastKeepalive) cfg && sent then
    { s.putOnWire with phase := .pinged }
  else { s with phase := .sweep }

def updateActivity (s : State) : State :=
  { s with
    lastActivity := s.now
    keepaliveOutstanding := false
    pending := []
    -- a PING answered before it is marked will be counted as outstanding all the same
    carried := 0 < s.estimator.inflightBytes ∨ s.phase = .pinged }

/-- `feed_bbr_on_ack`. -/
def onAck (s : State) (bytes minRtt : Nat) : State :=
  let estimator := s.estimator.onAck bytes s.now
  { s with
    estimator
    minRtt
    carried := s.carried && (0 < estimator.inflightBytes ∨ s.keepaliveOutstanding ∨
      s.phase = .pinged) }

/-- The verdict `apply_liveness` acts on. -/
def verdict (s : State) (cfg : LivenessConfig) : LivenessVerdict :=
  livenessVerdict s.silence s.effectiveInflight s.minRtt s.migratingSince.isSome
    (match s.migratingSince with
      | some t => s.now - t
      | none => 0) cfg

def applyLiveness (s : State) (cfg : LivenessConfig) : State :=
  match s.verdict cfg with
  | .pathDown =>
    { s with
      phase := .loop
      migratingSince := some s.now
      connection := SessionEnd.publishUnlessEnded s.connection .migrating }
  | .recovered =>
    { s with
      phase := .loop
      migratingSince := none
      connection := SessionEnd.publishUnlessEnded s.connection .connected }
  | .dead => { s with phase := .loop, connection := .dead, died := true }
  | .unchanged => { s with phase := .loop }

end State

def step (cfg : LivenessConfig) (s : State) : Event → Option State
  | .advance d => some { s with now := s.now + d }
  | .tick => if s.phase = .loop ∧ !s.died then some { s with phase := .drain } else none
  | .segment bytes again =>
    if (s.phase = .loop ∨ s.phase = .drain) ∧ !s.died then some (s.sendSegment bytes again)
    else none
  | .keepalive sent => if s.phase = .drain then some (s.maybeSendKeepalive cfg sent) else none
  | .markKeepalive =>
    if s.phase = .pinged then
      some { s with keepaliveOutstanding := true, lastKeepalive := s.now, phase := .sweep }
    else none
  | .sweep => if s.phase = .sweep then some (s.applyLiveness cfg) else none
  | .inbound => some s.updateActivity
  | .acked bytes minRtt => some (s.onAck bytes minRtt)

/-- `INITIAL_MIN_RTT`: what the round-trip filter reads before the first sample. -/
def initialMinRtt : Nat := Duration.fromMillis 100

/-- A `Connected` session as its pump starts, at `now` and with any round-trip estimate. -/
def start (now minRtt : Nat) : State where
  now
  phase := .loop
  estimator := .new now
  minRtt
  lastActivity := now
  keepaliveOutstanding := false
  lastKeepalive := now
  migratingSince := none
  connection := .connected
  died := false
  pending := []
  carried := false

/-- Every segment or PING not yet answered was sent at most `path_down_ptos` times the PTO ago. -/
def State.answering (s : State) (cfg : LivenessConfig) : Prop :=
  ∀ sentAt ∈ s.pending, s.now - sentAt ≤ s.answerTime cfg

instance (s : State) (cfg : LivenessConfig) : Decidable (s.answering cfg) := by
  unfold State.answering; infer_instance

def State.unanswered (s : State) : Prop := s.pending ≠ [] ∨ s.carried = true

/-- Inbound has been silent for at most `path_down_ptos` times the PTO, or nothing is unanswered. -/
def State.heardInTime (s : State) (cfg : LivenessConfig) : Prop :=
  s.unanswered → s.silence ≤ s.answerTime cfg

instance (s : State) (cfg : LivenessConfig) : Decidable (s.heardInTime cfg) := by
  unfold State.heardInTime State.unanswered; infer_instance

end Heartbeat

end PhantomProtocol
