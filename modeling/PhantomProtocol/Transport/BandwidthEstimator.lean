import PhantomProtocol.Transport.Types

/-!
# Flight accounting of the bandwidth estimator

The counters of `transport::bandwidth_estimator::BandwidthEstimator` that the send and receive tasks
move: bytes in flight, delivered, retransmitted and lost. The BBR model behind them (filters,
rounds, congestion window) is in `Transport.Bbr`; where the pump reads the window it takes any value.
-/

namespace PhantomProtocol

structure BandwidthEstimator where
  inflightBytes : Nat
  deliveredBytes : Nat
  /-- When `deliveredBytes` last advanced. -/
  lastDelivery : Nat
  bytesRetransmitted : Nat
  roundBytesLost : Nat
  bytesLost : Nat
  lossDeclarations : Nat
deriving DecidableEq, Repr

namespace BandwidthEstimator

def new (now : Nat) : BandwidthEstimator := ⟨0, 0, now, 0, 0, 0, 0⟩

def onSend (e : BandwidthEstimator) (bytes : Nat) : BandwidthEstimator :=
  { e with inflightBytes := min (e.inflightBytes + bytes) u64Max }

def onAck (e : BandwidthEstimator) (packetBytes ackedAt : Nat) : BandwidthEstimator :=
  { e with
    inflightBytes := e.inflightBytes - packetBytes
    deliveredBytes := (e.deliveredBytes + packetBytes) % (u64Max + 1)
    lastDelivery := ackedAt }

def onRetransmit (e : BandwidthEstimator) (bytes : Nat) : BandwidthEstimator :=
  { e with
    inflightBytes := e.inflightBytes - bytes
    bytesRetransmitted := min (e.bytesRetransmitted + bytes) u64Max }

def onLoss (e : BandwidthEstimator) (bytes : Nat) : BandwidthEstimator :=
  { e with
    roundBytesLost := min (e.roundBytesLost + bytes) u64Max
    bytesLost := min (e.bytesLost + bytes) u64Max
    lossDeclarations := min (e.lossDeclarations + 1) u64Max }

/-- What the drain loop of the pump books for a retransmission. -/
def bookCopy (e : BandwidthEstimator) (bytes : Nat) (first : Bool) : BandwidthEstimator :=
  if first then (e.onRetransmit bytes).onLoss bytes else e.onRetransmit bytes

theorem inflight_bookCopy (e : BandwidthEstimator) (bytes : Nat) (first : Bool) :
    (e.bookCopy bytes first).inflightBytes = e.inflightBytes - bytes := by
  cases first <;> rfl

end BandwidthEstimator

end PhantomProtocol
