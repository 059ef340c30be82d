import PhantomProtocol.Security.Proof.ReplayRefinement
import PhantomProtocol.Transport.Proof.CidTracking
import PhantomProtocol.Transport.Proof.DatagramRoundTrip
import PhantomProtocol.Transport.Proof.FragmentLimits
import PhantomProtocol.Transport.Proof.AuthenticatedDelivery
import PhantomProtocol.Transport.Proof.HeaderProtection
import PhantomProtocol.Transport.Proof.SendPermits
import PhantomProtocol.Transport.Proof.SackClamp
import PhantomProtocol.Transport.Proof.DeliveryMarks
import PhantomProtocol.Transport.Proof.LossDeclarations
import PhantomProtocol.Transport.Proof.ReorderBuffer
import PhantomProtocol.Transport.Proof.PersistProbe
import PhantomProtocol.Transport.Proof.WindowGrowth
import PhantomProtocol.Transport.Proof.PacerSplit
import PhantomProtocol.Transport.Proof.SackCodec
import PhantomProtocol.Transport.Proof.HelloBounds
import PhantomProtocol.Transport.Proof.ProofOfWork
import PhantomProtocol.Transport.Proof.PathHistory
import PhantomProtocol.Transport.Proof.CacheBookkeeping
import PhantomProtocol.Transport.Proof.PacketCoalescer
import PhantomProtocol.Transport.Proof.RecordDeframer
import PhantomProtocol.Api.Proof.PeerRotation
import PhantomProtocol.Api.Proof.PromotedPeer
import PhantomProtocol.Api.Proof.CandidateBudget
import PhantomProtocol.Api.Proof.PathTermination
import PhantomProtocol.Api.Proof.PathFailure
import PhantomProtocol.Api.Proof.FlightAccounting
import PhantomProtocol.Api.Proof.PathSwitch
import PhantomProtocol.Api.Proof.FrameBuilders
import PhantomProtocol.Api.Proof.WindowSlides
import PhantomProtocol.Api.Proof.DemuxIsolation
import PhantomProtocol.Api.Proof.FlightTable
import PhantomProtocol.Api.Proof.FlowControl
import PhantomProtocol.Api.Proof.EndOfStream
import PhantomProtocol.Api.Proof.SessionEnd
import PhantomProtocol.Api.Proof.Heartbeat
import PhantomProtocol.Api.Proof.EarlyWrites
import PhantomProtocol.Api.Proof.RetryRounds
import PhantomProtocol.Api.Proof.AddressWalk
import PhantomProtocol.Api.Proof.DeliveryBacklog
import PhantomProtocol.Api.Proof.StreamSlots
import PhantomProtocol.Api.Proof.WriteOrder
import PhantomProtocol.Api.Proof.ReleasedStream
import PhantomProtocol.Api.Proof.SizePadding
import PhantomProtocol.Api.Proof.DeliveryTasks
import PhantomProtocol.Transport.Proof.Reputation
