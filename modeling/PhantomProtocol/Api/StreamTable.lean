import Mathlib.Data.Finset.Card
import PhantomProtocol.Lib.Run
import PhantomProtocol.Transport.Types

/-!
# Stream table

The table of a session's streams with what is kept beside it: the counts of open streams per side
(`StreamGauge`), the allocator of this side's ids (`StreamDemultiplexer`) and the record of the
peer's (`PeerStreamIds`). They are not updated together. `open_stream` claims a slot, allocates an
id and inserts the stream, on any number of threads; the receive task looks an id up, classifies it,
checks the peer's count, inserts, marks the id as seen and counts it; whoever drops a stream removes
it first and counts it out afterwards. Each of these is a step of its own here.

The teardown of the session, which empties the gauge, is not modelled.
-/

namespace PhantomProtocol

def maxStreams : Nat := 256

/-- `StreamId::MAX`. -/
def lastStreamId : Nat := 65535

/-- `stream_id % 2` for the ids a side allocates. -/
def Side.parity : Side → Nat
  | .client => 1
  | .server => 0

/-- The id is one that `side` allocates. The ids 0 and 1 belong to neither side. -/
def Owned (side : Side) (id : Nat) : Prop := 1 < id ∧ id % 2 = side.parity

instance (side : Side) : DecidablePred (Owned side) := fun _ => inferInstanceAs (Decidable (_ ∧ _))

/-! ## Gauge -/

structure StreamGauge where
  localOpen : Nat
  peerOpen : Nat
  localParity : Nat
deriving DecidableEq, Repr

namespace StreamGauge

def new (side : Side) : StreamGauge := ⟨0, 0, side.parity⟩

def isLocal (g : StreamGauge) (id : Nat) : Bool := id % 2 == g.localParity

/-- Change the count of the side that `id` belongs to. -/
def onSide (g : StreamGauge) (id : Nat) (f : Nat → Nat) : StreamGauge :=
  if id ≤ 1 then g
  else if g.isLocal id then { g with localOpen := f g.localOpen }
  else { g with peerOpen := f g.peerOpen }

def opened (g : StreamGauge) (id : Nat) : StreamGauge := g.onSide id (· + 1)

/-- A count of zero stays. -/
def closed (g : StreamGauge) (id : Nat) : StreamGauge := g.onSide id (· - 1)

/-- `try_open_local`: the check and the claim are one step. -/
def tryOpenLocal (g : StreamGauge) : Option StreamGauge :=
  if g.localOpen < maxStreams then some { g with localOpen := g.localOpen + 1 } else none

def undoOpenLocal (g : StreamGauge) : StreamGauge := { g with localOpen := g.localOpen - 1 }

end StreamGauge

/-! ## Ids -/

/-- The allocator in the demultiplexer. -/
structure StreamDemultiplexer where
  firstStreamId : Nat
  nextStreamId : Nat
deriving DecidableEq, Repr

namespace StreamDemultiplexer

def newWithRole (side : Side) : StreamDemultiplexer :=
  match side with
  | .client => ⟨3, 3⟩
  | .server => ⟨2, 2⟩

/-- `open_stream`: the id handed out. `none`: the id space is used up. -/
def openStream (d : StreamDemultiplexer) : Option (Nat × StreamDemultiplexer) :=
  if d.nextStreamId ≤ lastStreamId then
    some (d.nextStreamId, { d with nextStreamId := d.nextStreamId + 2 })
  else none

def isLocalStreamId (d : StreamDemultiplexer) (id : Nat) : Bool :=
  decide (1 < id) && id % 2 == d.firstStreamId % 2

def hasOpened (d : StreamDemultiplexer) (id : Nat) : Bool :=
  d.isLocalStreamId id && decide (d.firstStreamId ≤ id) && decide (id < d.nextStreamId)

end StreamDemultiplexer

/-- The record of the peer's ids, one bit for two ids of the 16-bit space. -/
structure PeerStreamIds where
  seen : Finset Nat

namespace PeerStreamIds

def hasSeen (p : PeerStreamIds) (id : Nat) : Bool := decide (id / 2 ∈ p.seen)

def markSeen (p : PeerStreamIds) (id : Nat) : PeerStreamIds := ⟨insert (id / 2) p.seen⟩

end PeerStreamIds

/-- What a reliable segment on an id with no stream in the table is. -/
inductive UnheldStream where
  | opens
  | retired
  | notThePeers
deriving DecidableEq, Repr

def classifyUnheldStream (id : Nat) (demux : StreamDemultiplexer) (peerStreams : PeerStreamIds) :
    UnheldStream :=
  if demux.isLocalStreamId id then
    if demux.hasOpened id then .retired else .notThePeers
  else if peerStreams.hasSeen id then .retired
  else .opens

namespace StreamTable

/-! ## The table and its tasks -/

/-- Who has inserted a stream. -/
inductive Entry where
  | openStream
  | segment
  | pump
deriving DecidableEq, Repr

/-- The receive task, in the part of `handle_packet` that finds or opens the stream of a segment,
and in `retire_stream`. -/
inductive Reader where
  | idle
  | missing (id : Nat)
  | opens (id : Nat)
  /-- The peer's count is below the limit. -/
  | admitted (id : Nat)
  /-- Inserted, not marked as seen. -/
  | inserted (id : Nat)
  /-- Marked, not counted. The handle of the stream does not exist yet. -/
  | marked (id : Nat)
  /-- Removed, not counted out. -/
  | retiring (id : Nat)
deriving DecidableEq, Repr

structure State where
  gauge : StreamGauge
  demux : StreamDemultiplexer
  peerStreams : PeerStreamIds
  table : Finset Nat
  /-- Calls of `open_stream` that have claimed a slot. -/
  claimed : Nat
  /-- Those that got no id. -/
  failed : Nat
  /-- The ids of those that got one and have not inserted the stream. -/
  allocated : Finset Nat
  reader : Reader
  /-- What the pump and dropped handles have removed and not counted out. -/
  releasing : List Nat
  /-- Every insertion into the table. -/
  entered : List (Nat × Entry)

def init (side : Side) : State where
  gauge := .new side
  demux := .newWithRole side
  peerStreams := ⟨∅⟩
  table := ∅
  claimed := 0
  failed := 0
  allocated := ∅
  reader := .idle
  releasing := []
  entered := []

inductive Event where
  /-- A call of `open_stream` begins. -/
  | claim
  | allocate
  | undo
  | insertLocal (id : Nat)
  | segment (id : UInt16)
  | classify
  | check
  | insertPeer
  | markSeen
  | countPeer
  /-- `retire_stream`. -/
  | retire (id : Nat)
  | countRetired
  /-- `retire_released_stream`, from the pump or from the drop of a handle. -/
  | release (id : Nat)
  /-- The offset space of a stream is used up when its FIN is due. -/
  | exhaust (id : Nat)
  | countReleased (id : Nat)
  /-- The pump adds the stream of the raw application. -/
  | rawApp

namespace State

/-- `streams.insert`. -/
def insert (s : State) (id : Nat) (entry : Entry) : State :=
  { s with table := Insert.insert id s.table, entered := (id, entry) :: s.entered }

/-- The stream that the receive task is about to create the handle of. -/
def Opening (s : State) (id : Nat) : Prop := s.reader = .inserted id ∨ s.reader = .marked id

instance (s : State) (id : Nat) : Decidable (s.Opening id) := inferInstanceAs (Decidable (_ ∨ _))

/-- `streams.remove` on the pump or in the drop of a handle. It needs a handle, or a write that was
made on one. -/
def remove (s : State) (id : Nat) : Option State :=
  if id ∈ s.table ∧ ¬s.Opening id then
    some { s with table := s.table.erase id, releasing := id :: s.releasing }
  else none

end State

def step (s : State) : Event → Option State
  | .claim =>
    some (match s.gauge.tryOpenLocal with
      | some gauge => { s with gauge, claimed := s.claimed + 1 }
      | none => s)
  | .allocate =>
    if s.claimed = 0 then none
    else
      some (match s.demux.openStream with
        | some (id, demux) =>
          { s with
            demux
            claimed := s.claimed - 1
            allocated := Insert.insert id s.allocated }
        | none => { s with claimed := s.claimed - 1, failed := s.failed + 1 })
  | .undo =>
    if s.failed = 0 then none
    else some { s with failed := s.failed - 1, gauge := s.gauge.undoOpenLocal }
  | .insertLocal id =>
    if id ∈ s.allocated then
      some ({ s with allocated := s.allocated.erase id }.insert id .openStream)
    else none
  | .segment id =>
    if s.reader = .idle then
      some (if id.toNat ∈ s.table then s else { s with reader := .missing id.toNat })
    else none
  | .classify =>
    match s.reader with
    | .missing id =>
      match classifyUnheldStream id s.demux s.peerStreams with
      | .opens => some { s with reader := .opens id }
      | .retired | .notThePeers => some { s with reader := .idle }
    | _ => none
  | .check =>
    match s.reader with
    | .opens id =>
      some { s with reader := if maxStreams ≤ s.gauge.peerOpen then .idle else .admitted id }
    | _ => none
  | .insertPeer =>
    match s.reader with
    | .admitted id =>
      some ({ s with reader := if id ≤ 1 then .idle else .inserted id }.insert id .segment)
    | _ => none
  | .markSeen =>
    match s.reader with
    | .inserted id =>
      some { s with reader := .marked id, peerStreams := s.peerStreams.markSeen id }
    | _ => none
  | .countPeer =>
    match s.reader with
    | .marked id => some { s with reader := .idle, gauge := s.gauge.opened id }
    | _ => none
  | .retire id =>
    if s.reader = .idle ∧ 1 < id ∧ id ∈ s.table then
      some { s with table := s.table.erase id, reader := .retiring id }
    else none
  | .countRetired =>
    match s.reader with
    | .retiring id => some { s with reader := .idle, gauge := s.gauge.closed id }
    | _ => none
  | .release id => if 1 < id then s.remove id else none
  | .exhaust id => s.remove id
  | .countReleased id =>
    if id ∈ s.releasing then
      some { s with releasing := s.releasing.erase id, gauge := s.gauge.closed id }
    else none
  | .rawApp => some (s.insert 1 .pump)

/-- No open and no retirement is in progress. -/
def State.Settled (s : State) : Prop :=
  s.claimed = 0 ∧ s.failed = 0 ∧ s.allocated = ∅ ∧ s.reader = .idle ∧ s.releasing = []

instance (s : State) : Decidable s.Settled := inferInstanceAs (Decidable (_ ∧ _))

end StreamTable

end PhantomProtocol
