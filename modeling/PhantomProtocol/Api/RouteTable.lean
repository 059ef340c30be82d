import Mathlib.Data.List.AList
import PhantomProtocol.Transport.Migration

/-!
# Demux route table

`RouteTable` of `api/udp_listener.rs`: which session's inbound channel a connection ID leads to, and
the reverse index from a session to its connection IDs. A route is live as long as its channel is
open; which channels are closed is an argument.
-/

namespace PhantomProtocol

def maxRoutes : Nat := 2 ^ 18

/-- `DemuxRouteOwner`. -/
abbrev RouteOwner := Nat

/-- An inbound channel, by name. -/
abbrev Channel := Nat

structure RouteEntry where
  tx : Channel
  owner : RouteOwner
deriving DecidableEq, Repr

structure RouteTable where
  routes : AList fun _ : Bytes => RouteEntry
  owned : AList fun _ : RouteOwner => List Bytes
  gauge : Nat

namespace RouteTable

def new : RouteTable := ⟨∅, ∅, 0⟩

/-- `routes.len()`. -/
def len (t : RouteTable) : Nat := t.routes.entries.length

def sync (t : RouteTable) : RouteTable := { t with gauge := t.len }

def entry (t : RouteTable) (cid : Bytes) : Option RouteEntry := t.routes.lookup cid

def cidsOf (t : RouteTable) (owner : RouteOwner) : List Bytes := (t.owned.lookup owner).getD []

def get (t : RouteTable) (cid : Bytes) : Option Channel := (t.entry cid).map (·.tx)

def forgetOwned (t : RouteTable) (owner : RouteOwner) (cid : Bytes) : RouteTable :=
  match t.owned.lookup owner with
  | none => t
  | some cids =>
    let kept := cids.filter (· ≠ cid)
    if kept.isEmpty then { t with owned := t.owned.erase owner }
    else { t with owned := t.owned.insert owner kept }

def insertRoute (t : RouteTable) (cid : Bytes) (tx : Channel) (owner : RouteOwner) : RouteTable :=
  let inserted := { t with routes := t.routes.insert cid ⟨tx, owner⟩ }
  let t' :=
    match t.entry cid with
    | some previous => inserted.forgetOwned previous.owner cid
    | none => inserted
  { t' with owned := t'.owned.insert owner (t'.cidsOf owner ++ [cid]) }

def removeRoute (t : RouteTable) (cid : Bytes) : RouteTable :=
  match t.entry cid with
  | none => t
  | some e => { t with routes := t.routes.erase cid }.forgetOwned e.owner cid

variable (closed : Channel → Bool)

def reapDead (t : RouteTable) : RouteTable :=
  let dead := (t.routes.entries.filter fun r => closed r.2.tx).map (·.1)
  (dead.foldl removeRoute t).sync

/-- The reaping of `try_insert` at the cap. -/
def makeRoom (t : RouteTable) : RouteTable := if t.len ≥ maxRoutes then t.reapDead closed else t

def tryInsert (t : RouteTable) (cid : Bytes) (tx : Channel) (owner : RouteOwner) :
    RouteTable × Bool :=
  let held := (t.entry cid).any (·.owner = owner)
  let taken := (t.entry cid).any fun e => !closed e.tx
  if held then (t, true)
  else if taken then (t, false)
  else
    let t' := t.makeRoom closed
    if t'.len ≥ maxRoutes then (t', false) else ((t'.insertRoute cid tx owner).sync, true)

def removeIfDead (t : RouteTable) (cid : Bytes) : RouteTable :=
  if (t.entry cid).any fun e => closed e.tx then (t.removeRoute cid).sync else t

/-- `deliver`: the table, the frame if nothing routes for the connection ID, and what the channel is
handed. `full` says that the channel has no room. -/
def deliver (t : RouteTable) (cid : Bytes) (frame : Bytes) (full : Bool) :
    RouteTable × Option Bytes × Option (Channel × Bytes) :=
  match t.get cid with
  | none => (t, some frame, none)
  | some tx =>
    let failed := full || closed tx
    let t' := if failed && closed tx then t.removeIfDead closed cid else t
    (t', none, if failed then none else some (tx, frame))

def registerWindow (t : RouteTable) (cids : List Bytes) (tx : Channel) (owner : RouteOwner) :
    RouteTable :=
  cids.foldl (fun t cid => (t.tryInsert closed cid tx owner).1) t

/-- `apply_slide`: the session is whichever one the anchor leads to. -/
def applySlide (t : RouteTable) (slide : CidSlide) : RouteTable :=
  match t.entry slide.anchor with
  | none => t
  | some e =>
    let t' := slide.add.foldl (fun t cid => (t.tryInsert closed cid e.tx e.owner).1) t
    (slide.remove.foldl removeRoute t').sync

def retireSession (t : RouteTable) (owner : RouteOwner) : RouteTable :=
  match t.owned.lookup owner with
  | none => t
  | some cids =>
    { t with
      routes := cids.foldl (fun routes cid => routes.erase cid) t.routes
      owned := t.owned.erase owner }.sync

end RouteTable

end PhantomProtocol
