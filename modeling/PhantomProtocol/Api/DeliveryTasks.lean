import PhantomProtocol.Api.DeliveryBacklog

/-!
# Delivery tasks

The counter `undelivered_bytes` with every access to it a step of its own: the reader sends an item
and then adds the charge, the router passes the item on or discards it, and a delivery task takes
the item and then subtracts the charge. `DeliveryBacklog` is the coarser model, in which a frame is
handled in one step. All tasks run, so that no send fails; what a delivery task does with an item
that it has subtracted is left out.
-/

namespace PhantomProtocol.DeliveryTasks

/-- An item in the channels, by the number of its send. -/
structure Queued where
  serial : Nat
  id : UInt16
  item : DeliverItem
deriving DecidableEq

/-- `delivery_charge`. A `Retire` is not charged. -/
def Queued.charge (q : Queued) : Nat := q.item.charge

inductive Reader where
  /-- At the gate, or in a frame with every charge added. -/
  | ready
  /-- An item has been sent, and its charge is to be added. -/
  | adding (charge : Nat)
  /-- The gate has tripped. -/
  | ended
deriving DecidableEq

structure State where
  sent : Nat
  reader : Reader
  deliver : List Queued
  router : Option Queued
  raw : List Queued
  /-- What Task A has taken, with the charge still to be subtracted; `taskB` alike. -/
  taskA : Option Queued
  streams : List Queued
  taskB : Option Queued
  undelivered : UInt64
  /-- The items whose charge has been subtracted, by serial. -/
  released : List Nat
deriving DecidableEq

def init : State where
  sent := 0
  reader := .ready
  deliver := []
  router := none
  raw := []
  taskA := none
  streams := []
  taskB := none
  undelivered := 0
  released := []

inductive Event where
  /-- The check before a frame is read. -/
  | gate
  | send (id : UInt16) (item : DeliverItem)
  | add
  | routerTakes
  | routerPasses
  | taskATakes
  | taskASubtracts
  | taskBTakes
  | taskBSubtracts

/-- `fetch_sub`, which wraps. -/
def State.release (s : State) (q : Queued) : State :=
  { s with
    undelivered := s.undelivered - UInt64.ofNat q.charge
    released := s.released ++ [q.serial] }

/-- The router dispatches the item in its hand. What it discards it releases. -/
def State.dispatch (s : State) (q : Queued) : State :=
  if rawAppStreamId < q.id then { s with streams := s.streams ++ [q] }
  else
    match q.item with
    | .data _ _ => { s with raw := s.raw ++ [q] }
    | .close | .retire => s.release q

def step (s : State) : Event → Option State
  | .gate =>
    match s.reader with
    | .ready =>
      some (if recvDeliveryHardCap < s.undelivered.toNat then { s with reader := .ended } else s)
    | _ => none
  | .send id item =>
    match s.reader with
    | .ready =>
      some { s with
        sent := s.sent + 1
        deliver := s.deliver ++ [⟨s.sent, id, item⟩]
        reader := if item = .retire then .ready else .adding item.charge }
    | _ => none
  | .add =>
    match s.reader with
    | .adding charge =>
      some { s with undelivered := s.undelivered + UInt64.ofNat charge, reader := .ready }
    | _ => none
  | .routerTakes =>
    match s.router, s.deliver with
    | none, q :: rest => some { s with router := some q, deliver := rest }
    | _, _ => none
  | .routerPasses => s.router.map fun q => { s with router := none }.dispatch q
  | .taskATakes =>
    match s.taskA, s.raw with
    | none, q :: rest => some { s with taskA := some q, raw := rest }
    | _, _ => none
  | .taskASubtracts => s.taskA.map fun q => { s with taskA := none }.release q
  | .taskBTakes =>
    match s.taskB, s.streams with
    | none, q :: rest => some { s with taskB := some q, streams := rest }
    | _, _ => none
  | .taskBSubtracts => s.taskB.map fun q => { s with taskB := none }.release q

/-- The items that are sent and that no delivery task has taken. -/
def State.waiting (s : State) : List Queued := s.deliver ++ s.router.toList ++ s.raw ++ s.streams

/-- The items that are sent and whose charge has not been subtracted. -/
def State.owed (s : State) : List Queued := s.waiting ++ s.taskA.toList ++ s.taskB.toList

def charges (items : List Queued) : Nat := (items.map Queued.charge).sum

end PhantomProtocol.DeliveryTasks
