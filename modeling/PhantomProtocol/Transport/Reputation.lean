import Mathlib.Data.List.AList
import PhantomProtocol.Lib.IpText

/-!
# Reputation of an address

`transport::reputation`. A call reads the clock once, as `now`, in seconds; the calls of concurrent
tasks are taken one at a time.
-/

namespace PhantomProtocol

open IpText (IpAddr)

structure ReputationEntry where
  violations : UInt32
  lastSeenSecs : Nat
deriving DecidableEq, Repr

namespace ReputationEntry

def windowSecs : Nat := 60
def baseDifficulty : Nat := 8
def maxDifficulty : Nat := 20

def new (now : Nat) : ReputationEntry := ⟨1, now⟩

def expired (e : ReputationEntry) (now : Nat) : Bool := e.lastSeenSecs + windowSecs < now

/-- `fetch_add` wraps around. -/
def again (e : ReputationEntry) (now : Nat) : ReputationEntry :=
  ⟨if e.expired now then 1 else e.violations + 1, now⟩

def difficulty (e : ReputationEntry) : Nat :=
  if e.violations = 0 then 0
  else min (baseDifficulty + 1 <<< min (e.violations.toNat - 1) 8) maxDifficulty

end ReputationEntry

structure ReputationTracker where
  entries : AList fun _ : IpAddr => ReputationEntry
  maxEntries : Nat
  bounded : entries.keys.length ≤ maxEntries

namespace ReputationTracker

variable (t : ReputationTracker) (ip : IpAddr) (now : Nat)

def withCapacity (maxEntries : Nat) : ReputationTracker := ⟨∅, max maxEntries 1, Nat.zero_le _⟩

def gc : ReputationTracker where
  entries := ⟨t.entries.entries.filter fun r => !r.2.expired now,
    t.entries.nodupKeys.sublist List.filter_sublist⟩
  maxEntries := t.maxEntries
  bounded := (List.filter_sublist.map _).length_le.trans t.bounded

/-- The map is written for an address it holds, or with room for one more. -/
def insert (e : ReputationEntry) (h : (t.entries.keys.erase ip).length < t.maxEntries) :
    ReputationTracker :=
  ⟨t.entries.insert ip e, t.maxEntries, by simpa using h⟩

theorem length_erase_lt {e : ReputationEntry} (h : t.entries.lookup ip = some e) :
    (t.entries.keys.erase ip).length < t.maxEntries := by
  have hmem : ip ∈ t.entries.keys := AList.lookup_isSome.1 (by simp [h])
  have := List.length_pos_of_mem hmem
  have := t.bounded
  rw [List.length_erase_of_mem hmem]
  omega

def recordViolation : ReputationTracker :=
  match h : t.entries.lookup ip with
  | some e => t.insert ip (e.again now) (t.length_erase_lt ip h)
  | none =>
    let t := if t.maxEntries ≤ t.entries.keys.length then t.gc now else t
    if h : t.entries.keys.length < t.maxEntries then
      t.insert ip (.new now) (List.length_erase_le.trans_lt h)
    else t

def resetViolations : ReputationTracker where
  entries := t.entries.erase ip
  maxEntries := t.maxEntries
  bounded := by simpa using List.length_erase_le.trans t.bounded

def calculateDifficulty (hasTicket : Bool) : Nat :=
  if hasTicket then 0
  else
    match t.entries.lookup ip with
    | some e => if e.expired now then 0 else e.difficulty
    | none => 0

end ReputationTracker

end PhantomProtocol
