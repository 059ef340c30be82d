import Mathlib.Data.List.AList
import PhantomProtocol.Transport.Types

/-!
# Session cache

`transport::session_cache`: the resumption tickets a server keeps, bounded in number and in age. An
operation reads the clock once, as `now`.
-/

namespace PhantomProtocol

structure ResumptionTicket where
  resumptionSecret : Bytes
  cipherSuite : CipherSuite
  createdAt : Nat
  expiresAt : Nat
deriving DecidableEq, Repr

namespace ResumptionTicket

def new (resumptionSecret : Bytes) (cipherSuite : CipherSuite) (lifetime now : Nat) :
    ResumptionTicket :=
  ⟨resumptionSecret, cipherSuite, now, now + lifetime⟩

def isValid (t : ResumptionTicket) (now : Nat) : Bool := decide (now < t.expiresAt)

end ResumptionTicket

structure SessionCache where
  tickets : AList fun _ : SessionId => ResumptionTicket
  /-- The most recently used one is last. -/
  lruOrder : List SessionId
  maxEntries : Nat
  ticketLifetime : Nat

namespace SessionCache

def withCapacity (maxEntries ticketLifetime : Nat) : SessionCache :=
  ⟨∅, [], maxEntries, ticketLifetime⟩

def isDisabled (c : SessionCache) : Bool := c.maxEntries == 0

def len (c : SessionCache) : Nat := c.tickets.entries.length

def get (c : SessionCache) (id : SessionId) : Option ResumptionTicket := c.tickets.lookup id

/-- `remove`, and whether there was a ticket. -/
def remove (c : SessionCache) (id : SessionId) : SessionCache × Bool :=
  ({ c with
      tickets := c.tickets.erase id
      lruOrder := c.lruOrder.filter (· ≠ id) },
    (c.get id).isSome)

/-- First the tickets that have expired; if the cache is still full, the least recently used one. -/
def evictOldest (c : SessionCache) (now : Nat) : SessionCache :=
  let expired := (c.tickets.entries.filter fun e => decide (e.2.expiresAt ≤ now)).map (·.1)
  let c := { c with
    tickets := expired.foldl (fun tickets id => tickets.erase id) c.tickets
    lruOrder := c.lruOrder.filter (· ∉ expired) }
  if c.maxEntries ≤ c.len then
    match c.lruOrder with
    | oldest :: rest => { c with tickets := c.tickets.erase oldest, lruOrder := rest }
    | [] => c
  else c

/-- How `store` and `reinsert_with_expiry` end. -/
def insert (c : SessionCache) (id : SessionId) (t : ResumptionTicket) (now : Nat) : SessionCache :=
  let c := if c.maxEntries ≤ c.len then c.evictOldest now else c
  { c with
    tickets := c.tickets.insert id t
    lruOrder := c.lruOrder.filter (· ≠ id) ++ [id] }

def store (c : SessionCache) (id : SessionId) (resumptionSecret : Bytes) (cipherSuite : CipherSuite)
    (now : Nat) : SessionCache :=
  if c.isDisabled then c
  else c.insert id (.new resumptionSecret cipherSuite c.ticketLifetime now) now

/-- A ticket that is still valid is looked up, an expired one removed. -/
def peek (c : SessionCache) (id : SessionId) (now : Nat) : SessionCache × Option ResumptionTicket :=
  match c.get id with
  | none => (c, none)
  | some t => if t.isValid now then (c, some t) else ((c.remove id).1, none)

/-- The look-up that consumes the ticket. -/
def tryResume (c : SessionCache) (id : SessionId) (now : Nat) :
    SessionCache × Option (Bytes × CipherSuite) :=
  match c.get id with
  | none => (c, none)
  | some t =>
    ((c.remove id).1, if t.isValid now then some (t.resumptionSecret, t.cipherSuite) else none)

def clear (c : SessionCache) : SessionCache := { c with tickets := ∅, lruOrder := [] }

/-- The ticket comes back as it was, unless it has expired. -/
def reinsertWithExpiry (c : SessionCache) (id : SessionId) (t : ResumptionTicket) (now : Nat) :
    SessionCache :=
  if c.isDisabled || decide (t.expiresAt ≤ now) then c else c.insert id t now

/-! ## What an operation does to a ticket -/

variable {c : SessionCache} {id x : SessionId} {t k : ResumptionTicket} {now : Nat}
  {suite : CipherSuite} {secret : Bytes}

@[simp] theorem get_withCapacity (maxEntries lifetime : Nat) :
    (withCapacity maxEntries lifetime).get id = none := rfl

@[simp] theorem get_remove_self : (c.remove id).1.get id = none := AList.lookup_erase id c.tickets

theorem get_remove_ne (h : x ≠ id) : (c.remove id).1.get x = c.get x := AList.lookup_erase_ne h

theorem lookup_of_erase {tickets : AList fun _ : SessionId => ResumptionTicket}
    (h : (tickets.erase id).lookup x = some k) : tickets.lookup x = some k := by
  by_cases hx : x = id
  · subst hx
    rw [AList.lookup_erase] at h
    cases h
  · rwa [AList.lookup_erase_ne hx] at h

theorem get_of_remove (h : (c.remove id).1.get x = some k) : c.get x = some k := lookup_of_erase h

theorem peek_eq_some {c' : SessionCache} (h : c.peek id now = (c', some t)) :
    c' = c ∧ c.get id = some t := by
  unfold peek at h
  split at h
  · cases h
  · split at h
    · cases h
      exact ⟨rfl, ‹_›⟩
    · cases h

theorem get_of_peek (h : (c.peek id now).1.get x = some k) : c.get x = some k := by
  unfold peek at h
  split at h
  · exact h
  · split at h
    · exact h
    · exact get_of_remove h

theorem get_peek (h : c.get x = some k) (hvalid : now < k.expiresAt) :
    (c.peek id now).1.get x = some k := by
  unfold peek
  split
  · exact h
  · rename_i t hget
    split
    · exact h
    · rename_i hexpired
      rw [get_remove_ne]
      · exact h
      · rintro rfl
        rw [h] at hget
        cases hget
        exact hexpired (decide_eq_true hvalid)

theorem lookup_of_foldl_erase :
    ∀ (ids : List SessionId) {tickets : AList fun _ : SessionId => ResumptionTicket},
      (ids.foldl (fun tickets id => tickets.erase id) tickets).lookup x = some k →
      tickets.lookup x = some k
  | [], _, h => h
  | _ :: ids, _, h => lookup_of_erase (lookup_of_foldl_erase ids h)

theorem get_of_evictOldest (h : (c.evictOldest now).get x = some k) : c.get x = some k := by
  unfold evictOldest at h
  dsimp only at h
  split at h
  · split at h
    · exact lookup_of_foldl_erase _ (lookup_of_erase (by exact h))
    · exact lookup_of_foldl_erase _ h
  · exact lookup_of_foldl_erase _ h

@[simp] theorem get_insert_self : (c.insert id t now).get id = some t := AList.lookup_insert _

theorem get_of_insert (hx : x ≠ id) (h : (c.insert id t now).get x = some k) :
    c.get x = some k := by
  unfold insert at h
  rw [get, AList.lookup_insert_ne hx] at h
  split at h
  · exact get_of_evictOldest h
  · exact h

theorem get_of_store (hx : x ≠ id)
    (h : (c.store id secret suite now).get x = some k) : c.get x = some k := by
  unfold store at h
  split at h
  · exact h
  · exact get_of_insert hx h

theorem get_of_reinsertWithExpiry (h : (c.reinsertWithExpiry id t now).get x = some k) :
    c.get x = some k ∨ x = id ∧ k = t := by
  unfold reinsertWithExpiry at h
  split at h
  · exact .inl h
  · by_cases hx : x = id
    · subst hx
      rw [get_insert_self] at h
      cases h
      exact .inr ⟨rfl, rfl⟩
    · exact .inl (get_of_insert hx h)

theorem get_reinsertWithExpiry_self (henabled : c.isDisabled = false) (hvalid : now < t.expiresAt) :
    (c.reinsertWithExpiry id t now).get id = some t := by
  unfold reinsertWithExpiry
  rw [if_neg]
  · exact get_insert_self
  · simp only [henabled, Bool.false_or, decide_eq_true_eq]
    omega

@[simp] theorem maxEntries_evictOldest : (c.evictOldest now).maxEntries = c.maxEntries := by
  unfold evictOldest
  dsimp only
  split
  · split <;> rfl
  · rfl

@[simp] theorem maxEntries_insert : (c.insert id t now).maxEntries = c.maxEntries := by
  unfold insert
  dsimp only
  split
  · exact maxEntries_evictOldest
  · rfl

@[simp] theorem isDisabled_remove : (c.remove id).1.isDisabled = c.isDisabled := rfl

@[simp] theorem isDisabled_peek : (c.peek id now).1.isDisabled = c.isDisabled := by
  unfold peek
  split
  · rfl
  · split <;> rfl

@[simp] theorem isDisabled_insert : (c.insert id t now).isDisabled = c.isDisabled := by
  simp [isDisabled]

@[simp] theorem isDisabled_store : (c.store id secret suite now).isDisabled = c.isDisabled := by
  unfold store
  split
  · rfl
  · exact isDisabled_insert

@[simp] theorem isDisabled_reinsertWithExpiry :
    (c.reinsertWithExpiry id t now).isDisabled = c.isDisabled := by
  unfold reinsertWithExpiry
  split
  · rfl
  · exact isDisabled_insert

end SessionCache

end PhantomProtocol
