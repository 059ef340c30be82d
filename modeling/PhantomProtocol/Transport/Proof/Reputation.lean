import PhantomProtocol.Transport.Reputation

/-!
# What a violation costs

Trackers are compared by the entries that have not expired at some time (`live`): collecting the
expired ones before that time does not show.
-/

namespace PhantomProtocol.ReputationTracker

open IpText (IpAddr)

variable (t : ReputationTracker) (ip : IpAddr) {now later : Nat}

inductive Call where
  | violation (ip : IpAddr) (now : Nat)
  | success (ip : IpAddr)
  | gc (now : Nat)

def apply : Call → ReputationTracker
  | .violation ip now => t.recordViolation ip now
  | .success ip => t.resetViolations ip
  | .gc now => t.gc now

/-- The call is for another address, and reads no time after `later`. -/
def Call.Elsewhere (later : Nat) : Call → Prop
  | .violation other now => ip ≠ other ∧ now ≤ later
  | .success other => ip ≠ other
  | .gc now => now ≤ later

/-- What counts at `now`: the entry, unless its window has passed. -/
def live (now : Nat) : Option ReputationEntry :=
  (t.entries.lookup ip).filter fun e => !e.expired now

theorem lookup_gc : (t.gc now).entries.lookup ip = t.live ip now := by
  ext e
  simp only [live, gc, ← Option.mem_def, Option.mem_filter_iff, AList.mem_lookup_iff]
  simp

theorem live_gc (h : now ≤ later) : (t.gc now).live ip later = t.live ip later := by
  rw [live, lookup_gc, live, live, Option.filter_filter]
  congr
  grind [ReputationEntry.expired]

/-- A call for another address leaves what counts. -/
theorem live_apply {c : Call} (h : c.Elsewhere ip later) :
    (t.apply c).live ip later = t.live ip later := by
  cases c with
  | violation =>
    have hgc := t.live_gc ip h.2
    simp only [apply, recordViolation]
    split
    · simp [live, insert, AList.lookup_insert_ne h.1]
    · split_ifs <;> simp_all [live, insert, AList.lookup_insert_ne h.1]
  | success => simp [apply, resetViolations, live, AList.lookup_erase_ne h]
  | gc => exact t.live_gc ip h

theorem live_run {calls : List Call} (h : ∀ c ∈ calls, c.Elsewhere ip later) :
    (calls.foldl apply t).live ip later = t.live ip later :=
  List.foldlRecOn (motive := fun u : ReputationTracker => u.live ip later = t.live ip later) calls _
    rfl fun u hu c hc => (u.live_apply ip (h c hc)).trans hu

theorem calculateDifficulty_eq : t.calculateDifficulty ip now false =
    (t.live ip now).elim 0 ReputationEntry.difficulty := by
  unfold calculateDifficulty live
  cases t.entries.lookup ip with
  | none => rfl
  | some e => cases h : e.expired now <;> simp [h, Option.filter]

/-- A violation is entered when there is room. -/
theorem lookup_recordViolation
    (hroom : ip ∈ t.entries ∨ (t.gc now).entries.keys.length < t.maxEntries) :
    (t.recordViolation ip now).entries.lookup ip =
      some ⟨(t.live ip now).elim 0 (·.violations) + 1, now⟩ := by
  simp only [recordViolation]
  split
  · rename_i e he
    cases h : e.expired now <;> simp [insert, live, he, h, ReputationEntry.again, Option.filter]
  · rename_i hnone
    have hlen := hroom.resolve_left (AList.lookup_eq_none.1 hnone)
    rw [dif_pos]
    · simp [insert, live, hnone, ReputationEntry.new]
    · split_ifs with hfull
      · exact hlen
      · exact not_le.1 hfull

theorem difficulty_elsewhere {calls : List Call} (h : ∀ c ∈ calls, c.Elsewhere ip later) :
    (calls.foldl apply t).calculateDifficulty ip later false =
      t.calculateDifficulty ip later false := by
  simp only [calculateDifficulty_eq, live_run _ _ h]

/-- **An address pays for itself.** Calls for other addresses, however many, leave its difficulty as
it is; and unless others fill the map, a violation is added to those the window before it holds,
and counts for one window. -/
theorem own_conduct_priced {calls : List Call} (helse : ∀ c ∈ calls, c.Elsewhere ip later) :
    (calls.foldl apply t).calculateDifficulty ip later false =
        t.calculateDifficulty ip later false ∧
      ((ip ∈ t.entries ∨ (t.gc now).entries.keys.length < t.maxEntries) →
        (calls.foldl apply (t.recordViolation ip now)).calculateDifficulty ip later false =
          if later ≤ now + ReputationEntry.windowSecs then
            ReputationEntry.difficulty ⟨(t.live ip now).elim 0 (·.violations) + 1, now⟩
          else 0) := by
  refine ⟨t.difficulty_elsewhere ip helse, fun hroom => ?_⟩
  rw [difficulty_elsewhere _ ip helse, calculateDifficulty, t.lookup_recordViolation ip hroom]
  grind [ReputationEntry.expired]

def client : IpAddr := .v4 #v[10, 0, 0, 1]
def stranger : IpAddr := .v4 #v[10, 0, 0, 2]

/-- The one slot is the stranger's, or the client's. -/
theorem own_conduct_priced_full :
    let calls : List Call := [.violation stranger 2, .gc 3]
    (calls.foldl apply ((withCapacity 1).recordViolation stranger 1)).calculateDifficulty client 61
        false = 0 ∧
      (calls.foldl apply ((withCapacity 1).recordViolation client 1)).calculateDifficulty client 61
        false = 9 :=
  have helse : ∀ c ∈ [Call.violation stranger 2, .gc 3], c.Elsewhere client 61 := by
    simp [Call.Elsewhere, client, stranger]
  ⟨(@own_conduct_priced _ client 1 _ _ helse).1.trans (by decide),
    (own_conduct_priced (withCapacity 1) client helse).2 (.inr (by decide))⟩

end PhantomProtocol.ReputationTracker
