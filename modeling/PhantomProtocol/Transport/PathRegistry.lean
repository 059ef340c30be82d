import PhantomProtocol.Crypto.KeySchedule

/-!
# Path registry

`transport::path::PathRegistry`: the per-path validation state machine. A path is created
`Unvalidated`, challenged (`Validating`), and resolved by the response to `Validated` or `Failed`.
The `last_packet_seen`, RTT and loss counters of a path are not read by any of these functions and
are left out.
-/

namespace PhantomProtocol

open Function Option

def pathChallengeLen : Nat := 32

/-- A challenge, `[u8; PATH_CHALLENGE_LEN]`. -/
abbrev Challenge := { b : Bytes // b.length = pathChallengeLen }

inductive PathStateKind where
  | unvalidated
  | validating
  | validated
  | failed
deriving DecidableEq, Repr

structure PathState where
  state : PathStateKind
  pendingChallenge : Option Challenge
deriving DecidableEq

def PathState.new : PathState := ⟨.unvalidated, none⟩

abbrev PathRegistry := UInt8 → Option PathState

namespace PathRegistry

def state (r : PathRegistry) (p : UInt8) : Option PathStateKind := (r p).map PathState.state

/-- The challenge outstanding on `p`. -/
def pending (r : PathRegistry) (p : UInt8) : Option Challenge :=
  (r p).bind PathState.pendingChallenge

def insert (r : PathRegistry) (p : UInt8) (s : PathState) : PathRegistry :=
  update r p (some s)

/-- `register`: create the path `Unvalidated` unless it is known. -/
def register (r : PathRegistry) (p : UInt8) : PathRegistry :=
  match r p with
  | some _ => r
  | none => r.insert p PathState.new

def registerValidated (r : PathRegistry) (p : UInt8) : PathRegistry :=
  match r p with
  | some _ => r
  | none => r.insert p ⟨.validated, none⟩

def retire (r : PathRegistry) (p : UInt8) : PathRegistry := update r p none

/-- `issue_challenge`: a path with a challenge in flight returns that same challenge; `fresh` is
what the generator would return otherwise. -/
def issueChallenge (r : PathRegistry) (p : UInt8) (fresh : Challenge) :
    PathRegistry × Option Challenge :=
  match r p with
  | none => (r, none)
  | some path =>
    match path.state with
    | .validated | .failed => (r, none)
    | .unvalidated | .validating =>
      match path.pendingChallenge with
      | some existing => (r, some existing)
      | none => (r.insert p ⟨.validating, some fresh⟩, some fresh)

def verifyResponse (r : PathRegistry) (p : UInt8) (response : Bytes) : PathRegistry × Bool :=
  match r p with
  | none => (r, false)
  | some path =>
    if response.length ≠ pathChallengeLen then (r, false)
    else if path.state ≠ .validating then (r, false)
    else
      match path.pendingChallenge with
      | none => (r.insert p ⟨.failed, none⟩, false)
      | some expected =>
        if expected.1 = response then (r.insert p ⟨.validated, none⟩, true)
        else (r.insert p ⟨.failed, none⟩, false)

def beginPathValidation (r : PathRegistry) (p : UInt8) (fresh : Challenge) :
    PathRegistry × Option Challenge :=
  (r.register p).issueChallenge p fresh

def registerUnvalidatedPath (r : PathRegistry) (p : UInt8) : PathRegistry :=
  if (r.state p).isNone then r.register p else r

/-- The registry of a new session: the handshake path is trusted. -/
def new : PathRegistry := registerValidated (fun _ => none) 0

/-! ## Lookup lemmas -/

variable {r : PathRegistry} {p q : UInt8} {s : PathState} {c fresh : Challenge}

@[simp] theorem insert_self : (r.insert p s) p = some s := update_self ..

theorem insert_of_ne (h : q ≠ p) : (r.insert p s) q = r q := update_of_ne h ..

theorem insert_apply : (r.insert p s) q = if q = p then some s else r q := update_apply ..

@[simp] theorem retire_self : r.retire p p = none := update_self ..

theorem retire_of_ne (h : q ≠ p) : r.retire p q = r q := update_of_ne h ..

theorem state_insert : (r.insert p s).state q = if q = p then some s.state else r.state q := by
  unfold state
  rw [insert_apply]
  split <;> rfl

theorem state_retire : (r.retire p).state q = if q = p then none else r.state q := by
  unfold state retire
  rw [update_apply]
  split <;> rfl

/-- A challenge is outstanding exactly on the `Validating` paths. -/
def WellFormed (r : PathRegistry) : Prop :=
  ∀ p s, r p = some s → (s.state = .validating ↔ s.pendingChallenge.isSome)

theorem WellFormed.insert (h : r.WellFormed)
    (hs : s.state = .validating ↔ s.pendingChallenge.isSome) : (r.insert p s).WellFormed := by
  intro q t hq
  rw [insert_apply] at hq
  split at hq
  · cases hq
    exact hs
  · exact h q t hq

theorem WellFormed.retire (h : r.WellFormed) : (r.retire p).WellFormed := by
  intro q t hq
  by_cases hqp : q = p
  · subst hqp
    simp at hq
  · rw [retire_of_ne hqp] at hq
    exact h q t hq

theorem wellFormed_new : new.WellFormed := by
  intro p s h
  simp only [new, registerValidated, insert_apply] at h
  split at h
  · cases h
    simp
  · cases h

/-- The path is `Validating` with challenge `c` outstanding. -/
def Outstanding (r : PathRegistry) (p : UInt8) (c : Challenge) : Prop :=
  r p = some ⟨.validating, some c⟩

instance : Decidable (r.Outstanding p c) := inferInstanceAs (Decidable (_ = _))

/-- A PATH_VALIDATION frame on `p` would be echoed: the path is unknown or `Unvalidated`. -/
def Echoes (r : PathRegistry) (p : UInt8) : Prop := r.state p = none ∨ r.state p = some .unvalidated

instance : Decidable (r.Echoes p) := inferInstanceAs (Decidable (_ ∨ _))

theorem register_apply : r.register p q = if q = p ∧ r p = none then some PathState.new else r q := by
  unfold register
  cases hp : r p with
  | some => simp
  | none => simp only [insert_apply, and_true]

theorem insert_register : (r.register p).insert p s = r.insert p s := by
  unfold register
  split
  · rfl
  · exact update_idem ..

theorem registerUnvalidatedPath_eq : r.registerUnvalidatedPath p = r.register p := by
  unfold registerUnvalidatedPath register state
  cases r p <;> rfl

theorem echoes_register : (r.register p).Echoes q ↔ r.Echoes q := by
  unfold Echoes state
  rw [register_apply]
  split
  · rename_i h
    rw [h.1, h.2]
    simp [PathState.new]
  · rfl

theorem state_register (k : PathStateKind) (hk : k ≠ .unvalidated) :
    (r.register p).state q = some k ↔ r.state q = some k := by
  unfold state
  rw [register_apply]
  split
  · rename_i h
    rw [h.1, h.2]
    simp [PathState.new, hk.symm]
  · rfl

theorem outstanding_register : (r.register p).Outstanding q c ↔ r.Outstanding q c := by
  unfold Outstanding
  rw [register_apply]
  split
  · rename_i h
    rw [h.1, h.2]
    simp [PathState.new]
  · rfl

theorem WellFormed.register (h : r.WellFormed) : (r.register p).WellFormed := by
  unfold PathRegistry.register
  split
  · exact h
  · exact h.insert (by simp [PathState.new])

/-! ## What issuing and verifying do -/

theorem WellFormed.outstanding_iff (h : r.WellFormed) :
    (∃ c, r.Outstanding p c) ↔ r.state p = some .validating := by
  unfold Outstanding state
  constructor
  · rintro ⟨c, hc⟩
    rw [hc]
    rfl
  · intro hs
    obtain ⟨⟨k, c?⟩, hp, hk⟩ := map_eq_some_iff.1 hs
    cases hk
    obtain ⟨c, rfl⟩ := isSome_iff_exists.1 ((h p _ hp).1 rfl)
    exact ⟨c, hp⟩

section

variable (h : r.Outstanding p c)
include h

theorem Outstanding.state_eq : r.state p = some .validating := by
  rw [state, h]
  rfl

theorem Outstanding.pending : r.pending p = some c := by
  rw [PathRegistry.pending, h]
  rfl

theorem Outstanding.unique {c' : Challenge} (h' : r.Outstanding p c') : c = c' := by
  have := h.symm.trans h'
  simpa using this

theorem Outstanding.not_echoes : ¬r.Echoes p := by
  unfold Echoes state
  rw [h]
  simp

theorem beginPathValidation_outstanding : r.beginPathValidation p fresh = (r, some c) := by
  unfold Outstanding at h
  simp [beginPathValidation, register, h, issueChallenge]

end

theorem WellFormed.beginPathValidation_echoes (hwf : r.WellFormed) (h : r.Echoes p) :
    r.beginPathValidation p fresh = (r.insert p ⟨.validating, some fresh⟩, some fresh) := by
  unfold Echoes state at h
  unfold beginPathValidation issueChallenge
  rw [register_apply]
  cases hp : r p with
  | none =>
    simp only [and_self, if_true, PathState.new, insert_register]
  | some s =>
    obtain ⟨k, c?⟩ := s
    rw [hp] at h
    simp only [map_some, some.injEq, reduceCtorEq, false_or] at h
    cases h
    have hnone : c? = none := by
      have := hwf p _ hp
      simpa using this
    subst hnone
    simp [insert_register]

theorem beginPathValidation_terminal (h : r.state p = some .validated ∨ r.state p = some .failed) :
    r.beginPathValidation p fresh = (r, none) := by
  unfold state at h
  cases hp : r p with
  | none => simp [hp] at h
  | some =>
    simp only [hp, map_some, some.injEq] at h
    unfold beginPathValidation issueChallenge
    rcases h with h | h <;> simp [register, hp, h]

theorem WellFormed.cases (hwf : r.WellFormed) (p : UInt8) :
    r.Echoes p ∨ (∃ c, r.Outstanding p c) ∨ r.state p = some .validated ∨
      r.state p = some .failed := by
  rw [hwf.outstanding_iff]
  unfold Echoes
  cases hs : r.state p with
  | none => simp
  | some k => cases k <;> simp

theorem verifyResponse_match (h : r.Outstanding p c) :
    r.verifyResponse p c.1 = (r.insert p ⟨.validated, none⟩, true) := by
  unfold Outstanding at h
  simp [verifyResponse, h, c.2]

theorem verifyResponse_mismatch {b : Challenge} (h : r.Outstanding p c) (hne : b ≠ c) :
    r.verifyResponse p b.1 = (r.insert p ⟨.failed, none⟩, false) := by
  unfold Outstanding at h
  have hne' : ¬c.1 = b.1 := fun he => hne (Subtype.ext he.symm)
  simp [verifyResponse, h, b.2, hne']

end PathRegistry

end PhantomProtocol
