import PhantomProtocol.Transport.PathRegistry
import Mathlib.Data.List.Nodup

/-!
# Histories of a path registry

The operations of the registry in any order, with a record of the challenges that were drawn and of
those that a response took.
-/

namespace PhantomProtocol

open List Option Function

namespace PathRegistry

variable {r : PathRegistry} {p q : UInt8} {s : PathState} {c fresh : Challenge}

inductive Op where
  | register (p : UInt8)
  | registerValidated (p : UInt8)
  /-- `fresh` is what the generator returns if it is asked. -/
  | issueChallenge (p : UInt8) (fresh : Challenge)
  | verifyResponse (p : UInt8) (response : Bytes)
  | retire (p : UInt8)

structure History where
  registry : PathRegistry
  /-- The challenges that were drawn, in order, each with its path. -/
  drawn : List (UInt8 × Challenge)
  /-- Which of them was the last one on the path since it was registered. -/
  last : UInt8 → Option Nat
  /-- Those that a call of `verify_response` took. -/
  consumed : List Nat

namespace History

def init : History := ⟨fun _ => none, [], fun _ => none, []⟩

/-- The path is registered anew if it is not known. -/
def forget (h : History) (p : UInt8) : UInt8 → Option Nat :=
  if h.registry p = none then Function.update h.last p none else h.last

def step (h : History) : Op → History
  | .register p => { h with registry := h.registry.register p, last := h.forget p }
  | .registerValidated p => { h with registry := h.registry.registerValidated p, last := h.forget p }
  | .issueChallenge p fresh =>
    match h.registry.issueChallenge p fresh with
    | (r, none) => { h with registry := r }
    | (r, some c) =>
      if (h.registry.pending p).isSome then { h with registry := r }
      else
        { h with
          registry := r
          drawn := h.drawn ++ [(p, c)]
          last := Function.update h.last p (some h.drawn.length) }
  | .verifyResponse p response =>
    let r := (h.registry.verifyResponse p response).1
    let taken := if (h.registry.pending p).isSome && (r.pending p).isNone then h.last p else none
    { h with registry := r, consumed := h.consumed ++ taken.toList }
  | .retire p => { h with registry := h.registry.retire p }

end History

/-! ## What an operation does to the challenge in flight -/

theorem pending_insert :
    (r.insert p s).pending q = if q = p then s.pendingChallenge else r.pending q := by
  unfold pending
  rw [insert_apply]
  split <;> rfl

theorem pending_retire : (r.retire p).pending q = if q = p then none else r.pending q := by
  unfold pending retire
  rw [update_apply]
  split <;> rfl

theorem pending_of_none (h : r p = none) : r.pending p = none := by
  rw [pending, h]
  rfl

/-- A path is created without a challenge. -/
theorem pending_create (hs : s.pendingChallenge = none) :
    pending (match r p with | some _ => r | none => r.insert p s) q = r.pending q := by
  split
  · rfl
  · simp_all [pending_insert, pending_of_none]

theorem pending_register : (r.register p).pending q = r.pending q := pending_create rfl

theorem pending_registerValidated : (r.registerValidated p).pending q = r.pending q :=
  pending_create rfl

theorem WellFormed.registerValidated (h : r.WellFormed) : (r.registerValidated p).WellFormed := by
  unfold PathRegistry.registerValidated
  split
  · exact h
  · exact h.insert (by simp)

theorem WellFormed.validating_iff (h : r.WellFormed) :
    r.state p = some .validating ↔ (r.pending p).isSome := by
  unfold state pending
  cases hp : r p with
  | none => simp
  | some s => simpa using h p s hp

theorem WellFormed.issueChallenge (h : r.WellFormed) (p : UInt8) (fresh : Challenge) :
    r.issueChallenge p fresh = (r, r.pending p) ∨
      r.pending p = none ∧ r.state p = some .unvalidated ∧
        r.issueChallenge p fresh = (r.insert p ⟨.validating, some fresh⟩, some fresh) := by
  unfold PathRegistry.issueChallenge PathRegistry.pending PathRegistry.state
  cases hp : r p with
  | none => simp
  | some path =>
    obtain ⟨kind, c?⟩ := path
    have hiff := h p _ hp
    cases c? <;> cases kind <;> simp_all

theorem WellFormed.verifyResponse (h : r.WellFormed) (p : UInt8) (response : Bytes) :
    (r.verifyResponse p response).1 = r ∨
      ∃ c, r.Outstanding p c ∧ (r.verifyResponse p response).1 =
        r.insert p ⟨if response = c.1 then .validated else .failed, none⟩ := by
  unfold PathRegistry.verifyResponse Outstanding
  cases hp : r p with
  | none => simp
  | some path =>
    obtain ⟨kind, c?⟩ := path
    have hiff := h p _ hp
    by_cases hlen : response.length = pathChallengeLen
    · grind
    · simp [hlen]

/-! ## Histories -/

namespace History

variable {h : History}

structure Inv (h : History) : Prop where
  wellFormed : h.registry.WellFormed
  /-- The challenge in flight is the last one drawn for the path, and has not been consumed. -/
  pending : ∀ p c, h.registry.pending p = some c →
    ∃ n, h.last p = some n ∧ h.drawn[n]? = some (p, c) ∧ n ∉ h.consumed
  nodup : h.consumed.Nodup
  consumed_lt : ∀ n ∈ h.consumed, n < h.drawn.length

theorem forget_of_pending {c : Challenge} (hc : h.registry.pending q = some c) :
    h.forget p q = h.last q := by
  unfold forget
  split
  · grind [pending_of_none, update_of_ne]
  · rfl

theorem Inv.init : init.Inv where
  wellFormed := fun _ _ h => by cases h
  pending := fun _ _ h => by cases h
  nodup := nodup_nil
  consumed_lt := fun _ h => by cases h

theorem Inv.issueChallenge (hinv : h.Inv) (p : UInt8) (fresh : Challenge) :
    (h.step (.issueChallenge p fresh)).Inv := by
  rcases hinv.wellFormed.issueChallenge p fresh with hsame | ⟨hnone, -, hnew⟩
  · cases hc : h.registry.pending p with
    | none =>
      rw [hc] at hsame
      simp only [step, hsame]
      exact hinv
    | some =>
      rw [hc] at hsame
      simp only [step, hsame, hc, isSome_some, if_true]
      exact hinv
  · simp only [step, hnew, hnone, isSome_none, Bool.false_eq_true, if_false]
    refine ⟨hinv.wellFormed.insert (by simp), ?_, hinv.nodup, ?_⟩
    · intro q c hc
      simp only [pending_insert] at hc
      by_cases hqp : q = p
      · subst hqp
        simp only [if_true, Option.some.injEq] at hc
        subst hc
        refine ⟨h.drawn.length, update_self .., by simp, ?_⟩
        intro hmem
        exact lt_irrefl _ (hinv.consumed_lt _ hmem)
      · rw [if_neg hqp] at hc
        obtain ⟨n, hlast, hn, hfree⟩ := hinv.pending q c hc
        grind
    · intro n hmem
      simp only [length_append, length_singleton]
      exact Nat.lt_succ_of_lt (hinv.consumed_lt n hmem)

theorem Inv.verifyResponse (hinv : h.Inv) (p : UInt8) (response : Bytes) :
    (h.step (.verifyResponse p response)).Inv := by
  simp only [step]
  rcases hinv.wellFormed.verifyResponse p response with hsame | ⟨c, hout, hnew⟩
  · rw [hsame]
    cases h.registry.pending p <;> simpa using hinv
  · obtain ⟨n, hlast, hn, hfree⟩ := hinv.pending p c hout.pending
    have hlt := (List.getElem?_eq_some_iff.1 hn).1
    simp only [hnew, pending_insert, hout.pending, if_true, isSome_some, isNone_none,
      Bool.and_self, hlast, toList_some]
    refine ⟨hinv.wellFormed.insert (by split <;> simp), ?_, ?_, ?_⟩
    · intro q c' hc'
      simp only [pending_insert] at hc'
      by_cases hqp : q = p
      · simp [hqp] at hc'
      · rw [if_neg hqp] at hc'
        obtain ⟨m, hlast', hm, hfree'⟩ := hinv.pending q c' hc'
        grind
    · rw [nodup_append]
      refine ⟨hinv.nodup, nodup_singleton n, ?_⟩
      intro m hm k hk
      rw [mem_singleton.1 hk]
      exact ne_of_mem_of_not_mem hm hfree
    · intro m hm
      rcases mem_append.1 hm with hm | hm
      · exact hinv.consumed_lt m hm
      · rwa [mem_singleton.1 hm]

theorem Inv.step (hinv : h.Inv) (op : Op) : (h.step op).Inv := by
  cases op with
  | register =>
    refine ⟨hinv.wellFormed.register, ?_, hinv.nodup, hinv.consumed_lt⟩
    intro q c hc
    rw [History.step, pending_register] at hc
    simp only [History.step, forget_of_pending hc]
    exact hinv.pending q c hc
  | registerValidated =>
    refine ⟨hinv.wellFormed.registerValidated, ?_, hinv.nodup, hinv.consumed_lt⟩
    intro q c hc
    rw [History.step, pending_registerValidated] at hc
    simp only [History.step, forget_of_pending hc]
    exact hinv.pending q c hc
  | issueChallenge p fresh => exact hinv.issueChallenge p fresh
  | verifyResponse p response => exact hinv.verifyResponse p response
  | retire =>
    refine ⟨hinv.wellFormed.retire, ?_, hinv.nodup, hinv.consumed_lt⟩
    intro q c hc
    rw [History.step, pending_retire] at hc
    split at hc
    · cases hc
    · exact hinv.pending q c hc

theorem Inv.run (ops : List Op) : (ops.foldl History.step History.init).Inv := by
  induction ops using List.reverseRecOn with
  | nil => exact Inv.init
  | append_singleton _ op ih =>
    rw [foldl_append]
    exact ih.step op

theorem Inv.validated (hinv : h.Inv) {op : Op}
    (hafter : (h.step op).registry.state p = some .validated)
    (hbefore : h.registry.state p ≠ some .validated) :
    op = .registerValidated p ∧ h.registry p = none ∨
      ∃ n c, op = .verifyResponse p c.1 ∧ h.last p = some n ∧ h.drawn[n]? = some (p, c) ∧
        n ∉ h.consumed := by
  cases op with
  | register =>
    exact absurd ((state_register _ (by simp)).1 hafter) hbefore
  | registerValidated =>
    simp only [History.step, PathRegistry.registerValidated] at hafter
    grind [state_insert]
  | issueChallenge q fresh =>
    have hstate : (h.step (.issueChallenge q fresh)).registry =
        (h.registry.issueChallenge q fresh).1 := by
      simp only [History.step]
      split
      · rename_i heq
        rw [heq]
      · rename_i heq
        split <;> rw [heq]
    rw [hstate] at hafter
    rcases hinv.wellFormed.issueChallenge q fresh with hsame | ⟨-, -, hnew⟩
    · rw [hsame] at hafter
      exact absurd hafter hbefore
    · grind [state_insert]
  | verifyResponse q response =>
    simp only [History.step] at hafter
    rcases hinv.wellFormed.verifyResponse q response with hsame | ⟨c, hout, hnew⟩
    · rw [hsame] at hafter
      exact absurd hafter hbefore
    · rw [hnew, state_insert] at hafter
      split at hafter
      · subst q
        by_cases heq : response = c.1
        · obtain ⟨n, hlast, hn, hfree⟩ := hinv.pending p c hout.pending
          exact .inr ⟨n, c, by rw [heq], hlast, hn, hfree⟩
        · simp [heq] at hafter
      · exact absurd hafter hbefore
  | retire =>
    simp only [History.step, state_retire] at hafter
    split at hafter
    · cases hafter
    · exact absurd hafter hbefore

/-- **Soundness of the registry.** After any operations a path is `Validating` exactly when a
challenge is in flight on it; the next operation makes it `Validated` only by creating it so or by a
response equal to the last challenge drawn for it since it was registered, which no response has
taken before; no challenge has been taken twice; and a challenge in flight is what is issued again. -/
theorem history_sound (ops : List Op) :
    let h := ops.foldl History.step init
    (∀ p, h.registry.state p = some .validating ↔ (h.registry.pending p).isSome) ∧
      (∀ op p, (h.step op).registry.state p = some .validated →
        h.registry.state p ≠ some .validated →
        op = .registerValidated p ∧ h.registry p = none ∨
          ∃ n c, op = .verifyResponse p c.1 ∧ h.last p = some n ∧ h.drawn[n]? = some (p, c) ∧
            n ∉ h.consumed) ∧
      h.consumed.Nodup ∧
      ∀ p c fresh, h.registry.pending p = some c →
        h.registry.issueChallenge p fresh = (h.registry, some c) := by
  intro h
  have hinv : h.Inv := Inv.run ops
  refine ⟨fun p => hinv.wellFormed.validating_iff, fun op p => hinv.validated, hinv.nodup, ?_⟩
  intro p c fresh hc
  rcases hinv.wellFormed.issueChallenge p fresh with hsame | ⟨hnone, -, -⟩
  · rw [hsame, hc]
  · rw [hnone] at hc
    cases hc

end History

end PathRegistry

end PhantomProtocol
