import Mathlib.Algebra.BigOperators.Group.List.Basic
import Mathlib.Tactic.Linarith

/-!
# What a token bucket lets through

Credit grows with time, a check trims it, and a spender that has been cleared by a check since its
last spend may spend once, however much credit there is. Credit is counted in units so small that
what accrues in one instant is a whole number of them.
-/

namespace TokenBucket

/-- The parameters of a bucket. -/
structure Meter where
  /-- The credit one spent item costs. -/
  unit : Nat
  /-- The credit that accrues in one instant. -/
  rate : Nat
  /-- The most credit a check leaves. -/
  cap : Int
  /-- The least credit a spender is cleared at. -/
  floor : Int
  /-- The largest spend. -/
  most : Nat
  floor_le : floor ≤ cap

structure State where
  credit : Int
  now : Nat
  cleared : Bool
  /-- When how much was spent, the latest first. -/
  log : List (Nat × Nat)

/-- What can happen to a bucket; how credit grows and how a check trims it is left open within bounds. -/
inductive Step (m : Meter) : State → State → Prop
  | pass {s : State} {c : Int} (d : Nat) (hge : s.credit ≤ c) (hle : c ≤ s.credit + m.rate * d) :
      Step m s { s with credit := c, now := s.now + d }
  | check {s : State} {c : Int} {cleared : Bool} (hle : c ≤ s.credit) (hcap : c ≤ m.cap)
      (hcleared : cleared = true → m.floor ≤ c) :
      Step m s { s with credit := c, cleared }
  | spend {s : State} {n : Nat} (hcleared : s.cleared = true) (hn : n ≤ m.most) :
      Step m s
        { s with credit := s.credit - n * m.unit, cleared := false, log := (s.now, n) :: s.log }

/-- What was spent from `t` on. -/
def spentFrom (log : List (Nat × Nat)) (t : Nat) : Nat :=
  ((log.filter fun e => t ≤ e.1).map (·.2)).sum

/-- What was spent from `t` to `u`, both included. -/
def spentIn (log : List (Nat × Nat)) (t u : Nat) : Nat :=
  ((log.filter fun e => t ≤ e.1 ∧ e.1 ≤ u).map (·.2)).sum

section Log

variable {log : List (Nat × Nat)} {t u now n : Nat}

theorem spentFrom_cons_of_le (h : t ≤ now) :
    spentFrom ((now, n) :: log) t = n + spentFrom log t := by
  simp [spentFrom, h]

theorem spentFrom_eq_zero (hlog : ∀ e ∈ log, e.1 ≤ now) (h : now < t) : spentFrom log t = 0 := by
  have hnone : (log.filter fun e => decide (t ≤ e.1)) = [] := by
    refine List.filter_eq_nil_iff.2 fun e he => ?_
    have := hlog e he
    simp
    omega
  rw [spentFrom, hnone]
  rfl

theorem spentIn_eq_spentFrom (hlog : ∀ e ∈ log, e.1 ≤ u) : spentIn log t u = spentFrom log t := by
  unfold spentIn spentFrom
  congr 2
  refine List.filter_congr fun e he => ?_
  simp [hlog e he]

theorem logged_cons (hlog : ∀ e ∈ log, e.1 ≤ now) : ∀ e ∈ (now, n) :: log, e.1 ≤ now := by
  intro e he
  rcases List.mem_cons.1 he with rfl | he
  · exact Nat.le_refl _
  · exact hlog e he

theorem spentIn_cons_of_lt (h : u < now) : spentIn ((now, n) :: log) t u = spentIn log t u := by
  have : ¬now ≤ u := Nat.not_le.2 h
  simp [spentIn, this]

end Log

/-- Where a bucket stands against what was spent from `t` on. Before the first check in that time
one spend may have gone out, against a clearance from before it; from the first check on, credit and
what was spent are paid for by the cap, that one spend and what has accrued. -/
inductive Paid (m : Meter) (s : State) (t : Nat) : Prop
  | idle (h : spentFrom s.log t = 0)
  | one (h : spentFrom s.log t ≤ m.most) (hcleared : s.cleared = false)
  | checked (ht : t ≤ s.now)
      (h : spentFrom s.log t * m.unit + s.credit ≤
        m.most * m.unit + m.cap + m.rate * ((s.now - t : Nat) : Int))

/-- The invariant of a bucket. -/
structure Metered (m : Meter) (s : State) : Prop where
  logged : ∀ e ∈ s.log, e.1 ≤ s.now
  cleared : s.cleared = true → m.floor ≤ s.credit
  paid : ∀ t, Paid m s t
  bound : ∀ t u, (spentIn s.log t u * m.unit : Int) ≤
    m.cap - m.floor + 2 * (m.most * m.unit) + m.rate * ((u - t : Nat) : Int)

namespace Metered

variable {m : Meter} {s s' : State}

theorem init (hlog : s.log = []) (hcleared : s.cleared = false) : Metered m s where
  logged := by simp [hlog]
  cleared := by simp [hcleared]
  paid t := .idle (by simp [hlog, spentFrom])
  bound t u := by
    have hfloor := m.floor_le
    have hmost : (0 : Int) ≤ m.most * m.unit := by positivity
    have hrate : (0 : Int) ≤ m.rate * ((u - t : Nat) : Int) := by positivity
    simp [hlog, spentIn]
    omega

section

variable (h : Metered m s)
include h

theorem spentFrom_spend_le (hcleared : s.cleared = true) {n : Nat} (hn : n ≤ m.most) (t : Nat) :
    ((n + spentFrom s.log t : Nat) * m.unit : Int) ≤
      m.cap - m.floor + 2 * (m.most * m.unit) + m.rate * ((s.now - t : Nat) : Int) := by
  have hfloor := m.floor_le
  have hmost : (n * m.unit : Int) ≤ m.most * m.unit := by gcongr
  have hnn : (0 : Int) ≤ m.most * m.unit := by positivity
  have hrate : (0 : Int) ≤ m.rate * ((s.now - t : Nat) : Int) := by positivity
  rw [Nat.cast_add, Int.add_mul]
  cases h.paid t with
  | idle h0 =>
    rw [h0, Nat.cast_zero, Int.zero_mul]
    omega
  | one _ hc => exact absurd (hcleared.symm.trans hc) Bool.false_ne_true.symm
  | checked =>
    have := h.cleared hcleared
    omega

theorem pass {c : Int} (d : Nat) (hge : s.credit ≤ c)
    (hle : c ≤ s.credit + m.rate * d) : Metered m { s with credit := c, now := s.now + d } where
  logged e he := (h.logged e he).trans (Nat.le_add_right ..)
  cleared hc := (h.cleared hc).trans hge
  paid t := by
    cases h.paid t with
    | idle h0 => exact .idle h0
    | one h1 hc => exact .one h1 hc
    | checked ht =>
      refine .checked (Nat.le_add_right_of_le ht) ?_
      have hspan : ((s.now + d - t : Nat) : Int) = ((s.now - t : Nat) : Int) + d := by omega
      show spentFrom s.log t * m.unit + c ≤ _ + m.rate * ((s.now + d - t : Nat) : Int)
      rw [hspan, Int.mul_add]
      omega
  bound := h.bound

theorem check {c : Int} {cleared : Bool} (hle : c ≤ s.credit)
    (hcap : c ≤ m.cap) (hcleared : cleared = true → m.floor ≤ c) :
    Metered m { s with credit := c, cleared } where
  logged := h.logged
  cleared := hcleared
  paid t := by
    by_cases ht : t ≤ s.now
    · refine .checked ht ?_
      have hmost : (0 : Int) ≤ m.most * m.unit := by positivity
      have hrate : (0 : Int) ≤ m.rate * ((s.now - t : Nat) : Int) := by positivity
      show spentFrom s.log t * m.unit + c ≤ _ + m.rate * ((s.now - t : Nat) : Int)
      cases h.paid t with
      | idle h0 =>
        rw [h0, Nat.cast_zero, Int.zero_mul]
        omega
      | one =>
        have : (spentFrom s.log t * m.unit : Int) ≤ m.most * m.unit := by gcongr
        omega
      | checked => omega
    · exact .idle (spentFrom_eq_zero h.logged (Nat.lt_of_not_le ht))
  bound := h.bound

theorem spend {n : Nat} (hcleared : s.cleared = true) (hn : n ≤ m.most) : Metered m { s with
      credit := s.credit - n * m.unit, cleared := false, log := (s.now, n) :: s.log } where
  logged := logged_cons h.logged
  cleared hc := by cases hc
  paid t := by
    by_cases ht : t ≤ s.now
    · cases h.paid t with
      | idle h0 =>
        refine .one ?_ rfl
        rw [spentFrom_cons_of_le ht, h0]
        exact hn
      | one _ hc => exact absurd (hcleared.symm.trans hc) Bool.false_ne_true.symm
      | checked _ =>
        refine .checked ht ?_
        show spentFrom ((s.now, n) :: s.log) t * m.unit + (s.credit - n * m.unit) ≤
          _ + m.rate * ((s.now - t : Nat) : Int)
        rw [spentFrom_cons_of_le ht, Nat.cast_add, Int.add_mul]
        omega
    · exact .idle (spentFrom_eq_zero (logged_cons h.logged) (Nat.lt_of_not_le ht))
  bound t u := by
    by_cases hu : s.now ≤ u
    · by_cases ht : t ≤ s.now
      · have hspan : ((s.now - t : Nat) : Int) ≤ ((u - t : Nat) : Int) := by omega
        have hrate : m.rate * ((s.now - t : Nat) : Int) ≤ m.rate * ((u - t : Nat) : Int) := by
          gcongr
        have hspent := h.spentFrom_spend_le hcleared hn t
        rw [spentIn_eq_spentFrom fun e he => (logged_cons h.logged e he).trans hu,
          spentFrom_cons_of_le ht]
        omega
      · -- the interval has not begun
        have hskip : spentIn ((s.now, n) :: s.log) t u = spentIn s.log t u := by
          simp [spentIn, ht]
        rw [hskip]
        exact h.bound t u
    · rw [spentIn_cons_of_lt (Nat.lt_of_not_le hu)]
      exact h.bound t u

theorem step (hs : Step m s s') : Metered m s' := by
  cases hs with
  | pass d hge hle => exact h.pass d hge hle
  | check hle hcap hcleared => exact h.check hle hcap hcleared
  | spend hcleared hn => exact h.spend hcleared hn

end

end Metered

end TokenBucket
