import Mathlib.Order.Lattice

/-!
# Runs of a labelled transition system

A system is a partial step function `step : σ → ε → Option σ`: the event carries every choice the
environment makes, and `none` says the event is not enabled. A run is a list of events.

* `run_inv`: what one step preserves, a whole run preserves, also when the steps are only known to
  meet a side condition (`Along`),
* `Reaches`, `Leads`: reachability, the latter by steps that meet a condition; `Can.iterate` builds
  long runs,
* `along_iff`: two step conditions that agree under an invariant which the first one maintains
  select the same runs; `along_rel_iff`: a preorder kept step by step holds between any two states,
* `Exec.quiesces`, `Exec.quiesces_of_fair`: in an infinite execution whose work is measured by a
  natural number, the work ends; `Exec.exists_of_inv` and `Exec.exists_prepend` build executions.
-/

namespace Lts

open List

variable {σ ε : Type*}

/-- Run a list of events; `none` as soon as one of them is not enabled. -/
def run (step : σ → ε → Option σ) : σ → List ε → Option σ
  | s, [] => some s
  | s, e :: es =>
    match step s e with
    | some s' => run step s' es
    | none => none

/-- Every step of the run from `s` along `es` meets `P` (state before, event, state after). -/
def Along (step : σ → ε → Option σ) (P : σ → ε → σ → Prop) : σ → List ε → Prop
  | _, [] => True
  | s, e :: es => ∀ s', step s e = some s' → P s e s' ∧ Along step P s' es

instance decidableAlong (step : σ → ε → Option σ) (P : σ → ε → σ → Prop)
    [∀ s e s', Decidable (P s e s')] : ∀ (s : σ) (es : List ε), Decidable (Along step P s es)
  | _, [] => .isTrue trivial
  | s, e :: es =>
    match h : step s e with
    | none => .isTrue fun s' hs => by simp [h] at hs
    | some s' =>
      have := decidableAlong step P s' es
      decidable_of_iff (P s e s' ∧ Along step P s' es)
        ⟨fun hp _ hs => by cases h.symm.trans hs; exact hp, fun ha => ha s' h⟩

variable {step : σ → ε → Option σ} {P Q : σ → ε → σ → Prop} {Inv : σ → Prop} {s : σ}

@[simp] theorem run_nil (s : σ) : run step s [] = some s := rfl

theorem run_cons_some {s s' : σ} {e : ε} (h : step s e = some s') (es : List ε) :
    run step s (e :: es) = run step s' es := by
  simp only [run, h]

theorem run_cons_inv {s t : σ} {e : ε} {es : List ε} (h : run step s (e :: es) = some t) :
    ∃ s', step s e = some s' ∧ run step s' es = some t := by
  unfold run at h
  split at h
  · exact ⟨_, ‹_›, h⟩
  · cases h

theorem run_append (s : σ) (xs ys : List ε) :
    run step s (xs ++ ys) = (run step s xs).bind (run step · ys) := by
  induction xs generalizing s with
  | nil => rfl
  | cons _ _ ih =>
    simp only [cons_append, run]
    split
    · exact ih _
    · rfl

/-! ## Invariants of runs -/

/-- **Invariant rule.** A state predicate kept by every step that meets `P` is kept by every run
whose steps meet `P`. -/
theorem run_inv_along (hstep : ∀ s e s', Inv s → step s e = some s' → P s e s' → Inv s') :
    ∀ (es : List ε) {s t : σ}, Inv s → Along step P s es → run step s es = some t → Inv t
  | [], _, _, hi, _, h => by cases h; exact hi
  | _ :: es, _, _, hi, ha, h => by
    obtain ⟨s', hs, ht⟩ := run_cons_inv h
    obtain ⟨hp, ha'⟩ := ha s' hs
    exact run_inv_along hstep es (hstep _ _ _ hi hs hp) ha' ht

theorem run_inv (hstep : ∀ s e s', Inv s → step s e = some s' → Inv s') (es : List ε) {s t : σ}
    (hi : Inv s) (h : run step s es = some t) : Inv t := by
  induction es generalizing s with
  | nil => cases h; exact hi
  | cons _ _ ih =>
    obtain ⟨s', hs, ht⟩ := run_cons_inv h
    exact ih (hstep _ _ _ hi hs) ht

/-- A step property that follows from an invariant holds along the run. -/
theorem along_of_inv (hkeep : ∀ s e s', Inv s → step s e = some s' → P s e s' → Inv s')
    (hprop : ∀ s e s', Inv s → step s e = some s' → P s e s' → Q s e s') :
    ∀ (es : List ε) {s : σ}, Inv s → Along step P s es → Along step Q s es
  | [], _, _, _ => trivial
  | _ :: es, _, hi, ha => fun s' hs =>
    have ⟨hp, ha'⟩ := ha s' hs
    ⟨hprop _ _ _ hi hs hp, along_of_inv hkeep hprop es (hkeep _ _ _ hi hs hp) ha'⟩

theorem along_of_run_inv (hkeep : ∀ s e s', Inv s → step s e = some s' → Inv s')
    (hprop : ∀ s e s', Inv s → step s e = some s' → Q s e s') (es : List ε) (hi : Inv s) :
    Along step Q s es := by
  induction es generalizing s with
  | nil => trivial
  | cons _ _ ih => exact fun s' hs => ⟨hprop _ _ _ hi hs, ih (hkeep _ _ _ hi hs)⟩

theorem along_of_forall (h : ∀ s e s', step s e = some s' → Q s e s') (es : List ε) (s : σ) :
    Along step Q s es :=
  along_of_run_inv (fun _ _ _ _ _ => trivial) (fun s e s' _ hs => h s e s' hs) es
    (trivial : (fun _ => True) s)

/-- Two step conditions that agree wherever the invariant holds, the first of which maintains it,
hold along the same runs. -/
theorem along_iff (Inv : σ → Prop)
    (hkeep : ∀ s e s', Inv s → step s e = some s' → P s e s' → Inv s')
    (hiff : ∀ s e s', Inv s → step s e = some s' → (P s e s' ↔ Q s e s')) (es : List ε)
    (hi : Inv s) : Along step P s es ↔ Along step Q s es := by
  constructor
  · exact along_of_inv hkeep (fun s e s' h hs => (hiff s e s' h hs).1) es hi
  · refine along_of_inv (fun s e s' h hs hq => ?_) (fun s e s' h hs => (hiff s e s' h hs).2) es hi
    exact hkeep s e s' h hs ((hiff s e s' h hs).2 hq)

/-- A reflexive and transitive relation kept by every step relates every state of the run to every
later one. -/
theorem along_rel_iff {R : σ → σ → Prop} (hrefl : ∀ s, R s s)
    (htrans : ∀ s t u, R s t → R t u → R s u) (es : List ε) :
    Along step (fun s _ s' => R s s') s es ↔
      ∀ xs ys t u, xs ++ ys <+: es → run step s xs = some t → run step t ys = some u → R t u := by
  induction es generalizing s with
  | nil =>
    refine iff_of_true trivial fun xs ys t u hle hxs hys => ?_
    obtain ⟨rfl, rfl⟩ := append_eq_nil_iff.1 (prefix_nil.1 hle)
    cases hxs
    cases hys
    exact hrefl _
  | cons e _ ih =>
    constructor
    · intro ha xs ys t u hle hxs hys
      match xs, ys with
      | [], [] =>
        cases hxs
        cases hys
        exact hrefl _
      | [], y :: ys =>
        obtain ⟨rfl, htail⟩ := cons_prefix_cons.1 hle
        cases hxs
        obtain ⟨s', hs, hys⟩ := run_cons_inv hys
        exact htrans _ _ _ (ha s' hs).1 (ih.1 (ha s' hs).2 [] ys s' u htail rfl hys)
      | x :: xs, ys =>
        obtain ⟨rfl, htail⟩ := cons_prefix_cons.1 hle
        obtain ⟨s', hs, hxs⟩ := run_cons_inv hxs
        exact ih.1 (ha s' hs).2 xs ys t u htail hxs hys
    · intro hall s' hs
      refine ⟨hall [] [e] s s' ?_ rfl ?_, ih.2 fun xs ys t u hle hxs hys => ?_⟩
      · exact cons_prefix_cons.2 ⟨rfl, nil_prefix⟩
      · rw [run_cons_some hs, run_nil]
      · refine hall (e :: xs) ys t u (cons_prefix_cons.2 ⟨rfl, hle⟩) ?_ hys
        rw [run_cons_some hs]
        exact hxs

/-! ## Reachability -/

/-- A run leads from `s` to `t`. -/
def Reaches (step : σ → ε → Option σ) (s t : σ) : Prop := ∃ es, run step s es = some t

/-- A run whose steps meet `P` leads from `s` to `t`. -/
def Leads (step : σ → ε → Option σ) (P : σ → ε → σ → Prop) (s t : σ) : Prop :=
  ∃ es, run step s es = some t ∧ Along step P s es

namespace Reaches

variable {s t u : σ}

theorem refl (s : σ) : Reaches step s s := ⟨[], rfl⟩

theorem single {e : ε} (h : step s e = some t) : Reaches step s t :=
  ⟨[e], by rw [run_cons_some h, run_nil]⟩

theorem trans (h : Reaches step s t) (h' : Reaches step t u) : Reaches step s u := by
  obtain ⟨xs, hxs⟩ := h
  obtain ⟨ys, hys⟩ := h'
  exact ⟨xs ++ ys, by rw [run_append, hxs]; exact hys⟩

theorem inv (h : Reaches step s t) (Inv : σ → Prop)
    (hstep : ∀ s e s', Inv s → step s e = some s' → Inv s') (hi : Inv s) : Inv t := by
  obtain ⟨es, hes⟩ := h
  exact run_inv hstep es hi hes

theorem mono {α : Type*} [Preorder α] {f : σ → α}
    (hstep : ∀ s e s', step s e = some s' → f s ≤ f s') (h : Reaches step s t) : f s ≤ f t := by
  obtain ⟨es, hes⟩ := h
  induction es generalizing s with
  | nil => cases hes; exact le_refl _
  | cons _ _ ih =>
    obtain ⟨s', hs, ht⟩ := run_cons_inv hes
    exact (hstep _ _ _ hs).trans (ih ht)

end Reaches

/-- Some run from `s` ends in `Q`. -/
def Can (step : σ → ε → Option σ) (Q : σ → Prop) (s : σ) : Prop := ∃ t, Reaches step s t ∧ Q t

namespace Can

variable {s t : σ} {Q Q' : σ → Prop}

theorem here (h : Q s) : Can step Q s := ⟨s, .refl s, h⟩

theorem next {e : ε} (hs : step s e = some t) (h : Can step Q t) : Can step Q s := by
  obtain ⟨u, hu, hq⟩ := h
  exact ⟨u, (Reaches.single hs).trans hu, hq⟩

theorem bind (h : Can step Q s) (k : ∀ t, Q t → Can step Q' t) : Can step Q' s := by
  obtain ⟨t, ht, hq⟩ := h
  obtain ⟨u, hu, hq'⟩ := k t hq
  exact ⟨u, ht.trans hu, hq'⟩

/-- Repeating a run that advances a counter. -/
theorem iterate {Q : Nat → σ → Prop} {k : Nat}
    (hnext : ∀ i < k, ∀ s, Q i s → Can step (Q (i + 1)) s) (h : Q 0 s) : Can step (Q k) s := by
  induction k with
  | zero => exact .here h
  | succ k ih =>
    have hsofar := ih fun i hi => hnext i (Nat.lt_succ_of_lt hi)
    exact hsofar.bind fun t ht => hnext k (Nat.lt_succ_self k) t ht

end Can

namespace Leads

variable {s t : σ}

theorem reaches (h : Leads step P s t) : Reaches step s t := by
  obtain ⟨es, hes, -⟩ := h
  exact ⟨es, hes⟩

theorem inv (hstep : ∀ s e s', Inv s → step s e = some s' → P s e s' → Inv s')
    (h : Leads step P s t) (hi : Inv s) : Inv t := by
  obtain ⟨es, hes, ha⟩ := h
  exact run_inv_along hstep es hi ha hes

end Leads

/-! ## Infinite executions -/

structure Exec (step : σ → ε → Option σ) where
  state : Nat → σ
  event : Nat → ε
  ok (n : Nat) : step (state n) (event n) = some (state (n + 1))

namespace Exec

/-- Every step of the execution meets `P`. -/
def Always (x : Exec step) (P : σ → ε → σ → Prop) : Prop :=
  ∀ n, P (x.state n) (x.event n) (x.state (n + 1))

theorem inv {x : Exec step} (hstep : ∀ s e s', Inv s → step s e = some s' → P s e s' → Inv s')
    (ha : x.Always P) (h0 : Inv (x.state 0)) : ∀ n, Inv (x.state n)
  | 0 => h0
  | n + 1 => hstep _ _ _ (inv hstep ha h0 n) (x.ok n) (ha n)

/-- One event in front of an execution. -/
def cons (s : σ) (e : ε) (x : Exec step) (h : step s e = some (x.state 0)) : Exec step where
  state
    | 0 => s
    | n + 1 => x.state n
  event
    | 0 => e
    | n + 1 => x.event n
  ok
    | 0 => h
    | n + 1 => x.ok n

/-- A run in front of an execution. -/
theorem exists_prepend : ∀ (es : List ε) {s t : σ} (x : Exec step), x.state 0 = t →
    x.Always P → run step s es = some t → Along step P s es →
    ∃ y : Exec step, y.state 0 = s ∧ y.Always P ∧
      ∀ n, y.state (es.length + n) = x.state n ∧ y.event (es.length + n) = x.event n
  | [], s, t, x, h0, hx, hr, _ => by
    cases hr
    exact ⟨x, h0, hx, fun n => by simp⟩
  | e :: es, s, t, x, h0, hx, hr, ha => by
    obtain ⟨s', hs, hr'⟩ := run_cons_inv hr
    obtain ⟨hp, ha'⟩ := ha s' hs
    obtain ⟨y, hy0, hy, hshift⟩ := exists_prepend es x h0 hx hr' ha'
    refine ⟨y.cons s e (hy0 ▸ hs), rfl, ?_, fun n => ?_⟩
    · rintro (_ | n)
      · exact hy0.symm ▸ hp
      · exact hy n
    · rw [length_cons, Nat.add_right_comm]
      exact hshift n

/-- From a state where an invariant guarantees a next step, there is an execution that keeps it. -/
theorem exists_of_inv (Inv : σ → Prop) (P : σ → ε → σ → Prop)
    (hnext : ∀ s, Inv s → ∃ e s', step s e = some s' ∧ Inv s' ∧ P s e s') {s : σ} (h : Inv s) :
    ∃ x : Exec step, x.state 0 = s ∧ x.Always P ∧ ∀ n, Inv (x.state n) := by
  have hsub : ∀ s : { s // Inv s }, ∃ (e : ε) (s' : { s // Inv s }),
      step s.1 e = some s'.1 ∧ P s.1 e s'.1 := fun ⟨s, hs⟩ => by
    obtain ⟨e, s', hstep, hs', hp⟩ := hnext s hs
    exact ⟨e, ⟨s', hs'⟩, hstep, hp⟩
  choose event next hnext using hsub
  have hsucc : ∀ n, next^[n + 1] ⟨s, h⟩ = next (next^[n] ⟨s, h⟩) :=
    fun n => Function.iterate_succ_apply' ..
  refine ⟨⟨fun n => (next^[n] ⟨s, h⟩).1, fun n => event (next^[n] ⟨s, h⟩), fun n => ?_⟩, rfl,
    fun n => ?_, fun n => (next^[n] ⟨s, h⟩).2⟩
  · simpa only [hsucc] using (hnext _).1
  · simpa only [hsucc] using (hnext _).2

/-- **Quiescence.** When from some point on no step increases `μ`, and each busy state is followed
by a step that decreases it, some state is not busy. -/
theorem quiesces (x : Exec step) (μ : σ → Nat) (busy : σ → Prop) (N : Nat)
    (hle : ∀ n, N ≤ n → μ (x.state (n + 1)) ≤ μ (x.state n))
    (hlt : ∀ n, N ≤ n → busy (x.state n) → ∃ m, n ≤ m ∧ μ (x.state (m + 1)) < μ (x.state m)) :
    ∃ n, N ≤ n ∧ ¬busy (x.state n) := by
  have hmono : ∀ n, N ≤ n → ∀ m, n ≤ m → μ (x.state m) ≤ μ (x.state n) := by
    intro n hn m hm
    induction m, hm using Nat.le_induction with
    | base => exact Nat.le_refl _
    | succ m hm ih => exact Nat.le_trans (hle m (Nat.le_trans hn hm)) ih
  -- strong induction on the measure of the state reached
  have hgo : ∀ k n, N ≤ n → μ (x.state n) ≤ k → ∃ n, N ≤ n ∧ ¬busy (x.state n) := by
    intro k
    induction k with
    | zero => grind
    | succ k ih =>
      intro n hn hk
      by_cases hb : busy (x.state n)
      · obtain ⟨m, hm, hdec⟩ := hlt n hn hb
        have := hmono n hn m hm
        exact ih (m + 1) (by omega) (by omega)
      · exact ⟨n, hn, hb⟩
  exact hgo _ N (Nat.le_refl N) (Nat.le_refl _)

/-- **Quiescence under fairness.** When from some point on no step increases `μ`, and a step of the
kind `fair` decreases it while it is positive, then it reaches zero, as long as such steps keep
coming. -/
theorem quiesces_of_fair (x : Exec step) (μ : σ → Nat) (fair : ε → Prop) (N : Nat)
    (hfair : ∀ n, ∃ m, n ≤ m ∧ fair (x.event m))
    (hle : ∀ n, N ≤ n → μ (x.state (n + 1)) ≤ μ (x.state n))
    (hlt : ∀ n, N ≤ n → fair (x.event n) → 0 < μ (x.state n) →
      μ (x.state (n + 1)) < μ (x.state n)) :
    ∃ n, N ≤ n ∧ μ (x.state n) = 0 := by
  obtain ⟨n, hn, hzero⟩ := x.quiesces μ (fun s => 0 < μ s) N hle fun n hn hpos => by
    by_contra hnone
    -- otherwise the measure stands still, also at the next fair step
    have hsame : ∀ m, n ≤ m → μ (x.state m) = μ (x.state n) := by
      intro m hm
      induction m, hm using Nat.le_induction with
      | base => rfl
      | succ => grind
    obtain ⟨m, hm, hf⟩ := hfair n
    exact hnone ⟨m, hm, hlt m (Nat.le_trans hn hm) hf (hsame m hm ▸ hpos)⟩
  exact ⟨n, hn, Nat.eq_zero_of_not_pos hzero⟩

end Exec

end Lts
