import PhantomProtocol.Transport.Bbr

/-!
# The windowed filters

`update_max` and `update_min` are updates of one bounded queue, for the two directions of the order.
-/

namespace PhantomProtocol.WindowFilter

open List

/-! ## Both filters as one queue -/

/-- The queue after a sample, with the reading. -/
def updateBy (le : Nat → Nat → Prop) [DecidableRel le] (f : WindowFilter) (now value : Nat) :
    WindowFilter × Nat :=
  let f := { f with
    window := WindowExtremum.update le f.windowSize f.minSeparation now value f.window }
  (f, f.head.getD value)

theorem pushSeparatedMax_eq (f : WindowFilter) (now value : Nat) : f.pushSeparatedMax now value =
      { f with window := WindowExtremum.offer (· ≤ ·) f.minSeparation now value f.window } := by
  have hhead : (f.head.any fun reading => decide (value < reading)) =
      f.window.head?.any fun e => !decide (e.2 ≤ value) := by
    cases hw : f.window <;> simp [head, hw, ← decide_not]
  rw [pushSeparatedMax, hhead, WindowExtremum.offer, tooSoon]
  split_ifs <;> rfl

theorem pushSeparatedMin_eq (f : WindowFilter) (now value : Nat) : f.pushSeparatedMin now value =
      { f with window := WindowExtremum.offer (· ≥ ·) f.minSeparation now value f.window } := by
  have hhead : (f.head.any fun reading => decide (value > reading)) =
      f.window.head?.any fun e => !decide (e.2 ≥ value) := by
    cases hw : f.window <;> simp [head, hw, ← decide_not]
  rw [pushSeparatedMin, hhead, WindowExtremum.offer, tooSoon]
  split_ifs <;> rfl

/-- The code's loop as an update of that queue. -/
theorem updateMax_eq (f : WindowFilter) (now value : Nat) :
    f.updateMax now value = f.updateBy (· ≤ ·) now value := by
  rw [updateMax, pushSeparatedMax_eq]
  rfl

theorem updateMin_eq (f : WindowFilter) (now value : Nat) :
    f.updateMin now value = f.updateBy (· ≥ ·) now value := by
  rw [updateMin, pushSeparatedMin_eq]
  rfl

/-! ## Runs -/

/-- The filter after samples `(time, value)` in turn. -/
def feed (update : WindowFilter → Nat → Nat → WindowFilter × Nat) (f : WindowFilter)
    (samples : List (Nat × Nat)) : WindowFilter :=
  samples.foldl (fun f e => (update f e.1 e.2).1) f

variable {le : Nat → Nat → Prop} [DecidableRel le]

theorem feed_updateBy (f : WindowFilter) (samples : List (Nat × Nat)) :
    feed (updateBy le) f samples =
      { f with
        window := WindowExtremum.updates le f.windowSize f.minSeparation samples f.window } := by
  induction samples generalizing f with
  | nil => rfl
  | cons a _ ih => exact ih (updateBy le f a.1 a.2).1

variable (le) in
theorem brackets_updateBy [Std.Total le] [IsTrans Nat le] (windowSize : Nat)
    (hsep : 0 < windowSize / (maxEntries - 1)) {samples : List (Nat × Nat)} {t v : Nat}
    (hsorted : (samples ++ [(t, v)]).Pairwise fun a b => a.1 ≤ b.1) :
    WindowExtremum.Brackets le windowSize (windowSize / (maxEntries - 1)) t (samples ++ [(t, v)])
      ((feed (updateBy le) (new windowSize) samples).updateBy le t v).1.window := by
  obtain ⟨hsamples, -, hlast⟩ := pairwise_append.1 hsorted
  have hlater : ∀ e ∈ samples, e.1 ≤ t := fun e he => hlast e he (t, v) (mem_singleton_self _)
  have hnil : WindowExtremum.Brackets le windowSize (windowSize / (maxEntries - 1)) 0
      ([] : List (Nat × Nat)) [] := .nil
  obtain ⟨now, hnow, hb⟩ := hnil.updates hsep hsamples fun e _ => Nat.zero_le e.1
  have hle : now ≤ t := by grind
  rw [feed_updateBy]
  exact hb.update hsep hle

theorem reading_updateBy (f : WindowFilter) (now value : Nat)
    (h : (f.updateBy le now value).1.window ≠ []) :
    ∃ r ∈ (f.updateBy le now value).1.window.head?, (f.updateBy le now value).2 = r.2 := by
  obtain ⟨r, q, hq⟩ := exists_cons_of_ne_nil h
  refine ⟨r, by rw [hq]; rfl, ?_⟩
  show ((f.updateBy le now value).1.head).getD value = r.2
  rw [head, hq]
  rfl

open BbrEstimator (bwFilterWindow)

/-- `min_separation` of the ten-second horizon. -/
def separation : Nat := bwFilterWindow / (maxEntries - 1)

/-- A filter of the ten-second horizon, after samples. -/
def fed (update : WindowFilter → Nat → Nat → WindowFilter × Nat) (samples : List (Nat × Nat)) :
    WindowFilter :=
  feed update (new bwFilterWindow) samples

variable (le) in
theorem updateBy_bracket [Std.Total le] [IsTrans Nat le] {samples : List (Nat × Nat)} {t v : Nat}
    (hsorted : (samples ++ [(t, v)]).Pairwise fun a b => a.1 ≤ b.1) :
    (∃ e ∈ samples ++ [(t, v)], t - e.1 ≤ bwFilterWindow ∧
      ((fed (updateBy le) samples).updateBy le t v).2 = e.2) ∧
    (∀ e ∈ samples ++ [(t, v)], t - e.1 ≤ bwFilterWindow - separation →
      le e.2 ((fed (updateBy le) samples).updateBy le t v).2) ∧
    ((fed (updateBy le) samples).updateBy le t v).1.window.length ≤ maxEntries := by
  have hb := brackets_updateBy le bwFilterWindow (by decide) hsorted
  have hvals : separation = 9775171 ∧ bwFilterWindow = 10000000000 := by decide
  have hage : ∀ e : Nat × Nat, t - e.1 ≤ bwFilterWindow - separation →
      t - e.1 + separation ≤ bwFilterWindow := by
    intro e he
    omega
  have hne : ((fed (updateBy le) samples).updateBy le t v).1.window ≠ [] := by
    obtain ⟨k, hk, -⟩ := hb.covered (t, v) (by simp) (hage (t, v) (by simp))
    exact ne_nil_of_mem hk
  obtain ⟨r, hr, hread⟩ := reading_updateBy _ t v hne
  obtain ⟨hrmem, hrage⟩ := hb.reading_mem hr
  refine ⟨⟨r, hrmem, hrage, hread⟩, fun e he hyoung => ?_, ?_⟩
  · rw [hread]
    exact hb.le_reading hr he (hage e hyoung)
  · have hlen : (((fed (updateBy le) samples).updateBy le t v).1.window.length - 1) * separation ≤
        bwFilterWindow := hb.length_le
    have hmax : maxEntries = 1024 := rfl
    rw [hvals.1] at hlen
    omega

/-- **The filters bracket the windowed extremum.** For samples in the order of time, the maximum
filter returns at most the maximum over the horizon and at least the one over a horizon one
separation shorter, the minimum filter the other way round, and neither holds more than its
ceiling. -/
theorem filters_bracket (samples : List (Nat × Nat)) (t v : Nat)
    (hsorted : (samples ++ [(t, v)]).Pairwise fun a b => a.1 ≤ b.1) :
    ((∃ e ∈ samples ++ [(t, v)], t - e.1 ≤ bwFilterWindow ∧
        ((fed updateMax samples).updateMax t v).2 ≤ e.2) ∧
      (∀ e ∈ samples ++ [(t, v)], t - e.1 ≤ bwFilterWindow - separation →
        e.2 ≤ ((fed updateMax samples).updateMax t v).2) ∧
      ((fed updateMax samples).updateMax t v).1.window.length ≤ maxEntries) ∧
    ((∃ e ∈ samples ++ [(t, v)], t - e.1 ≤ bwFilterWindow ∧
        e.2 ≤ ((fed updateMin samples).updateMin t v).2) ∧
      (∀ e ∈ samples ++ [(t, v)], t - e.1 ≤ bwFilterWindow - separation →
        ((fed updateMin samples).updateMin t v).2 ≤ e.2) ∧
      ((fed updateMin samples).updateMin t v).1.window.length ≤ maxEntries) := by
  have hmax : updateMax = updateBy (· ≤ ·) := by
    funext f now value
    exact updateMax_eq f now value
  have hmin : updateMin = updateBy (· ≥ ·) := by
    funext f now value
    exact updateMin_eq f now value
  rw [hmax, hmin]
  constructor
  · grind [updateBy_bracket]
  · grind [updateBy_bracket]

/-- A falling run, a sample declined, and the successor read once the front has expired. -/
theorem filters_bracket_falling :
    ((fed updateMax [(0, 9), (10000000, 7), (10000001, 6)]).updateMax (millis 10000 + 1) 5).2 = 7 ∧
    (∀ e ∈ [(0, 9), (10000000, 7), (10000001, 6)] ++ [(millis 10000 + 1, 5)],
      millis 10000 + 1 - e.1 ≤ bwFilterWindow - separation →
        e.2 ≤ ((fed updateMax [(0, 9), (10000000, 7), (10000001, 6)]).updateMax
          (millis 10000 + 1) 5).2) := by
  have hbracket := filters_bracket [(0, 9), (10000000, 7), (10000001, 6)] (millis 10000 + 1) 5
    (by decide)
  exact ⟨by decide, hbracket.1.2.1⟩

end PhantomProtocol.WindowFilter
