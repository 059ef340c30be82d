import PhantomProtocol.Transport.Stream

/-!
# Receive window

The receiver's half of flow control in `transport::stream`: crediting what the application has
consumed, and tuning the advertised window upward out of the growth budget that all streams of a
session share (`SharedRecvTuning`).
-/

namespace PhantomProtocol

open Function

def sessionRecvWindowGrowthBudget : Nat := 8 * 1024 * 1024
def autotuneRttFallback : Nat := RtoEstimator.minRto
def autotuneMinInterval : Nat := millis 10

/-- `u128::MAX`. -/
def u128Max : Nat := 2 ^ 128 - 1

/-- `SharedRecvTuning`, one per session. -/
structure SharedRecvTuning where
  growthBudget : Nat
deriving DecidableEq, Repr

def SharedRecvTuning.tryTakeGrowth (t : SharedRecvTuning) (bytes : Nat) : Option SharedRecvTuning :=
  if t.growthBudget < bytes then none else some ⟨t.growthBudget - bytes⟩

def SharedRecvTuning.returnGrowth (t : SharedRecvTuning) (bytes : Nat) : SharedRecvTuning :=
  if bytes = 0 then t
  else ⟨min (min (t.growthBudget + bytes) u32Max) sessionRecvWindowGrowthBudget⟩

namespace Stream

/-- The first half of `tune_recv_window`: add `n` to the open measurement interval. When that closes
the interval, the bytes and the time it has measured are returned. -/
def measureRecvRate (s : Stream) (n interval now : Nat) : Stream × Option (Nat × Nat) :=
  let bytes := min (s.recvWindowProbe.bytes + n) u64Max
  match s.recvWindowProbe.startedAt with
  | none => ({ s with recvWindowProbe := ⟨some now, bytes⟩ }, none)
  | some startedAt =>
    if now - startedAt < interval then ({ s with recvWindowProbe := ⟨some startedAt, bytes⟩ }, none)
    else ({ s with recvWindowProbe := ⟨some now, 0⟩ }, some (bytes, now - startedAt))

/-- The second half: grow to twice the window, as far as the session's budget allows. The one
delivery task of a stream is the only writer of its window, so that the compare-exchange succeeds. -/
def growRecvWindow (s : Stream) (tuning : SharedRecvTuning) : Stream × SharedRecvTuning × Bool :=
  let next := min (min (s.advertisedRecvWindow * 2) u32Max) maxRecvWindow
  match tuning.tryTakeGrowth (next - s.advertisedRecvWindow) with
  | none => (s, tuning, false)
  | some tuning' => ({ s with advertisedRecvWindow := next }, tuning', true)

/-- `tune_recv_window`: whether the window has just grown. -/
def tuneRecvWindow (s : Stream) (tuning : SharedRecvTuning) (n now : Nat) :
    Stream × SharedRecvTuning × Bool :=
  let window := s.advertisedRecvWindow
  if maxRecvWindow ≤ window then (s, tuning, false)
  else
    let interval := max (s.rto.minRtt.getD autotuneRttFallback * 2) autotuneMinInterval
    match s.measureRecvRate n interval now with
    | (s', none) => (s', tuning, false)
    | (s', some (bytes, elapsed)) =>
      if min (min (bytes * 5) u128Max * interval) u128Max ≤
          min (min (window * 4) u128Max * elapsed) u128Max then (s', tuning, false)
      else s'.growRecvWindow tuning

/-! ## The steps of `tune_recv_window`

Several tasks may be in it at once, on one stream or on several of a session. The loops of
`try_take_growth` and `return_growth` are cut at the load and at each `compare_exchange_weak`, which
may fail spuriously. -/

/-- Where a call stands, between two of its steps. -/
inductive Tune where
  | loading
  /-- The window has been read. -/
  | measuring (window : Nat)
  /-- In `try_take_growth`, before the load (`none`) or before an exchange with what was read. -/
  | taking (window next : Nat) (cur : Option Nat)
  /-- The growth is taken, and the window is about to be exchanged. -/
  | exchanging (window next : Nat)
  /-- In `return_growth`. -/
  | returning (growth : Nat) (cur : Option Nat)
  | done (grew : Bool)
deriving DecidableEq

/-- One step of `return_growth`: the budget, and where the call stands unless it is through. -/
def returnStep (spurious : Bool) (tuning : SharedRecvTuning) (growth : Nat) :
    Option Nat → SharedRecvTuning × Option (Option Nat)
  | none => (tuning, some (some tuning.growthBudget))
  | some cur =>
    if tuning.growthBudget = cur ∧ spurious = false then
      (⟨min (min (cur + growth) u32Max) sessionRecvWindowGrowthBudget⟩, none)
    else (tuning, some (some tuning.growthBudget))

/-- One step of `tune_recv_window`. -/
def tuneStep (n now : Nat) (spurious : Bool) (s : Stream) (tuning : SharedRecvTuning) :
    Tune → Stream × SharedRecvTuning × Tune
  | .loading =>
    (s, tuning,
      if maxRecvWindow ≤ s.advertisedRecvWindow then .done false
      else .measuring s.advertisedRecvWindow)
  | .measuring window =>
    let interval := max (s.rto.minRtt.getD autotuneRttFallback * 2) autotuneMinInterval
    match s.measureRecvRate n interval now with
    | (s', none) => (s', tuning, .done false)
    | (s', some (bytes, elapsed)) =>
      if min (min (bytes * 5) u128Max * interval) u128Max ≤
          min (min (window * 4) u128Max * elapsed) u128Max then (s', tuning, .done false)
      else (s', tuning, .taking window (min (min (window * 2) u32Max) maxRecvWindow) none)
  | .taking window next none => (s, tuning, .taking window next (some tuning.growthBudget))
  | .taking window next (some cur) =>
    if cur < next - window then (s, tuning, .done false)
    else if tuning.growthBudget = cur ∧ spurious = false then
      (s, ⟨cur - (next - window)⟩, .exchanging window next)
    else (s, tuning, .taking window next (some tuning.growthBudget))
  | .exchanging window next =>
    if s.advertisedRecvWindow = window then
      ({ s with advertisedRecvWindow := next }, tuning, .done true)
    else (s, tuning, if next - window = 0 then .done false else .returning (next - window) none)
  | .returning growth cur =>
    match returnStep spurious tuning growth cur with
    | (tuning', none) => (s, tuning', .done false)
    | (tuning', some cur') => (s, tuning', .returning growth cur')
  | .done grew => (s, tuning, .done grew)

/-- The steps without spurious failures, as a map. -/
def tuneNext (n now : Nat) (x : Stream × SharedRecvTuning × Tune) :
    Stream × SharedRecvTuning × Tune :=
  tuneStep n now false x.1 x.2.1 x.2.2

theorem tuneNext_done (n now k : Nat) (s : Stream) (tuning : SharedRecvTuning) (grew : Bool) :
    (tuneNext n now)^[k] (s, tuning, .done grew) = (s, tuning, .done grew) :=
  iterate_fixed rfl k

/-- `Drop for Stream`, on the session's budget. -/
def drop (s : Stream) (tuning : SharedRecvTuning) : SharedRecvTuning :=
  tuning.returnGrowth (s.advertisedRecvWindow - initialStreamWindow)

def recvLimit (s : Stream) : Nat := min (s.bytesConsumed + s.advertisedRecvWindow) u64Max

/-- `record_app_consumed`: the limit to advertise now, if any. -/
def recordAppConsumed (s : Stream) (tuning : SharedRecvTuning) (n : Nat) (reliable : Bool)
    (now : Nat) : Stream × SharedRecvTuning × Option Nat :=
  if !reliable then (s, tuning, none)
  else
    let credited := { s with bytesConsumed := (s.bytesConsumed + n) % (u64Max + 1) }
    let tuned := credited.tuneRecvWindow tuning n now
    let pending := min (tuned.1.bytesSinceLastUpdate + n) u32Max
    let crossed : Bool := initialStreamWindow / 2 ≤ pending
    let s' := { tuned.1 with bytesSinceLastUpdate := if crossed then 0 else pending }
    (s', tuned.2.1, if crossed || tuned.2.2 then some s'.recvLimit else none)

/-- `stage_window_update_limit`, on `pending_window_update`. -/
def stageWindowUpdateLimit (pending limit : Nat) : Nat := max pending limit

/-- `take_pending_window_update`: the slot, and what was in it. -/
def takePendingWindowUpdate (pending : Nat) : Nat × Option Nat :=
  (0, if pending = 0 then none else some pending)

section

variable (s : Stream)
include s

theorem measureRecvRate_changes (n interval now : Nat) :
    ∃ probe, (s.measureRecvRate n interval now).1 = { s with recvWindowProbe := probe } := by
  unfold measureRecvRate
  dsimp only
  split
  · exact ⟨_, rfl⟩
  · split
    · exact ⟨_, rfl⟩
    · exact ⟨_, rfl⟩

theorem measureRecvRate_window (n interval now : Nat) :
    (s.measureRecvRate n interval now).1.advertisedRecvWindow = s.advertisedRecvWindow := by
  obtain ⟨probe, hchanges⟩ := s.measureRecvRate_changes n interval now
  rw [hchanges]

section

variable (tuning : SharedRecvTuning)
include tuning

theorem tuneNext_growRecvWindow (n now : Nat) :
    (tuneNext n now)^[3] (s, tuning, .taking s.advertisedRecvWindow
        (min (min (s.advertisedRecvWindow * 2) u32Max) maxRecvWindow) none) =
      ((s.growRecvWindow tuning).1, (s.growRecvWindow tuning).2.1,
        .done (s.growRecvWindow tuning).2.2) := by
  simp only [iterate_succ_apply, iterate_zero_apply, growRecvWindow,
    SharedRecvTuning.tryTakeGrowth]
  generalize min (min (s.advertisedRecvWindow * 2) u32Max) maxRecvWindow = next
  by_cases hshort : tuning.growthBudget < next - s.advertisedRecvWindow
  · simp [tuneNext, tuneStep, hshort]
  · simp [tuneNext, tuneStep, hshort]

theorem tuneNext_tuneRecvWindow (n now : Nat) : (tuneNext n now)^[5] (s, tuning, .loading) =
      ((s.tuneRecvWindow tuning n now).1, (s.tuneRecvWindow tuning n now).2.1,
        .done (s.tuneRecvWindow tuning n now).2.2) := by
  unfold tuneRecvWindow
  rw [iterate_succ_apply]
  by_cases hmax : maxRecvWindow ≤ s.advertisedRecvWindow
  · simp only [tuneNext, tuneStep, if_pos hmax]
    exact tuneNext_done ..
  simp only [tuneNext, tuneStep, if_neg hmax]
  rw [iterate_succ_apply]
  have hwindow := s.measureRecvRate_window n
    (max (s.rto.minRtt.getD autotuneRttFallback * 2) autotuneMinInterval) now
  simp only [tuneNext, tuneStep]
  rcases hm : s.measureRecvRate n
    (max (s.rto.minRtt.getD autotuneRttFallback * 2) autotuneMinInterval) now with
    ⟨s', _ | ⟨bytes, elapsed⟩⟩
  · exact tuneNext_done ..
  · rw [hm] at hwindow
    dsimp only at hwindow ⊢
    split
    · exact tuneNext_done ..
    · rw [← hwindow]
      exact tuneNext_growRecvWindow s' tuning n now

theorem growRecvWindow_changes :
    ∃ window, (s.growRecvWindow tuning).1 = { s with advertisedRecvWindow := window } := by
  unfold growRecvWindow
  dsimp only
  split
  · exact ⟨_, rfl⟩
  · exact ⟨_, rfl⟩

theorem tuneRecvWindow_changes (n now : Nat) : ∃ probe window, (s.tuneRecvWindow tuning n now).1 =
      { s with recvWindowProbe := probe, advertisedRecvWindow := window } := by
  unfold tuneRecvWindow
  dsimp only
  split
  · exact ⟨_, _, rfl⟩
  · obtain ⟨probe, hmeasure⟩ := s.measureRecvRate_changes n
      (max (s.rto.minRtt.getD autotuneRttFallback * 2) autotuneMinInterval) now
    split
    · rename_i heq
      rw [heq] at hmeasure
      exact ⟨probe, _, hmeasure⟩
    · rename_i s' _ _ heq
      rw [heq] at hmeasure
      obtain rfl : s' = { s with recvWindowProbe := probe } := hmeasure
      split
      · exact ⟨probe, _, rfl⟩
      · obtain ⟨window, hgrow⟩ := growRecvWindow_changes { s with recvWindowProbe := probe } tuning
        exact ⟨probe, window, hgrow⟩

theorem recordAppConsumed_changes (n : Nat) (reliable : Bool) (now : Nat) :
    ∃ consumed probe window unreported, (s.recordAppConsumed tuning n reliable now).1 =
      { s with
        bytesConsumed := consumed
        recvWindowProbe := probe
        advertisedRecvWindow := window
        bytesSinceLastUpdate := unreported } := by
  unfold recordAppConsumed
  split
  · exact ⟨_, _, _, _, rfl⟩
  · obtain ⟨probe, window, htune⟩ := tuneRecvWindow_changes
      { s with bytesConsumed := (s.bytesConsumed + n) % (u64Max + 1) } tuning n now
    dsimp only
    rw [htune]
    exact ⟨_, _, _, _, rfl⟩

theorem recordAppConsumed_frame (n : Nat) (reliable : Bool) (now : Nat) :
    (s.recordAppConsumed tuning n reliable now).1.recvSequence = s.recvSequence ∧
      (s.recordAppConsumed tuning n reliable now).1.recvBuffer = s.recvBuffer := by
  obtain ⟨_, _, _, _, heq⟩ := s.recordAppConsumed_changes tuning n reliable now
  rw [heq]
  exact ⟨rfl, rfl⟩

end

end

end Stream

end PhantomProtocol
