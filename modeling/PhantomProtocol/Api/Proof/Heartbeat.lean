import PhantomProtocol.Api.Heartbeat

/-!
# When a responsive path is declared down

The sweep measures inbound silence, not the age of what is outstanding. A probe sent into a long
silence is therefore late before it is sent (`ping_declares_down`). The path stays up in every run
in which, while something is unanswered, the silence is no longer than an answer may take
(`never_declared_down`).
-/

namespace PhantomProtocol

namespace Heartbeat

variable {cfg : LivenessConfig} {s s' : State} {e : Event}

/-- What counts as outstanding was sent since the last inbound packet or is left from before it. -/
def Covered (s : State) : Prop :=
  0 < s.estimator.inflightBytes ∨ s.keepaliveOutstanding = true ∨ s.phase = .pinged → s.unanswered

theorem start_covered (now minRtt : Nat) : Covered (start now minRtt) := by
  simp [Covered, start, BandwidthEstimator.new]

namespace Covered

theorem putOnWire (s : State) (estimator : BandwidthEstimator) (phase : Phase) :
    Covered { s.putOnWire with estimator, phase } :=
  fun _ => .inl (by simp [State.putOnWire])

theorem updateActivity (s : State) : Covered s.updateActivity := by
  simp [Covered, State.updateActivity, State.unanswered]

theorem onAck (h : Covered s) (bytes minRtt : Nat) : Covered (s.onAck bytes minRtt) := by
  intro hout
  have hbefore : 0 < s.estimator.inflightBytes ∨ s.keepaliveOutstanding = true ∨
      s.phase = .pinged := by
    rcases hout with hin | hrest
    · left
      simp only [State.onAck, BandwidthEstimator.onAck] at hin
      omega
    · exact .inr hrest
  rcases h hbefore with hp | hc
  · exact .inl hp
  · right
    simp only [State.onAck, hc, Bool.true_and, decide_eq_true_eq]
    exact hout

theorem frame (h : Covered s) (hpending : s'.pending = s.pending)
    (hcarried : s'.carried = s.carried)
    (hout : 0 < s'.estimator.inflightBytes ∨ s'.keepaliveOutstanding = true ∨ s'.phase = .pinged →
      0 < s.estimator.inflightBytes ∨ s.keepaliveOutstanding = true ∨ s.phase = .pinged) :
    Covered s' := by
  intro ho
  unfold State.unanswered
  rw [hpending, hcarried]
  exact h (hout ho)

end Covered

theorem applyLiveness_frame (s : State) (cfg : LivenessConfig) :
    (s.applyLiveness cfg).phase = .loop ∧ (s.applyLiveness cfg).pending = s.pending ∧
      (s.applyLiveness cfg).carried = s.carried ∧ (s.applyLiveness cfg).estimator = s.estimator ∧
      (s.applyLiveness cfg).keepaliveOutstanding = s.keepaliveOutstanding := by
  unfold State.applyLiveness
  split <;> simp

theorem step_covered (hi : Covered s) (h : step cfg s e = some s') : Covered s' := by
  cases e with
  | advance =>
    cases h
    exact hi.frame rfl rfl id
  | inbound =>
    cases h
    exact Covered.updateActivity s
  | acked bytes minRtt =>
    cases h
    exact hi.onAck bytes minRtt
  | tick =>
    simp only [step] at h
    split at h
    case isTrue hp =>
      cases h
      refine hi.frame rfl rfl ?_
      simp [hp.1]
    case isFalse => cases h
  | segment bytes again =>
    simp only [step] at h
    split at h
    case isTrue hp =>
      cases h
      exact .putOnWire s _ s.phase
    case isFalse => cases h
  | keepalive sent =>
    simp only [step] at h
    split at h
    case isTrue hp =>
      cases h
      unfold State.maybeSendKeepalive
      split
      · exact .putOnWire s s.estimator .pinged
      · refine hi.frame rfl rfl ?_
        simp [hp]
    case isFalse => cases h
  | markKeepalive =>
    simp only [step] at h
    split at h
    case isTrue hp =>
      cases h
      exact hi.frame rfl rfl fun _ => .inr (.inr hp)
    case isFalse => cases h
  | sweep =>
    simp only [step] at h
    split at h
    case isTrue hp =>
      cases h
      obtain ⟨hphase, hpend, hcarr, hest, hka⟩ := applyLiveness_frame s cfg
      apply hi.frame hpend hcarr
      simp [hest, hka, hphase, hp]
    case isFalse => cases h

theorem effectiveInflight_pos (h : 0 < s.effectiveInflight) :
    0 < s.estimator.inflightBytes ∨ s.keepaliveOutstanding = true := by
  unfold State.effectiveInflight at h
  split at h
  · exact .inr ‹_›
  · exact .inl h

theorem Covered.not_pathDown (hi : Covered s) (ht : s.heardInTime cfg) :
    s.verdict cfg ≠ .pathDown := by
  intro hdown
  obtain ⟨-, hin, hsil⟩ := livenessVerdict_pathDown_iff.1 hdown
  have hout : s.unanswered := by
    rcases effectiveInflight_pos hin with hin | hka
    · exact hi (.inl hin)
    · exact hi (.inr (.inl hka))
  exact absurd hsil (Nat.not_lt.2 (ht hout))

theorem verdict_unchanged (hm : s.migratingSince = none) (hn : s.verdict cfg ≠ .pathDown) :
    s.verdict cfg = .unchanged := by
  unfold State.verdict livenessVerdict at hn ⊢
  simp_all

theorem step_state_of_ne_sweep (h : step cfg s e = some s') (he : e ≠ .sweep) :
    s'.migratingSince = s.migratingSince ∧ s'.connection = s.connection := by
  cases e with
  | sweep => exact absurd rfl he
  | advance _ | inbound | acked _ _ =>
    cases h
    exact ⟨rfl, rfl⟩
  | tick | segment _ _ | markKeepalive =>
    simp only [step] at h
    split at h
    · cases h
      exact ⟨rfl, rfl⟩
    · cases h
  | keepalive =>
    simp only [step] at h
    split at h
    · cases h
      unfold State.maybeSendKeepalive
      split <;> exact ⟨rfl, rfl⟩
    · cases h

/-- The session is `Connected`, with its outstanding probes accounted for. -/
structure Up (s : State) : Prop where
  covered : Covered s
  migratingSince : s.migratingSince = none
  connection : s.connection = .connected

theorem step_up (hi : Up s) (h : step cfg s e = some s')
    (ht : e = .sweep → s.heardInTime cfg) : Up s' := by
  have hstate : s'.migratingSince = s.migratingSince ∧ s'.connection = s.connection := by
    by_cases he : e = .sweep
    · have hun := verdict_unchanged hi.migratingSince (hi.covered.not_pathDown (ht he))
      grind [step, State.applyLiveness]
    · exact step_state_of_ne_sweep h he
  exact ⟨step_covered hi.covered h, hstate.1 ▸ hi.migratingSince, hstate.2 ▸ hi.connection⟩

/-- **A responsive path stays up** when at every sweep something was heard in the time an answer may
take, or nothing is unanswered: no sweep of the run finds the path down, and the session stays
`Connected`. -/
theorem never_declared_down (cfg : LivenessConfig) (now minRtt : Nat) (es : List Event)
    (ht : Lts.Along (step cfg) (fun s e _ => e = .sweep → s.heardInTime cfg)
      (start now minRtt) es) :
    Lts.Along (step cfg) (fun s e s' => (e = .sweep → s.verdict cfg ≠ .pathDown) ∧
      s'.migratingSince = none ∧ s'.connection = .connected) (start now minRtt) es := by
  have hstart : Up (start now minRtt) := ⟨start_covered now minRtt, rfl, rfl⟩
  refine Lts.along_of_inv (fun s e s' hi h ht => step_up hi h ht) ?_ es hstart ht
  intro s e s' hi h ht
  have hup := step_up hi h ht
  exact ⟨fun he => hi.covered.not_pathDown (ht he), hup.migratingSince, hup.connection⟩

/-- Milliseconds, as an event. -/
def wait (ms : Nat) : Event := .advance (Duration.fromMillis ms)

/-- The PING of an idle session with the default thresholds goes out after the keep-alive interval,
and the PONG arrives 50 ms later. -/
def idle : List Event :=
  [wait 15000, .tick, .keepalive true, .markKeepalive, .sweep, wait 50, .inbound]

/-- A segment sent after a second of silence and answered in 100 ms, two heartbeats in between. -/
def promptAnswer : List Event :=
  [wait 1000, .tick, .segment 1200 false, .keepalive true, .sweep, wait 100, .inbound,
    .acked 1200 (Duration.fromMillis 100), .tick, .keepalive true, .sweep]

/-- With a round trip of two seconds an answer may take longer than the keep-alive interval. -/
theorem never_declared_down_promptAnswer :
    (Lts.run (step .default) (start 0 (Duration.fromMillis 2000)) (idle ++ promptAnswer)).isSome ∧
    Lts.Along (step .default) (fun s e s' => (e = .sweep → s.verdict .default ≠ .pathDown) ∧
      s'.migratingSince = none ∧ s'.connection = .connected) (start 0 (Duration.fromMillis 2000))
      (idle ++ promptAnswer) :=
  ⟨by decide, never_declared_down .default 0 _ _ (by decide)⟩

/-- With the round trip assumed at first, the sweep of the tick on which the PING of an idle session
goes out declares the path down. -/
theorem ping_declares_down :
    Lts.Along (step .default) (fun _ _ s' => s'.answering .default) (start 0 initialMinRtt) idle ∧
    ∃ t, Lts.run (step .default) (start 0 initialMinRtt) idle = some t ∧ t.pending = [] ∧
      t.connection = .migrating :=
  ⟨by decide, _, rfl, rfl, rfl⟩

end Heartbeat

end PhantomProtocol
