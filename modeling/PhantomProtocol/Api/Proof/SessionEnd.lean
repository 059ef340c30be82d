import PhantomProtocol.Api.SessionEnd

/-!
# Ends of a session: which are final, and whether the cause agrees

An end that a caller has read stays, but for one writer: `Draining` is stored over whatever the
state reads (`end_final_iff`). The cause agrees with the state at the end of every run in which that
store never meets `Dead`, and the receive task never publishes the death of the byte pipe over a
`Closed` (`cause_agrees`).
-/

namespace PhantomProtocol

open Option Lts

namespace SessionEnd

open ConnectionState

variable {s s' : State} {e : Event} {late : Bool}

/-! ## What a step writes -/

/-- `b` may be read after `a`: an end stays, but `Closed` may give way to `Dead`. -/
def Final (a b : ConnectionState) : Prop := a.isEnd = true → b = a ∨ a = .closed ∧ b = .dead

instance (a b : ConnectionState) : Decidable (Final a b) := by unfold Final; infer_instance

theorem Final.refl (a : ConnectionState) : Final a a := fun _ => .inl rfl

theorem Final.trans {a b c : ConnectionState} (hab : Final a b) (hbc : Final b c) : Final a c := by
  cases a <;> cases b <;> cases c <;> simp_all [Final, isEnd]

theorem final_disconnect (a : ConnectionState) : Final a (disconnect a) := by
  cases a <;> simp [Final, disconnect, isEnd]

theorem final_publishEnd (a next : ConnectionState) : Final a (publishEnd a next) := by
  cases a <;> simp [Final, publishEnd, isEnd]

theorem final_publishUnlessEnded (a next : ConnectionState) :
    Final a (publishUnlessEnded a next) := by
  cases a <;> simp [Final, publishUnlessEnded, isEnd]

/-- What a step can do to the state an application reads. -/
inductive Writes (s : State) (e : Event) (s' : State) : Prop
  | nothing : s'.connection = s.connection → Writes s e s'
  | disconnect : s'.connection = disconnect s.connection → Writes s e s'
  | stage (next : ConnectionState) : next ≠ .failed →
      s'.connection = publishUnlessEnded s.connection next → Writes s e s'
  | ending (next : ConnectionState) : (next = .failed → e = .handshakeStep) →
      s'.connection = publishEnd s.connection next → Writes s e s'
  | death : (s.reader ≠ .off ∨ s.pump ≠ .off) → s'.connection = .dead → Writes s e s'
  | draining : s.storesDraining e = true → s'.connection = .draining → Writes s e s'

theorem handshakeStep_writes (h : s.handshakeStep = some s') : Writes s .handshakeStep s' := by
  cases hk : s.handshake <;>
    simp only [State.handshakeStep, hk, some.injEq, reduceCtorEq] at h <;> subst h
  case recorded =>
    apply Writes.ending .failed (fun _ => rfl)
    cases hc : s.connection <;> simp [publishEnd, isEnd]
  case published => exact .nothing rfl

theorem readerStep_writes (h : s.readerStep late = some s') : Writes s (.readerStep late) s' := by
  cases hr : s.reader <;>
    simp only [State.readerStep, hr, some.injEq, reduceCtorEq] at h <;> subst h
  case publishDraining => exact .draining (by simp [State.storesDraining, hr]) rfl
  case storeDead => exact .death (.inl (by simp [hr])) rfl
  case publishDead => exact .ending .dead nofun rfl
  all_goals exact .nothing rfl

theorem pumpStep_writes (h : s.pumpStep late = some s') : Writes s (.pumpStep late) s' := by
  cases hp : s.pump <;>
    simp only [State.pumpStep, hp, some.injEq, reduceCtorEq] at h <;> subst h
  case publishDraining => exact .draining (by simp [State.storesDraining, hp]) rfl
  case publishMigrating => exact .stage .migrating nofun rfl
  case publishConnected => exact .stage .connected nofun rfl
  case storeDead => exact .death (.inr (by simp [hp])) rfl
  case storeGaveUp => exact .death (.inr (by simp [hp])) rfl
  case publishClosed => exact .ending .closed nofun rfl
  all_goals exact .nothing rfl

theorem tick_connection (h : s.tick late = some s') : s'.connection = s.connection := by
  unfold State.tick at h
  split_ifs at h <;> cases h <;> rfl

theorem sweep_connection {g : Signals} (h : s.sweep g = some s') :
    s'.connection = s.connection := by
  unfold State.sweep at h
  split at h
  · split at h <;> cases h <;> rfl
  · cases h

theorem step_writes (h : step s e = some s') : Writes s e s' := by
  cases e with
  | disconnect =>
    cases h
    exact .disconnect rfl
  | handshakeSucceeds =>
    simp only [step] at h
    split at h
    · cases h
      exact .stage .connected nofun rfl
    · cases h
  | handshakeStep => exact handshakeStep_writes h
  | readerStep => exact readerStep_writes h
  | pumpStep => exact pumpStep_writes h
  | tick => exact .nothing (tick_connection h)
  | sweep => exact .nothing (sweep_connection h)
  | giveUp =>
    cases h
    exact .nothing rfl
  | _ =>
    simp only [step] at h
    split at h
    · cases h
      exact .nothing rfl
    · cases h

/-! ## Before and behind the handshake -/

/-- The pump and its receive task have not started. -/
def Early (s : State) : Prop := s.reader = .off ∧ s.pump = .off

/-- They have; no failure of a handshake is published any more. -/
structure Live (s : State) : Prop where
  handshake : s.handshake = .done
  reader : s.reader ≠ .off
  pump : s.pump ≠ .off
  connection : s.connection ≠ .failed

/-- What can happen before the pump starts. -/
inductive EarlyStep (s : State) : State → Prop
  | disconnect : EarlyStep s { s with connection := disconnect s.connection }
  | giveUp : EarlyStep s { s with givenUp := true }
  | fails (cause : TerminalCause) : s.handshake = .running →
      EarlyStep s { s with
        terminalError := recordTerminalCause s.terminalError cause
        handshake := .recorded s.terminalError.isNone }
  | publishes (here : Bool) : s.handshake = .recorded here →
      EarlyStep s { s with
        connection := if s.connection.isEnd then s.connection else .failed
        handshake := .published (!s.connection.isEnd) here }
  | settles (published here : Bool) : s.handshake = .published published here →
      EarlyStep s { s with
        terminalError := if !published && here then none else s.terminalError
        handshake := .done }
  | succeeds : s.handshake = .running →
      EarlyStep s { s with
        connection := publishUnlessEnded s.connection .connected
        handshake := .done
        reader := .reading
        pump := .loop }

theorem step_early (he : Early s) (h : step s e = some s') : EarlyStep s s' := by
  obtain ⟨hr, hp⟩ := he
  cases e with
  | disconnect =>
    cases h
    exact .disconnect
  | giveUp =>
    cases h
    exact .giveUp
  | handshakeFails cause =>
    simp only [step] at h
    split at h
    · cases h
      exact .fails cause ‹_›
    · cases h
  | handshakeSucceeds =>
    simp only [step] at h
    split at h
    · cases h
      exact .succeeds ‹_›
    · cases h
  | handshakeStep =>
    simp only [step] at h
    cases hk : s.handshake <;>
      simp only [State.handshakeStep, hk, some.injEq, reduceCtorEq] at h <;> subst h
    case recorded here => exact .publishes here hk
    case published published here => exact .settles published here hk
  | packet _ | readerEnds _ => simp [step, hr] at h
  | readerStep => simp [step, State.readerStep, hr] at h
  | readerAborted => simp [step, Pump.aborted, hp] at h
  | tick => simp [step, State.tick, hp] at h
  | sweep => simp [step, State.sweep, hp] at h
  | pumpEnds => simp [step, hp] at h
  | pumpStep => simp [step, State.pumpStep, hp] at h

theorem Writes.ne_failed (hw : Writes s e s') (he : e ≠ .handshakeStep)
    (hc : s.connection ≠ .failed) : s'.connection ≠ .failed := by
  cases hw with
  | nothing h => rwa [h]
  | disconnect h => rw [h]; cases hs : s.connection <;> simp_all [SessionEnd.disconnect]
  | stage _ _ h => rw [h]; cases hs : s.connection <;> simp_all [publishUnlessEnded]
  | ending next hn h =>
    have hne : next ≠ .failed := fun hf => he (hn hf)
    rw [h]
    cases hs : s.connection <;> simp_all [publishEnd]
  | death _ h => simp [h]
  | draining _ h => simp [h]

theorem readerExit_ne_off (s : State) (endedWith : Option TerminalCause) :
    s.readerExit endedWith ≠ .off := by
  unfold State.readerExit
  split_ifs
  · simp
  · simp
  · cases endedWith <;> simp

/-- A task that runs does not go back to before its start. -/
theorem step_tasks (hk : s.handshake = .done) (h : step s e = some s') :
    s'.handshake = .done ∧ (s.reader ≠ .off → s'.reader ≠ .off) ∧
      (s.pump ≠ .off → s'.pump ≠ .off) := by
  cases e with
  | disconnect | giveUp =>
    cases h
    exact ⟨hk, id, id⟩
  | handshakeFails _ | handshakeSucceeds => simp [step, hk] at h
  | handshakeStep => simp [step, State.handshakeStep, hk] at h
  | packet _ | readerEnds _ | readerAborted | pumpEnds => grind [step]
  | readerStep late =>
    simp only [step] at h
    cases hr : s.reader <;>
      simp only [State.readerStep, hr, some.injEq, reduceCtorEq] at h <;> subst h
    case ended endedWith => exact ⟨hk, fun _ => readerExit_ne_off s endedWith, id⟩
    all_goals
      refine ⟨hk, fun _ => ?_, id⟩
      dsimp only
      (repeat' split) <;> simp
  | tick =>
    simp only [step, State.tick] at h
    split_ifs at h <;> cases h <;> simp [hk]
  | sweep => grind [step, State.sweep]
  | pumpStep =>
    simp only [step] at h
    cases hp : s.pump <;>
      simp only [State.pumpStep, hp, some.injEq, reduceCtorEq] at h <;> subst h
    all_goals
      refine ⟨hk, id, fun _ => ?_⟩
      dsimp only
      (repeat' split) <;> simp

theorem step_live (hl : Live s) (h : step s e = some s') : Live s' := by
  obtain ⟨hk, hr, hp⟩ := step_tasks hl.handshake h
  refine ⟨hk, hr hl.reader, hp hl.pump, (step_writes h).ne_failed ?_ hl.connection⟩
  rintro rfl
  simp [step, State.handshakeStep, hl.handshake] at h

/-- Where a session stands: before the pump, with no failure published while the handshake runs, or
behind it. -/
def Placed (s : State) : Prop :=
  Early s ∧ (s.handshake = .running → s.connection ≠ .failed) ∨ Live s

theorem start_placed (side : Side) : Placed (start side) := by
  cases side
  · exact .inl ⟨⟨rfl, rfl⟩, fun _ => by decide⟩
  · exact .inr ⟨rfl, by decide, by decide, by decide⟩

theorem step_placed (hi : Placed s) (h : step s e = some s') : Placed s' := by
  rcases hi with ⟨he, hrun⟩ | hl
  · cases step_early he h with
    | disconnect =>
      refine .inl ⟨he, fun hk => ?_⟩
      have hc := hrun hk
      cases hs : s.connection <;> simp_all [disconnect]
    | giveUp => exact .inl ⟨he, hrun⟩
    | fails | publishes | settles => exact .inl ⟨he, nofun⟩
    | succeeds hk =>
      refine .inr ⟨rfl, nofun, nofun, ?_⟩
      have hc := hrun hk
      cases hs : s.connection <;> simp_all [publishUnlessEnded]
  · exact .inr (step_live hl h)

/-! ## Ends are final -/

theorem step_draining (hd : s.storesDraining e = true) (h : step s e = some s') :
    s'.connection = .draining := by
  cases e <;> simp only [State.storesDraining, Bool.false_eq_true, decide_eq_true_eq] at hd
  case readerStep late =>
    simp only [step, State.readerStep, hd, some.injEq] at h
    simp [← h]
  case pumpStep late =>
    simp only [step, State.pumpStep, hd, some.injEq] at h
    simp [← h]

theorem Writes.final (hw : Writes s e s') (hi : Placed s) (hd : s.storesDraining e = false) :
    Final s.connection s'.connection := by
  cases hw with
  | nothing h => exact h ▸ Final.refl _
  | disconnect h => exact h ▸ final_disconnect _
  | stage next _ h => exact h ▸ final_publishUnlessEnded _ next
  | ending next _ h => exact h ▸ final_publishEnd _ next
  | death _ h =>
    -- a plain store, but no task that makes it runs behind a `Failed`
    have hlive : s.connection ≠ .failed := by
      rcases hi with ⟨⟨hr, hp⟩, -⟩ | hl
      · simp_all
      · exact hl.connection
    rw [h]
    cases hs : s.connection <;> simp_all [Final, isEnd]
  | draining hd' => simp [hd] at hd'

theorem step_final_iff (hi : Placed s) (h : step s e = some s') :
    Final s.connection s'.connection ↔ (s.storesDraining e = true → s.connection.isEnd = false) := by
  cases hd : s.storesDraining e with
  | true =>
    rw [step_draining hd h]
    cases hs : s.connection <;> simp [Final, isEnd]
  | false => exact iff_of_true ((step_writes h).final hi hd) nofun

/-- Two states of a run, the later one after any number of steps: an end read in the first is read
in the second, up to `Dead` over `Closed`, in exactly the runs in which no task stores `Draining`
over an end. -/
theorem end_final_iff (side : Side) (es : List Event) :
    (∀ xs ys s t, xs ++ ys <+: es → run step (start side) xs = some s →
      run step s ys = some t → Final s.connection t.connection) ↔
    Along step (fun s e _ => s.storesDraining e = true → s.connection.isEnd = false)
      (start side) es := by
  refine (along_rel_iff (R := fun s t : State => Final s.connection t.connection)
    (fun s => Final.refl s.connection) (fun _ _ _ => Final.trans) es).symm.trans ?_
  apply along_iff Placed
  · intro s e s' hi h _
    exact step_placed hi h
  · intro s e s' hi h
    exact step_final_iff hi h
  · exact start_placed side

/-- The peer's close is handled, the application disconnects, and the receive task stores `Draining`
over the `Closed` the application has read. -/
theorem draining_over_closed :
    ∃ s t, run step (start .server) [.packet true, .readerStep false, .disconnect] = some s ∧
      run step s [.readerStep false] = some t ∧
      s.connection = .closed ∧ t.connection = .draining :=
  ⟨_, _, rfl, rfl, rfl, rfl⟩

/-! ## State and cause -/

def State.deathPending (s : State) : Prop :=
  s.reader = .storeDead ∨ s.reader = .publishDead ∨ s.pump = .storeDead ∨ s.pump = .storeGaveUp

/-- The cause agrees with the state before the pump has started, per stage of `publish_failure`. -/
def EarlyCause (s : State) : Prop :=
  match s.handshake with
  | .running => s.terminalError = none ∧ (s.connection = .connecting ∨ s.connection = .closed)
  | .recorded here =>
    here = true ∧ s.terminalError.isSome ∧ (s.connection = .connecting ∨ s.connection = .closed)
  | .published published here =>
    here = true ∧ s.terminalError.isSome ∧ s.connection = if published then .failed else .closed
  | .done =>
    s.connection = .failed ∧ s.terminalError.isSome ∨ s.connection = .closed ∧ s.terminalError = none

/-- A recorded cause stands behind a `Dead`, or behind one that is about to be published. -/
structure LiveCause (s : State) : Prop where
  cause : s.terminalError.isSome → s.connection = .dead ∨ s.deathPending
  dead : s.connection = .dead → s.terminalError.isSome
  pending : s.deathPending → s.terminalError.isSome

def Accounted (s : State) : Prop := Early s ∧ EarlyCause s ∨ Live s ∧ LiveCause s

/-- The death of the byte pipe is not published over `Closed`, nor `Draining` stored over `Dead`. -/
def KeepsCause (s : State) (e : Event) : Prop :=
  (s.publishesPipeDeath e = true → s.connection ≠ .closed) ∧
    (s.storesDraining e = true → s.connection ≠ .dead)

instance (s : State) (e : Event) : Decidable (KeepsCause s e) := by
  unfold KeepsCause; infer_instance

theorem early_accounted (he : Early s) (hc : EarlyCause s) (h : step s e = some s') :
    Accounted s' := by
  cases step_early he h with
  | disconnect =>
    refine .inl ⟨he, ?_⟩
    unfold EarlyCause at hc ⊢
    dsimp only
    grind [disconnect]
  | giveUp => exact .inl ⟨he, hc⟩
  | fails _ hk =>
    simp only [EarlyCause, hk] at hc
    refine .inl ⟨he, ?_⟩
    simp [EarlyCause, recordTerminalCause, hc]
  | publishes _ hk =>
    simp only [EarlyCause, hk] at hc
    refine .inl ⟨he, ?_⟩
    rcases hc with ⟨hhere, hsome, hconn | hconn⟩ <;>
      simp [EarlyCause, hhere, hsome, hconn, isEnd]
  | settles published _ hk =>
    simp only [EarlyCause, hk] at hc
    refine .inl ⟨he, ?_⟩
    obtain ⟨hhere, hsome, hconn⟩ := hc
    cases published <;> simp [EarlyCause, hhere, hsome, hconn]
  | succeeds hk =>
    simp only [EarlyCause, hk] at hc
    obtain ⟨hnone, hconn⟩ := hc
    refine .inr ⟨⟨rfl, nofun, nofun, ?_⟩, ?_, ?_, ?_⟩
    all_goals grind [publishUnlessEnded, State.deathPending]

namespace LiveCause

theorem of_cause (hsome : s.terminalError.isSome) (h : s.connection = .dead ∨ s.deathPending) :
    LiveCause s :=
  ⟨fun _ => h, fun _ => hsome, fun _ => hsome⟩

theorem frame (hc : LiveCause s) (herr : s'.terminalError = s.terminalError)
    (hdead : s'.connection = .dead ↔ s.connection = .dead)
    (hpending : s'.deathPending ↔ s.deathPending) : LiveCause s' where
  cause h := by
    rw [hdead, hpending]
    exact hc.cause (herr ▸ h)
  dead h := herr ▸ hc.dead (hdead.1 h)
  pending h := herr ▸ hc.pending (hpending.1 h)

end LiveCause

theorem publishUnlessEnded_eq_dead {a next : ConnectionState} (hn : next ≠ .dead) :
    publishUnlessEnded a next = .dead ↔ a = .dead := by
  cases a <;> simp [publishUnlessEnded, hn]

theorem recordTerminalCause_isSome (slot : Option TerminalCause) (cause : TerminalCause) :
    (recordTerminalCause slot cause).isSome := by
  cases slot <;> simp [recordTerminalCause]

theorem readerExit_not_pending (s : State) (endedWith : Option TerminalCause) :
    s.readerExit endedWith ≠ .storeDead ∧ s.readerExit endedWith ≠ .publishDead := by
  unfold State.readerExit
  split_ifs
  · simp
  · simp
  · cases endedWith <;> simp

theorem readerStep_accounted (hc : LiveCause s) (hl : Live s)
    (hk : KeepsCause s (.readerStep late)) (h : s.readerStep late = some s') : LiveCause s' := by
  cases hr : s.reader <;>
    simp only [State.readerStep, hr, some.injEq, reduceCtorEq] at h <;> subst h
  case handled =>
    refine hc.frame rfl .rfl ?_
    cases hpc : s.peerClosed <;> simp [State.deathPending, hr]
  case publishDraining =>
    have hne : s.connection ≠ .dead := hk.2 (by simp [State.storesDraining, hr])
    refine hc.frame rfl ?_ ?_
    · simp [hne]
    · simp [State.deathPending, hr]
  case checkDeadline =>
    refine hc.frame rfl .rfl ?_
    cases late <;> simp [State.deathPending, hr]
  case ended endedWith =>
    refine hc.frame rfl .rfl ?_
    simp [State.deathPending, hr, readerExit_not_pending]
  case recordTimeout =>
    apply LiveCause.of_cause (recordTerminalCause_isSome _ _)
    simp [State.deathPending]
  case recordCause cause =>
    apply LiveCause.of_cause (recordTerminalCause_isSome _ _)
    simp [State.deathPending]
  case storeDead =>
    exact LiveCause.of_cause (hc.pending (.inl hr)) (.inl rfl)
  case publishDead =>
    have hne : s.connection ≠ .closed := hk.1 (by simp [State.publishesPipeDeath, hr])
    refine LiveCause.of_cause (hc.pending (.inr (.inl hr))) (.inl ?_)
    have hnf := hl.connection
    show publishEnd s.connection .dead = .dead
    cases hs : s.connection <;> simp_all [publishEnd]

theorem pumpStep_accounted (hc : LiveCause s)
    (hk : KeepsCause s (.pumpStep late)) (h : s.pumpStep late = some s') : LiveCause s' := by
  cases hp : s.pump <;>
    simp only [State.pumpStep, hp, some.injEq, reduceCtorEq] at h <;> subst h
  case publishDraining =>
    have hne : s.connection ≠ .dead := hk.2 (by simp [State.storesDraining, hp])
    refine hc.frame rfl ?_ ?_
    · simp [hne]
    · cases late <;> simp [State.deathPending, hp]
  case publishMigrating =>
    refine hc.frame rfl (publishUnlessEnded_eq_dead (by simp)) ?_
    simp [State.deathPending, hp]
  case publishConnected =>
    refine hc.frame rfl (publishUnlessEnded_eq_dead (by simp)) ?_
    simp [State.deathPending, hp]
  case recordTimeout =>
    apply LiveCause.of_cause (recordTerminalCause_isSome _ _)
    simp [State.deathPending]
  case recordGaveUp =>
    apply LiveCause.of_cause (recordTerminalCause_isSome _ _)
    simp [State.deathPending]
  case storeDead =>
    exact LiveCause.of_cause (hc.pending (.inr (.inr (.inl hp)))) (.inl rfl)
  case storeGaveUp =>
    exact LiveCause.of_cause (hc.pending (.inr (.inr (.inr hp)))) (.inl rfl)
  case ended died =>
    refine hc.frame rfl .rfl ?_
    cases hg : s.givenUp && !s.peerClosed <;> simp [State.deathPending, hp]
  case abort died =>
    refine hc.frame rfl .rfl ?_
    cases died <;> simp [State.deathPending, hp]
  case publishClosed =>
    refine hc.frame rfl ?_ ?_
    · cases hs : s.connection <;> simp [publishEnd]
    · simp [State.deathPending, hp]

theorem live_accounted (hl : Live s) (hc : LiveCause s) (hk : KeepsCause s e)
    (h : step s e = some s') : LiveCause s' := by
  cases e with
  | disconnect =>
    cases h
    refine hc.frame rfl ?_ .rfl
    cases hs : s.connection <;> simp [disconnect]
  | giveUp =>
    cases h
    exact hc.frame rfl .rfl .rfl
  | handshakeFails _ | handshakeSucceeds => simp [step, hl.handshake] at h
  | handshakeStep => simp [step, State.handshakeStep, hl.handshake] at h
  | packet _ | readerEnds _ =>
    simp only [step] at h
    split at h
    case isTrue hr =>
      cases h
      refine hc.frame rfl .rfl ?_
      simp [State.deathPending, hr]
    case isFalse => cases h
  | readerAborted =>
    simp only [step] at h
    split at h
    case isTrue hr =>
      cases h
      refine hc.frame rfl .rfl ?_
      rcases hr.2 with hr | hr <;> simp [State.deathPending, hr]
    case isFalse => cases h
  | pumpEnds =>
    simp only [step] at h
    split at h
    case isTrue hp =>
      cases h
      refine hc.frame rfl .rfl ?_
      simp [State.deathPending, hp]
    case isFalse => cases h
  | tick late =>
    simp only [step, State.tick] at h
    split at h
    case isTrue hp =>
      split_ifs at h <;> cases h <;> refine hc.frame rfl .rfl ?_ <;> simp [State.deathPending, hp]
    case isFalse => cases h
  | sweep g =>
    simp only [step, State.sweep] at h
    split at h
    case isTrue hp =>
      split at h <;> cases h <;> refine hc.frame rfl .rfl ?_ <;> simp [State.deathPending, hp]
    case isFalse => cases h
  | readerStep => exact readerStep_accounted hc hl hk h
  | pumpStep => exact pumpStep_accounted hc hk h

theorem start_accounted (side : Side) : Accounted (start side) := by
  cases side
  · exact .inl ⟨⟨rfl, rfl⟩, rfl, .inl rfl⟩
  · exact .inr ⟨⟨rfl, nofun, nofun, nofun⟩, nofun, nofun, nofun⟩

theorem step_accounted (hi : Accounted s) (h : step s e = some s') (hk : KeepsCause s e) :
    Accounted s' := by
  rcases hi with ⟨he, hc⟩ | ⟨hl, hc⟩
  · exact early_accounted he hc h
  · exact .inr ⟨step_live hl h, live_accounted hl hc hk h⟩

/-- With no writer left, the invariant is agreement. -/
theorem Accounted.agrees (hi : Accounted s) (hq : s.quiet = true) :
    (s.connection = .closed → s.terminalError = none) ∧
      (s.connection = .dead ∨ s.connection = .failed → s.terminalError.isSome) := by
  simp only [State.quiet, decide_eq_true_eq] at hq
  obtain ⟨hk, hr, hp⟩ := hq
  rcases hi with ⟨-, hc⟩ | ⟨hl, hc⟩
  · simp only [EarlyCause, hk] at hc
    rcases hc with ⟨hconn, hslot⟩ | ⟨hconn, hslot⟩ <;> simp [hconn, hslot]
  · have hpending : ¬s.deathPending := by
      rcases hr with hr | hr <;> rcases hp with hp | hp <;> simp [State.deathPending, hr, hp]
    constructor
    · intro hclosed
      by_contra hslot
      rcases hc.cause (isSome_iff_ne_none.2 hslot) with hdead | hpend
      · simp [hclosed] at hdead
      · exact hpending hpend
    · rintro (hdead | hfailed)
      · exact hc.dead hdead
      · exact absurd hfailed hl.connection

/-- **State and cause agree at the end** of every run whose steps keep the cause: `Closed` has none,
`Dead` and `Failed` have one. -/
theorem cause_agrees (side : Side) (es : List Event) {t : State}
    (ha : Along step (fun s e _ => KeepsCause s e) (start side) es)
    (hrun : run step (start side) es = some t) (hq : t.quiet = true) :
    (t.connection = .closed → t.terminalError = none) ∧
      (t.connection = .dead ∨ t.connection = .failed → t.terminalError.isSome) :=
  (run_inv_along (fun _ _ _ => step_accounted) es (start_accounted side) ha hrun).agrees hq

/-- A pipe that breaks under a session still connected ends it `Dead`, with the pipe's error. -/
def brokenPipe : List Event :=
  [.readerEnds (some (.networkError "connection reset")), .readerStep false, .readerStep false,
    .readerStep false, .pumpEnds, .pumpStep false, .pumpStep false, .pumpStep false, .disconnect]

theorem cause_agrees_brokenPipe :
    ∃ t, run step (start .server) brokenPipe = some t ∧ t.connection = .dead ∧
      t.terminalError = some (.networkError "connection reset") ∧
      (t.connection = .closed → t.terminalError = none) ∧
      (t.connection = .dead ∨ t.connection = .failed → t.terminalError.isSome) :=
  ⟨_, rfl, rfl, rfl, cause_agrees .server brokenPipe (by decide) rfl rfl⟩

/-- The same break behind the application's `disconnect()`: `Closed`, with the pipe's error. -/
theorem closed_with_cause :
    ∃ t, run step (start .server) (.disconnect :: brokenPipe) = some t ∧ t.quiet = true ∧
      t.connection = .closed ∧ t.terminalError = some (.networkError "connection reset") :=
  ⟨_, rfl, rfl, rfl, rfl⟩

end SessionEnd

end PhantomProtocol
