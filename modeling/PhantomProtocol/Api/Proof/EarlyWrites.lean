import PhantomProtocol.Api.EarlyWrites

/-!
# No write made while connecting is lost, or one is

A payload pushed on the pre-handshake queue behind the pump's only drain of it stays there
(`stranded_write`). In every fair execution without such a push each accepted payload reaches the
raw-app stream, once, in its task's call order, behind rejected early data
(`writes_reach_stream`).
-/

namespace PhantomProtocol.EarlyWrites

open List Function

variable {α : Type*} {rejected : Option α} {s s' : State α} {e : Event α} {task : Nat}

/-- Everything accepted and not yet lost, in the order the raw-app stream gets it. -/
def State.all (s : State α) : List (Message α) := s.raw ++ s.sendQueue ++ s.commands

def Background.requeued : Background → Bool
  | .handshake | .requeue => false
  | _ => true

/-- The early data the raw-app stream is owed by now. -/
def State.earlyPart (s : State α) (rejected : Option α) : List (Message α) :=
  if s.background.requeued then (rejected.map .early).toList else []

def NoEarly (l : List (Message α)) : Prop := ∀ data, Message.early data ∉ l

theorem NoEarly.concat {l : List (Message α)} (h : NoEarly l) (task : Nat) (data : α) :
    NoEarly (l ++ [.app task data]) := by
  intro d hd
  rcases mem_append.1 hd with hd | hd
  · exact h d hd
  · simp at hd

/-- The order of what is queued, and where a call in progress may still put its payload. -/
structure Ordered (rejected : Option α) (s : State α) : Prop where
  connecting : s.connection = .connecting → s.commands = [] ∧
    (s.background = .handshake ∨ s.background = .requeue ∨ s.background = .publish)
  connection : s.connection = .connecting ∨ s.connection = .connected
  seen : ∀ task seen data, s.call task = some (seen, data) →
    seen = .connecting ∧ s.commands.filterMap (Message.ofTask task) = [] ∨
      seen = .connected ∧ s.connection = .connected
  perTask : ∀ task, s.all.filterMap (Message.ofTask task) = s.sent task
  undrained : s.background ≠ .loop → s.raw = []
  drained : s.background = .loop → s.sendQueue = []
  early : ∃ rest, s.raw ++ s.sendQueue = s.earlyPart rejected ++ rest ∧ NoEarly rest
  commands : NoEarly s.commands

theorem start_ordered : Ordered rejected (start : State α) where
  connecting _ := ⟨rfl, .inl rfl⟩
  connection := .inl rfl
  seen := nofun
  perTask _ := rfl
  undrained _ := rfl
  drained := nofun
  early := ⟨[], rfl, nofun⟩
  commands := nofun

section

variable (hi : Ordered rejected s)
include hi

theorem call_ordered (data : α) : Ordered rejected
      { s with call := update s.call task (some (s.connection, data)) } where
  connecting := hi.connecting
  connection := hi.connection
  seen t seen d h := by
    by_cases ht : t = task
    · subst ht
      simp only [update_self, Option.some.injEq, Prod.mk.injEq] at h
      obtain ⟨rfl, rfl⟩ := h
      rcases hi.connection with hc | hc
      · exact .inl ⟨hc, by simp [(hi.connecting hc).1]⟩
      · exact .inr ⟨hc, hc⟩
    · simp only [update_of_ne ht] at h
      exact hi.seen t seen d h
  perTask := hi.perTask
  undrained := hi.undrained
  drained := hi.drained
  early := hi.early
  commands := hi.commands

theorem send_ordered {data : α} (hc : s.connection = .connected) : Ordered rejected
      { s with
        call := update s.call task none
        sent := update s.sent task (s.sent task ++ [data])
        commands := s.commands ++ [.app task data] } where
  connecting h := by simp [hc] at h
  connection := hi.connection
  seen t seen d h := by
    by_cases ht : t = task
    · subst ht
      simp at h
    · simp only [update_of_ne ht] at h
      rcases hi.seen t seen d h with ⟨hs, hq⟩ | hs
      · left
        simp [hs, hq, Message.ofTask, Ne.symm ht]
      · exact .inr hs
  perTask t := by
    have h := hi.perTask t
    simp only [State.all, ← append_assoc, filterMap_append] at h ⊢
    rw [h]
    by_cases ht : t = task
    · subst ht
      simp [Message.ofTask]
    · simp [Message.ofTask, Ne.symm ht, update_of_ne ht]
  undrained := hi.undrained
  drained := hi.drained
  early := hi.early
  commands := hi.commands.concat task data

theorem queue_ordered {data : α}
    (hcall : s.call task = some (.connecting, data)) (hloop : s.background ≠ .loop) :
    Ordered rejected
      { s with
        call := update s.call task none
        sent := update s.sent task (s.sent task ++ [data])
        sendQueue := s.sendQueue ++ [.app task data] } where
  connecting := hi.connecting
  connection := hi.connection
  seen t seen d h := by
    by_cases ht : t = task
    · subst ht
      simp at h
    · simp only [update_of_ne ht] at h
      exact hi.seen t seen d h
  perTask t := by
    have h := hi.perTask t
    simp only [State.all, filterMap_append] at h ⊢
    by_cases ht : t = task
    · subst ht
      -- nothing of this task is on the channel, so the payload still comes last
      have hnone : s.commands.filterMap (Message.ofTask t) = [] := by
        rcases hi.seen t _ data hcall with ⟨-, hq⟩ | ⟨hs, -⟩
        · exact hq
        · cases hs
      rw [hnone] at h ⊢
      simp [← h, Message.ofTask]
    · simp [← h, Message.ofTask, Ne.symm ht, update_of_ne ht]
  undrained := hi.undrained
  drained h := absurd h hloop
  early := by
    obtain ⟨rest, heq, hno⟩ := hi.early
    refine ⟨rest ++ [.app task data], ?_, hno.concat task data⟩
    simp only [← append_assoc, heq]
    rfl
  commands := hi.commands

theorem requeue_ordered (hb : s.background = .requeue) : Ordered rejected
      { s with
        sendQueue := (rejected.map .early).toList ++ s.sendQueue
        background := .publish } where
  connecting h := ⟨(hi.connecting h).1, .inr (.inr rfl)⟩
  connection := hi.connection
  seen := hi.seen
  perTask t := by
    have hraw := hi.undrained (by simp [hb])
    have h := hi.perTask t
    simp only [State.all, hraw, nil_append, filterMap_append] at h ⊢
    cases rejected <;> simp [Message.ofTask, h]
  undrained _ := hi.undrained (by simp [hb])
  drained := nofun
  early := by
    obtain ⟨rest, heq, hno⟩ := hi.early
    refine ⟨rest, ?_, hno⟩
    have hraw := hi.undrained (by simp [hb])
    simp only [hraw, State.earlyPart, hb, Background.requeued, Bool.false_eq_true, if_false,
      nil_append] at heq
    simp [hraw, State.earlyPart, Background.requeued, heq]
  commands := hi.commands

theorem take_ordered (hb : s.background = .loop) {m : Message α}
    {rest : List (Message α)} (hq : s.commands = m :: rest) :
    Ordered rejected { s with commands := rest, raw := s.raw ++ [m] } where
  connecting h := by simp [(hi.connecting h).1] at hq
  connection := hi.connection
  seen t seen d h := by
    rcases hi.seen t seen d h with ⟨hs, hnone⟩ | hs
    · simp_all
    · exact .inr hs
  perTask t := by
    have h := hi.perTask t
    rw [State.all, hi.drained hb, hq] at h
    rw [← h]
    simp [State.all, hi.drained hb]
  undrained h := absurd hb h
  drained := hi.drained
  early := by
    obtain ⟨before, heq, hno⟩ := hi.early
    have hm : ∀ data, Message.early data ≠ m := fun data he => hi.commands data (by simp [hq, he])
    refine ⟨before ++ [m], ?_, fun d hd => ?_⟩
    · rw [hi.drained hb, append_nil] at heq
      simp only [hi.drained hb, append_nil, heq, append_assoc]
      rfl
    · rcases mem_append.1 hd with hd | hd
      · exact hno d hd
      · exact hm d (mem_singleton.1 hd)
  commands d hd := hi.commands d (by simp [hq, hd])

end

theorem backgroundStep_idle (hb : s.background = .loop) (hq : s.commands = []) :
    s.backgroundStep rejected = s := by
  simp [State.backgroundStep, hb, hq]

theorem backgroundStep_take (hb : s.background = .loop) {m : Message α} {rest : List (Message α)}
    (hq : s.commands = m :: rest) :
    s.backgroundStep rejected = { s with commands := rest, raw := s.raw ++ [m] } := by
  simp [State.backgroundStep, hb, hq]

theorem background_ordered (hi : Ordered rejected s) :
    Ordered rejected (s.backgroundStep rejected) := by
  cases hb : s.background with
  | handshake =>
    simp only [State.backgroundStep, hb]
    refine { hi with connecting := ?_, undrained := ?_, drained := nofun, early := ?_ }
    · exact fun h => ⟨(hi.connecting h).1, .inr (.inl rfl)⟩
    · exact fun _ => hi.undrained (by simp [hb])
    · simpa [State.earlyPart, hb, Background.requeued] using hi.early
  | requeue =>
    simp only [State.backgroundStep, hb]
    exact requeue_ordered hi hb
  | publish =>
    simp only [State.backgroundStep, hb]
    have hconn : SessionEnd.publishUnlessEnded s.connection .connected = .connected := by
      rcases hi.connection with hc | hc <;> simp [hc, SessionEnd.publishUnlessEnded]
    refine { hi with
      connecting := ?_, connection := .inr hconn, seen := ?_, undrained := ?_, drained := nofun,
      early := ?_ }
    · simp [hconn]
    · intro t seen d h
      rcases hi.seen t seen d h with hs | hs
      · exact .inl hs
      · exact .inr ⟨hs.1, hconn⟩
    · exact fun _ => hi.undrained (by simp [hb])
    · simpa [State.earlyPart, hb, Background.requeued] using hi.early
  | drain =>
    simp only [State.backgroundStep, hb]
    refine { hi with
      connecting := ?_, perTask := ?_, undrained := nofun, drained := fun _ => rfl, early := ?_ }
    · intro h
      simpa [hb] using (hi.connecting h).2
    · simpa [State.all] using hi.perTask
    · simpa [State.earlyPart, hb, Background.requeued] using hi.early
  | loop =>
    cases hq : s.commands with
    | nil => exact (backgroundStep_idle hb hq).symm ▸ hi
    | cons => exact (backgroundStep_take hb hq).symm ▸ take_ordered hi hb hq

/-- What a step can do. -/
inductive Move (rejected : Option α) (s : State α) : Event α → State α → Prop
  | call (task : Nat) (data : α) : Move rejected s (.call task data)
      { s with call := update s.call task (some (s.connection, data)) }
  | queue (task : Nat) (data : α) (hcall : s.call task = some (.connecting, data)) :
      Move rejected s (.finish task)
        { s with
          call := update s.call task none
          sent := update s.sent task (s.sent task ++ [data])
          sendQueue := s.sendQueue ++ [.app task data] }
  | send (task : Nat) (data : α) (hconn : s.connection = .connected) :
      Move rejected s (.finish task)
        { s with
          call := update s.call task none
          sent := update s.sent task (s.sent task ++ [data])
          commands := s.commands ++ [.app task data] }
  | background : Move rejected s .background (s.backgroundStep rejected)

theorem step_move (hi : Ordered rejected s) (h : step rejected s e = some s') :
    Move rejected s e s' := by
  cases e with
  | call task data =>
    simp only [step] at h
    split at h
    · cases h
      exact .call task data
    · cases h
  | background =>
    cases h
    exact .background
  | finish task =>
    simp only [step, State.finishSend] at h
    split at h
    · cases h
    · rename_i seen data hcall
      rcases hi.seen task seen data hcall with ⟨rfl, -⟩ | ⟨rfl, hconn⟩
      · cases h
        exact .queue task data hcall
      · simp only [ConnectionState.isDataReady, if_true] at h
        split at h
        · cases h
          exact .send task data hconn
        · cases h

theorem step_ordered (hi : Ordered rejected s) (h : step rejected s e = some s')
    (hq : s.pushesQueue e = true → s.background ≠ .loop) : Ordered rejected s' := by
  cases step_move hi h with
  | call _ data => exact call_ordered hi data
  | queue _ _ hcall => exact queue_ordered hi hcall (hq (by simp [State.pushesQueue, hcall]))
  | send _ _ hconn => exact send_ordered hi hconn
  | background => exact background_ordered hi

/-! ## Every accepted payload gets there -/

theorem backgroundStep_sent (s : State α) : (s.backgroundStep rejected).sent = s.sent := by
  unfold State.backgroundStep
  cases s.background
  case loop => cases s.commands <;> rfl
  all_goals rfl

theorem step_sent (hi : Ordered rejected s) (h : step rejected s e = some s') (task : Nat) :
    s.sent task <+: s'.sent task := by
  have happend : ∀ t data, s.sent task <+: update s.sent t (s.sent t ++ [data]) task := by
    grind
  cases step_move hi h with
  | call => exact prefix_rfl
  | queue t data => exact happend t data
  | send t data => exact happend t data
  | background => exact backgroundStep_sent s ▸ prefix_rfl

theorem step_loop (hi : Ordered rejected s) (hb : s.background = .loop)
    (h : step rejected s e = some s') (hq : s.pushesQueue e = true → s.background ≠ .loop) :
    s'.background = .loop ∧ s.all <+: s'.all ∧ s.raw.length ≤ s'.raw.length := by
  cases step_move hi h with
  | call => exact ⟨hb, prefix_rfl, Nat.le_refl _⟩
  | queue _ _ hcall => exact absurd hb (hq (by simp [State.pushesQueue, hcall]))
  | send => simp [*, State.all]
  | background =>
    cases hc : s.commands with
    | nil => simp [backgroundStep_idle hb hc, hb]
    | cons =>
      rw [backgroundStep_take hb hc]
      refine ⟨hb, ⟨[], ?_⟩, by simp⟩
      simp [State.all, hi.drained hb, hc]

/-- How far the background task is from the pump's loop. -/
def Background.rank : Background → Nat
  | .handshake => 4
  | .requeue => 3
  | .publish => 2
  | .drain => 1
  | .loop => 0

theorem backgroundStep_rank (s : State α) :
    (s.backgroundStep rejected).background.rank = s.background.rank - 1 := by
  unfold State.backgroundStep
  cases hb : s.background
  case loop => cases s.commands <;> simp [Background.rank, hb]
  all_goals rfl

theorem step_rank (hi : Ordered rejected s) (h : step rejected s e = some s') :
    s'.background.rank ≤ s.background.rank := by
  cases step_move hi h with
  | call | queue | send => exact Nat.le_refl _
  | background => rw [backgroundStep_rank]; exact Nat.sub_le _ _

theorem exec_background {x : Lts.Exec (step rejected)} {n : Nat} (he : x.event n = .background) :
    x.state (n + 1) = (x.state n).backgroundStep rejected := by
  have hstep := x.ok n
  rw [he] at hstep
  exact (Option.some.inj hstep).symm

section
variable {x : Lts.Exec (step rejected)} (h0 : x.state 0 = start)
  (hfair : ∀ n, ∃ m, n ≤ m ∧ x.event m = .background)
  (hpush : x.Always fun s e _ => s.pushesQueue e = true → s.background ≠ .loop) {n m : Nat}
include h0 hpush

theorem exec_ordered (n : Nat) : Ordered rejected (x.state n) :=
  Lts.Exec.inv (fun _ _ _ hi h hq => step_ordered hi h hq) hpush (h0 ▸ start_ordered) n

theorem exec_sent (h : n ≤ m) (task : Nat) : (x.state n).sent task <+: (x.state m).sent task := by
  induction m, h using Nat.le_induction with
  | base => exact prefix_rfl
  | succ m _ ih => exact ih.trans (step_sent (exec_ordered h0 hpush m) (x.ok m) task)

theorem exec_loop (hb : (x.state n).background = .loop) (h : n ≤ m) :
    (x.state m).background = .loop ∧ (x.state n).all <+: (x.state m).all := by
  induction m, h using Nat.le_induction with
  | base => exact ⟨hb, prefix_rfl⟩
  | succ m _ ih =>
    obtain ⟨hb', hall, -⟩ := step_loop (exec_ordered h0 hpush m) ih.1 (x.ok m) (hpush m)
    exact ⟨hb', ih.2.trans hall⟩

theorem exec_early {n : Nat} (hb : (x.state n).background = .loop) :
    ∃ rest, (x.state n).raw = (rejected.map .early).toList ++ rest ∧ NoEarly rest := by
  have hi := exec_ordered h0 hpush n
  obtain ⟨rest, heq, hno⟩ := hi.early
  refine ⟨rest, ?_, hno⟩
  rw [hi.drained hb, append_nil] at heq
  simpa [State.earlyPart, hb, Background.requeued] using heq

include hfair

theorem exec_reaches_loop (n : Nat) : ∃ m, n ≤ m ∧ (x.state m).background = .loop := by
  obtain ⟨m, hm, hzero⟩ := x.quiesces_of_fair (fun s => s.background.rank) (· = .background) n hfair
    (fun k _ => step_rank (exec_ordered h0 hpush k) (x.ok k)) fun k _ he hpos => by
      rw [exec_background he, backgroundStep_rank]
      omega
  refine ⟨m, hm, ?_⟩
  cases hb : (x.state m).background <;> simp_all [Background.rank]

theorem exec_drains {n : Nat} (hb : (x.state n).background = .loop) :
    ∃ m, n ≤ m ∧ (x.state n).all <+: (x.state m).raw := by
  -- by what the stream still misses of that
  obtain ⟨m, hm, hzero⟩ := x.quiesces_of_fair (fun s => (x.state n).all.length - s.raw.length)
    (· = .background) n hfair
    (fun k hk => by
      obtain ⟨hbk, -⟩ := exec_loop h0 hpush hb hk
      obtain ⟨-, -, hlen⟩ := step_loop (exec_ordered h0 hpush k) hbk (x.ok k) (hpush k)
      exact Nat.sub_le_sub_left hlen _)
    (fun k hk he hpos => by
      obtain ⟨hbk, hall⟩ := exec_loop h0 hpush hb hk
      have hi := exec_ordered h0 hpush k
      have hle := hall.length_le
      simp only [State.all, hi.drained hbk, append_nil, length_append] at hle
      rw [exec_background he]
      cases hq : (x.state k).commands with
      | nil =>
        simp only [hq, length_nil, Nat.add_zero] at hle
        simp only [State.all, length_append] at hpos hle
        omega
      | cons =>
        rw [backgroundStep_take hbk hq]
        simp only [length_append, length_singleton]
        omega)
  refine ⟨m, hm, ?_⟩
  obtain ⟨hbm, hall⟩ := exec_loop h0 hpush hb hm
  have hraw : (x.state m).raw <+: (x.state m).all := by simp [State.all, append_assoc]
  exact prefix_of_prefix_length_le hall hraw (by omega)

end

/-- **Writes made while connecting are not lost**, in every fair execution in which no `send` pushes
on the pre-handshake queue behind the pump's drain. What the raw-app stream holds of a task is at
any time the beginning of its accepted payloads in call order, and later all of those accepted by
then; rejected early data comes first, once. -/
theorem writes_reach_stream (rejected : Option α) (x : Lts.Exec (step rejected))
    (h0 : x.state 0 = start) (hfair : ∀ n, ∃ m, n ≤ m ∧ x.event m = .background)
    (hpush : x.Always fun s e _ => s.pushesQueue e = true → s.background ≠ .loop) :
    (∀ n task, (x.state n).raw.filterMap (Message.ofTask task) <+: (x.state n).sent task) ∧
    (∀ n task, ∃ m, n ≤ m ∧
      (x.state n).sent task <+: (x.state m).raw.filterMap (Message.ofTask task)) ∧
    (∀ n, (x.state n).raw ≠ [] →
      ∃ rest, (x.state n).raw = (rejected.map .early).toList ++ rest ∧ NoEarly rest) ∧
    ∃ n, ∃ rest, (x.state n).raw = (rejected.map .early).toList ++ rest := by
  refine ⟨fun n task => ?_, fun n task => ?_, fun n hraw => ?_, ?_⟩
  · rw [← (exec_ordered h0 hpush n).perTask task]
    apply List.IsPrefix.filterMap
    simp only [State.all, append_assoc]
    exact prefix_append _ _
  · obtain ⟨k, hk, hb⟩ := exec_reaches_loop h0 hfair hpush n
    obtain ⟨m, hm, hall⟩ := exec_drains h0 hfair hpush hb
    refine ⟨m, Nat.le_trans hk hm, (exec_sent h0 hpush hk task).trans ?_⟩
    rw [← (exec_ordered h0 hpush k).perTask task]
    exact hall.filterMap _
  · by_cases hb : (x.state n).background = .loop
    · exact exec_early h0 hpush hb
    · exact absurd ((exec_ordered h0 hpush n).undrained hb) hraw
  · obtain ⟨n, -, hb⟩ := exec_reaches_loop h0 hfair hpush 0
    obtain ⟨rest, hraw, -⟩ := exec_early h0 hpush hb
    exact ⟨n, rest, hraw⟩

/-- A write while connecting and, early data being rejected, one more behind `Connected`. -/
def twoWrites : List (Event Nat) :=
  [.call 0 5, .finish 0, .background, .background, .background, .call 0 6, .finish 0]

theorem writes_reach_stream_twoWrites :
    ∃ x : Lts.Exec (step (some 9)), (x.state 7).sent 0 = [5, 6] ∧
      (∀ n task, (x.state n).raw.filterMap (Message.ofTask task) <+: (x.state n).sent task) ∧
      (∀ n task, ∃ m, n ≤ m ∧
        (x.state n).sent task <+: (x.state m).raw.filterMap (Message.ofTask task)) ∧
      (∀ n, (x.state n).raw ≠ [] →
        ∃ rest, (x.state n).raw = ((some 9).map .early).toList ++ rest ∧ NoEarly rest) ∧
      ∃ n, ∃ rest, (x.state n).raw = ((some 9).map .early).toList ++ rest := by
  obtain ⟨t, hrun, hsent⟩ : ∃ t, Lts.run (step (some 9)) start twoWrites = some t ∧
      t.sent 0 = [5, 6] := ⟨_, rfl, rfl⟩
  obtain ⟨x, hx0, hx, -⟩ := Lts.Exec.exists_of_inv (fun _ => True)
    (fun (_ : State Nat) (e : Event Nat) _ => e = .background)
    (fun s _ => ⟨.background, _, (rfl : step (some 9) s _ = some _), trivial, rfl⟩)
    (s := t) trivial
  obtain ⟨y, hy0, hy, hshift⟩ := Lts.Exec.exists_prepend
    (P := fun s e _ => s.pushesQueue e = true → s.background ≠ .loop) twoWrites x hx0
    (fun n h => by simp [hx n, State.pushesQueue] at h) hrun (by decide)
  refine ⟨y, ?_, writes_reach_stream (some 9) y hy0 (fun n => ?_) hy⟩
  · have hstate := (hshift 0).1
    rw [hx0] at hstate
    rw [← hsent, ← hstate]
    rfl
  · refine ⟨twoWrites.length + n, Nat.le_add_left _ _, ?_⟩
    rw [(hshift n).2]
    exact hx n

/-! ## The push behind the drain -/

/-- The pump is in its loop and a payload of `task` is on the pre-handshake queue. -/
structure Stranded (task : Nat) (s : State α) : Prop where
  background : s.background = .loop
  queue : s.sendQueue.filterMap (Message.ofTask task) ≠ []
  count : (s.raw.filterMap (Message.ofTask task)).length +
    (s.sendQueue.filterMap (Message.ofTask task)).length +
    (s.commands.filterMap (Message.ofTask task)).length = (s.sent task).length

/-- Nothing takes it from there. -/
theorem Stranded.step (hi : Stranded task s)
    (h : EarlyWrites.step rejected s e = some s') : Stranded task s' := by
  obtain ⟨hb, hq, hn⟩ := hi
  cases e with
  | call =>
    simp only [EarlyWrites.step] at h
    split at h
    · cases h
      exact ⟨hb, hq, hn⟩
    · cases h
  | background =>
    cases h
    cases hc : s.commands with
    | nil =>
      rw [backgroundStep_idle hb hc]
      exact ⟨hb, hq, hn⟩
    | cons =>
      rw [backgroundStep_take hb hc]
      refine ⟨hb, hq, ?_⟩
      grind
  | finish t =>
    -- a payload of this task counts on both sides, whichever queue it goes to
    have hboth : ∀ data, (s.sent task).length + ([Message.app t data].filterMap
        (Message.ofTask task)).length =
        (update s.sent t (s.sent t ++ [data]) task).length := by
      intro data
      by_cases ht : task = t
      · subst ht
        simp [Message.ofTask]
      · simp [update_of_ne ht, Message.ofTask, Ne.symm ht]
    simp only [EarlyWrites.step, State.finishSend] at h
    split at h
    · cases h
    · rename_i data _
      have := hboth data
      split_ifs at h <;> cases h
      · refine ⟨hb, hq, ?_⟩
        simp only [filterMap_append, length_append]
        omega
      · refine ⟨hb, ?_, ?_⟩
        · simp [*]
        · grind
      · exact ⟨hb, hq, hn⟩

/-- `send` reads `Connecting`, the background task runs up to the pump's loop, and the push lands
behind the drain: `Ok`, and from then on the raw-app stream never gets as many payloads of this task
as were accepted. -/
theorem stranded_write :
    ∃ t, Lts.run (step none) start
        [.call 0 5, .background, .background, .background, .background, .finish 0] = some t ∧
      t.sent 0 = [5] ∧
      ∀ u, Lts.Reaches (step none) t u →
        (u.raw.filterMap (Message.ofTask 0)).length < (u.sent 0).length := by
  refine ⟨_, rfl, rfl, fun u hu => ?_⟩
  have hstuck : Stranded 0 u :=
    hu.inv (Stranded 0) (fun _ _ _ hi h => hi.step h) ⟨rfl, by decide, by decide⟩
  have hpos := length_pos_of_ne_nil hstuck.queue
  have hcount := hstuck.count
  omega

end PhantomProtocol.EarlyWrites
