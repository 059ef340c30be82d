import PhantomProtocol.Api.CommandPump

/-!
# The steps of the data pump

`Moves` lists what a step can do to the queues, the handles and the streams (`step_moves`). Two
facts follow at once: a pump that drains takes nothing more for a local close (`Moves.drains`), and
a step uses at most one offset of a stream (`Moves.offset_le`), so that short runs leave every
stream an offset.
-/

namespace PhantomProtocol

open Function Option

/-! ## Chunks -/

namespace Stream

variable {s : Stream}

/-- With an offset left, a chunk is admitted or refused for want of room. -/
theorem trySendReliable_of_lt (h : s.reliableOffset < u32Max) (data : Bytes) :
    (s.trySendReliable data).2 = .ok true ∨ (s.trySendReliable data).2 = .ok false := by
  unfold trySendReliable enqueue nextReliableOffset
  split
  · exact .inr rfl
  · rw [if_pos (by omega)]
    exact .inl rfl

theorem tryQueueFin_of_lt (h : s.reliableOffset < u32Max) :
    s.tryQueueFin.2 = .ok true ∨ s.tryQueueFin.2 = .ok false := by
  unfold tryQueueFin enqueue nextReliableOffset
  split
  · exact .inr rfl
  · rw [if_pos (by omega)]
    exact .inl rfl

end Stream

namespace CommandPump

open StreamSlots (Half)

variable {s s' : State} {e : Event} {side : Side} {id i : UInt16} {cmd : SessionCommand}
  {next : Next} {h : Half} {cmds rest : List SessionCommand} {x : Deferred}

/-! ## Queues and what they hold for a stream -/

theorem writes_eq_nil (h : cmd.stream ≠ some id) : cmd.writes id = [] := by
  cases cmd with
  | send =>
    have hne : rawAppStreamId ≠ id := fun heq => h (by rw [SessionCommand.stream, heq])
    exact if_neg hne
  | sendStreamReliable i =>
    have hne : i ≠ id := fun heq => h (by rw [SessionCommand.stream, heq])
    exact if_neg hne
  | sendStreamUnreliable | closeStream | close => rfl

theorem ne_closeStream (h : cmd.stream ≠ some id) : cmd ≠ .closeStream id := by
  rintro rfl
  exact h rfl

theorem writesOn_eq_nil (h : ∀ cmd ∈ cmds, cmd.stream ≠ some id) : writesOn id cmds = [] :=
  Scan.before_eq_nil fun cmd hcmd => writes_eq_nil (h cmd hcmd)

theorem writesOn_append (cmds more : List SessionCommand) : writesOn id (cmds ++ more) =
      writesOn id cmds ++ if .closeStream id ∈ cmds then [] else writesOn id more :=
  Scan.before_append _ _ _ _

theorem writesOn_cons (h : cmd ≠ .closeStream id) :
    writesOn id (cmd :: cmds) = cmd.writes id ++ writesOn id cmds :=
  Scan.before_cons_of_ne h

theorem ahead_map_data (i id : UInt16) (l : List Bytes) :
    ahead id (l.map (.data i)) = if i = id then l else [] := by
  induction l with
  | nil => simp [ahead]
  | cons x l ih =>
    rw [List.map_cons, ahead, Scan.before_cons_of_ne (by simp), ← ahead, ih]
    simp only [Deferred.chunks]
    split <;> simp

/-- What is at the head of the queue for another stream makes no difference. -/
theorem ahead_cons {rest : List Deferred} (hfin : x ≠ .fin id)
    (hchunks : x.chunks id = []) : ahead id (x :: rest) = ahead id rest := by
  rw [ahead, Scan.before_cons_of_ne hfin, hchunks, List.nil_append, ← ahead]

theorem ahead_append_release (deferred : List Deferred) (i : UInt16) :
    ahead id (deferred ++ [.release i]) = ahead id deferred := by
  have hnone : ahead id [.release i] = [] := by
    apply Scan.before_eq_nil
    simp [Deferred.chunks]
  rw [ahead, Scan.before_append, ← ahead, ← ahead, hnone, ite_self, List.append_nil]

theorem localFinished_of_isRetirable (hr : h.isRetirable = true) :
    h.stream.localFinished = true := by
  simp only [Half.isRetirable, Half.isFinAcked, Bool.and_eq_true] at hr
  exact hr.2.1

/-! ## Draining and closing -/

/-- The pump is on its way out after a local close. -/
def Pump.closes : Pump → Bool
  | .flush (.close _) | .closing _ => true
  | _ => false

/-- The pump drains only when the peer has closed, and then a local close takes nothing more. -/
def Drains (s : State) : Prop := s.draining = true → s.peerClosed = true ∧ s.pump.closes = false

theorem Drains.of_closes (h : Drains s) (hc : s.pump.closes = true) : s.draining = false := by
  apply eq_false_of_ne_true
  intro hd
  exact absurd ((h hd).2.symm.trans hc) Bool.false_ne_true

theorem goOn_eq (s : State) (next : Next) :
    ∃ pump, s.goOn next = { s with pump } ∧ pump.closes = (Pump.flush next).closes := by
  match next with
  | .select | .release | .close none | .close (some _) => exact ⟨_, rfl, rfl⟩

/-! ## What a step does -/

/-- The table may only lose streams whose writing half is closed. -/
def Loses (s : State) (table : Finset UInt16) : Prop :=
  ∀ i ∈ s.table, i ∉ table → s.localFinished i = true ∧ i ≠ rawAppStreamId

theorem Loses.refl (s : State) : Loses s s.table := fun _ hmem hnot => absurd hmem hnot

/-- Nothing is admitted to the streams. -/
structure SameEnds (s : State) (streams : UInt16 → Half) : Prop where
  finished : ∀ i, (streams i).stream.localFinished = s.localFinished i
  offset : ∀ i, (streams i).stream.reliableOffset = (s.streams i).stream.reliableOffset

theorem SameEnds.refl (s : State) : SameEnds s s.streams := ⟨fun _ => rfl, fun _ => rfl⟩

theorem SameEnds.update (hfinished : h.stream.localFinished = s.localFinished id)
    (hoffset : h.stream.reliableOffset = (s.streams id).stream.reliableOffset) :
    SameEnds s (update s.streams id h) where
  finished := (forall_update_iff s.streams fun i h =>
    h.stream.localFinished = s.localFinished i).2 ⟨hfinished, fun _ _ => rfl⟩
  offset := (forall_update_iff s.streams fun i h =>
    h.stream.reliableOffset = (s.streams i).stream.reliableOffset).2 ⟨hoffset, fun _ _ => rfl⟩

/-- What the pump defers when it takes a command: the chunks it writes, or the FIN of the stream it
closes. -/
structure Defers (s : State) (cmd : SessionCommand) (items : List Deferred) : Prop where
  close : ∀ id ∈ s.table, cmd = .closeStream id → .fin id ∈ items ∧ ahead id items = []
  write : ∀ id, id ∈ s.table ∨ cmd.stream ≠ some id → cmd ≠ .closeStream id →
    ahead id items = cmd.writes id
  fins : ∀ id, .fin id ∈ items → cmd = .closeStream id
  releases : ∀ id, .release id ∉ items

/-- What a step does to the queues, the handles and the streams. The pump goes on with a local close
only where it was closing before, or begins one when the peer has not closed. -/
inductive Moves (s : State) : State → Prop
  | aside (streams : UInt16 → Half) (table : Finset UInt16) (pump : Pump)
      (hends : SameEnds s streams) (htable : Loses s table)
      (hpump : pump.closes = true → s.pump.closes = true ∨ s.peerClosed = false) :
      Moves s { s with streams, table, pump }
  | peerCloses : Moves s { s with peerClosed := true }
  | drain (hselect : s.pump = .select) (hclosed : s.draining = true ∨ s.peerClosed = true) :
      Moves s { s with draining := true }
  | enter (id : UInt16) (hhandle : s.handles id = .absent) (hid : id ∉ s.table) :
      Moves s { s.setHalf id .new with table := insert id s.table }
  | handOut (id : UInt16) (hhandle : s.handles id = .absent) (hid : id ∈ s.table)
      (hraw : id ≠ rawAppStreamId) :
      Moves s { s with handles := update s.handles id (.held false) }
  | issue (id : UInt16) (issued : Bool) (hhandle : s.handles id = .held issued) :
      Moves s { s with handles := update s.handles id (.held true) }
  | queue (cmd : SessionCommand) (hhandle : ∀ id ∈ cmd.handle, s.handles id = .held true) :
      Moves s { s with commands := s.commands ++ [cmd], queued := s.queued ++ [cmd] }
  | dropUnused (id : UInt16) (hhandle : s.handles id = .held false) (table : Finset UInt16)
      (htable : ∀ i ∈ s.table, i ∉ table → i = id) :
      Moves s { s with handles := update s.handles id .dropped, table }
  | dropReported (id : UInt16) (issued : Bool) (hhandle : s.handles id = .held issued) :
      Moves s { s with
        handles := update s.handles id .dropped, released := s.released ++ [id] }
  | report (id : UInt16) (rest : List UInt16) (hreleased : s.released = id :: rest) :
      Moves s { s.report id rest with pump := .reports }
  | due (id : UInt16) (due : Nat) (rest : List (UInt16 × Nat)) (streams : UInt16 → Half)
      (table : Finset UInt16) (deferred : List Deferred) (pump : Pump)
      (hreleases : s.releases = (id, due) :: rest) (hdue : due ≤ s.commandsTaken)
      (hends : SameEnds s streams) (htable : Loses s table)
      (hdeferred : deferred = s.deferred ∨ deferred = s.deferred ++ [.release id])
      (hpump : pump.closes = true → s.pump.closes = true) :
      Moves s { s with releases := rest, streams, table, deferred, pump }
  | refuse (cmd : SessionCommand) (rest : List SessionCommand) (pump : Pump)
      (hcommands : s.commands = cmd :: rest) (hnot : cmd = .close ∨ s.draining = true)
      (hpump : pump.closes = false) :
      Moves s { s with commands := rest, commandsTaken := s.commandsTaken + 1, pump }
  | take (cmd : SessionCommand) (rest : List SessionCommand) (taken : Nat)
      (streams : UInt16 → Half) (items : List Deferred) (pump : Pump)
      (hcommands : s.commands = cmd :: rest) (hdeferred : s.deferred = [])
      (hdraining : s.draining = false) (htaken : taken ≤ s.commandsTaken + 1)
      (hends : SameEnds s streams) (hitems : Defers s cmd items) :
      Moves s { s with commands := rest, commandsTaken := taken, streams, deferred := items, pump }
  | dropData (id : UInt16) (chunk : Bytes) (rest : List Deferred)
      (hdeferred : s.deferred = .data id chunk :: rest) (hfinished : s.localFinished id = true) :
      Moves s { s with deferred := rest }
  | sendData (id : UInt16) (chunk : Bytes) (rest : List Deferred) (stream : Stream)
      (hdeferred : s.deferred = .data id chunk :: rest) (hopen : s.localFinished id = false)
      (hstream : stream.localFinished = false)
      (hoffset : stream.reliableOffset = (s.streams id).stream.reliableOffset + 1) :
      Moves s { s.accept id stream (.data chunk) with deferred := rest }
  | sendFin (id : UInt16) (x : Deferred) (rest : List Deferred) (stream : Stream)
      (hdeferred : s.deferred = x :: rest) (hx : x = .fin id ∨ x = .release id)
      (hstream : stream.localFinished = true)
      (hoffset : stream.reliableOffset = (s.streams id).stream.reliableOffset + 1) :
      Moves s { s.accept id stream .fin with deferred := rest }
  | popRelease (id : UInt16) (rest : List Deferred) (table : Finset UInt16)
      (hdeferred : s.deferred = .release id :: rest)
      (htable : ∀ i ∈ s.table, i ∉ table → i = id ∧ i ≠ rawAppStreamId) :
      Moves s { s with deferred := rest, table }

theorem Moves.pumps (s : State) (pump : Pump)
    (hpump : pump.closes = true → s.pump.closes = true ∨ s.peerClosed = false) :
    Moves s { s with pump } :=
  .aside _ _ pump (.refl s) (.refl s) hpump

theorem Moves.streams (hfinished : h.stream.localFinished = s.localFinished id)
    (hoffset : h.stream.reliableOffset = (s.streams id).stream.reliableOffset) :
    Moves s (s.setHalf id h) :=
  .aside _ _ _ (.update hfinished hoffset) (.refl s) .inl

theorem goOn_moves (h : s.pump = .flush next) : Moves s (s.goOn next) := by
  obtain ⟨pump, hpump, hcloses⟩ := goOn_eq s next
  rw [hpump]
  refine .pumps s pump fun hc => .inl ?_
  rw [h, ← hcloses, hc]

theorem retire_eq (s : State) (id : UInt16) : ∃ table, s.retire id = { s with table } ∧
      ∀ i ∈ s.table, i ∉ table → i = id ∧ i ≠ rawAppStreamId := by
  unfold State.retire
  split
  · grind
  · exact ⟨_, rfl, fun i hi hnot => absurd hi hnot⟩

theorem retire_loses (h : s.localFinished id = true) :
    ∃ table, s.retire id = { s with table } ∧ Loses s table := by
  obtain ⟨table, heq, htable⟩ := retire_eq s id
  refine ⟨table, heq, fun i hi hnot => ?_⟩
  obtain ⟨rfl, hraw⟩ := htable i hi hnot
  exact ⟨h, hraw⟩

theorem flushFin_moves (hleft : (s.streams id).stream.reliableOffset < u32Max)
    (hpump : s.pump = .flush next) {rest : List Deferred}
    (hdeferred : s.deferred = x :: rest) (hx : x = .fin id ∨ x = .release id) :
    Moves s (s.flushFin next id rest) := by
  unfold State.flushFin
  have hoffer : (s.streams id).stream.offer .tryQueueFin = some _ := rfl
  have hfin := Stream.offer_localFinished hoffer
  have hspec := Stream.offer_spec hoffer
  have hok := Stream.tryQueueFin_of_lt hleft
  split
  · rename_i stream heq
    simp only [heq, Stream.taken, Stream.Offer.fin, Bool.and_self, Bool.or_true] at hfin
    simp only [heq, Stream.taken, true_and, Bool.true_eq_false, false_and, or_false] at hspec
    exact .sendFin id x rest stream hdeferred hx hfin hspec.assigned
  · exact goOn_moves hpump
  · rename_i heq
    simp [heq] at hok

theorem flushItem_moves (hleft : OffsetsLeft s e s') (hpump : s.pump = .flush next) :
    Moves s (s.flushItem side next) := by
  unfold State.flushItem
  split
  · exact goOn_moves hpump
  · rename_i i chunk rest hdeferred
    split
    · exact .dropData i chunk rest hdeferred ‹_›
    · rename_i hopen
      have hoffer : (s.streams i).stream.offer (.trySendReliable chunk) = some _ := rfl
      have hsame := Stream.offer_localFinished hoffer
      have hspec := Stream.offer_spec hoffer
      have hok := Stream.trySendReliable_of_lt (hleft i) chunk
      split
      · rename_i stream heq
        simp only [heq, Stream.Offer.fin, Bool.false_and, Bool.or_false] at hsame
        simp only [heq, Stream.taken, true_and, Bool.true_eq_false, false_and, or_false] at hspec
        exact .sendData i chunk rest stream hdeferred (eq_false_of_ne_true hopen)
          (hsame.trans (eq_false_of_ne_true hopen)) hspec.assigned
      · exact goOn_moves hpump
      · rename_i heq
        simp [heq] at hok
  · rename_i i rest hdeferred
    obtain ⟨table, heq, htable⟩ := retire_eq { s with deferred := rest } i
    split
    · dsimp only
      split
      · rw [heq]
        exact .popRelease i rest table hdeferred htable
      · exact .popRelease i rest s.table hdeferred fun i hi hnot => absurd hi hnot
    · split
      · rw [heq]
        exact .popRelease i rest table hdeferred htable
      · exact flushFin_moves (hleft i) hpump hdeferred (.inr rfl)
  · rename_i i _ hdeferred
    exact flushFin_moves (hleft i) hpump hdeferred (.inl rfl)

theorem foldl_sendUnreliable (l : List Bytes) (stream : Stream) :
    (l.foldl Stream.sendUnreliable stream).localFinished = stream.localFinished ∧
      (l.foldl Stream.sendUnreliable stream).reliableOffset = stream.reliableOffset := by
  induction l generalizing stream with
  | nil => exact ⟨rfl, rfl⟩
  | cons x l ih => exact ih (stream.sendUnreliable x)

theorem defers_data {data : Bytes} (hclose : ∀ id, cmd ≠ .closeStream id)
    (hwrites : ∀ id, cmd.writes id = if i = id then chunks data else []) :
    Defers s cmd ((chunks data).map (.data i)) where
  close id _ heq := absurd heq (hclose id)
  write id _ _ := by rw [ahead_map_data, hwrites]
  fins id hid := by simp at hid
  releases id := by simp

theorem defers_fin (i : UInt16) : Defers s (.closeStream i) [.fin i] where
  close id _ heq := by
    cases heq
    simp [ahead]
  write id _ hne := by
    have hi : i ≠ id := fun h => hne (by rw [h])
    rw [ahead_cons (by simpa using hi) rfl]
    rfl
  fins id hid := by
    cases List.mem_singleton.1 hid
    rfl
  releases id := by simp

theorem defers_nil (hclose : ∀ id ∈ s.table, cmd ≠ .closeStream id)
    (hwrites : ∀ id, id ∈ s.table ∨ cmd.stream ≠ some id → cmd.writes id = []) :
    Defers s cmd [] where
  close id hid heq := absurd heq (hclose id hid)
  write id hid _ := (hwrites id hid).symm
  fins id hid := by simp at hid
  releases id := by simp

theorem defers_nil_of_notMem (hcmd : cmd.stream = some i) (hi : i ∉ s.table) : Defers s cmd [] := by
  have hne : ∀ id ∈ s.table, cmd.stream ≠ some id := by simp [*]
  grind [defers_nil, ne_closeStream, writes_eq_nil]

theorem takeCommand_moves {taken : Nat}
    (hcommands : s.commands = cmd :: rest) (hdeferred : s.deferred = [])
    (hdraining : s.draining = false) (htaken : taken ≤ s.commandsTaken + 1) (next : Next) :
    Moves s ({ s with commands := rest, commandsTaken := taken }.takeCommand next cmd) := by
  -- what is deferred where the stream is in the table, and nothing where it is not
  have htake : ∀ {items : List Deferred} (pump : Pump), Defers s cmd items →
      Moves s { s with
        commands := rest, commandsTaken := taken, deferred := s.deferred ++ items, pump } := by
    intro items pump hitems
    rw [hdeferred, List.nil_append]
    exact .take cmd rest taken s.streams items pump hcommands hdeferred hdraining htaken (.refl s)
      hitems
  have hskip : Defers s cmd [] →
      Moves s ({ s with commands := rest, commandsTaken := taken }.goOn next) := by
    intro hitems
    obtain ⟨pump, hpump, -⟩ := goOn_eq { s with commands := rest, commandsTaken := taken } next
    rw [hpump]
    simpa using htake pump hitems
  cases cmd with
  | send => exact htake _ (defers_data (by simp) fun _ => rfl)
  | sendStreamReliable =>
    simp only [State.takeCommand]
    split
    · exact htake _ (defers_data (by simp) fun _ => rfl)
    · exact hskip (defers_nil_of_notMem rfl ‹_›)
  | sendStreamUnreliable i data =>
    have hnil : Defers s (.sendStreamUnreliable i data) [] := defers_nil (by simp) fun _ _ => rfl
    simp only [State.takeCommand]
    split
    · obtain ⟨pump, hpump, -⟩ := goOn_eq (State.setStream
        { s with commands := rest, commandsTaken := taken } i
        ((chunks data).foldl Stream.sendUnreliable (s.streams i).stream)) next
      rw [hpump]
      obtain ⟨hfinished, hoffset⟩ := foldl_sendUnreliable (chunks data) (s.streams i).stream
      exact hdeferred ▸ .take _ rest taken _ [] pump hcommands hdeferred hdraining htaken
        (.update hfinished hoffset) hnil
    · exact hskip hnil
  | closeStream i =>
    simp only [State.takeCommand]
    split
    · exact htake _ (defers_fin i)
    · exact hskip (defers_nil_of_notMem rfl ‹_›)
  | close => exact hskip (defers_nil (by simp) fun _ _ => rfl)

theorem releaseItem_moves {queuedAny : Bool} (hpump : s.pump = .releases queuedAny) :
    Moves s (s.releaseItem queuedAny) := by
  have hend : Moves s { s with pump := if queuedAny then .flush .select else .select } := by
    refine .pumps s _ fun hc => ?_
    cases queuedAny <;> cases hc
  unfold State.releaseItem
  split
  · rename_i i due rest hreleases
    split
    · rename_i hdue
      have hmarked : SameEnds s
          (update s.streams i { s.streams i with appReleased := true }) := .update rfl rfl
      dsimp only
      split
      · split
        · rename_i hretirable
          obtain ⟨table, heq, htable⟩ := retire_loses (localFinished_of_isRetirable hretirable)
          rw [heq]
          exact .due i due rest _ table s.deferred s.pump hreleases hdue hmarked
            (fun j hj hnot => hmarked.finished j ▸ htable j hj hnot) (.inl rfl) fun hc => hc
        · exact .due i due rest _ s.table _ _ hreleases hdue hmarked (.refl s) (.inr rfl) nofun
      · exact .due i due rest s.streams s.table s.deferred s.pump hreleases hdue (.refl s) (.refl s)
          (.inl rfl) fun hc => hc
    · exact hend
  · exact hend

theorem dropHandle_moves {issued : Bool} (hhandle : s.handles id = .held issued) :
    Moves s (s.dropHandle side id issued) := by
  unfold State.dropHandle
  dsimp only
  split
  · rename_i hunused
    obtain ⟨table, heq, htable⟩ :=
      retire_eq { s with handles := update s.handles id .dropped } id
    rw [heq]
    have hissued : issued = false := by simp_all
    subst hissued
    exact .dropUnused id hhandle table fun i hi hnot => (htable i hi hnot).1
  · exact .dropReported id issued hhandle

theorem command_moves (hcommands : s.commands = cmd :: rest) (hdeferred : s.deferred = []) :
    Moves s ({ s with commands := rest }.command cmd) := by
  unfold State.command
  dsimp only
  split
  · exact .refuse cmd rest _ hcommands (.inl ‹_›) rfl
  · split
    · exact .refuse cmd rest _ hcommands (.inr ‹_›) rfl
    · exact takeCommand_moves hcommands hdeferred (eq_false_of_ne_true ‹_›) le_rfl .release

/-- **Step lemma.** -/
theorem step_moves (hdrains : Drains s) (hleft : OffsetsLeft s e s')
    (h : step side s e = some s') : Moves s s' := by
  cases e with
  | enter id =>
    obtain ⟨⟨hhandle, hid⟩, ⟨⟩⟩ := ite_none_right_eq_some.1 h
    exact .enter id hhandle hid
  | handOut id =>
    obtain ⟨⟨hhandle, hid, hraw⟩, ⟨⟩⟩ := ite_none_right_eq_some.1 h
    exact .handOut id hhandle hid hraw
  | issue id =>
    simp only [step] at h
    split at h
    · cases h
      exact .issue id _ ‹_›
    · cases h
  | queue cmd =>
    obtain ⟨⟨-, hhandle⟩, ⟨⟩⟩ := ite_none_right_eq_some.1 h
    refine .queue cmd fun id hid => ?_
    exact of_decide_eq_true ((all_eq_true _ _).1 hhandle id hid)
  | drop => grind [step, dropHandle_moves]
  | transmit id cwndBudget deliveredNow deliveredTimeNow appLimitedNow now =>
    obtain ⟨-, ⟨⟩⟩ := ite_none_right_eq_some.1 h
    have hemitted := (s.streams id).stream.pollSend_emitted cwndBudget deliveredNow deliveredTimeNow
      appLimitedNow now
    exact .streams (Stream.pollSend_localFinished _ _ _ _ _ _) hemitted.keeps.reliableOffset
  | ack =>
    obtain ⟨-, ⟨⟩⟩ := ite_none_right_eq_some.1 h
    exact .streams (Stream.onSack_localFinished _ _ _) (Stream.onSack_reliableOffset _ _ _)
  | peerFin =>
    cases h
    exact .streams rfl rfl
  | retire =>
    obtain ⟨hretirable, ⟨⟩⟩ := ite_none_right_eq_some.1 h
    obtain ⟨table, heq, htable⟩ := retire_loses (localFinished_of_isRetirable hretirable)
    rw [heq]
    exact .aside _ table _ (.refl s) htable .inl
  | peerCloses =>
    cases h
    exact .peerCloses
  | tick =>
    obtain ⟨hselect, h⟩ := ite_none_right_eq_some.1 h
    split at h
    · rename_i hclosed
      cases h
      exact .drain hselect (Bool.or_eq_true_iff.1 hclosed)
    · cases h
      exact .pumps s _ nofun
  | notify | ends =>
    obtain ⟨-, ⟨⟩⟩ := ite_none_right_eq_some.1 h
    exact .pumps s _ nofun
  | flushItem => grind [step, flushItem_moves]
  | takeReport =>
    simp only [step] at h
    split at h
    · cases h
      exact .report _ _ ‹_›
    · cases h
      exact .report _ _ ‹_›
    · cases h
      exact .pumps s _ nofun
    · cases h
  | releaseItem => grind [step, releaseItem_moves]
  | command => grind [step, command_moves]
  | closeRequested =>
    obtain ⟨-, h⟩ := ite_none_right_eq_some.1 h
    split at h
    · cases h
      exact .pumps s _ nofun
    · rename_i hclosed
      cases h
      exact .pumps s _ fun _ => .inr (eq_false_of_ne_true hclosed)
  | closeItem =>
    simp only [step] at h
    split at h
    · rename_i hpump hdeferred hcommands
      cases h
      exact takeCommand_moves hcommands hdeferred (hdrains.of_closes (by rw [hpump]; rfl))
        (Nat.le_succ _) _
    · cases h
      exact .pumps s _ nofun
    · cases h

theorem Moves.drains (hm : Moves s s') (h : Drains s) : Drains s' := by
  -- a step that leaves `draining` alone and does not begin to close
  have hkeep : ∀ pump : Pump, (pump.closes = true → s.pump.closes = true) → s.draining = true →
      s.peerClosed = true ∧ pump.closes = false := by
    intro pump hpump hd
    refine ⟨(h hd).1, eq_false_of_ne_true fun hc => ?_⟩
    exact absurd ((h hd).2.symm.trans (hpump hc)) Bool.false_ne_true
  cases hm with
  | aside =>
    intro hd
    grind
  | peerCloses => exact fun hd => ⟨rfl, (h hd).2⟩
  | drain hselect hclosed =>
    intro _
    refine ⟨hclosed.elim (fun hd => (h hd).1) fun hp => hp, ?_⟩
    show s.pump.closes = false
    rw [hselect]
    rfl
  | due _ _ _ _ _ _ pump _ _ _ _ _ hpump =>
    exact hkeep pump hpump
  | report => exact hkeep _ nofun
  | refuse _ _ pump _ _ hpump =>
    exact hkeep pump fun hc => absurd (hpump.symm.trans hc) Bool.false_ne_true
  | take _ _ _ _ _ _ _ _ hdraining =>
    exact fun hd => absurd (hdraining.symm.trans hd) Bool.false_ne_true
  | _ => exact h

/-! ## Offsets -/

theorem Moves.offset_le (hm : Moves s s') (i : UInt16) :
    (s'.streams i).stream.reliableOffset ≤ (s.streams i).stream.reliableOffset + 1 := by
  have hupdate : ∀ (id : UInt16) (h : Half),
      h.stream.reliableOffset ≤ (s.streams id).stream.reliableOffset + 1 →
      ∀ i, (update s.streams id h i).stream.reliableOffset ≤
        (s.streams i).stream.reliableOffset + 1 := fun id h hle =>
    (forall_update_iff s.streams fun i h =>
      h.stream.reliableOffset ≤ (s.streams i).stream.reliableOffset + 1).2
        ⟨hle, fun _ _ => Nat.le_succ _⟩
  cases hm with
  | aside _ _ _ hends => exact (hends.offset i).le.trans (Nat.le_succ _)
  | due _ _ _ _ _ _ _ _ _ hends =>
    exact (hends.offset i).le.trans (Nat.le_succ _)
  | take _ _ _ _ _ _ _ _ _ _ hends =>
    exact (hends.offset i).le.trans (Nat.le_succ _)
  | enter id => exact hupdate id .new (Nat.zero_le _) i
  | sendData id _ _ _ _ _ _ hoffset => exact hupdate id _ hoffset.le i
  | sendFin id _ _ _ _ _ _ hoffset => exact hupdate id _ hoffset.le i
  | _ => exact Nat.le_succ _

/-- A run of fewer than 2^32 - 1 steps leaves every stream an offset. -/
theorem offsetsLeft_of_length (side : Side) (es : List Event) (hlen : es.length < u32Max) :
    Lts.Along (step side) OffsetsLeft init es := by
  have hrun : ∀ (es : List Event) (s : State) (k : Nat), Drains s →
      (∀ i, (s.streams i).stream.reliableOffset ≤ k) → k + es.length < u32Max →
      Lts.Along (step side) OffsetsLeft s es := by
    intro es
    induction es with
    | nil => exact fun _ _ _ _ _ => trivial
    | cons e _ ih =>
      intro s k hdrains hk hlen s' hs
      rw [List.length_cons] at hlen
      have hleft : OffsetsLeft s e s' := fun i => lt_of_le_of_lt (hk i) (by omega)
      have hm := step_moves hdrains hleft hs
      refine ⟨hleft, ih s' (k + 1) (hm.drains hdrains) (fun i => ?_) (by omega)⟩
      exact (hm.offset_le i).trans (Nat.succ_le_succ (hk i))
  exact hrun es init 0 nofun (fun _ => Nat.le_refl 0) (by omega)

end CommandPump

end PhantomProtocol
