import PhantomProtocol.Api.Proof.CommandPump

/-!
# Writes reach a stream in order and ahead of its close

`Ordered` says of a stream that what was admitted to it and what is still waiting, in the pump's
queue or in the channel, are together the chunks of the writes queued on it before its first close.
`Linked` and `Closes` say why a FIN comes last: a close is behind the writes in the queue, and a
release waits for the commands that were queued before the handle was dropped.
-/

namespace PhantomProtocol

open List Function

namespace CommandPump

open StreamSlots (Half)

variable {s s' : State} {e : Event} {side : Side} {id : UInt16}

/-! ## Handles, commands and releases -/

/-- What the handles and the table say about the commands and the releases that are waiting. -/
structure Linked (s : State) : Prop where
  suffix : s.commands <:+ s.queued
  raw : rawAppStreamId ∈ s.table ∧ s.handles rawAppStreamId = .absent
  used : ∀ c ∈ s.queued, ∀ id, c.stream = some id →
    id = rawAppStreamId ∨ s.handles id = .held true ∨ s.handles id = .dropped
  reported : ∀ id ∈ s.released, s.handles id = .dropped
  due : ∀ p ∈ s.releases, s.handles p.1 = .dropped ∧
    ∀ j c, s.commands[j]? = some c → c.stream = some p.1 → s.commandsTaken + j < p.2
  releasing : ∀ id, .release id ∈ s.deferred →
    s.handles id = .dropped ∧ ∀ c ∈ s.commands, c.stream ≠ some id
  behind : s.deferred.Pairwise fun a b => ∀ id chunk, a = .release id → b ≠ .data id chunk
  gone : ∀ id, id ∉ s.table → s.localFinished id = true ∨
    (∀ c ∈ s.commands, c.stream ≠ some id) ∧ (s.handles id = .absent ∨ s.handles id = .dropped)

namespace Linked

variable {cmd : SessionCommand}

theorem init : Linked init where
  suffix := suffix_rfl
  raw := ⟨Finset.mem_singleton_self _, rfl⟩
  used _ hc := nomatch hc
  reported _ hid := nomatch hid
  due _ hp := nomatch hp
  releasing _ hid := nomatch hid
  behind := .nil
  gone _ _ := .inr ⟨nofun, .inl rfl⟩

theorem finished_of_mem {c : SessionCommand} (h : Linked s) (hc : c ∈ s.commands)
    (hid : c.stream = some id) (hnot : id ∉ s.table) : s.localFinished id = true := by
  obtain hfin | ⟨hnone, -⟩ := h.gone id hnot
  · exact hfin
  · exact absurd hid (hnone c hc)

theorem ne_raw (h : Linked s) (hid : s.handles id ≠ .absent) : id ≠ rawAppStreamId := by
  rintro rfl
  exact hid h.raw.2

theorem stream_cases
    (hhandle : ∀ i ∈ cmd.handle, s.handles i = .held true) (hid : cmd.stream = some id) :
    id = rawAppStreamId ∨ s.handles id = .held true := by
  cases cmd with
  | send =>
    cases hid
    exact .inl rfl
  | sendStreamReliable | sendStreamUnreliable | closeStream =>
    cases hid
    exact .inr (hhandle id rfl)
  | close => cases hid

theorem stream_ne (hhandle : ∀ i ∈ cmd.handle, s.handles i = .held true)
    (hid : s.handles id ≠ .held true) (hraw : id ≠ rawAppStreamId) : cmd.stream ≠ some id := by
  intro hstream
  obtain hid' | hheld := stream_cases hhandle hstream
  · exact hraw hid'
  · exact hid hheld

section

variable (h : Linked s) {streams : UInt16 → Half} {table : Finset UInt16}
include h

theorem setStreams (hends : ∀ i, s.localFinished i = true → (streams i).stream.localFinished = true)
    (htable : ∀ i ∈ s.table, i ∉ table →
      (streams i).stream.localFinished = true ∧ i ≠ rawAppStreamId) :
    Linked { s with streams, table } :=
  { h with
    raw := ⟨by_contra fun hnot => (htable _ h.raw.1 hnot).2 rfl, h.raw.2⟩
    gone i hi := by
      by_cases hmem : i ∈ s.table
      · exact .inl (htable i hmem hi).1
      · exact (h.gone i hmem).imp_left (hends i) }

theorem sameEnds
    (hends : ∀ i, (streams i).stream.localFinished = s.localFinished i) (htable : Loses s table) :
    Linked { s with streams, table } :=
  h.setStreams (fun i hi => (hends i).trans hi) fun i hi hnot =>
    ⟨(hends i).trans (htable i hi hnot).1, (htable i hi hnot).2⟩

theorem setHandle (new : Handle) (hraw : id ≠ rawAppStreamId) (hold : s.handles id ≠ .dropped)
    (hnew : s.handles id = .absent ∧ id ∈ s.table ∨
      (∃ issued, s.handles id = .held issued) ∧ (new = .held true ∨ new = .dropped)) :
    Linked { s with handles := update s.handles id new } := by
  have hsame : ∀ i, i ≠ id → update s.handles id new i = s.handles i :=
    fun i hi => update_of_ne hi _ _
  have hdropped : ∀ i, s.handles i = .dropped → update s.handles id new i = .dropped := by
    intro i hi
    rw [hsame i fun heq => hold (heq ▸ hi), hi]
  exact
    { h with
      raw := ⟨h.raw.1, (hsame _ hraw.symm).trans h.raw.2⟩
      used := by
        intro c hc i hi
        by_cases hid : i = id
        · subst hid
          obtain hused | hused | hused := h.used c hc i hi
          · exact absurd hused hraw
          · simp_all
          · exact absurd hused hold
        · simpa [hsame i hid] using h.used c hc i hi
      reported := fun i hi => hdropped i (h.reported i hi)
      due := fun p hp => ⟨hdropped p.1 (h.due p hp).1, (h.due p hp).2⟩
      releasing := fun i hi => ⟨hdropped i (h.releasing i hi).1, (h.releasing i hi).2⟩
      gone := by
        intro i hi
        by_cases hid : i = id
        · subst hid
          obtain ⟨-, hmem⟩ | ⟨⟨issued, hheld⟩, -⟩ := hnew
          · exact absurd hmem hi
          · have hfin : s.localFinished i = true := by simpa [hheld] using h.gone i hi
            exact .inl hfin
        · have hgone := h.gone i hi
          rw [← hsame i hid] at hgone
          exact hgone }

/-- The first command is taken from the channel. -/
theorem next {rest : List SessionCommand} {taken : Nat}
    (hcommands : s.commands = cmd :: rest) (htaken : taken ≤ s.commandsTaken + 1) :
    Linked { s with commands := rest, commandsTaken := taken } := by
  have hmem : ∀ c ∈ rest, c ∈ s.commands := fun c hc => hcommands ▸ mem_cons_of_mem _ hc
  exact
    { h with
      suffix := (suffix_cons cmd rest).trans (hcommands ▸ h.suffix)
      due := by
        intro p hp
        refine ⟨(h.due p hp).1, fun j c hj hc => ?_⟩
        have hlt := (h.due p hp).2 (j + 1) c (by rw [hcommands]; exact hj) hc
        show taken + j < p.2
        omega
      releasing := fun i hi =>
        ⟨(h.releasing i hi).1, fun c hc => (h.releasing i hi).2 c (hmem c hc)⟩
      gone := fun i hi => (h.gone i hi).imp_right fun hnone =>
        ⟨fun c hc => hnone.1 c (hmem c hc), hnone.2⟩ }

theorem pop {x : Deferred} {rest : List Deferred}
    (hdeferred : s.deferred = x :: rest) : Linked { s with deferred := rest } :=
  { h with
    releasing := fun i hi => h.releasing i (hdeferred ▸ mem_cons_of_mem _ hi)
    behind := (pairwise_cons.1 (hdeferred ▸ h.behind)).2 }

/-- A command is queued through a handle that is held. -/
theorem queue (hhandle : ∀ i ∈ cmd.handle, s.handles i = .held true) :
    Linked { s with commands := s.commands ++ [cmd], queued := s.queued ++ [cmd] } := by
  have hnone : ∀ i, s.handles i ≠ .held true → i ≠ rawAppStreamId →
      (∀ c ∈ s.commands, c.stream ≠ some i) → ∀ c ∈ s.commands ++ [cmd], c.stream ≠ some i := by
    intro i hi hraw hcommands c hc
    obtain hc | hc := mem_append.1 hc
    · exact hcommands c hc
    · cases mem_singleton.1 hc
      exact stream_ne hhandle hi hraw
  have hdropped : ∀ i, s.handles i = .dropped → s.handles i ≠ .held true ∧ i ≠ rawAppStreamId :=
    fun i hi => ⟨by simp [hi], h.ne_raw (by simp [hi])⟩
  refine { h with
    suffix := ?_
    used := fun c hc i hi => ?_
    due := fun p hp => ⟨(h.due p hp).1, fun j c hj hc => ?_⟩
    releasing := fun i hi => ?_
    gone := fun i hi => ?_ }
  · obtain ⟨front, hfront⟩ := h.suffix
    exact ⟨front, by rw [← append_assoc, hfront]⟩
  · obtain hc | hc := mem_append.1 hc
    · exact h.used c hc i hi
    · grind [stream_cases]
  · by_cases hlt : j < s.commands.length
    · rw [List.getElem?_append_left hlt] at hj
      exact (h.due p hp).2 j c hj hc
    · rw [List.getElem?_append_right (Nat.le_of_not_lt hlt)] at hj
      cases mem_singleton.1 (mem_of_getElem? hj)
      obtain ⟨hheld, hraw⟩ := hdropped _ (h.due p hp).1
      exact absurd hc (stream_ne hhandle hheld hraw)
  · obtain ⟨hdrop, hcommands⟩ := h.releasing i hi
    exact ⟨hdrop, hnone i (hdropped i hdrop).1 (hdropped i hdrop).2 hcommands⟩
  · refine (h.gone i hi).imp_right fun ⟨hcommands, hh⟩ => ⟨hnone i ?_ ?_ hcommands, hh⟩
    · obtain hh | hh := hh <;> simp [hh]
    · rintro rfl
      exact hi h.raw.1

theorem release (hid : s.handles id = .dropped ∧ ∀ c ∈ s.commands, c.stream ≠ some id) :
    Linked { s with deferred := s.deferred ++ [.release id] } := by
  refine { h with releasing := fun i hi => ?_, behind := ?_ }
  · obtain hi | hi := mem_append.1 hi
    · exact h.releasing i hi
    · cases mem_singleton.1 hi
      exact hid
  · refine pairwise_append.2 ⟨h.behind, pairwise_singleton _ _, ?_⟩
    intro a _ b hb i chunk _
    cases mem_singleton.1 hb
    nofun

theorem released_due {due : Nat} (hp : (id, due) ∈ s.releases) (hdue : due ≤ s.commandsTaken) :
    s.handles id = .dropped ∧ ∀ c ∈ s.commands, c.stream ≠ some id := by
  refine ⟨(h.due _ hp).1, fun c hc hstream => ?_⟩
  obtain ⟨j, hj⟩ := mem_iff_getElem?.1 hc
  have hlt := (h.due _ hp).2 j c hj hstream
  omega

theorem accept {stream : Stream} {seg : Admitted}
    (hends : s.localFinished id = true → stream.localFinished = true) :
    Linked (s.accept id stream seg) := by
  have hgrows : ∀ i, s.localFinished i = true →
      (update s.streams id { s.streams id with stream } i).stream.localFinished = true :=
    (forall_update_iff s.streams fun i h =>
      s.localFinished i = true → h.stream.localFinished = true).2 ⟨hends, fun _ _ hi => hi⟩
  exact { h.setStreams hgrows fun i hi hnot => absurd hi hnot with }

end

end Linked

theorem Moves.linked (hm : Moves s s') (h : Linked s) : Linked s' := by
  cases hm with
  | aside _ _ _ hends htable =>
    exact { h.sameEnds hends.finished htable with }
  | peerCloses | drain => exact { h with }
  | enter =>
    refine { h with raw := ⟨Finset.mem_insert_of_mem h.raw.1, h.raw.2⟩, gone := fun i hi => ?_ }
    obtain ⟨hne, hnot⟩ := not_or.1 (fun hor => hi (Finset.mem_insert.2 hor))
    simpa [State.setHalf, State.localFinished, hne] using h.gone i hnot
  | handOut _ hhandle hid hraw =>
    exact h.setHandle _ hraw (by simp [hhandle]) (.inl ⟨hhandle, hid⟩)
  | issue _ issued hhandle =>
    exact h.setHandle _ (h.ne_raw (by simp [hhandle])) (by simp [hhandle])
      (.inr ⟨⟨issued, hhandle⟩, .inl rfl⟩)
  | queue _ hhandle =>
    exact h.queue hhandle
  | dropUnused id hhandle _ htable =>
    have hraw : id ≠ rawAppStreamId := h.ne_raw (by simp [hhandle])
    have hset := h.setHandle .dropped hraw (by simp [hhandle]) (.inr ⟨⟨false, hhandle⟩, .inr rfl⟩)
    refine { hset with
      raw := ⟨by_contra fun hnot => hraw (htable _ h.raw.1 hnot).symm, hset.raw.2⟩
      gone := fun i hi => ?_ }
    by_cases hmem : i ∈ s.table
    · -- the handle has queued nothing
      obtain rfl := htable i hmem hi
      refine .inr ⟨fun c hc hstream => ?_, .inr (update_self _ _ _)⟩
      simpa [hhandle, hraw] using h.used c (h.suffix.subset hc) i hstream
    · exact hset.gone i hmem
  | dropReported _ issued hhandle =>
    have hset := h.setHandle .dropped (h.ne_raw (by simp [hhandle])) (by simp [hhandle])
      (.inr ⟨⟨issued, hhandle⟩, .inr rfl⟩)
    refine { hset with reported := fun i hi => ?_ }
    obtain hi | hi := mem_append.1 hi
    · exact hset.reported i hi
    · cases mem_singleton.1 hi
      simp
  | report id rest hreleased =>
    have hmem : ∀ i, i = id ∨ i ∈ rest → i ∈ s.released :=
      fun i hi => hreleased ▸ mem_cons.2 hi
    refine { h with reported := fun i hi => h.reported i (hmem i (.inr hi)), due := fun p hp => ?_ }
    obtain hp | hp := mem_append.1 hp
    · exact h.due p hp
    · cases mem_singleton.1 hp
      refine ⟨h.reported id (hmem id (.inl rfl)), fun j c hj _ => ?_⟩
      obtain ⟨hlt, -⟩ := List.getElem?_eq_some_iff.1 hj
      exact Nat.add_lt_add_left hlt _
  | due id due rest streams table deferred pump hreleases hdue hends htable hdeferred
      hpump =>
    have hmem : ∀ p, p = (id, due) ∨ p ∈ rest → p ∈ s.releases :=
      fun p hp => hreleases ▸ mem_cons.2 hp
    have hlink := h.sameEnds hends.finished htable
    have hrest : ∀ p ∈ rest, _ := fun p hp => h.due p (hmem p (.inr hp))
    obtain rfl | rfl := hdeferred
    · exact { hlink with due := hrest }
    · exact { hlink.release (h.released_due (hmem _ (.inl rfl)) hdue) with due := hrest }
  | refuse cmd rest pump hcommands hnot hpump =>
    exact { h.next hcommands le_rfl with }
  | take cmd rest taken streams items pump hcommands hdeferred hdraining htaken hends hitems =>
    refine { (h.next hcommands htaken).sameEnds hends.finished (.refl s) with
      releasing := fun i hi => absurd hi (hitems.releases i)
      behind := ?_ }
    refine pairwise_of_forall_mem_list fun a ha b _ i chunk heq => ?_
    exact absurd (heq ▸ ha) (hitems.releases i)
  | dropData _ _ _ hdeferred => exact h.pop hdeferred
  | sendData _ _ _ _ hdeferred hopen =>
    exact (h.pop hdeferred).accept fun hfin => absurd (hopen.symm.trans hfin) Bool.false_ne_true
  | sendFin _ _ _ _ hdeferred _ hstream =>
    exact (h.pop hdeferred).accept fun _ => hstream
  | popRelease id _ _ hdeferred htable =>
    obtain ⟨hdropped, hnone⟩ := h.releasing id (hdeferred ▸ mem_cons_self)
    refine { h.pop hdeferred with
      raw := ⟨by_contra fun hnot => (htable _ h.raw.1 hnot).2 rfl, h.raw.2⟩
      gone := fun i hi => ?_ }
    by_cases hmem : i ∈ s.table
    · grind
    · exact h.gone i hmem

/-! ## Closes -/

/-- Where the FINs come from, and where the closes that were queued have got to. -/
structure Closes (s : State) : Prop where
  fins : ∀ id, .fin id ∈ s.deferred → .closeStream id ∈ s.queued
  finished : ∀ id, s.localFinished id = true → .closeStream id ∈ s.queued ∨ s.handles id = .dropped
  pending : s.draining = false → ∀ id, .closeStream id ∈ s.queued →
    s.localFinished id = true ∨ .fin id ∈ s.deferred ∨ .closeStream id ∈ s.commands

@[simp] theorem accept_localFinished_self (s : State) (id : UInt16) (stream : Stream)
    (seg : Admitted) : (s.accept id stream seg).localFinished id = stream.localFinished := by
  simp [State.accept, State.setStream, State.setHalf, State.localFinished]

theorem accept_localFinished_of_ne {i : UInt16} (h : i ≠ id) (stream : Stream) (seg : Admitted) :
    (s.accept id stream seg).localFinished i = s.localFinished i := by
  simp [State.accept, State.setStream, State.setHalf, State.localFinished, h]

namespace Closes

theorem init : Closes init where
  fins _ hid := nomatch hid
  finished _ hid := nomatch hid
  pending _ _ hid := nomatch hid

section

variable (h : Closes s) {rest : List Deferred} {x : Deferred}
include h

theorem sameEnds {streams : UInt16 → Half}
    (hends : ∀ i, (streams i).stream.localFinished = s.localFinished i) :
    Closes { s with streams } where
  fins := h.fins
  finished id hid := h.finished id ((hends id).symm.trans hid)
  pending hd id hid := (h.pending hd id hid).imp_left fun hfin => (hends id).trans hfin

/-- A handle that is not dropped yet changes. -/
theorem setHandle (new : Handle) (hold : s.handles id ≠ .dropped) :
    Closes { s with handles := update s.handles id new } := by
  refine { h with finished := fun i hi => (h.finished i hi).imp_right fun hdropped => ?_ }
  have hne : i ≠ id := by
    rintro rfl
    exact hold hdropped
  exact (update_of_ne hne _ _).trans hdropped

/-- Something else than a FIN leaves the pump's queue. -/
theorem pop (hdeferred : s.deferred = x :: rest) (hx : ∀ id, x ≠ .fin id) :
    Closes { s with deferred := rest } := by
  have hmem : ∀ id, .fin id ∈ s.deferred ↔ .fin id ∈ rest := by grind
  exact
    { h with
      fins := fun id hid => h.fins id ((hmem id).2 hid)
      pending := fun hd id hid => (h.pending hd id hid).imp_right (.imp_left (hmem id).1) }

theorem enter (hl : Linked s) (hhandle : s.handles id = .absent)
    (hid : id ∉ s.table) : Closes { s.setHalf id .new with table := insert id s.table } := by
  have hne : id ≠ rawAppStreamId := by
    rintro rfl
    exact hid hl.raw.1
  have hnone : .closeStream id ∉ s.queued := by
    intro hmem
    simpa [hne, hhandle] using hl.used _ hmem id rfl
  refine { h with finished := fun i hi => ?_, pending := fun hd i hi => ?_ }
  · by_cases hi' : i = id
    · subst hi'
      simp [State.localFinished, State.setHalf, Half.new, Stream.new] at hi
    · exact h.finished i (by simpa [State.localFinished, State.setHalf, hi'] using hi)
  · have hi' : i ≠ id := by
      rintro rfl
      exact hnone hi
    simpa [State.localFinished, State.setHalf, hi'] using h.pending hd i hi

theorem take {cmd : SessionCommand} {rest : List SessionCommand} {items : List Deferred}
    (hl : Linked s) (hcommands : s.commands = cmd :: rest)
    (hdeferred : s.deferred = []) (hitems : Defers s cmd items) :
    Closes { s with commands := rest, deferred := items } := by
  have hmem : cmd ∈ s.commands := hcommands ▸ mem_cons_self
  refine { h with
    fins := fun i hi => hitems.fins i hi ▸ hl.suffix.subset hmem
    pending := fun hd i hi => ?_ }
  obtain hfin | hfin | hcmd := h.pending hd i hi
  · exact .inl hfin
  · simp [hdeferred] at hfin
  · rw [hcommands] at hcmd
    obtain rfl | hcmd := mem_cons.1 hcmd
    · by_cases hid : i ∈ s.table
      · exact .inr (.inl (hitems.close i hid rfl).1)
      · exact .inl (hl.finished_of_mem hmem rfl hid)
    · exact .inr (.inr hcmd)

theorem sendFin {stream : Stream}
    (hl : Linked s) (hdeferred : s.deferred = x :: rest) (hx : x = .fin id ∨ x = .release id)
    (hstream : stream.localFinished = true) :
    Closes { s.accept id stream .fin with deferred := rest } := by
  have hmem : x ∈ s.deferred := hdeferred ▸ mem_cons_self
  refine { h with
    fins := fun i hi => h.fins i (hdeferred ▸ mem_cons_of_mem _ hi)
    finished := fun i hi => ?_
    pending := fun hd i hi => ?_ }
  · by_cases hid : i = id
    · subst hid
      obtain rfl | rfl := hx
      · exact .inl (h.fins i hmem)
      · exact .inr (hl.releasing i hmem).1
    · exact h.finished i ((accept_localFinished_of_ne hid stream .fin).symm.trans hi)
  · by_cases hid : i = id
    · subst hid
      exact .inl ((accept_localFinished_self s i stream .fin).trans hstream)
    · have hother : .fin i ≠ x := by
        obtain rfl | rfl := hx
        · simpa using hid
        · simp
      obtain hfin | hfin | hcmd := h.pending hd i hi
      · exact .inl ((accept_localFinished_of_ne hid stream .fin).trans hfin)
      · simp_all
      · exact .inr (.inr hcmd)

end

end Closes

theorem Moves.closes (hm : Moves s s') (hl : Linked s) (h : Closes s) : Closes s' := by
  cases hm with
  | aside _ _ _ hends => exact { h.sameEnds hends.finished with }
  | peerCloses | report => exact { h with }
  | drain => exact { h with pending := fun hd => absurd hd (by simp) }
  | enter _ hhandle hid => exact h.enter hl hhandle hid
  | handOut _ hhandle => exact h.setHandle _ (by simp [hhandle])
  | issue _ _ hhandle => exact h.setHandle _ (by simp [hhandle])
  | queue =>
    refine { h with
      fins := fun i hi => mem_append_left _ (h.fins i hi)
      finished := fun i hi => (h.finished i hi).imp_left (mem_append_left _)
      pending := fun hd i hi => ?_ }
    obtain hi | hi := mem_append.1 hi
    · exact (h.pending hd i hi).imp_right (.imp_right (mem_append_left _))
    · exact .inr (.inr (mem_append_right _ hi))
  | dropUnused id hhandle =>
    exact { h.setHandle .dropped (show s.handles id ≠ .dropped by simp [hhandle]) with }
  | dropReported id _ hhandle =>
    exact { h.setHandle .dropped (show s.handles id ≠ .dropped by simp [hhandle]) with }
  | due id due rest streams table deferred pump hreleases hdue hends htable hdeferred
      hpump =>
    have hmem : ∀ i, .fin i ∈ deferred ↔ .fin i ∈ s.deferred := by grind
    have hsame := h.sameEnds hends.finished
    exact
      { hsame with
        fins := fun i hi => h.fins i ((hmem i).1 hi)
        pending := fun hd i hi => (hsame.pending hd i hi).imp_right (.imp_left (hmem i).2) }
  | refuse _ _ _ hcommands hnot =>
    refine { h with pending := fun hd i hi => ?_ }
    obtain rfl | hd' := hnot
    · have hpending := h.pending hd i hi
      simp only [hcommands, mem_cons, reduceCtorEq, false_or] at hpending
      exact hpending
    · exact absurd (hd.symm.trans hd') Bool.false_ne_true
  | take _ _ _ _ _ _ hcommands hdeferred _ _ hends hitems =>
    exact { (h.take hl hcommands hdeferred hitems).sameEnds hends.finished with }
  | dropData _ _ _ hdeferred => exact h.pop hdeferred (by simp)
  | sendData id chunk _ stream hdeferred hopen hstream =>
    refine { (h.pop hdeferred (by simp)).sameEnds fun i => ?_ with }
    by_cases hid : i = id
    · subst hid
      exact (accept_localFinished_self s i stream (.data chunk)).trans (hstream.trans hopen.symm)
    · exact accept_localFinished_of_ne hid stream (.data chunk)
  | sendFin _ _ _ _ hdeferred hx hstream =>
    exact h.sendFin hl hdeferred hx hstream
  | popRelease _ _ _ hdeferred => exact { h.pop hdeferred (by simp) with }

/-! ## The order of what is admitted -/

/-- What the pump itself holds for a stream. -/
def State.inHand (s : State) (id : UInt16) : List Bytes :=
  if s.localFinished id then [] else ahead id s.deferred

theorem inHand_of_finished (h : s.localFinished id = true) : s.inHand id = [] := if_pos h

theorem inHand_of_open (h : s.localFinished id = false) : s.inHand id = ahead id s.deferred :=
  if_neg (by simp [h])

theorem waiting_of_finished (h : s.localFinished id = true) : s.waiting id = [] := if_pos h

theorem waiting_of_open (h : s.localFinished id = false) : s.waiting id =
      ahead id s.deferred ++ if .fin id ∈ s.deferred then [] else writesOn id s.commands :=
  if_neg (by simp [h])

/-- The segments admitted to a stream, `data` and then `n` FINs, and what is still to come. -/
structure Ordered (s : State) (id : UInt16) (data : List Bytes) (n : Nat) : Prop where
  admitted : s.admitted id = data.map .data ++ replicate n .fin
  finished : s.localFinished id = true ↔ 0 < n
  front : data ++ s.inHand id <+: writesOn id s.queued
  all : s.draining = false → data ++ s.waiting id = writesOn id s.queued

/-- A step makes no difference to a stream and what waits for it. -/
structure SameFor (s s' : State) (id : UInt16) : Prop where
  admitted : s'.admitted id = s.admitted id
  localFinished : s'.localFinished id = s.localFinished id
  inHand : s'.inHand id = s.inHand id
  waiting : s'.draining = false → s'.waiting id = s.waiting id
  queued : s'.queued = s.queued
  draining : s'.draining = false → s.draining = false

namespace SameFor

theorem of_queues (hadmitted : s'.admitted id = s.admitted id)
    (hends : s'.localFinished id = s.localFinished id)
    (hahead : ahead id s'.deferred = ahead id s.deferred)
    (hfin : .fin id ∈ s'.deferred ↔ .fin id ∈ s.deferred)
    (hcommands : s'.draining = false → writesOn id s'.commands = writesOn id s.commands)
    (hqueued : s'.queued = s.queued) (hdraining : s'.draining = false → s.draining = false) :
    SameFor s s' id where
  admitted := hadmitted
  localFinished := hends
  inHand := by rw [State.inHand, hends, hahead, State.inHand]
  waiting hd := by
    rw [State.waiting, hends, hahead, hcommands hd, State.waiting]
    simp only [hfin]
  queued := hqueued
  draining := hdraining

theorem of_finished (hfin : s.localFinished id = true) (hfin' : s'.localFinished id = true)
    (hadmitted : s'.admitted id = s.admitted id) (hqueued : s'.queued = s.queued)
    (hdraining : s'.draining = false → s.draining = false) : SameFor s s' id where
  admitted := hadmitted
  localFinished := hfin'.trans hfin.symm
  inHand := by rw [inHand_of_finished hfin, inHand_of_finished hfin']
  waiting _ := by rw [waiting_of_finished hfin, waiting_of_finished hfin']
  queued := hqueued
  draining := hdraining

end SameFor

variable {data : List Bytes} {n : Nat} {rest : List Deferred} {x : Deferred}

namespace Ordered

section

variable (h : Ordered s id data n) {cmd : SessionCommand} {rest : List Deferred} {stream : Stream}
include h

theorem same (hs : SameFor s s' id) : Ordered s' id data n where
  admitted := hs.admitted.trans h.admitted
  finished := hs.localFinished ▸ h.finished
  front := by
    rw [hs.inHand, hs.queued]
    exact h.front
  all hd := by
    rw [hs.waiting hd, hs.queued]
    exact h.all (hs.draining hd)

theorem zero_of_open (hopen : s.localFinished id = false) : n = 0 := by
  by_contra hn
  exact absurd (hopen.symm.trans (h.finished.2 (Nat.pos_of_ne_zero hn))) Bool.false_ne_true

theorem queue (hl : Linked s) (hc : Closes s)
    (hhandle : ∀ i ∈ cmd.handle, s.handles i = .held true) :
    Ordered { s with commands := s.commands ++ [cmd], queued := s.queued ++ [cmd] } id data n := by
  refine { h with front := ?_, all := fun hd => ?_ }
  · refine h.front.trans ?_
    rw [writesOn_append]
    exact prefix_append _ _
  · show data ++ (if s.localFinished id then [] else ahead id s.deferred ++
      if .fin id ∈ s.deferred then [] else writesOn id (s.commands ++ [cmd])) =
        writesOn id (s.queued ++ [cmd])
    rw [writesOn_append, writesOn_append, ← h.all hd]
    by_cases hfin : s.localFinished id = true
    · -- a close was queued, or the handle was dropped and can queue nothing more
      have hnone : (if .closeStream id ∈ s.queued then [] else writesOn id [cmd]) = [] := by
        obtain hmem | hdropped := hc.finished id hfin
        · exact if_pos hmem
        · have hne : cmd.stream ≠ some id := Linked.stream_ne hhandle (by simp [hdropped])
            (hl.ne_raw (by simp [hdropped]))
          rw [writesOn_eq_nil (by simpa using hne), ite_self]
      rw [hnone, append_nil, if_pos hfin, waiting_of_finished hfin]
    · rw [waiting_of_open (eq_false_of_ne_true hfin), if_neg hfin]
      by_cases hdeferred : .fin id ∈ s.deferred
      · simp [hdeferred, hc.fins id hdeferred]
      · have hmem : .closeStream id ∈ s.queued ↔ .closeStream id ∈ s.commands := by
          refine ⟨fun hq => ?_, fun hq => hl.suffix.subset hq⟩
          simpa [hfin, hdeferred] using hc.pending hd id hq
        simp only [hdeferred, if_false, hmem, append_assoc]

theorem take {rest : List SessionCommand} {items : List Deferred}
    (hl : Linked s) (hcommands : s.commands = cmd :: rest)
    (hdeferred : s.deferred = []) (hdraining : s.draining = false) (hitems : Defers s cmd items) :
    Ordered { s with commands := rest, deferred := items } id data n := by
  have hmem : cmd ∈ s.commands := hcommands ▸ mem_cons_self
  by_cases hfin : s.localFinished id = true
  · exact h.same (.of_finished hfin hfin rfl rfl fun hd => hd)
  · have hopen := eq_false_of_ne_true hfin
    have htable : id ∈ s.table ∨ cmd.stream ≠ some id := by
      by_contra hnot
      rw [not_or, not_not] at hnot
      exact hfin (hl.finished_of_mem hmem hnot.2 hnot.1)
    have hall := h.all hdraining
    have hwaiting : ahead id items ++ (if .fin id ∈ items then [] else writesOn id rest) =
        s.waiting id := by
      rw [waiting_of_open hopen, hdeferred, hcommands]
      by_cases hclose : cmd = .closeStream id
      · have hid : id ∈ s.table := htable.resolve_right fun hne => ne_closeStream hne hclose
        obtain ⟨hin, hahead⟩ := hitems.close id hid hclose
        rw [if_pos hin, hahead, hclose]
        simp [ahead, writesOn]
      · rw [if_neg fun hin => hclose (hitems.fins id hin), hitems.write id htable hclose,
          writesOn_cons hclose]
        simp [ahead]
    have hinHand' : State.inHand { s with commands := rest, deferred := items } id =
        ahead id items := inHand_of_open hopen
    have hwaiting' : State.waiting { s with commands := rest, deferred := items } id =
        s.waiting id := by
      rw [← hwaiting]
      exact waiting_of_open hopen
    refine { h with front := ?_, all := fun _ => ?_ }
    · grind
    · rw [hwaiting']
      exact hall

/-- A chunk passes from the pump's queue to the stream. -/
theorem sendData {chunk : Bytes}
    (hdeferred : s.deferred = .data id chunk :: rest) (hopen : s.localFinished id = false)
    (hstream : stream.localFinished = false) :
    Ordered { s.accept id stream (.data chunk) with deferred := rest } id (data ++ [chunk]) 0 := by
  obtain rfl := h.zero_of_open hopen
  have hopen' : State.localFinished { s.accept id stream (.data chunk) with deferred := rest } id =
      false := (accept_localFinished_self s id stream (.data chunk)).trans hstream
  have hahead : ahead id s.deferred = chunk :: ahead id rest := by
    simp [*, ahead, Scan.before_cons_of_ne, Deferred.chunks]
  have hfin : .fin id ∈ s.deferred ↔ .fin id ∈ rest := by simp [hdeferred]
  refine ⟨?_, by simp [hopen'], ?_, fun hd => ?_⟩
  · show update s.admitted id _ id = _
    rw [update_self, h.admitted]
    simp
  · have hfront := h.front
    rw [inHand_of_open hopen, hahead] at hfront
    rw [inHand_of_open hopen', append_assoc]
    exact hfront
  · have hall := h.all hd
    rw [waiting_of_open hopen, hahead] at hall
    rw [waiting_of_open hopen', append_assoc]
    simp only [hfin] at hall
    exact hall

theorem sendFin (hnone : s.waiting id = []) (hstream : stream.localFinished = true) :
    Ordered { s.accept id stream .fin with deferred := rest } id data (n + 1) := by
  have hfin' : State.localFinished { s.accept id stream .fin with deferred := rest } id = true :=
    (accept_localFinished_self s id stream .fin).trans hstream
  refine ⟨?_, by simp [hfin'], ?_, fun hd => ?_⟩
  · show update s.admitted id _ id = _
    rw [update_self, h.admitted, replicate_succ', append_assoc]
  · rw [inHand_of_finished hfin', append_nil]
    exact (prefix_append _ _).trans h.front
  · have hall := h.all hd
    rw [hnone] at hall
    rw [waiting_of_finished hfin']
    exact hall

end

end Ordered

/-- The head of the pump's queue is about another stream. -/
theorem pop_other (hdeferred : s.deferred = x :: rest)
    (hfin : x ≠ .fin id) (hchunks : x.chunks id = []) :
    ahead id rest = ahead id s.deferred ∧ (.fin id ∈ rest ↔ .fin id ∈ s.deferred) := by
  rw [hdeferred]
  exact ⟨(ahead_cons hfin hchunks).symm, by rw [mem_cons, or_iff_right hfin.symm]⟩

theorem waiting_eq_nil (hl : Linked s)
    (hdeferred : s.deferred = x :: rest) (hx : x = .fin id ∨ x = .release id) :
    s.waiting id = [] := by
  by_cases hfin : s.localFinished id = true
  · exact waiting_of_finished hfin
  · rw [waiting_of_open (eq_false_of_ne_true hfin)]
    obtain rfl | rfl := hx
    · simp [hdeferred, ahead]
    · -- no chunk is behind the release, and no command of the handle is in the channel
      have hbehind := pairwise_cons.1 (hdeferred ▸ hl.behind)
      have hahead : ahead id s.deferred = [] := by
        rw [hdeferred, ahead_cons (by simp) rfl]
        apply Scan.before_eq_nil
        intro y hy
        cases y with
        | data i chunk =>
          refine if_neg fun hi => ?_
          exact hbehind.1 _ hy id chunk rfl (by rw [hi])
        | fin | release => rfl
      have hcommands := (hl.releasing id (hdeferred ▸ mem_cons_self)).2
      rw [hahead, writesOn_eq_nil hcommands, ite_self]
      rfl

theorem Moves.ordered (hm : Moves s s') (hl : Linked s)
    (hc : Closes s) (h : Ordered s id data n) : ∃ data n, Ordered s' id data n := by
  cases hm with
  | aside _ _ _ hends =>
    exact ⟨data, n, h.same
      (.of_queues rfl (hends.finished id) rfl .rfl (fun _ => rfl) rfl fun hd => hd)⟩
  | peerCloses | handOut | issue | dropUnused | dropReported | report => exact ⟨data, n, { h with }⟩
  | drain => exact ⟨data, n, { h with all := fun hd => absurd hd (by simp) }⟩
  | enter i hhandle hi =>
    refine ⟨data, n, h.same (.of_queues rfl ?_ rfl .rfl (fun _ => rfl) rfl fun hd => hd)⟩
    by_cases hid : id = i
    · subst hid
      have hopen : s.localFinished id = false := by
        apply eq_false_of_ne_true
        intro hfin
        obtain hmem | hdropped := hc.finished id hfin
        · obtain rfl | hused := hl.used _ hmem id rfl
          · exact hi hl.raw.1
          · simp [hhandle] at hused
        · simp [hhandle] at hdropped
      rw [hopen]
      simp [State.localFinished, State.setHalf, Half.new, Stream.new]
    · simp [State.localFinished, State.setHalf, hid]
  | queue _ hhandle => exact ⟨data, n, h.queue hl hc hhandle⟩
  | due i due rest streams table deferred pump hreleases hdue hends htable hdeferred
      hpump =>
    refine ⟨data, n, h.same
      (.of_queues rfl (hends.finished id) ?_ ?_ (fun _ => rfl) rfl fun hd => hd)⟩
    · obtain rfl | rfl := hdeferred
      · rfl
      · exact ahead_append_release _ _
    · obtain rfl | rfl := hdeferred
      · rfl
      · simp
  | refuse _ _ _ hcommands hnot =>
    refine ⟨data, n, h.same (.of_queues rfl rfl rfl .rfl (fun hd => ?_) rfl fun hd => hd)⟩
    obtain rfl | hd' := hnot
    · rw [hcommands, writesOn_cons (by simp)]
      rfl
    · exact absurd (hd.symm.trans hd') Bool.false_ne_true
  | take _ _ _ _ _ _ hcommands hdeferred hdraining _ hends hitems =>
    have htake := h.take hl hcommands hdeferred hdraining hitems
    exact ⟨data, n, htake.same
      (.of_queues rfl (hends.finished id) rfl .rfl (fun _ => rfl) rfl fun hd => hd)⟩
  | dropData i _ _ hdeferred hfinished =>
    by_cases hid : id = i
    · subst hid
      exact ⟨data, n, h.same (.of_finished hfinished hfinished rfl rfl fun hd => hd)⟩
    · obtain ⟨hahead, hfin⟩ := pop_other hdeferred (by simp) (if_neg (Ne.symm hid))
      exact ⟨data, n, h.same (.of_queues rfl rfl hahead hfin (fun _ => rfl) rfl fun hd => hd)⟩
  | sendData i chunk _ stream hdeferred hopen hstream =>
    by_cases hid : id = i
    · subst hid
      exact ⟨_, _, h.sendData hdeferred hopen hstream⟩
    · obtain ⟨hahead, hfin⟩ := pop_other hdeferred (by simp) (if_neg (Ne.symm hid))
      exact ⟨data, n, h.same (.of_queues (update_of_ne hid _ _)
        (accept_localFinished_of_ne hid stream (.data chunk)) hahead hfin (fun _ => rfl) rfl
        fun hd => hd)⟩
  | sendFin i x _ stream hdeferred hx hstream =>
    by_cases hid : id = i
    · subst hid
      exact ⟨_, _, h.sendFin (waiting_eq_nil hl hdeferred hx) hstream⟩
    · have hother : x ≠ .fin id ∧ x.chunks id = [] := by
        obtain rfl | rfl := hx
        · exact ⟨by simpa using Ne.symm hid, rfl⟩
        · exact ⟨by simp, rfl⟩
      obtain ⟨hahead, hfin⟩ := pop_other hdeferred hother.1 hother.2
      exact ⟨data, n, h.same (.of_queues (update_of_ne hid _ _)
        (accept_localFinished_of_ne hid stream .fin) hahead hfin (fun _ => rfl) rfl fun hd => hd)⟩
  | popRelease i _ _ hdeferred =>
    obtain ⟨hahead, hfin⟩ := pop_other hdeferred (show Deferred.release i ≠ .fin id by simp) rfl
    exact ⟨data, n, h.same (.of_queues rfl rfl hahead hfin (fun _ => rfl) rfl fun hd => hd)⟩

/-! ## Runs -/

structure Inv (s : State) : Prop where
  drains : Drains s
  linked : Linked s
  closes : Closes s
  ordered : ∀ id, ∃ data n, Ordered s id data n

theorem inv_init : Inv init where
  drains hd := nomatch hd
  linked := .init
  closes := .init
  ordered _ := ⟨[], 0, rfl, iff_of_false nofun (Nat.lt_irrefl 0), nil_prefix, fun _ => rfl⟩

theorem step_inv (h : Inv s) (hs : step side s e = some s') (hleft : OffsetsLeft s e s') :
    Inv s' := by
  have hm := step_moves h.drains hleft hs
  refine ⟨hm.drains h.drains, hm.linked h.linked, hm.closes h.linked h.closes, fun id => ?_⟩
  obtain ⟨data, n, hordered⟩ := h.ordered id
  exact hm.ordered h.linked h.closes hordered

/-- **Writes reach the stream in order and ahead of its close.** Whatever is admitted to a stream is
chunks, in the order in which they were queued ahead of its first close, and then FINs. Unless the
pump refuses commands because the peer has closed, a chunk is lost nowhere on the way, and a FIN is
admitted only behind the last of them. -/
theorem writes_ahead_of_close (side : Side) (es : List Event) (s : State)
    (hrun : Lts.run (step side) init es = some s)
    (hleft : Lts.Along (step side) OffsetsLeft init es) (id : UInt16) :
    ∃ data n, s.admitted id = data.map .data ++ replicate n .fin ∧
      data <+: writesOn id s.queued ∧
      (s.draining = false → data ++ s.waiting id = writesOn id s.queued ∧
        (0 < n → s.waiting id = [])) := by
  have hkeep : ∀ s e s', Inv s → step side s e = some s' → OffsetsLeft s e s' → Inv s' :=
    fun _ _ _ => step_inv
  have hinv := Lts.run_inv_along hkeep es inv_init hleft hrun
  obtain ⟨data, n, h⟩ := hinv.ordered id
  refine ⟨data, n, h.admitted, (prefix_append _ _).trans h.front, fun hd => ⟨h.all hd, ?_⟩⟩
  intro hn
  exact waiting_of_finished (h.finished.2 hn)

/-- A handle writes and is dropped; the report is taken before the write. -/
def writeThenDrop : List Event :=
  [.enter 3, .handOut 3, .issue 3, .queue (.sendStreamReliable 3 [7]), .drop 3, .takeReport,
    .takeReport, .releaseItem, .command, .flushItem, .flushItem, .releaseItem, .releaseItem,
    .flushItem, .flushItem]

theorem writes_ahead_of_close_writeThenDrop :
    ∃ s, Lts.run (step .client) init writeThenDrop = some s ∧
      s.admitted 3 = [.data [7], .fin] ∧ s.draining = false ∧
      ∃ data n, s.admitted 3 = data.map .data ++ replicate n .fin ∧
        data <+: writesOn 3 s.queued ∧
        (s.draining = false → data ++ s.waiting 3 = writesOn 3 s.queued ∧
          (0 < n → s.waiting 3 = [])) := by
  obtain ⟨s, hrun, hadmitted, hdraining⟩ :
      ∃ s, Lts.run (step .client) init writeThenDrop = some s ∧
        s.admitted 3 = [.data [7], .fin] ∧ s.draining = false := ⟨_, rfl, by decide, rfl⟩
  exact ⟨s, hrun, hadmitted, hdraining, writes_ahead_of_close .client writeThenDrop s hrun
    (offsetsLeft_of_length .client writeThenDrop (by simp [writeThenDrop, u32Max])) 3⟩

/-! ## Draining -/

/-- A second write is queued before the pump sees that the peer has closed, and the handle is
dropped after the pump has refused it. -/
def writeThenDrain : List Event :=
  [.enter 3, .handOut 3, .issue 3, .queue (.sendStreamReliable 3 [7]), .command, .flushItem,
    .flushItem, .releaseItem, .queue (.sendStreamReliable 3 [8]), .peerCloses, .tick, .command,
    .releaseItem, .drop 3, .takeReport, .takeReport, .releaseItem, .releaseItem, .flushItem]

/-- The FIN of the drop is admitted and the second write, queued before it, never will be. -/
theorem fin_without_refused_write :
    Lts.Along (step .client) OffsetsLeft init writeThenDrain ∧
      ∃ s, Lts.run (step .client) init writeThenDrain = some s ∧
        s.handles 3 = .dropped ∧ writesOn 3 s.queued = [[7], [8]] ∧
        s.admitted 3 = [.data [7], .fin] ∧ s.waiting 3 = [] := by
  refine ⟨offsetsLeft_of_length .client writeThenDrain ?_, _, rfl, by decide⟩
  simp [writeThenDrain, u32Max]

end CommandPump

end PhantomProtocol
