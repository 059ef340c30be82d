import PhantomProtocol.Api.Proof.StreamTable
import PhantomProtocol.Api.StreamSlots

/-!
# When the acceptor has a slot for every stream

Both tables count exactly (`StreamTable.Counts`), but the same stream is counted from different
events to different events. What the acceptor holds, the opener holds too or has given back early
(`Tied.peerOpen_lt`); no stream is refused as long as `open_stream` counts both
(`never_refused`). It counts only the first: `opener_gives_back_first` ends with a stream that is
handed out and refused.
-/

namespace PhantomProtocol.StreamSlots

open List Option Finset Lts

variable {ep ep' peer : Endpoint} {a : Action} {side : Side} {s s' : State} {id k : Nat}
  {e : StreamTable.Event} {t : StreamTable.State}

/-! ## What an action does -/

/-- The event of the table that an action is. -/
def Action.tableEvent (segments : List (UInt16 × OutboundSegment)) :
    Action → Option StreamTable.Event
  | .claim => some .claim
  | .allocate => some .allocate
  | .undo => some .undo
  | .insert id => some (.insertLocal id.toNat)
  | .close id => some (.exhaust id.toNat)
  | .retireReleased id => some (.release id.toNat)
  | .arrive i => segments[i]?.map fun p => .segment p.1
  | .classify => some .classify
  | .check => some .check
  | .insertPeer => some .insertPeer
  | .markSeen => some .markSeen
  | .countPeer => some .countPeer
  | .retire id => some (.retire id.toNat)
  | .countRetired => some .countRetired
  | .countReleased id => some (.countReleased id.toNat)
  | .write .. | .release .. | .transmit .. | .accept .. | .ackArrive .. => none

theorem onTable_some (h : ep.onTable e = some ep') :
    ∃ t, StreamTable.step ep.table e = some t ∧ ep' = { ep with table := t } := by
  obtain ⟨t, ht, heq⟩ := map_eq_some_iff.1 h
  exact ⟨t, ht, heq.symm⟩

/-- What an action does to the table and to the wire. -/
structure Acts (ep peer : Endpoint) (a : Action) (ep' : Endpoint) : Prop where
  table : ep'.table = ep.table ∨ ∃ e, a.tableEvent peer.segments = some e ∧
    StreamTable.step ep.table e = some ep'.table
  segments : ep'.segments = ep.segments ∨ ∃ p, ep.holds p.1 ∧ ep'.segments = ep.segments ++ [p]

theorem Acts.ofTable
    (ha : a.tableEvent peer.segments = some e) (ht : StreamTable.step ep.table e = some t)
    (htable : ep'.table = t) (hsegments : ep'.segments = ep.segments) : Acts ep peer a ep' :=
  ⟨.inr ⟨e, ha, htable ▸ ht⟩, .inl hsegments⟩

theorem Acts.aside (htable : ep'.table = ep.table) (hsegments : ep'.segments = ep.segments) :
    Acts ep peer a ep' :=
  ⟨.inl htable, .inl hsegments⟩

@[simp] theorem unlessOpening_table (ep : Endpoint) : ep.unlessOpening.table = ep.table := by
  unfold Endpoint.unlessOpening
  split <;> rfl

@[simp] theorem unlessOpening_segments (ep : Endpoint) :
    ep.unlessOpening.segments = ep.segments := by
  unfold Endpoint.unlessOpening
  split <;> rfl

theorem close_acts {id : UInt16} (hid : ep.holds id) (h : ep.close id = some ep') :
    Acts ep peer (.close id) ep' := by
  unfold Endpoint.close at h
  split at h
  · cases h
    exact .aside rfl rfl
  · obtain ⟨ep₁, h₁, rfl⟩ := map_eq_some_iff.1 h
    obtain ⟨t, ht, rfl⟩ := onTable_some h₁
    exact ⟨.inr ⟨_, rfl, ht⟩, .inr ⟨_, hid, rfl⟩⟩

theorem transmit_acts {id : UInt16} (hid : ep.holds id)
    (polled : Stream × Except SendBlocked OutboundSegment) :
    Acts ep peer a (ep.transmit id polled) := by
  unfold Endpoint.transmit
  split
  · exact ⟨.inl rfl, .inr ⟨_, hid, rfl⟩⟩
  · exact .aside rfl rfl

theorem arrive_acts {i : Nat} {p : UInt16 × OutboundSegment} (hp : peer.segments[i]? = some p)
    (h : ep.arrive p.1 p.2 = some ep') : Acts ep peer (.arrive i) ep' := by
  unfold Endpoint.arrive at h
  split at h
  · obtain ⟨ep₁, h₁, rfl⟩ := map_eq_some_iff.1 h
    obtain ⟨t, ht, rfl⟩ := onTable_some h₁
    exact .ofTable (by simp [Action.tableEvent, hp]) ht rfl rfl
  · split at h <;> cases h <;> exact .aside rfl rfl

theorem act_acts (h : ep.act peer a = some ep') : Acts ep peer a ep' := by
  cases a with
  | claim | allocate | undo | markSeen | countPeer | countRetired | countReleased w =>
    obtain ⟨t, ht, rfl⟩ := onTable_some h
    exact .ofTable rfl ht rfl rfl
  | insert =>
    obtain ⟨ep₁, h₁, rfl⟩ := map_eq_some_iff.1 h
    obtain ⟨t, ht, rfl⟩ := onTable_some h₁
    exact .ofTable rfl ht rfl rfl
  | check =>
    obtain ⟨ep₁, h₁, rfl⟩ := map_eq_some_iff.1 h
    obtain ⟨t, ht, rfl⟩ := onTable_some h₁
    exact .ofTable rfl ht (unlessOpening_table _) (unlessOpening_segments _)
  | write w data | release w =>
    simp only [Endpoint.act, ite_none_right_eq_some] at h
    cases h.2
    exact .aside rfl rfl
  | close =>
    simp only [Endpoint.act, ite_none_right_eq_some] at h
    exact close_acts h.1 h.2
  | transmit w _ _ _ _ _ =>
    simp only [Endpoint.act, ite_none_right_eq_some] at h
    cases h.2
    exact transmit_acts h.1 _
  | retireReleased w | retire w =>
    simp only [Endpoint.act, ite_none_right_eq_some] at h
    obtain ⟨t, ht, rfl⟩ := onTable_some h.2
    exact .ofTable rfl ht rfl rfl
  | arrive =>
    simp only [Endpoint.act, ite_none_right_eq_some] at h
    obtain ⟨p, hp, hep⟩ := bind_eq_some_iff.1 h.2
    exact arrive_acts hp hep
  | classify =>
    obtain ⟨p, -, hep⟩ := bind_eq_some_iff.1 h
    obtain ⟨ep₁, h₁, rfl⟩ := map_eq_some_iff.1 hep
    obtain ⟨t, ht, rfl⟩ := onTable_some h₁
    exact .ofTable rfl ht (unlessOpening_table _) (unlessOpening_segments _)
  | insertPeer =>
    obtain ⟨p, -, hep⟩ := bind_eq_some_iff.1 h
    obtain ⟨ep₁, h₁, rfl⟩ := map_eq_some_iff.1 hep
    obtain ⟨t, ht, rfl⟩ := onTable_some h₁
    exact .ofTable rfl ht rfl rfl
  | accept =>
    simp only [Endpoint.act, ite_none_right_eq_some] at h
    obtain ⟨p, -, rfl⟩ := map_eq_some_iff.1 h.2
    exact .aside rfl rfl
  | ackArrive =>
    simp only [Endpoint.act, ite_none_right_eq_some] at h
    obtain ⟨p, -, rfl⟩ := map_eq_some_iff.1 h.2
    split <;> exact .aside rfl rfl

/-! ## The tie between the two counts -/

theorem occupies_iff : Occupies t id ↔ id ∈ t.table ∨ id ∈ t.leavers := by
  unfold Occupies StreamTable.State.leavers
  cases t.reader <;> simp [StreamTable.Reader.retired, eq_comm]

structure Kept (side : Side) (t : StreamTable.State) : Prop where
  sound : StreamTable.Sound side t
  apart : StreamTable.Apart t

theorem kept_init (side : Side) : Kept side (StreamTable.init side) :=
  ⟨⟨StreamTable.ids_init side, StreamTable.counts_init side⟩, StreamTable.apart_init side⟩

theorem Kept.step {t t' : StreamTable.State} (h : Kept side t)
    (hs : StreamTable.step t e = some t') : Kept side t' :=
  ⟨h.sound.step hs, h.apart.step h.sound.1 hs⟩

theorem Kept.act (h : Kept side ep.table) (hacts : Acts ep peer a ep') : Kept side ep'.table := by
  rcases hacts.table with heq | ⟨e, -, hs⟩
  · rw [heq]
    exact h
  · exact h.step hs

/-- A segment of the stream is on the wire. -/
def Wired (s : State) (id : Nat) : Prop := ∃ p ∈ s.opener.segments, p.1.toNat = id

structure Tied (side : Side) (s : State) : Prop where
  opener : Kept side s.opener.table
  acceptor : Kept side.other s.acceptor.table
  opened : ∀ id ∈ s.opener.table.entered.map (·.1), Owned side id
  ours : ∀ id, Wired s id → Owned side id
  echoed : ∀ p ∈ s.acceptor.segments, Owned side p.1.toNat
  openerSeeks : ∀ id, s.opener.table.reader.seeks = some id → Owned side id
  /-- The acceptor has opened, and is about to open, what is on the wire. -/
  entered : ∀ id ∈ s.acceptor.table.entered.map (·.1), Wired s id
  seeks : ∀ id, s.acceptor.table.reader.seeks = some id → Wired s id
  budget : s.opener.table.gauge.localOpen + (givenBackEarly s).card ≤ maxStreams

theorem tied_init (side : Side) : Tied side (init side) where
  opener := kept_init side
  acceptor := kept_init side.other
  opened _ h := nomatch h
  ours _ h := nomatch h.choose_spec.1
  echoed _ h := nomatch h
  openerSeeks _ h := nomatch h
  entered _ h := nomatch h
  seeks _ h := nomatch h
  budget := Nat.zero_le _

section Moves

variable {t t' : StreamTable.State} {e : StreamTable.Event}

section

variable (h : StreamTable.Moves t e t')
include h

/-- A slot is kept until it is counted out. -/
theorem occupies_of_moves (hid : Occupies t id) : Occupies t' id ∨ id ∈ t.leavers ∧
      (e = .countRetired ∧ t.reader = .retiring id ∨ e = .countReleased id) := by
  rw [occupies_iff] at hid ⊢
  cases h with
  | keep htable hleavers =>
    rw [htable, hleavers]
    exact .inl hid
  | enter | leave | count => grind

/-- A slot that was given back stays free. -/
theorem not_occupies_of_moves (hgt : 1 < id)
    (hentered : id ∈ t.entered.map (·.1)) (hid : ¬Occupies t id) : ¬Occupies t' id := by
  rw [occupies_iff, not_or] at hid ⊢
  cases h with
  | keep htable hleavers =>
    rw [htable, hleavers]
    exact hid
  | enter | leave | count => grind

theorem entered_of_moves :
    t'.entered = t.entered ∨ ∃ w entry, t'.entered = (w, entry) :: t.entered ∧
      (t.reader = .admitted w ∨ e = .insertLocal w ∨ e = .rawApp) := by
  cases h with
  | keep _ _ hentered => exact .inl hentered
  | enter w entry hby _ _ _ hentered => exact .inr ⟨w, entry, hentered, hby⟩
  | leave _ _ _ _ hentered => exact .inl hentered
  | count _ _ _ _ hentered => exact .inl hentered

end

end Moves

theorem tableEvent_ne_rawApp (a : Action) (segments : List (UInt16 × OutboundSegment)) :
    a.tableEvent segments ≠ some .rawApp := by
  cases a <;> simp [Action.tableEvent]

/-- A segment is looked up because it has arrived. -/
theorem tableEvent_segment {segments : List (UInt16 × OutboundSegment)} {w : UInt16}
    (h : a.tableEvent segments = some (.segment w)) : ∃ p ∈ segments, p.1 = w := by
  cases a <;> simp only [Action.tableEvent, Option.some.injEq, reduceCtorEq] at h
  case arrive i => grind

theorem seeks_of_acts (hacts : Acts ep peer a ep') (hid : ep'.table.reader.seeks = some id) :
    ep.table.reader.seeks = some id ∨ ∃ p ∈ peer.segments, p.1.toNat = id := by
  rcases hacts.table with heq | ⟨e, ha, hs⟩
  · exact .inl (heq ▸ hid)
  · grind [StreamTable.step_seeks, tableEvent_segment]

theorem entered_of_acts (h : Kept side ep.table) (hacts : Acts ep peer a ep')
    (hid : id ∈ ep'.table.entered.map (·.1)) :
    id ∈ ep.table.entered.map (·.1) ∨ ep.table.reader.seeks = some id ∧
        ep.table.reader = .admitted id ∨
      id ∈ ep.table.allocated ∧ a.opens = true := by
  rcases hacts.table with heq | ⟨e, ha, hs⟩
  · exact .inl (heq ▸ hid)
  · have hmoves := StreamTable.step_moves h.sound.1 hs
    rcases entered_of_moves hmoves with hsame | ⟨w, entry, hcons, hby⟩
    · exact .inl (hsame ▸ hid)
    · rw [hcons, List.map_cons, List.mem_cons] at hid
      rcases hid with rfl | hid
      · rcases hby with hr | rfl | rfl
        · exact .inr (.inl ⟨by rw [hr]; rfl, hr⟩)
        · right
          right
          simp only [StreamTable.step, ite_none_right_eq_some] at hs
          refine ⟨hs.1, ?_⟩
          cases a <;> simp [Action.tableEvent] at ha
          rfl
        · exact absurd ha (tableEvent_ne_rawApp a _)
      · exact .inl hid

theorem wired_of_acts (hacts : Acts s.opener peer a ep') (hid : Wired { s with opener := ep' } id) :
    Wired s id ∨ id ∈ s.opener.table.table := by
  obtain ⟨p, hp, rfl⟩ := hid
  rcases hacts.segments with heq | ⟨q, hq, happend⟩
  · exact .inl ⟨p, heq ▸ hp, rfl⟩
  · rw [happend, List.mem_append, List.mem_singleton] at hp
    rcases hp with hp | rfl
    · exact .inl ⟨p, hp, rfl⟩
    · exact .inr hq

theorem Wired.mono (hacts : Acts s.opener peer a ep') (hid : Wired s id) :
    Wired { s with opener := ep' } id := by
  obtain ⟨p, hp, heq⟩ := hid
  refine ⟨p, ?_, heq⟩
  rcases hacts.segments with hsame | ⟨q, -, happend⟩
  · exact hsame ▸ hp
  · rw [happend]
    exact mem_append_left _ hp

theorem mem_givenBackEarly : id ∈ givenBackEarly s ↔
    Wired s id ∧ ¬Occupies s.opener.table id ∧ ¬Finished s id := by
  simp [givenBackEarly, Wired]

theorem givenBackEarly_of_acts (hacts : Acts s.opener s.acceptor a ep')
    (hid : id ∈ givenBackEarly { s with opener := ep' }) :
    id ∈ givenBackEarly s ∨ Occupies s.opener.table id ∧ ¬Occupies ep'.table id := by
  obtain ⟨hwired, hfree, hnot⟩ := mem_givenBackEarly.1 hid
  by_cases hocc : Occupies s.opener.table id
  · exact .inr ⟨hocc, hfree⟩
  · obtain hold | hmem := wired_of_acts hacts hwired
    · exact .inl (mem_givenBackEarly.2 ⟨hold, hocc, hnot⟩)
    · exact absurd (.inl hmem) hocc

theorem Tied.owned_of_wired (h : Tied side s) (hacts : Acts s.opener s.acceptor a ep')
    (hid : Wired { s with opener := ep' } id) : Owned side id := by
  obtain hold | hmem := wired_of_acts hacts hid
  · exact h.ours id hold
  · exact h.opened id (h.opener.sound.1.held id hmem)

/-- A slot that is given back early is counted out by this step, so that the sum stays. -/
theorem Tied.openerBudget (h : Tied side s) (hacts : Acts s.opener s.acceptor a ep')
    (hroom : ClaimsWithRoom s (.opener a) { s with opener := ep' }) :
    ep'.table.gauge.localOpen + (givenBackEarly { s with opener := ep' }).card ≤ maxStreams := by
  have hbudget := h.budget
  by_cases hsub : givenBackEarly { s with opener := ep' } ⊆ givenBackEarly s
  · have hcard := card_le_card hsub
    obtain heq | ⟨e, ha, hs⟩ := hacts.table
    · rw [heq]
      omega
    · obtain hle | ⟨rfl, hlt, hclaim⟩ := StreamTable.localOpen_step h.opener.sound hs
      · omega
      · have hopen : a = .claim := by
          cases a <;> simp [Action.tableEvent] at ha
          rfl
        have := hroom (by rw [hopen]) hlt
        omega
  · obtain ⟨w, hw, hnew⟩ := not_subset.1 hsub
    obtain ⟨hocc, hfree⟩ := (givenBackEarly_of_acts hacts hw).resolve_left hnew
    obtain heq | ⟨e, -, hs⟩ := hacts.table
    · exact absurd (heq ▸ hocc) hfree
    · have hmoves := StreamTable.step_moves h.opener.sound.1 hs
      have hby := (occupies_of_moves hmoves hocc).resolve_left hfree
      have hone : givenBackEarly { s with opener := ep' } ⊆ insert w (givenBackEarly s) := by
        intro id hid
        obtain hold | ⟨hocc', hfree'⟩ := givenBackEarly_of_acts hacts hid
        · exact Finset.mem_insert_of_mem hold
        · have hby' := (occupies_of_moves hmoves hocc').resolve_left hfree'
          grind
      have howned := h.owned_of_wired hacts (mem_givenBackEarly.1 hw).1
      have hcount := StreamTable.localOpen_count h.opener.sound hs howned hby.2
      have hcard := (card_le_card hone).trans (card_insert_le _ _)
      omega

theorem Tied.openerStep (h : Tied side s) (hacts : Acts s.opener s.acceptor a ep')
    (hroom : ClaimsWithRoom s (.opener a) { s with opener := ep' }) :
    Tied side { s with opener := ep' } where
  opener := h.opener.act hacts
  acceptor := h.acceptor
  opened id hid := by
    rcases entered_of_acts h.opener hacts hid with hold | ⟨hseeks, hr⟩ | ⟨halloc, -⟩
    · exact h.opened id hold
    · exact h.openerSeeks id hseeks
    · exact (h.opener.sound.1.allocated id halloc).1
  ours _ hid := h.owned_of_wired hacts hid
  echoed := h.echoed
  openerSeeks id hid := by
    rcases seeks_of_acts hacts hid with hold | ⟨p, hp, rfl⟩
    · exact h.openerSeeks id hold
    · exact h.echoed p hp
  entered id hid := (h.entered id hid).mono hacts
  seeks id hid := (h.seeks id hid).mono hacts
  budget := h.openerBudget hacts hroom

theorem Finished.mono (h : Kept side s.acceptor.table) (hgt : 1 < id)
    (hacts : Acts s.acceptor peer a ep') (hid : Finished s id) :
    Finished { s with acceptor := ep' } id := by
  obtain ⟨hentered, hfree⟩ := hid
  obtain heq | ⟨e, -, hs⟩ := hacts.table
  · simp [Finished, *]
  · have hmoves := StreamTable.step_moves h.sound.1 hs
    refine ⟨?_, not_occupies_of_moves hmoves hgt hentered hfree⟩
    obtain hsame | ⟨w, entry, hcons, -⟩ := entered_of_moves hmoves
    · exact hsame ▸ hentered
    · rw [hcons]
      exact mem_cons_of_mem _ hentered

/-- The acceptor moves, and opens no stream of its own. -/
theorem Tied.acceptorStep (h : Tied side s) (hopens : a.opens = false)
    (hacts : Acts s.acceptor s.opener a ep') : Tied side { s with acceptor := ep' } :=
  { h with
    acceptor := h.acceptor.act hacts
    echoed p hp := by
      rcases hacts.segments with heq | ⟨q, hq, happend⟩
      · exact h.echoed p (heq ▸ hp)
      · rw [happend, List.mem_append, List.mem_singleton] at hp
        rcases hp with hp | rfl
        · exact h.echoed p hp
        · exact h.ours _ (h.entered _ (h.acceptor.sound.1.held _ hq))
    entered id hid := by
      rcases entered_of_acts h.acceptor hacts hid with hold | ⟨hseeks, -⟩ | ⟨-, hopen⟩
      · exact h.entered id hold
      · exact h.seeks id hseeks
      · rw [hopens] at hopen
        cases hopen
    seeks id hid := by
      rcases seeks_of_acts hacts hid with hold | hwired
      · exact h.seeks id hold
      · exact hwired
    budget := by
      refine le_trans (Nat.add_le_add_left (card_le_card fun id hid => ?_) _) h.budget
      obtain ⟨hwired, hfree, hnot⟩ := mem_givenBackEarly.1 hid
      refine mem_givenBackEarly.2 ⟨hwired, hfree, fun hfinished => hnot ?_⟩
      exact hfinished.mono h.acceptor (h.ours id hwired).1 hacts }

theorem Tied.step {e : Event} (h : Tied side s) (hs : step s e = some s')
    (hroom : ClaimsWithRoom s e s') : Tied side s' := by
  cases e with
  | opener =>
    obtain ⟨ep', hact, rfl⟩ := map_eq_some_iff.1 hs
    exact h.openerStep (act_acts hact) hroom
  | acceptor =>
    simp only [StreamSlots.step, ite_none_left_eq_some] at hs
    obtain ⟨ep', hact, rfl⟩ := map_eq_some_iff.1 hs.2
    exact h.acceptorStep (by simpa using hs.1) (act_acts hact)

theorem Tied.peerOpen_lt (h : Tied side s) (hr : s.acceptor.table.reader = .opens id) :
    s.acceptor.table.gauge.peerOpen < maxStreams := by
  have hwired : Wired s id := h.seeks id (by rw [hr]; rfl)
  have howned := h.ours id hwired
  have hnew : id ∉ s.acceptor.table.entered.map (·.1) :=
    h.acceptor.sound.1.not_entered howned.1 (.inl hr)
  have hload (w : Nat) (hwired : Wired s w) (hnot : ¬Finished s w) :
      w ∈ s.opener.table.slots side ∪ givenBackEarly s := by
    by_cases hocc : Occupies s.opener.table w
    · exact mem_union_left _ (StreamTable.mem_slots.2 ⟨h.ours w hwired, occupies_iff.1 hocc⟩)
    · exact mem_union_right _ (mem_givenBackEarly.2 ⟨hwired, hocc, hnot⟩)
  have hsub : s.acceptor.table.slots side ⊆
      (s.opener.table.slots side ∪ givenBackEarly s).erase id := by
    intro w hw
    obtain ⟨hown, hocc⟩ := StreamTable.mem_slots.1 hw
    have hentered : w ∈ s.acceptor.table.entered.map (·.1) := by
      rcases hocc with hmem | hmem
      · exact h.acceptor.sound.1.held w hmem
      · exact (h.acceptor.apart.gone w hmem hown.1).2
    refine mem_erase.2 ⟨?_, hload w (h.entered w hentered) fun hfinished => ?_⟩
    · rintro rfl
      exact hnew hentered
    · exact hfinished.2 (occupies_iff.2 hocc)
  have hid := hload id hwired fun hfinished => hnew hfinished.1
  have hle := card_le_card hsub
  have hone := card_erase_add_one hid
  have hunion := card_union_le (s.opener.table.slots side) (givenBackEarly s)
  rw [h.acceptor.apart.card_slots] at hle
  rw [h.opener.apart.card_slots] at hunion
  have hours := h.opener.sound.2.ours
  have hbudget := h.budget
  have htheirs := h.acceptor.sound.2.theirs
  rw [Side.other_other] at htheirs
  omega

/-- In every run in which `open_stream` claims a slot only while the streams it counts and those it
has given back early are fewer than the limit, no stream is refused. -/
theorem never_refused (side : Side) (es : List Event)
    (hroom : Along step ClaimsWithRoom (init side) es) :
    Along step (fun s e _ => ¬Refuses s e) (init side) es := by
  refine along_of_inv (fun s e s' h hs hroom => Tied.step h hs hroom) ?_ es (tied_init side)
    hroom
  intro s e s' h hs _ hrefuses
  match e, hrefuses with
  | .acceptor .check, ⟨⟨id, hr⟩, hfull⟩ =>
    have := h.peerOpen_lt hr
    omega

/-- The opener closes and drops a stream that the acceptor keeps, and opens another. -/
def openerFirst : List Event :=
  [.opener .claim, .opener .allocate, .opener (.insert 3), .opener (.close 3),
    .opener (.transmit 3 0 0 0 false 0),
    .acceptor (.arrive 0), .acceptor .classify, .acceptor .check, .acceptor .insertPeer,
    .acceptor .markSeen, .acceptor .countPeer, .acceptor (.accept 0 true),
    .opener (.ackArrive 0 0), .opener (.release 3), .opener (.retireReleased 3),
    .opener (.countReleased 3),
    .opener .claim, .opener .allocate, .opener (.insert 5), .opener (.close 5),
    .opener (.transmit 5 0 0 0 false 0),
    .acceptor (.arrive 1), .acceptor .classify, .acceptor .check]

theorem never_refused_openerFirst :
    (run step (init .client) openerFirst).map givenBackEarly = some {3} ∧
      Along step ClaimsWithRoom (init .client) openerFirst ∧
      Along step (fun s e _ => ¬Refuses s e) (init .client) openerFirst :=
  ⟨by decide, by decide, never_refused .client openerFirst (by decide)⟩

/-! ## The opener gives its slots back first -/

/-- The FIN of a stream on which nothing was written. -/
def firstFin : OutboundSegment where
  streamOffset := 0
  data := []
  reliable := true
  retransmit := false
  firstRetransmit := false
  lossCause := none
  fin := true

/-- Such a stream at the opener: the FIN is queued, and sent. -/
def finQueued : Half := { Half.new with stream := Half.new.stream.tryQueueFin.1 }
def finSent : Half := { finQueued with stream := (finQueued.stream.pollSend 0 0 0 false 0).1 }

def finAccepted : Half := (Half.new.accept firstFin 0 true).1

theorem close_new {id : UInt16} (h : ep.streams id = .new) :
    ep.close id = some (ep.setHalf id finQueued) := by
  unfold Endpoint.close Endpoint.setStream
  rw [h]
  rfl

theorem transmit_fin {id : UInt16} (h : ep.streams id = finQueued) :
    ep.transmit id (finQueued.stream.pollSend 0 0 0 false 0) =
      { ep.setHalf id finSent with segments := ep.segments ++ [(id, firstFin)] } := by
  unfold Endpoint.transmit Endpoint.setStream
  rw [h]
  rfl

theorem fin_acked : ∃ sack, (Half.new.accept firstFin 0 true).2 = some sack ∧
    ({ finSent with stream := (finSent.stream.onSack sack 0).1, appReleased := true } :
      Half).isRetirable = true := by
  apply (any_eq_true _ _).1
  decide

/-- The opener before it opens stream `n`. -/
def openerAt (n : Nat) (streams : UInt16 → Half) (segments : List (UInt16 × OutboundSegment))
    (acks : List (UInt16 × Sack)) (entered : List (Nat × StreamTable.Entry)) : Endpoint where
  table :=
    { gauge := ⟨0, 0, 1⟩, demux := ⟨3, n⟩, peerStreams := ⟨∅⟩, table := ∅, claimed := 0, failed := 0
      allocated := ∅, reader := .idle, releasing := [], entered }
  streams
  handling := none
  segments
  acks

/-- After it has opened the stream, closed it and sent the FIN. -/
def openerSent (n : Nat) (id : UInt16) (ep : Endpoint) : Endpoint :=
  { ep with
    table :=
      { ep.table with
        gauge := ⟨1, 0, 1⟩
        demux := ⟨3, n + 2⟩
        table := {n}
        entered := (n, .openStream) :: ep.table.entered }
    streams := Function.update ep.streams id finSent
    segments := ep.segments ++ [(id, firstFin)] }

/-- The acceptor with `k` of the streams. -/
def acceptorAt (k : Nat) (seen table : Finset Nat) (streams : UInt16 → Half)
    (segments : List (UInt16 × OutboundSegment)) (acks : List (UInt16 × Sack))
    (entered : List (Nat × StreamTable.Entry)) : Endpoint where
  table :=
    { gauge := ⟨0, k, 0⟩, demux := ⟨2, 2⟩, peerStreams := ⟨seen⟩, table, claimed := 0
      failed := 0, allocated := ∅, reader := .idle, releasing := [], entered }
  streams
  handling := none
  segments
  acks

/-- The acceptor has looked stream `n` up for a segment, and is about to check for a slot. -/
def Endpoint.looking (ep : Endpoint) (n : Nat) (arrived : UInt16 × OutboundSegment) : Endpoint :=
  { ep with table := { ep.table with reader := .opens n }, handling := some arrived }

section Round

variable {n k : Nat} {id : UInt16} {streams streams' : UInt16 → Half}
  {segments segments' : List (UInt16 × OutboundSegment)} {acks acks' : List (UInt16 × Sack)}
  {entered entered' : List (Nat × StreamTable.Entry)} {seen table : Finset Nat}

section

variable (hid : id.toNat = n) {sack : Sack}
include hid

theorem opener_sends (hn : n ≤ lastStreamId) (acceptor : Endpoint) :
    run step ⟨openerAt n streams segments acks entered, acceptor⟩
      [.opener .claim, .opener .allocate, .opener (.insert id), .opener (.close id),
        .opener (.transmit id 0 0 0 false 0)] =
      some ⟨openerSent n id (openerAt n streams segments acks entered), acceptor⟩ := by
  subst hid
  simp [run, step, Endpoint.act, Endpoint.onTable, StreamTable.step, openerAt, openerSent,
    StreamGauge.tryOpenLocal, maxStreams, StreamDemultiplexer.openStream, hn,
    StreamTable.State.insert, Endpoint.setHalf, Endpoint.holds, close_new, transmit_fin]

/-- The FIN arrives, and its stream is new. -/
theorem acceptor_looks (hodd : n % 2 = 1) (hseen : n / 2 ∉ seen)
    (htable : n ∉ table) {opener : Endpoint}
    (hsegments : opener.segments = segments ++ [(id, firstFin)]) :
    run step ⟨opener, acceptorAt k seen table streams' segments' acks' entered'⟩
      [.acceptor (.arrive segments.length), .acceptor .classify] =
      some ⟨opener, (acceptorAt k seen table streams' segments' acks' entered').looking n
        (id, firstFin)⟩ := by
  subst hid
  have hclass : classifyUnheldStream id.toNat ⟨2, 2⟩ ⟨seen⟩ = .opens := by
    simp [classifyUnheldStream, StreamDemultiplexer.isLocalStreamId, hodd, PeerStreamIds.hasSeen,
      hseen]
  simp [run, step, Endpoint.act, Endpoint.onTable, StreamTable.step, acceptorAt, hsegments,
    Endpoint.awaits, Endpoint.arrive, show firstFin.reliable = true from rfl, Action.opens, htable,
    Endpoint.classify, hclass, Endpoint.unlessOpening, Endpoint.looking]

theorem acceptor_opens (hodd : n % 2 = 1) (hgt : 1 < n) (hk : k < maxStreams)
    (hsack : (Half.new.accept firstFin 0 true).2 = some sack) (opener : Endpoint) :
    run step ⟨opener, (acceptorAt k seen table streams' segments' acks' entered').looking n
        (id, firstFin)⟩
      [.acceptor .check, .acceptor .insertPeer, .acceptor .markSeen, .acceptor .countPeer,
        .acceptor (.accept 0 true)] =
      some ⟨opener, acceptorAt (k + 1) (insert (n / 2) seen) (insert n table)
        (Function.update streams' id finAccepted) segments' (acks' ++ [(id, sack)])
        ((n, .segment) :: entered')⟩ := by
  subst hid
  have hcount : StreamGauge.opened ⟨0, k, 0⟩ id.toNat = ⟨0, k + 1, 0⟩ := by
    simp [StreamGauge.opened, StreamGauge.onSide, StreamGauge.isLocal, hodd, Nat.not_le.2 hgt]
  simp [run, step, Endpoint.act, Endpoint.onTable, StreamTable.step, acceptorAt, Action.opens,
    Endpoint.looking, Nat.not_le.2 hk, Nat.not_le.2 hgt, Endpoint.unlessOpening,
    StreamTable.State.insert, Endpoint.setHalf, PeerStreamIds.markSeen, hcount, Endpoint.accept, hsack,
    finAccepted]

theorem opener_gives_back (hodd : n % 2 = 1) (hgt : 1 < n) (hretirable : ({ finSent with
      stream := (finSent.stream.onSack sack 0).1, appReleased := true } : Half).isRetirable = true)
    {acceptor : Endpoint} (hacks : acceptor.acks = acks' ++ [(id, sack)]) :
    run step ⟨openerSent n id (openerAt n streams segments acks entered), acceptor⟩
      [.opener (.ackArrive acks'.length 0), .opener (.release id), .opener (.retireReleased id),
        .opener (.countReleased id)] =
      some ⟨openerAt (n + 2) (Function.update streams id { finSent with
        stream := (finSent.stream.onSack sack 0).1, appReleased := true })
        (segments ++ [(id, firstFin)]) acks ((n, .openStream) :: entered), acceptor⟩ := by
  subst hid
  have hcount : StreamGauge.closed ⟨1, 0, 1⟩ id.toNat = ⟨0, 0, 1⟩ := by
    simp [StreamGauge.closed, StreamGauge.onSide, StreamGauge.isLocal, hodd, Nat.not_le.2 hgt]
  simp [run, step, Endpoint.act, Endpoint.onTable, StreamTable.step, openerAt, openerSent, hacks,
    Endpoint.awaits, Endpoint.holds, Endpoint.setStream, Endpoint.setHalf, hretirable, hgt,
    StreamTable.State.remove, StreamTable.State.Opening, hcount]

end

end Round

/-- The opener has had `k` streams and holds none of them, the acceptor holds them all. -/
def Round (k : Nat) (s : State) : Prop :=
  ∃ streams segments acks entered seen table streams' segments' acks' entered',
    s = ⟨openerAt (3 + 2 * k) streams segments acks entered,
      acceptorAt k seen table streams' segments' acks' entered'⟩ ∧
    (∀ x ∈ seen, x < k + 1) ∧ ∀ x ∈ table, x < 3 + 2 * k

theorem round_init : Round 0 (init .client) :=
  ⟨fun _ => .new, [], [], [], ∅, ∅, fun _ => .new, [], [], [], rfl, by simp, by simp⟩

/-- The id of the stream of a round. -/
theorem toNat_ofRound (hk : k ≤ maxStreams) : (UInt16.ofNat (3 + 2 * k)).toNat = 3 + 2 * k := by
  unfold maxStreams at hk
  rw [UInt16.toNat_ofNat']
  omega

theorem Round.looks (h : Round k s) (hk : k ≤ maxStreams) :
    ∃ streams segments acks entered seen table streams' segments' acks' entered',
      Reaches step s
        ⟨openerSent (3 + 2 * k) (UInt16.ofNat (3 + 2 * k))
            (openerAt (3 + 2 * k) streams segments acks entered),
          (acceptorAt k seen table streams' segments' acks' entered').looking (3 + 2 * k)
            (UInt16.ofNat (3 + 2 * k), firstFin)⟩ ∧
      (∀ x ∈ seen, x < k + 1) ∧ ∀ x ∈ table, x < 3 + 2 * k := by
  obtain ⟨streams, segments, acks, entered, seen, table, streams', segments', acks', entered', rfl,
    hseen, htable⟩ := h
  have hid := toNat_ofRound hk
  have hlast : 3 + 2 * k ≤ lastStreamId := by
    unfold maxStreams at hk
    unfold lastStreamId
    omega
  have hnew : (3 + 2 * k) / 2 ∉ seen := fun hmem => by
    have := hseen _ hmem
    omega
  have hout : 3 + 2 * k ∉ table := fun hmem => Nat.lt_irrefl _ (htable _ hmem)
  refine ⟨streams, segments, acks, entered, seen, table, streams', segments', acks', entered', ?_,
    hseen, htable⟩
  apply Reaches.trans
  · exact ⟨_, opener_sends hid hlast _⟩
  · exact ⟨_, acceptor_looks hid (by omega) hnew hout rfl⟩

theorem Round.next (h : Round k s) (hk : k < maxStreams) : Can step (Round (k + 1)) s := by
  obtain ⟨streams, segments, acks, entered, seen, table, streams', segments', acks', entered', hlooks,
    hseen, htable⟩ := h.looks (Nat.le_of_lt hk)
  obtain ⟨sack, hsack, hretirable⟩ := fin_acked
  have hid := toNat_ofRound (Nat.le_of_lt hk)
  have hopens := hlooks.trans ⟨_, acceptor_opens hid (by omega) (by omega) hk hsack _⟩
  have hback := hopens.trans ⟨_, opener_gives_back hid (by omega) (by omega) hretirable rfl⟩
  refine ⟨_, hback, _, _, _, _, _, _, _, _, _, _, rfl, ?_, ?_⟩
  · grind
  · grind

/-- The opener opens 256 streams one after the other, each closed, acknowledged and dropped before
the next. The acceptor's application keeps its ends open. The next stream that is handed out is the
only one the opener has, and the acceptor refuses it. -/
theorem opener_gives_back_first :
    ∃ s id, Reaches step (init .client) s ∧ id ∈ s.opener.table.table ∧
      s.opener.table.gauge.localOpen = 1 ∧ s.acceptor.table.reader = .opens id ∧
      Refuses s (.acceptor .check) := by
  have hfull : Can step (Round maxStreams) (init .client) :=
    Can.iterate (Q := Round) (fun k hk s h => h.next hk) round_init
  obtain ⟨s, hreach, hs⟩ := hfull
  obtain ⟨_, _, _, _, _, _, _, _, _, _, hlooks, -, -⟩ := hs.looks (Nat.le_refl _)
  exact ⟨_, 3 + 2 * maxStreams, hreach.trans hlooks, Finset.mem_singleton_self _, rfl, rfl,
    ⟨_, rfl⟩, Nat.le_refl _⟩

end PhantomProtocol.StreamSlots
