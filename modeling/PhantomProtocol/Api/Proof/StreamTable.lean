import PhantomProtocol.Api.StreamTable

/-!
# Life of the stream table

This side's ids come from the allocator, which only moves forward; the peer's are marked by the one
task that inserts them, before it handles another frame. So every id enters at most once, and the
counts are exact when nothing is in progress (`table_lifecycle`).
-/

namespace PhantomProtocol

variable {side : Side}

open List Option Finset

/-! ## Sides -/

theorem Side.parity_other (side : Side) : side.other.parity = 1 - side.parity := by
  cases side <;> rfl

theorem Side.parity_le (side : Side) : side.parity ≤ 1 := by
  cases side <;> decide

theorem Owned.not_other {id : Nat} (h : Owned side id) : ¬Owned side.other id := by
  intro h'
  have := side.parity_other
  have := side.parity_le
  have := h.2
  have := h'.2
  omega

/-- Every id that is not reserved belongs to one side. -/
theorem owned_other_of_not {id : Nat} (hid : 1 < id) (h : ¬Owned side id) :
    Owned side.other id := by
  have := side.parity_other
  have := side.parity_le
  have hne : id % 2 ≠ side.parity := fun heq => h ⟨hid, heq⟩
  exact ⟨hid, by omega⟩

namespace StreamTable

variable {side : Side} {s s' : State} {e : Event} {id : Nat} {r : Reader}
  {releasing : List Nat} {t : Finset Nat}

/-! ## Ids -/

/-- The ids in the table, in the hands of a task or used up. -/
structure Ids (side : Side) (s : State) : Prop where
  first : s.demux.firstStreamId % 2 = side.parity
  next : Owned side s.demux.nextStreamId
  once : ((s.entered.map (·.1)).filter (1 < ·)).Nodup
  held : ∀ id ∈ s.table, id ∈ s.entered.map (·.1)
  allocated : ∀ id ∈ s.allocated,
    Owned side id ∧ id < s.demux.nextStreamId ∧ id ∉ s.entered.map (·.1)
  ours : ∀ e ∈ s.entered, Owned side e.1 → e.1 < s.demux.nextStreamId ∧ e.2 = .openStream
  /-- The peer's ids are marked, but for the one the receive task has just inserted. -/
  theirs : ∀ e ∈ s.entered, Owned side.other e.1 →
    s.peerStreams.hasSeen e.1 = true ∨ s.reader = .inserted e.1
  /-- What the receive task is going to insert is an id of the peer's that is not marked. -/
  unseen : ∀ id, s.reader = .opens id ∨ s.reader = .admitted id → 1 < id →
    Owned side.other id ∧ s.peerStreams.hasSeen id = false
  opening : ∀ id, s.Opening id → Owned side.other id ∧ id ∈ s.table

theorem ids_init (side : Side) : Ids side (init side) where
  first := by cases side <;> rfl
  next := by cases side <;> decide
  once := nodup_nil
  held _ h := nomatch h
  allocated _ h := nomatch h
  ours _ h := nomatch h
  theirs _ h := nomatch h
  unseen _ h := by rcases h with h | h <;> cases h
  opening _ h := by rcases h with h | h <;> cases h

theorem Ids.toReader (h : Ids side s) (hfrom : ∀ id, s.reader ≠ .inserted id)
    (hr : ∀ id, r ≠ .opens id ∧ r ≠ .admitted id ∧ r ≠ .inserted id ∧ r ≠ .marked id) :
    Ids side { s with reader := r } :=
  { h with
    theirs e he howned := (h.theirs e he howned).imp_right fun heq => absurd heq (hfrom e.1)
    unseen id hid := by
      rcases hid with heq | heq
      · exact absurd heq (hr id).1
      · exact absurd heq (hr id).2.1
    opening id hid := by
      rcases hid with heq | heq
      · exact absurd heq (hr id).2.2.1
      · exact absurd heq (hr id).2.2.2 }

/-- A stream that is not being opened is removed. -/
theorem Ids.erase (h : Ids side s) (hid : ¬s.Opening id) :
    Ids side { s with table := s.table.erase id } :=
  { h with
    held id' hid' := h.held id' (mem_of_mem_erase hid')
    opening id' hid' := by
      obtain ⟨howned, hmem⟩ := h.opening id' hid'
      refine ⟨howned, mem_erase.2 ⟨?_, hmem⟩⟩
      rintro rfl
      exact hid hid' }

theorem Ids.not_entered (h : Ids side s) (hid : 1 < id)
    (hr : s.reader = .opens id ∨ s.reader = .admitted id) : id ∉ s.entered.map (·.1) := by
  intro hmem
  obtain ⟨e, he, rfl⟩ := mem_map.1 hmem
  obtain ⟨howned, hunseen⟩ := h.unseen e.1 hr hid
  rcases h.theirs e he howned with hseen | hins
  · rw [hunseen] at hseen
    cases hseen
  · rw [hins] at hr
    rcases hr with hr | hr <;> cases hr

section Insert

variable {table : Finset Nat} {entered : List (Nat × Entry)} {entry : Entry}

theorem once_cons (honce : ((entered.map (·.1)).filter (1 < ·)).Nodup)
    (hnew : 1 < id → id ∉ entered.map (·.1)) :
    ((((id, entry) :: entered).map (·.1)).filter (1 < ·)).Nodup := by
  rw [List.map_cons, List.filter_cons]
  split
  · simp_all
  · exact honce

theorem held_insert (hheld : ∀ id ∈ table, id ∈ entered.map (·.1)) :
    ∀ id' ∈ Insert.insert id table, id' ∈ ((id, entry) :: entered).map (·.1) := by
  intro id' hid'
  grind

/-- A stream is inserted under an id that no call has in hand, and that belongs to neither side or
to the side that inserts it. -/
theorem Ids.insert {allocated : Finset Nat} (h : Ids side s) (hsub : allocated ⊆ s.allocated)
    (hid : id ∉ allocated) (hnew : 1 < id → id ∉ s.entered.map (·.1))
    (hours : Owned side id → id < s.demux.nextStreamId ∧ entry = .openStream)
    (htheirs : ¬Owned side.other id) :
    Ids side ({ s with allocated }.insert id entry) :=
  { h with
    once := once_cons h.once hnew
    held := held_insert h.held
    allocated id' hid' := by
      obtain ⟨howned, hlt, hnot⟩ := h.allocated id' (hsub hid')
      refine ⟨howned, hlt, ?_⟩
      intro hent
      rcases mem_cons.1 hent with rfl | hent
      · exact hid hid'
      · exact hnot hent
    ours e he howned := by
      rcases mem_cons.1 he with rfl | he
      · exact hours howned
      · exact h.ours e he howned
    theirs e he howned := by
      rcases mem_cons.1 he with rfl | he
      · exact absurd howned htheirs
      · exact h.theirs e he howned
    opening id' hid' := ⟨(h.opening id' hid').1, mem_insert_of_mem (h.opening id' hid').2⟩ }

end Insert

theorem Ids.insertLocal (h : Ids side s) (hid : id ∈ s.allocated) :
    Ids side ({ s with allocated := s.allocated.erase id }.insert id .openStream) := by
  obtain ⟨howned, hlt, hnew⟩ := h.allocated id hid
  exact h.insert (erase_subset _ _) (notMem_erase _ _) (fun _ => hnew)
    (fun _ => ⟨hlt, rfl⟩) howned.not_other

/-- A stream of one of the reserved ids is inserted. -/
theorem Ids.insertReserved (h : Ids side s) (hid : id ≤ 1) (entry : Entry) :
    Ids side (s.insert id entry) := by
  have hnone : ∀ side, ¬Owned side id := fun side howned => absurd howned.1 (Nat.not_lt.2 hid)
  refine h.insert (Finset.Subset.refl _) (fun hmem => ?_) (fun hgt => absurd hgt (Nat.not_lt.2 hid))
    (fun howned => absurd howned (hnone side)) (hnone side.other)
  exact hnone side (h.allocated id hmem).1

theorem Ids.insertPeer (h : Ids side s) (hid : 1 < id) (hr : s.reader = .admitted id) :
    Ids side ({ s with reader := .inserted id }.insert id .segment) where
  first := h.first
  next := h.next
  once := once_cons h.once fun hgt => h.not_entered hgt (.inr hr)
  held := held_insert h.held
  allocated id' hid' := by
    obtain ⟨howned, hlt, hnew⟩ := h.allocated id' hid'
    refine ⟨howned, hlt, ?_⟩
    intro hent
    rcases mem_cons.1 hent with rfl | hent
    · exact howned.not_other (h.unseen id' (.inr hr) hid).1
    · exact hnew hent
  ours e he howned := by
    rcases mem_cons.1 he with rfl | he
    · exact absurd (h.unseen id (.inr hr) hid).1 howned.not_other
    · exact h.ours e he howned
  theirs e he howned := by
    rcases mem_cons.1 he with rfl | he
    · exact .inr rfl
    · refine (h.theirs e he howned).imp_right fun heq => ?_
      rw [hr] at heq
      cases heq
  unseen id' hid' := by rcases hid' with heq | heq <;> cases heq
  opening id' hid' := by
    have heq : id' = id := by
      rcases hid' with heq | heq <;> cases heq
      rfl
    subst heq
    exact ⟨(h.unseen id' (.inr hr) hid).1, mem_insert_self _ _⟩

theorem hasSeen_markSeen {p : PeerStreamIds} {id id' : Nat} :
    (p.markSeen id').hasSeen id = true ↔ id / 2 = id' / 2 ∨ p.hasSeen id = true := by
  simp [PeerStreamIds.hasSeen, PeerStreamIds.markSeen]

theorem Ids.markSeen (h : Ids side s) (hr : s.reader = .inserted id) :
    Ids side { s with reader := .marked id, peerStreams := s.peerStreams.markSeen id } :=
  { h with
    theirs e he howned := by
      left
      rw [hasSeen_markSeen]
      rcases h.theirs e he howned with hseen | hins
      · exact .inr hseen
      · rw [hr] at hins
        cases hins
        exact .inl rfl
    unseen id' hid' := by rcases hid' with heq | heq <;> cases heq
    opening id' hid' := by
      apply h.opening
      rcases hid' with heq | heq <;> cases heq
      exact .inl hr }

theorem Ids.allocate (h : Ids side s) : Ids side { s with
      demux := { s.demux with nextStreamId := s.demux.nextStreamId + 2 }
      claimed := s.claimed - 1
      allocated := Insert.insert s.demux.nextStreamId s.allocated } :=
  { h with
    next := ⟨Nat.lt_add_right 2 h.next.1, (Nat.add_mod_right _ 2).trans h.next.2⟩
    allocated id hid := by
      rcases mem_insert.1 hid with rfl | hid
      · refine ⟨h.next, Nat.lt_add_of_pos_right (by decide), ?_⟩
        intro hent
        obtain ⟨e, he, heq⟩ := mem_map.1 hent
        have hlt := (h.ours e he (heq ▸ h.next)).1
        omega
      · obtain ⟨howned, hlt, hnew⟩ := h.allocated id hid
        exact ⟨howned, Nat.lt_add_right 2 hlt, hnew⟩
    ours e he howned := ⟨Nat.lt_add_right 2 (h.ours e he howned).1, (h.ours e he howned).2⟩ }

theorem classify_opens (h : Ids side s) (hid : 1 < id)
    (hopens : classifyUnheldStream id s.demux s.peerStreams = .opens) :
    Owned side.other id ∧ s.peerStreams.hasSeen id = false := by
  unfold classifyUnheldStream at hopens
  split at hopens
  · split at hopens <;> cases hopens
  · rename_i hlocal
    split at hopens
    · cases hopens
    · rename_i hseen
      refine ⟨owned_other_of_not hid fun howned => hlocal ?_, by simpa using hseen⟩
      simp [StreamDemultiplexer.isLocalStreamId, hid, h.first, howned.2]

/-- The receive task has chosen an id to open. -/
theorem Ids.choose (h : Ids side s) (hfrom : ∀ id', s.reader ≠ .inserted id')
    (hid : 1 < id → Owned side.other id ∧ s.peerStreams.hasSeen id = false)
    (hr : r = .opens id ∨ r = .admitted id) : Ids side { s with reader := r } :=
  { h with
    theirs e he howned := (h.theirs e he howned).imp_right fun heq => absurd heq (hfrom e.1)
    unseen id' hid' hgt := by
      have heq : id' = id := by grind
      subst heq
      exact hid hgt
    opening id' hid' := by rcases hr with rfl | rfl <;> rcases hid' with hid' | hid' <;> cases hid' }

/-- What each step finds and leaves; every invariant is by cases on it. -/
inductive Steps (s : State) : Event → State → Prop where
  | claim {gauge : StreamGauge} (hgauge : s.gauge.tryOpenLocal = some gauge) :
      Steps s .claim { s with gauge, claimed := s.claimed + 1 }
  | claimFails : Steps s .claim s
  | allocate {id : Nat} {demux : StreamDemultiplexer} (hclaimed : s.claimed ≠ 0)
      (hopen : s.demux.openStream = some (id, demux)) :
      Steps s .allocate { s with
        demux
        claimed := s.claimed - 1
        allocated := Insert.insert id s.allocated }
  | allocateFails (hclaimed : s.claimed ≠ 0) :
      Steps s .allocate { s with claimed := s.claimed - 1, failed := s.failed + 1 }
  | undo (hfailed : s.failed ≠ 0) :
      Steps s .undo { s with failed := s.failed - 1, gauge := s.gauge.undoOpenLocal }
  | insertLocal {id : Nat} (hid : id ∈ s.allocated) :
      Steps s (.insertLocal id) ({ s with allocated := s.allocated.erase id }.insert id .openStream)
  | held {w : UInt16} : Steps s (.segment w) s
  | missing {w : UInt16} (hidle : s.reader = .idle) :
      Steps s (.segment w) { s with reader := .missing w.toNat }
  | opens {id : Nat} (hr : s.reader = .missing id)
      (hopens : classifyUnheldStream id s.demux s.peerStreams = .opens) :
      Steps s .classify { s with reader := .opens id }
  | ignored {id : Nat} (hr : s.reader = .missing id) : Steps s .classify { s with reader := .idle }
  | full {id : Nat} (hr : s.reader = .opens id) : Steps s .check { s with reader := .idle }
  | room {id : Nat} (hr : s.reader = .opens id) (hroom : s.gauge.peerOpen < maxStreams) :
      Steps s .check { s with reader := .admitted id }
  | insertReserved {id : Nat} (hr : s.reader = .admitted id) (hid : id ≤ 1) :
      Steps s .insertPeer ({ s with reader := .idle }.insert id .segment)
  | insertPeer {id : Nat} (hr : s.reader = .admitted id) (hid : 1 < id) :
      Steps s .insertPeer ({ s with reader := .inserted id }.insert id .segment)
  | markSeen {id : Nat} (hr : s.reader = .inserted id) :
      Steps s .markSeen { s with reader := .marked id, peerStreams := s.peerStreams.markSeen id }
  | countPeer {id : Nat} (hr : s.reader = .marked id) :
      Steps s .countPeer { s with reader := .idle, gauge := s.gauge.opened id }
  | retire {id : Nat} (hidle : s.reader = .idle) (hid : id ∈ s.table) :
      Steps s (.retire id) { s with table := s.table.erase id, reader := .retiring id }
  | countRetired {id : Nat} (hr : s.reader = .retiring id) :
      Steps s .countRetired { s with reader := .idle, gauge := s.gauge.closed id }
  | remove {e : Event} {id : Nat} (hid : id ∈ s.table) (hnot : ¬s.Opening id) :
      Steps s e { s with table := s.table.erase id, releasing := id :: s.releasing }
  | countReleased {id : Nat} (hid : id ∈ s.releasing) :
      Steps s (.countReleased id)
        { s with releasing := s.releasing.erase id, gauge := s.gauge.closed id }
  | rawApp : Steps s .rawApp (s.insert 1 .pump)

theorem remove_steps (hs : s.remove id = some s') : Steps s e s' := by
  obtain ⟨⟨hid, hnot⟩, ⟨⟩⟩ := ite_none_right_eq_some.1 hs
  exact .remove hid hnot

theorem step_steps (hs : step s e = some s') : Steps s e s' := by
  cases e with
  | claim =>
    cases hs
    split
    · exact .claim ‹_›
    · exact .claimFails
  | allocate =>
    obtain ⟨hclaimed, ⟨⟩⟩ := ite_none_left_eq_some.1 hs
    split
    · exact .allocate hclaimed ‹_›
    · exact .allocateFails hclaimed
  | undo =>
    obtain ⟨hfailed, ⟨⟩⟩ := ite_none_left_eq_some.1 hs
    exact .undo hfailed
  | insertLocal =>
    obtain ⟨hid, ⟨⟩⟩ := ite_none_right_eq_some.1 hs
    exact .insertLocal hid
  | segment =>
    obtain ⟨hidle, ⟨⟩⟩ := ite_none_right_eq_some.1 hs
    split
    · exact .held
    · exact .missing hidle
  | classify =>
    simp only [StreamTable.step] at hs
    split at hs <;> try cases hs
    rename_i hr
    split at hs <;> cases hs
    · exact .opens hr ‹_›
    · exact .ignored hr
    · exact .ignored hr
  | check =>
    simp only [StreamTable.step] at hs
    split at hs <;> cases hs
    rename_i hr
    split
    · exact .full hr
    · exact .room hr (Nat.not_le.1 ‹_›)
  | insertPeer =>
    simp only [StreamTable.step] at hs
    split at hs <;> cases hs
    rename_i id hr
    by_cases hid : id ≤ 1
    · rw [if_pos hid]
      exact .insertReserved hr hid
    · rw [if_neg hid]
      exact .insertPeer hr (Nat.not_le.1 hid)
  | markSeen =>
    simp only [StreamTable.step] at hs
    split at hs <;> cases hs
    exact .markSeen ‹_›
  | countPeer =>
    simp only [StreamTable.step] at hs
    split at hs <;> cases hs
    exact .countPeer ‹_›
  | retire =>
    obtain ⟨⟨hidle, -, hid⟩, ⟨⟩⟩ := ite_none_right_eq_some.1 hs
    exact .retire hidle hid
  | countRetired =>
    simp only [StreamTable.step] at hs
    split at hs <;> cases hs
    exact .countRetired ‹_›
  | release => exact remove_steps (ite_none_right_eq_some.1 hs).2
  | exhaust => exact remove_steps hs
  | countReleased =>
    obtain ⟨hid, ⟨⟩⟩ := ite_none_right_eq_some.1 hs
    exact .countReleased hid
  | rawApp =>
    cases hs
    exact .rawApp

theorem Ids.step (h : Ids side s) (hs : step s e = some s') : Ids side s' := by
  cases step_steps hs with
  | claim _ | allocateFails _ | undo _ | countReleased _ => exact { h with }
  | claimFails | held => exact h
  | allocate _ hopen =>
    obtain ⟨-, ⟨⟩⟩ := ite_none_right_eq_some.1 hopen
    exact h.allocate
  | insertLocal hid => exact h.insertLocal hid
  | missing hidle => exact h.toReader (by simp [hidle]) (by simp)
  | opens hr hopens =>
    exact h.choose (by simp [hr]) (fun hid => classify_opens h hid hopens) (.inl rfl)
  | ignored hr | full hr => exact h.toReader (by simp [hr]) (by simp)
  | room hr _ => exact h.choose (by simp [hr]) (h.unseen _ (.inl hr)) (.inr rfl)
  | insertReserved hr hid => exact (h.toReader (by simp [hr]) (by simp)).insertReserved hid _
  | insertPeer hr hid => exact h.insertPeer hid hr
  | markSeen hr => exact h.markSeen hr
  | countPeer hr | countRetired hr =>
    have hidle := h.toReader (r := .idle) (by simp [hr]) (by simp)
    exact { hidle with }
  | @retire id hidle _ =>
    have hkept : Ids side { s with table := s.table.erase id } :=
      h.erase (by simp [State.Opening, hidle])
    exact hkept.toReader (by simp [hidle]) (by simp)
  | remove _ hnot =>
    have herased := h.erase hnot
    exact { herased with }
  | rawApp => exact h.insertReserved (Nat.le_refl 1) _

/-! ## Counts -/

/-- The streams of `side` in the table. -/
def State.held (s : State) (side : Side) : Nat := (s.table.filter (Owned side)).card

def Reader.retired : Reader → List Nat
  | .retiring id => [id]
  | _ => []

def State.leaving (s : State) (side : Side) : Nat :=
  (s.releasing ++ s.reader.retired).countP (Owned side)

/-- The stream that is inserted and not counted. -/
def Reader.uncounted : Reader → Nat
  | .inserted _ | .marked _ => 1
  | _ => 0

/-- The stream that is admitted and not counted. -/
def Reader.admits : Reader → Nat
  | .admitted _ | .inserted _ | .marked _ => 1
  | _ => 0

/-- The gauge against the table. A count differs from the number of entries by what the tasks have in
hand: slots claimed and streams removed, on the peer's side also the stream that is inserted and not
counted. -/
structure Counts (side : Side) (s : State) : Prop where
  parity : s.gauge.localParity = side.parity
  ours : s.gauge.localOpen = s.held side + s.claimed + s.failed + s.allocated.card + s.leaving side
  theirs : s.gauge.peerOpen + s.reader.uncounted = s.held side.other + s.leaving side.other
  oursMax : s.gauge.localOpen ≤ maxStreams
  theirsMax : s.gauge.peerOpen + s.reader.admits ≤ maxStreams

theorem counts_init (side : Side) : Counts side (init side) := by
  cases side <;> exact ⟨rfl, rfl, rfl, by decide, by decide⟩

/-- One for a stream of `side`. -/
def unit (side : Side) (id : Nat) : Nat := if Owned side id then 1 else 0

theorem card_insert (hid : id ∉ t) (side : Side) : ((Insert.insert id t).filter (Owned side)).card =
      (t.filter (Owned side)).card + unit side id := by
  unfold unit
  rw [filter_insert]
  split
  · rw [card_insert_of_notMem fun h => hid (mem_of_mem_filter id h)]
  · rfl

theorem card_erase (hid : id ∈ t) (side : Side) :
    ((t.erase id).filter (Owned side)).card + unit side id = (t.filter (Owned side)).card := by
  rw [← card_insert (notMem_erase id t), insert_erase hid]

theorem card_insert_reserved (t : Finset Nat) (hid : id ≤ 1) (side : Side) :
    ((Insert.insert id t).filter (Owned side)).card = (t.filter (Owned side)).card := by
  rw [filter_insert, if_neg fun h => Nat.not_lt.2 hid h.1]

/-- The side a count is changed on. -/
theorem onSide_cases {g : StreamGauge} (h : g.localParity = side.parity) (id : Nat)
    (f : Nat → Nat) :
    g.onSide id f = g ∧ unit side id = 0 ∧ unit side.other id = 0 ∨
      g.onSide id f = { g with localOpen := f g.localOpen } ∧
        unit side id = 1 ∧ unit side.other id = 0 ∨
      g.onSide id f = { g with peerOpen := f g.peerOpen } ∧
        unit side id = 0 ∧ unit side.other id = 1 := by
  unfold StreamGauge.onSide StreamGauge.isLocal unit
  by_cases hid : id ≤ 1
  · have hnone (side : Side) : ¬Owned side id := fun howned => Nat.not_lt.2 hid howned.1
    simp [hid, hnone]
  · have hgt := Nat.not_le.1 hid
    by_cases hpar : id % 2 = side.parity
    · have howned : Owned side id := ⟨hgt, hpar⟩
      simp [hid, h, hpar, howned, howned.not_other]
    · have hnot : ¬Owned side id := fun howned => hpar howned.2
      simp [hid, h, hpar, hnot, owned_other_of_not hgt hnot]

theorem Counts.toReader (h : Counts side s)
    (hcount : r.uncounted = s.reader.uncounted) (hretired : r.retired = s.reader.retired)
    (hadmits : s.gauge.peerOpen + r.admits ≤ maxStreams) : Counts side { s with reader := r } where
  parity := h.parity
  ours := by
    rw [h.ours]
    simp only [State.held, State.leaving, hretired]
  theirs := by
    have := h.theirs
    simp only [State.held, State.leaving, hretired, hcount] at this ⊢
    exact this
  oursMax := h.oursMax
  theirsMax := hadmits

theorem Counts.erase (h : Counts side s) (hid : id ∈ s.table)
    (hcount : r.uncounted = s.reader.uncounted) (hadmits : r.admits = s.reader.admits)
    (hleave : ∀ side', (releasing ++ r.retired).countP (Owned side') =
      s.leaving side' + unit side' id) :
    Counts side { s with table := s.table.erase id, reader := r, releasing } where
  parity := h.parity
  ours := by
    have := h.ours
    have := card_erase hid side
    simp only [State.held, State.leaving, hleave] at *
    omega
  theirs := by
    have := h.theirs
    have := card_erase hid side.other
    simp only [State.held, State.leaving, hleave, hcount] at *
    omega
  oursMax := h.oursMax
  theirsMax := hadmits ▸ h.theirsMax

/-- The stream that is not counted yet is in the table. -/
theorem Ids.uncounted_le (h : Ids side s) : s.reader.uncounted ≤ s.held side.other := by
  have hpos (id : Nat) (hid : s.Opening id) : 1 ≤ s.held side.other := by
    obtain ⟨howned, hmem⟩ := h.opening id hid
    exact card_pos.2 ⟨id, mem_filter.2 ⟨hmem, howned⟩⟩
  cases hr : s.reader with
  | inserted id => exact hpos id (.inl hr)
  | marked id => exact hpos id (.inr hr)
  | _ => exact Nat.zero_le _

theorem Counts.close (h : Counts side s) (hids : Ids side s)
    (hcount : r.uncounted = s.reader.uncounted) (hadmits : r.admits = s.reader.admits)
    (hleave : ∀ side', (releasing ++ r.retired).countP (Owned side') + unit side' id =
      s.leaving side') :
    Counts side { s with gauge := s.gauge.closed id, reader := r, releasing } := by
  have hours := h.ours
  have htheirs := h.theirs
  have hmax := h.oursMax
  have hmax' := h.theirsMax
  have hl := hleave side
  have hl' := hleave side.other
  have hheld := hids.uncounted_le
  obtain ⟨heq, hu, hu'⟩ | ⟨heq, hu, hu'⟩ | ⟨heq, hu, hu'⟩ := onSide_cases h.parity id (· - 1)
  all_goals
    constructor <;>
    simp only [StreamGauge.closed, heq, State.held, State.leaving, hcount, hadmits] at * <;>
    first | exact h.parity | omega

theorem countP_erase {l : List Nat} (hid : id ∈ l) (side : Side) :
    (l.erase id).countP (Owned side) + unit side id = l.countP (Owned side) := by
  rw [(perm_cons_erase hid).countP_eq, countP_cons]
  simp [unit]

section

variable (h : Counts side s)
include h

theorem Counts.claim {gauge : StreamGauge} (hgauge : s.gauge.tryOpenLocal = some gauge) :
    Counts side { s with gauge, claimed := s.claimed + 1 } := by
  obtain ⟨hroom, ⟨⟩⟩ := ite_none_right_eq_some.1 hgauge
  refine ⟨h.parity, ?_, h.theirs, hroom, h.theirsMax⟩
  have hours := h.ours
  simp only [State.held, State.leaving] at *
  omega

theorem Counts.allocate {demux : StreamDemultiplexer} (hids : Ids side s)
    (hclaimed : s.claimed ≠ 0) (hopen : s.demux.openStream = some (id, demux)) :
    Counts side { s with
      demux
      claimed := s.claimed - 1
      allocated := Insert.insert id s.allocated } := by
  obtain ⟨-, ⟨⟩⟩ := ite_none_right_eq_some.1 hopen
  have hnew : s.demux.nextStreamId ∉ s.allocated := fun hmem =>
    Nat.lt_irrefl _ (hids.allocated _ hmem).2.1
  refine ⟨h.parity, ?_, h.theirs, h.oursMax, h.theirsMax⟩
  have hours := h.ours
  simp only [State.held, State.leaving, card_insert_of_notMem hnew] at *
  omega

theorem Counts.allocateFails (hclaimed : s.claimed ≠ 0) :
    Counts side { s with claimed := s.claimed - 1, failed := s.failed + 1 } := by
  refine ⟨h.parity, ?_, h.theirs, h.oursMax, h.theirsMax⟩
  have hours := h.ours
  simp only [State.held, State.leaving] at *
  omega

theorem Counts.undo (hfailed : s.failed ≠ 0) :
    Counts side { s with failed := s.failed - 1, gauge := s.gauge.undoOpenLocal } := by
  refine ⟨h.parity, ?_, h.theirs, (Nat.sub_le _ _).trans h.oursMax, h.theirsMax⟩
  have hours := h.ours
  simp only [State.held, State.leaving, StreamGauge.undoOpenLocal] at *
  omega

theorem Counts.insertLocal (hids : Ids side s) (hid : id ∈ s.allocated) :
    Counts side ({ s with allocated := s.allocated.erase id }.insert id .openStream) := by
  obtain ⟨howned, -, hnew⟩ := hids.allocated id hid
  have hout : id ∉ s.table := fun hmem => hnew (hids.held id hmem)
  have hin := card_insert hout side
  have hin' := card_insert hout side.other
  have hcard := card_erase_add_one hid
  rw [unit, if_pos howned] at hin
  rw [unit, if_neg howned.not_other] at hin'
  have hours := h.ours
  have htheirs := h.theirs
  refine ⟨h.parity, ?_, ?_, h.oursMax, h.theirsMax⟩
  all_goals grind [State.held, State.leaving, State.insert]

theorem Counts.insertReserved (hid : id ≤ 1) (entry : Entry) : Counts side (s.insert id entry) := by
  have hin := card_insert_reserved s.table hid
  refine ⟨h.parity, ?_, ?_, h.oursMax, h.theirsMax⟩
  · simp [*, h.ours, State.held, State.leaving, State.insert]
  · have htheirs := h.theirs
    simp only [State.held, State.leaving, State.insert, hin] at *
    exact htheirs

theorem Counts.insertPeer (hids : Ids side s) (hid : 1 < id) (hr : s.reader = .admitted id) :
    Counts side ({ s with reader := .inserted id }.insert id .segment) := by
  have howned := (hids.unseen id (.inr hr) hid).1
  have hout : id ∉ s.table := fun hmem => hids.not_entered hid (.inr hr) (hids.held id hmem)
  have hin := card_insert hout side
  have hin' := card_insert hout side.other
  rw [unit, if_neg fun howned' => howned'.not_other howned] at hin
  rw [unit, if_pos howned] at hin'
  have hours := h.ours
  have htheirs := h.theirs
  have hmax' := h.theirsMax
  rw [hr] at hmax' htheirs
  refine ⟨h.parity, ?_, ?_, h.oursMax, hmax'⟩
  all_goals grind [State.held, State.leaving, State.insert, Reader.retired, Reader.uncounted]

theorem Counts.countPeer (hids : Ids side s) (hr : s.reader = .marked id) :
    Counts side { s with reader := .idle, gauge := s.gauge.opened id } := by
  have howned := (hids.opening id (.inr hr)).1
  have hunit : unit side.other id = 1 := if_pos howned
  have hours := h.ours
  have htheirs := h.theirs
  have hmax := h.oursMax
  have hmax' := h.theirsMax
  rw [hr] at hmax' htheirs
  obtain ⟨heq, hu, hu'⟩ | ⟨heq, hu, hu'⟩ | ⟨heq, hu, hu'⟩ := onSide_cases h.parity id (· + 1)
  · omega
  · omega
  · refine ⟨?_, ?_, ?_, ?_, ?_⟩ <;>
      simp only [StreamGauge.opened, heq, State.held, State.leaving, hr, Reader.retired,
        Reader.uncounted, Reader.admits] at * <;> first | exact h.parity | omega

theorem Counts.step (hids : Ids side s) (hs : step s e = some s') : Counts side s' := by
  have hmax' := h.theirsMax
  cases step_steps hs with
  | claim hgauge => exact h.claim hgauge
  | claimFails | held => exact h
  | allocate hclaimed hopen => exact h.allocate hids hclaimed hopen
  | allocateFails hclaimed => exact h.allocateFails hclaimed
  | undo hfailed => exact h.undo hfailed
  | insertLocal hid => exact h.insertLocal hids hid
  | missing hr | opens hr _ | ignored hr | full hr =>
    rw [hr] at hmax'
    exact h.toReader (by rw [hr]; rfl) (by rw [hr]; rfl) hmax'
  | room hr hroom => exact h.toReader (by rw [hr]; rfl) (by rw [hr]; rfl) hroom
  | insertReserved hr hid =>
    rw [hr] at hmax'
    refine Counts.insertReserved ?_ hid .segment
    exact h.toReader (by rw [hr]; rfl) (by rw [hr]; rfl) (Nat.le_of_succ_le hmax')
  | insertPeer hr hid => exact h.insertPeer hids hid hr
  | @markSeen id hr =>
    rw [hr] at hmax'
    have hmarked := h.toReader (r := .marked id) (by rw [hr]; rfl) (by rw [hr]; rfl) hmax'
    exact { hmarked with }
  | countPeer hr => exact h.countPeer hids hr
  | retire hidle hid =>
    refine h.erase hid (by rw [hidle]; rfl) (by rw [hidle]; rfl) fun side' => ?_
    simp [State.leaving, hidle, Reader.retired, unit]
  | countRetired hr =>
    refine h.close hids (by rw [hr]; rfl) (by rw [hr]; rfl) fun side' => ?_
    simp [State.leaving, hr, Reader.retired, unit]
  | remove hid _ =>
    refine h.erase hid rfl rfl fun side' => ?_
    simp [State.leaving, unit, countP_cons]
  | countReleased hid =>
    refine h.close hids rfl rfl fun side' => ?_
    have := countP_erase hid side'
    simp only [State.leaving, countP_append]
    omega
  | rawApp => exact h.insertReserved (Nat.le_refl 1) .pump

end

/-! ## Slots -/

/-- What is removed and not counted out. -/
def State.leavers (s : State) : List Nat := s.releasing ++ s.reader.retired

/-- What a step can do to the streams that have a slot. -/
inductive Moves (s : State) (e : Event) (s' : State) : Prop where
  | keep (htable : s'.table = s.table) (hleavers : s'.leavers = s.leavers)
      (hentered : s'.entered = s.entered)
  | enter (id : Nat) (entry : Entry)
      (hby : s.reader = .admitted id ∨ e = .insertLocal id ∨ e = .rawApp)
      (hnew : 1 < id → id ∉ s.entered.map (·.1)) (htable : s'.table = Insert.insert id s.table)
      (hleavers : s'.leavers = s.leavers) (hentered : s'.entered = (id, entry) :: s.entered)
  | leave (id : Nat) (hid : id ∈ s.table) (htable : s'.table = s.table.erase id)
      (hleavers : s'.leavers.Perm (id :: s.leavers)) (hentered : s'.entered = s.entered)
  | count (id : Nat) (hby : e = .countRetired ∧ s.reader = .retiring id ∨ e = .countReleased id)
      (htable : s'.table = s.table) (hleavers : s.leavers.Perm (id :: s'.leavers))
      (hentered : s'.entered = s.entered)

theorem step_moves (h : Ids side s) (hs : step s e = some s') : Moves s e s' := by
  cases step_steps hs with
  | claim _ | claimFails | allocate _ _ | allocateFails _ | undo _ | held => exact .keep rfl rfl rfl
  | missing hr | opens hr _ | ignored hr | full hr | room hr _ | markSeen hr | countPeer hr =>
    exact .keep rfl (by simp [State.leavers, hr, Reader.retired]) rfl
  | insertLocal hid =>
    exact .enter _ _ (.inr (.inl rfl)) (fun _ => (h.allocated _ hid).2.2) rfl rfl rfl
  | insertReserved hr _ | insertPeer hr _ =>
    refine .enter _ _ (.inl hr) (fun hid => h.not_entered hid (.inr hr)) rfl ?_ rfl
    simp [State.leavers, State.insert, hr, Reader.retired]
  | retire hidle hid =>
    refine .leave _ hid rfl ?_ rfl
    simp only [State.leavers, hidle, Reader.retired, append_nil]
    exact perm_append_comm
  | countRetired hr =>
    refine .count _ (.inl ⟨rfl, hr⟩) rfl ?_ rfl
    simp only [State.leavers, hr, Reader.retired, append_nil]
    exact perm_append_comm
  | remove hid _ => exact .leave _ hid rfl (.refl _) rfl
  | countReleased hid =>
    exact .count _ (.inr rfl) rfl ((perm_cons_erase hid).append_right _) rfl
  | rawApp => exact .enter 1 _ (.inr (.inr rfl)) (fun h => absurd h (Nat.lt_irrefl 1)) rfl rfl rfl

/-- A stream leaves the table once. -/
structure Apart (s : State) : Prop where
  once : (s.leavers.filter (1 < ·)).Nodup
  gone : ∀ id ∈ s.leavers, 1 < id → id ∉ s.table ∧ id ∈ s.entered.map (·.1)

theorem apart_init (side : Side) : Apart (init side) := ⟨nodup_nil, fun _ h => nomatch h⟩

theorem Apart.step (h : Apart s) (hids : Ids side s) (hs : step s e = some s') : Apart s' := by
  cases step_moves hids hs with
  | keep htable hleavers hentered =>
    constructor
    · rw [hleavers]
      exact h.once
    · rw [hleavers, htable, hentered]
      exact h.gone
  | enter _ _ _ _ _ hleavers =>
    constructor
    · rw [hleavers]
      exact h.once
    · intro id' hid' hgt
      rw [hleavers] at hid'
      obtain ⟨hout, hin⟩ := h.gone id' hid' hgt
      grind
  | leave id hid htable hleavers hentered =>
    constructor
    · rw [(hleavers.filter _).nodup_iff, List.filter_cons]
      split
      · rename_i hgt
        rw [decide_eq_true_eq] at hgt
        refine nodup_cons.2 ⟨?_, h.once⟩
        intro hmem
        exact (h.gone id (mem_of_mem_filter hmem) hgt).1 hid
      · exact h.once
    · intro id' hid' hgt
      rw [htable, hentered]
      rcases mem_cons.1 (hleavers.mem_iff.1 hid') with rfl | hold
      · exact ⟨notMem_erase _ _, hids.held id' hid⟩
      · obtain ⟨hout, hin⟩ := h.gone id' hold hgt
        exact ⟨fun hmem => hout (mem_of_mem_erase hmem), hin⟩
  | count _ _ htable hleavers hentered =>
    constructor
    · have honce := ((hleavers.filter (fun x => decide (1 < x))).nodup_iff).1 h.once
      exact honce.sublist ((sublist_cons_self _ _).filter _)
    · intro id' hid' hgt
      rw [htable, hentered]
      exact h.gone id' (hleavers.mem_iff.2 (mem_cons_of_mem _ hid')) hgt

/-- The streams of `side` that have a slot. -/
def State.slots (s : State) (side : Side) : Finset Nat :=
  s.table.filter (Owned side) ∪ (s.leavers.filter fun id => Owned side id).toFinset

theorem mem_slots : id ∈ s.slots side ↔ Owned side id ∧ (id ∈ s.table ∨ id ∈ s.leavers) := by
  simp only [State.slots, Finset.mem_union, Finset.mem_filter, List.mem_toFinset, List.mem_filter,
    decide_eq_true_eq]
  tauto

theorem Apart.card_slots (h : Apart s) (side : Side) :
    (s.slots side).card = s.held side + s.leaving side := by
  have hdisjoint : Disjoint (s.table.filter (Owned side))
      (s.leavers.filter fun id => Owned side id).toFinset := by
    rw [Finset.disjoint_left]
    intro id hin hout
    obtain ⟨hmem, howned⟩ := mem_filter.1 hin
    rw [List.mem_toFinset, mem_filter] at hout
    exact (h.gone id hout.1 howned.1).1 hmem
  have hnodup : (s.leavers.filter fun id => Owned side id).Nodup := by
    have heq : (s.leavers.filter fun id => decide (Owned side id)) =
        (s.leavers.filter (1 < ·)).filter fun id => decide (Owned side id) := by
      rw [List.filter_filter]
      apply List.filter_congr
      intro id _
      by_cases howned : Owned side id <;> simp [howned]
      exact howned.1
    rw [heq]
    exact h.once.filter _
  rw [State.slots, card_union_of_disjoint hdisjoint, toFinset_card_of_nodup hnodup,
    ← countP_eq_length_filter]
  rfl

/-- The id that the receive task has found no stream for. -/
def Reader.seeks : Reader → Option Nat
  | .missing id | .opens id | .admitted id => some id
  | _ => none

theorem step_seeks (hs : step s e = some s') (hid : s'.reader.seeks = some id) :
    s.reader.seeks = some id ∨ ∃ w : UInt16, e = .segment w ∧ w.toNat = id := by
  cases step_steps hs with
  | @missing w _ => exact .inr ⟨w, rfl, Option.some.inj hid⟩
  | opens hr _ | room hr _ =>
    rw [hr]
    exact .inl hid
  | ignored _ | full _ | insertReserved _ _ | insertPeer _ _ | markSeen _ | countPeer _
  | retire _ _ | countRetired _ => cases hid
  | _ => exact .inl hid

def Sound (side : Side) (s : State) : Prop := Ids side s ∧ Counts side s

theorem Sound.step (h : Sound side s) (hs : step s e = some s') : Sound side s' :=
  ⟨h.1.step hs, h.2.step h.1 hs⟩

section

variable (h : Sound side s) (hs : step s e = some s')
include h hs

theorem localOpen_step : s'.gauge.localOpen ≤ s.gauge.localOpen ∨
    e = .claim ∧ s.gauge.localOpen < maxStreams ∧
      s'.gauge.localOpen = s.gauge.localOpen + 1 := by
  cases step_steps hs with
  | claim hgauge =>
    obtain ⟨hroom, ⟨⟩⟩ := ite_none_right_eq_some.1 hgauge
    exact .inr ⟨rfl, hroom, rfl⟩
  | undo _ => exact .inl (Nat.sub_le _ _)
  | @countPeer id hr =>
    have htheirs : unit side.other id = 1 := if_pos (h.1.opening id (.inr hr)).1
    obtain ⟨-, -, hunit⟩ | ⟨-, -, hunit⟩ | ⟨heq, -⟩ := onSide_cases h.2.parity id (· + 1)
    · omega
    · omega
    · simp [StreamGauge.opened, heq]
  | @countRetired id _ | @countReleased id _ =>
    left
    obtain ⟨heq, -⟩ | ⟨heq, -⟩ | ⟨heq, -⟩ := onSide_cases h.2.parity id (· - 1) <;>
      simp [StreamGauge.closed, heq]
  | _ => exact .inl le_rfl

theorem localOpen_count (howned : Owned side id)
    (hby : e = .countRetired ∧ s.reader = .retiring id ∨ e = .countReleased id) :
    s'.gauge.localOpen + 1 = s.gauge.localOpen := by
  have hours := h.2.ours
  have hours' := (h.step hs).2.ours
  obtain ⟨rfl, hr⟩ | rfl := hby
  · simp only [StreamTable.step, hr] at hs
    cases hs
    simp only [State.held, State.leaving, hr, Reader.retired, append_nil, countP_append,
      countP_singleton, howned, decide_true, if_true] at hours hours' ⊢
    omega
  · obtain ⟨hid, ⟨⟩⟩ := ite_none_right_eq_some.1 hs
    have hout := countP_erase hid side
    simp only [State.held, State.leaving, countP_append, unit, if_pos howned] at *
    omega

end

/-- For every interleaving: an id enters the table at most once, this side's only through
`open_stream`; the counts equal the entries of each side when nothing is in progress, and never
exceed the limit. -/
theorem table_lifecycle (side : Side) (es : List Event) (s : State)
    (hrun : Lts.run step (init side) es = some s) :
    ((s.entered.map (·.1)).filter (2 ≤ ·)).Nodup ∧
      (s.Settled → s.gauge.localOpen = (s.table.filter (Owned side)).card ∧
        s.gauge.peerOpen = (s.table.filter (Owned side.other)).card) ∧
      s.gauge.localOpen ≤ maxStreams ∧ s.gauge.peerOpen ≤ maxStreams ∧
      ∀ e ∈ s.entered, Owned side e.1 → e.2 = .openStream := by
  have hstart : Sound side (init side) := ⟨ids_init side, counts_init side⟩
  obtain ⟨hids, hcounts⟩ := Lts.run_inv (fun _ _ _ h hs => Sound.step h hs) es hstart hrun
  refine ⟨hids.once, ?_, hcounts.oursMax, ?_, fun e he howned => (hids.ours e he howned).2⟩
  · rintro ⟨hclaimed, hfailed, halloc, hidle, hreleasing⟩
    have hours := hcounts.ours
    have htheirs := hcounts.theirs
    simp only [State.held, State.leaving, hclaimed, hfailed, halloc, hidle, hreleasing,
      Reader.retired, Reader.uncounted, append_nil, countP_nil, card_empty,
      Nat.add_zero] at hours htheirs
    exact ⟨hours, htheirs⟩
  · exact (Nat.le_add_right _ _).trans hcounts.theirsMax

/-- A client opens a stream and drops it, the server opens one, and a late segment of the dropped
stream arrives. -/
def bothSides : List Event :=
  [.rawApp, .claim, .allocate, .insertLocal 3, .segment 2, .classify, .check, .insertPeer, .markSeen,
    .countPeer, .release 3, .countReleased 3, .segment 3, .classify]

theorem table_lifecycle_bothSides :
    ∃ s, Lts.run step (init .client) bothSides = some s ∧
      s.gauge.localOpen = (s.table.filter (Owned .client)).card ∧
      s.gauge.peerOpen = (s.table.filter (Owned .server)).card := by
  have hok : ((Lts.run step (init .client) bothSides).map fun s => decide s.Settled) = some true := by
    decide
  obtain ⟨s, hrun, hsettled⟩ := map_eq_some_iff.1 hok
  exact ⟨s, hrun, (table_lifecycle .client bothSides s hrun).2.1 (of_decide_eq_true hsettled)⟩

end StreamTable

end PhantomProtocol
