import PhantomProtocol.Api.Proof.RouteIndex
import PhantomProtocol.Lib.Run

/-!
# Isolation between sessions at the demux

Any number of sessions over one route table, with connection IDs that may collide. `apply_slide`
names connection IDs only: with a collision it takes its session from another session's route, or
removes one.
-/

namespace PhantomProtocol

open List

namespace RouteTable

variable {closed : Channel → Bool} {chan : RouteOwner → Channel} {t t' t'' : RouteTable}
  {cid c : Bytes} {tx : Channel} {owner o : RouteOwner} {e : RouteEntry} {A : Option RouteOwner}

/-! ## Isolation -/

/-- What an operation on behalf of `A` (or of nobody) may do: live routes of other sessions stay as
they are, and whatever is new is a route of `A` to `A`'s own channel. -/
structure Isolated (chan : RouteOwner → Channel) (closed : Channel → Bool) (A : Option RouteOwner)
    (t t' : RouteTable) : Prop where
  keeps : ∀ cid e, t.entry cid = some e → A ≠ some e.owner → closed e.tx = false →
    t'.entry cid = some e
  adds : ∀ cid e, t'.entry cid = some e → t.entry cid = some e ∨
    A = some e.owner ∧ e.tx = chan e.owner

theorem Isolated.refl : Isolated chan closed A t t :=
  ⟨fun _ _ he _ _ => he, fun _ _ he => .inl he⟩

theorem Isolated.trans (h : Isolated chan closed A t t') (h' : Isolated chan closed A t' t'') :
    Isolated chan closed A t t'' := by
  refine ⟨fun cid e he hA hlive => ?_, fun cid e he => ?_⟩
  · exact h'.keeps cid e (h.keeps cid e he hA hlive) hA hlive
  · rcases h'.adds cid e he with hold | hnew
    · exact h.adds cid e hold
    · exact .inr hnew

theorem Isolated.sync (h : Isolated chan closed A t t') : Isolated chan closed A t t'.sync :=
  ⟨h.keeps, h.adds⟩

theorem isolated_removeRoute (h : ∀ e, t.entry c = some e → A = some e.owner ∨ closed e.tx = true) :
    Isolated chan closed A t (t.removeRoute c) := by
  refine ⟨fun cid e he hA hlive => ?_, fun cid e he => .inl ?_⟩
  · rw [entry_removeRoute, if_neg]
    · exact he
    · grind
  · simp_all [entry_removeRoute]

theorem isolated_foldl_removeRoute (cids : List Bytes)
    (h : ∀ cid ∈ cids, ∀ e, t.entry cid = some e → A = some e.owner ∨ closed e.tx = true) :
    Isolated chan closed A t (cids.foldl removeRoute t) := by
  induction cids generalizing t with
  | nil => exact .refl
  | cons c _ ih =>
    have hfirst : Isolated chan closed A t (t.removeRoute c) :=
      isolated_removeRoute (h c mem_cons_self)
    refine hfirst.trans (ih fun cid hcid e he => ?_)
    rw [entry_removeRoute] at he
    split at he
    · cases he
    · exact h cid (mem_cons_of_mem _ hcid) e he

theorem isolated_reapDead : Isolated chan closed A t (t.reapDead closed) := by
  refine (isolated_foldl_removeRoute _ fun cid hcid e he => .inr ?_).sync
  obtain ⟨r, hr, rfl⟩ := mem_map.1 hcid
  obtain ⟨hmem, hdead⟩ := mem_filter.1 hr
  have hlook : t.entry r.1 = some r.2 := AList.mem_lookup_iff.2 hmem
  rw [he] at hlook
  cases hlook
  exact hdead

theorem isolated_makeRoom : Isolated chan closed A t (t.makeRoom closed) := by
  unfold makeRoom
  split
  · exact isolated_reapDead
  · exact .refl

theorem isolated_insertRoute (hfree : ∀ e, t.entry c = some e → closed e.tx = true)
    (htx : tx = chan owner) :
    Isolated chan closed (some owner) t (t.insertRoute c tx owner) := by
  refine ⟨fun cid e he _ hlive => ?_, fun cid e he => ?_⟩
  · rw [entry_insertRoute, if_neg]
    · exact he
    · rintro rfl
      rw [hfree e he] at hlive
      cases hlive
  · grind [entry_insertRoute]

theorem isolated_tryInsert (htx : tx = chan owner) :
    Isolated chan closed (some owner) t (t.tryInsert closed c tx owner).1 := by
  obtain heq | ⟨hfree, heq | ⟨-, heq⟩⟩ := tryInsert_cases closed t c tx owner
  · rw [heq]
    exact .refl
  · rw [heq]
    exact isolated_makeRoom
  · rw [heq]
    have hroom : Isolated chan closed none t (t.makeRoom closed) := isolated_makeRoom
    have hfree' : ∀ e, (t.makeRoom closed).entry c = some e → closed e.tx = true := by
      intro e he
      rcases hroom.adds c e he with hold | ⟨hnone, -⟩
      · exact hfree e hold
      · cases hnone
    exact (isolated_makeRoom.trans (isolated_insertRoute hfree' htx)).sync

theorem isolated_registerWindow (htx : tx = chan owner) (cids : List Bytes) :
    Isolated chan closed (some owner) t (t.registerWindow closed cids tx owner) := by
  unfold registerWindow
  induction cids generalizing t with
  | nil => exact .refl
  | cons _ _ ih => exact (isolated_tryInsert htx).trans ih

theorem isolated_removeIfDead : Isolated chan closed A t (t.removeIfDead closed c) := by
  unfold removeIfDead
  split
  · rename_i hdead
    exact (isolated_removeRoute fun e he => .inr (by simpa [he] using hdead)).sync
  · exact .refl

theorem isolated_deliver {frame : Bytes} {full : Bool} :
    Isolated chan closed A t (t.deliver closed c frame full).1 := by
  unfold deliver
  split
  · exact .refl
  · dsimp only
    split
    · exact isolated_removeIfDead
    · exact .refl

theorem isolated_retireSession (h : Indexed t) :
    Isolated chan closed (some owner) t (t.retireSession owner) := by
  refine ⟨fun cid e he hA _ => ?_, fun cid e he => .inl ?_⟩
  · rw [entry_retireSession h, if_neg]
    · exact he
    · grind
  · simp_all [entry_retireSession]

theorem isolated_applySlide {slide : CidSlide}
    (htx : ∀ cid e, t.entry cid = some e → e.tx = chan e.owner)
    (hown : ∀ a, t.entry slide.anchor = some a → a.owner = owner ∧
      ∀ cid ∈ slide.remove, ∀ e, t.entry cid = some e → e.owner = owner ∨ closed e.tx = true) :
    Isolated chan closed (some owner) t (t.applySlide closed slide) := by
  unfold applySlide
  split
  · exact .refl
  · rename_i e he
    obtain ⟨rfl, hremove⟩ := hown e he
    have hadd : Isolated chan closed (some e.owner) t
        (t.registerWindow closed slide.add e.tx e.owner) :=
      isolated_registerWindow (htx _ e he) slide.add
    refine (hadd.trans (isolated_foldl_removeRoute slide.remove fun cid hcid e' he' => ?_)).sync
    rcases hadd.adds cid e' he' with hold | ⟨hown, -⟩
    · grind
    · exact .inl hown

end RouteTable

/-! ## Runs -/

namespace DemuxIsolation

open Lts RouteTable

structure State where
  table : RouteTable
  closed : Channel → Bool

inductive Event where
  | tryInsert (session : RouteOwner) (cid : Bytes)
  | registerWindow (session : RouteOwner) (cids : List Bytes)
  | applySlide (session : RouteOwner) (slide : CidSlide)
  | retireSession (session : RouteOwner)
  | deliver (cid frame : Bytes) (full : Bool)
  | removeIfDead (cid : Bytes)
  | reapDead
  /-- The session that reads from the channel is gone. -/
  | close (tx : Channel)

/-- On whose behalf the operation is issued. -/
def Event.session : Event → Option RouteOwner
  | .tryInsert session _ | .registerWindow session _ | .applySlide session _
  | .retireSession session => some session
  | _ => none

def init : State := ⟨RouteTable.new, fun _ => false⟩

/-- `chan` is the channel that each session was given when it was accepted. -/
def step (chan : RouteOwner → Channel) (x : State) : Event → Option State
  | .tryInsert session cid =>
    some { x with table := (x.table.tryInsert x.closed cid (chan session) session).1 }
  | .registerWindow session cids =>
    some { x with table := x.table.registerWindow x.closed cids (chan session) session }
  | .applySlide _ slide => some { x with table := x.table.applySlide x.closed slide }
  | .retireSession session => some { x with table := x.table.retireSession session }
  | .deliver cid frame full => some { x with table := (x.table.deliver x.closed cid frame full).1 }
  | .removeIfDead cid => some { x with table := x.table.removeIfDead x.closed cid }
  | .reapDead => some { x with table := x.table.reapDead x.closed }
  | .close tx => some { x with closed := Function.update x.closed tx true }

variable {chan : RouteOwner → Channel} {x x' : State} {ev : Event} {closed : Channel → Bool}

/-- A slide whose anchor is routed names what is its own: the anchor leads to the session that
slides, and so does every connection ID that it removes, unless its route is dead. -/
def SlidesOwn (x : State) (ev : Event) : Prop :=
  ∀ session slide, ev = .applySlide session slide →
    ∀ a ∈ x.table.entry slide.anchor, a.owner = session ∧
      ∀ cid ∈ slide.remove, ∀ e ∈ x.table.entry cid, e.owner = session ∨ x.closed e.tx = true

/-- The index agrees with the routes, and every route leads to its session's channel. -/
structure Routed (chan : RouteOwner → Channel) (t : RouteTable) : Prop where
  indexed : Indexed t
  channel : ∀ cid e, t.entry cid = some e → e.tx = chan e.owner

theorem Routed.of_isolated {A : Option RouteOwner} {t t' : RouteTable}
    (h : Routed chan t) (hiso : Isolated chan closed A t t') (hindexed : Indexed t') :
    Routed chan t' := by
  refine ⟨hindexed, fun cid e he => ?_⟩
  rcases hiso.adds cid e he with hold | ⟨-, htx⟩
  · exact h.channel cid e hold
  · exact htx

/-- Also a slide that takes its session from another session's route adds only routes of that
session to that session's channel. -/
theorem Routed.applySlide {t : RouteTable} (h : Routed chan t)
    (slide : CidSlide) : Routed chan (t.applySlide closed slide) := by
  refine ⟨(edits_applySlide slide).indexed h.indexed, fun cid e he => ?_⟩
  unfold RouteTable.applySlide at he
  split at he
  · exact h.channel cid e he
  · rename_i a ha
    have hadd : Isolated chan closed (some a.owner) t
        (t.registerWindow closed slide.add a.tx a.owner) :=
      isolated_registerWindow (h.channel _ a ha) slide.add
    have hrouted : Routed chan (t.registerWindow closed slide.add a.tx a.owner) :=
      h.of_isolated hadd ((edits_registerWindow slide.add).indexed h.indexed)
    exact hrouted.channel cid e (entry_of_foldl_removeRoute slide.remove he)

theorem step_isolated (h : Routed chan x.table) (hs : step chan x ev = some x')
    (hslide : SlidesOwn x ev) : Isolated chan x.closed ev.session x.table x'.table := by
  cases ev with
  | tryInsert =>
    cases hs
    exact isolated_tryInsert rfl
  | registerWindow _ cids =>
    cases hs
    exact isolated_registerWindow rfl cids
  | applySlide session slide =>
    cases hs
    exact isolated_applySlide h.channel (hslide session slide rfl)
  | retireSession =>
    cases hs
    exact isolated_retireSession h.indexed
  | deliver =>
    cases hs
    exact isolated_deliver
  | removeIfDead =>
    cases hs
    exact isolated_removeIfDead
  | reapDead =>
    cases hs
    exact isolated_reapDead
  | close =>
    cases hs
    exact .refl

theorem Routed.step (h : Routed chan x.table) (hs : step chan x ev = some x') :
    Routed chan x'.table := by
  -- the slides are the operations that need not be isolated
  by_cases hslide : ∃ session slide, ev = .applySlide session slide
  · obtain ⟨session, slide, rfl⟩ := hslide
    cases hs
    exact h.applySlide slide
  · have hiso := step_isolated h hs fun session slide he => absurd ⟨session, slide, he⟩ hslide
    refine h.of_isolated hiso ?_
    cases ev with
    | tryInsert =>
      cases hs
      exact edits_tryInsert.indexed h.indexed
    | registerWindow _ cids =>
      cases hs
      exact (edits_registerWindow cids).indexed h.indexed
    | applySlide session slide => exact absurd ⟨session, slide, rfl⟩ hslide
    | retireSession =>
      cases hs
      exact h.indexed.retireSession
    | deliver _ frame full =>
      cases hs
      exact (edits_deliver frame full).indexed h.indexed
    | removeIfDead =>
      cases hs
      exact edits_removeIfDead.indexed h.indexed
    | reapDead =>
      cases hs
      exact edits_reapDead.indexed h.indexed
    | close =>
      cases hs
      exact h.indexed

theorem routed_init : Routed chan init.table :=
  ⟨indexed_new, fun _ _ he => by simp [init, RouteTable.new, entry] at he⟩

/-- **Isolation.** After any history of operations, an operation for one session keeps the live
routes of every other session and adds only routes of its own, provided that a slide names
connection IDs that are its own: with a routed anchor, the anchor and those it removes lead to the
session itself, or (the removed ones) are unrouted or dead. -/
theorem isolated_of_slidesOwn (chan : RouteOwner → Channel) (es : List Event) :
    Along (step chan)
      (fun x ev x' => SlidesOwn x ev → Isolated chan x.closed ev.session x.table x'.table) init es :=
  along_of_run_inv (fun _ _ _ h hs => Routed.step h hs) (fun _ _ _ h hs => step_isolated h hs) es
    routed_init

/-- Two sessions, and the slide of the first: one connection ID more and one less. -/
theorem isolated_of_slidesOwn_moves :
    ∃ x x', run (step id) init [.registerWindow 1 [[1], [3]], .registerWindow 2 [[2]]] = some x ∧
      step id x (.applySlide 1 ⟨[[4]], [[1]], [3]⟩) = some x' ∧
      x'.table.entry [4] = some ⟨1, 1⟩ ∧ x'.table.entry [1] = none ∧
      Isolated id x.closed (some 1) x.table x'.table := by
  have hall := isolated_of_slidesOwn id [.registerWindow 1 [[1], [3]], .registerWindow 2 [[2]],
    .applySlide 1 ⟨[[4]], [[1]], [3]⟩]
  obtain ⟨hiso, -⟩ := ((hall _ rfl).2 _ rfl).2 _ rfl
  refine ⟨_, _, rfl, rfl, by decide, by decide, hiso ?_⟩
  rintro _ _ ⟨⟩
  decide

/-- Session 2 holds a connection ID that session 1 also derives and then slides past. -/
def collidingWindows : List Event := [.registerWindow 2 [[1]], .registerWindow 1 [[1], [3]]]

theorem applySlide_removes_other :
    ∃ x x', run (step id) init collidingWindows = some x ∧
      step id x (.applySlide 1 ⟨[], [[1]], [3]⟩) = some x' ∧
      x.table.entry [1] = some ⟨2, 2⟩ ∧ x.closed 2 = false ∧ x'.table.entry [1] = none :=
  ⟨_, _, rfl, rfl, by decide, rfl, by decide⟩

end DemuxIsolation

end PhantomProtocol
