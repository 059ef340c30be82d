import PhantomProtocol.Api.Proof.RouteIndex
import PhantomProtocol.Lib.Run

/-!
# Sliding the demux window

A session reports each newer path id of its peer as a `CidSlide`, computed from the old and the new
index; the demux applies the slides in order and never sees the window itself.
-/

namespace PhantomProtocol

open List Option

namespace RouteTable

variable {closed : Channel → Bool} {t : RouteTable} {cid c : Bytes} {tx : Channel}
  {owner : RouteOwner} {e : RouteEntry}

theorem tryInsert_free (hfree : t.entry c = none) (hroom : t.len < maxRoutes) :
    (t.tryInsert closed c tx owner).1 = (t.insertRoute c tx owner).sync := by
  have hmake : t.makeRoom closed = t := if_neg (Nat.not_le.2 hroom)
  simp [tryInsert, hfree, hmake, Nat.not_le.2 hroom]

/-- The first loop of `apply_slide`, given room and connection IDs that nobody holds. -/
theorem entry_foldl_tryInsert (closed : Channel → Bool) (cid : Bytes) (tx : Channel)
    (owner : RouteOwner) (cids : List Bytes) (hnodup : cids.Nodup)
    (hfree : ∀ cid ∈ cids, t.entry cid = none) (hroom : t.len + cids.length ≤ maxRoutes) :
    (t.registerWindow closed cids tx owner).entry cid =
        (if cid ∈ cids then some ⟨tx, owner⟩ else t.entry cid) ∧
      (t.registerWindow closed cids tx owner).len ≤ t.len + cids.length := by
  unfold registerWindow
  induction cids generalizing t with
  | nil => exact ⟨rfl, Nat.le_refl _⟩
  | cons c cids =>
    obtain ⟨hc, hnodup'⟩ := nodup_cons.1 hnodup
    rw [length_cons] at hroom
    have hins : (t.tryInsert closed c tx owner).1 = (t.insertRoute c tx owner).sync :=
      tryInsert_free (hfree c mem_cons_self) (by omega)
    have hlen : (t.insertRoute c tx owner).sync.len ≤ t.len + 1 := len_insertRoute_le
    rw [foldl_cons, hins]
    have hfree' : ∀ cid ∈ cids, (t.insertRoute c tx owner).sync.entry cid = none := by
      intro cid hcid
      rw [entry_sync, entry_insertRoute, if_neg]
      · exact hfree cid (mem_cons_of_mem _ hcid)
      · rintro rfl
        exact hc hcid
    grind [entry_sync, entry_insertRoute, length_cons]

theorem len_removeRoute (h : t.entry c = some e) : (t.removeRoute c).len + 1 = t.len := by
  have hkey : c ∈ t.routes.entries.keys := by
    rw [← AList.keys, ← AList.mem_keys, ← AList.lookup_isSome]
    exact isSome_iff_exists.2 ⟨e, h⟩
  obtain ⟨b, l₁, l₂, -, hl, herase⟩ := exists_of_kerase hkey
  have hroutes : (t.removeRoute c).routes.entries = List.kerase c t.routes.entries := by
    unfold removeRoute
    rw [h]
    dsimp only
    rw [routes_forgetOwned]
    rfl
  rw [len, len, hroutes, herase, hl]
  simp only [length_append, length_cons]
  omega

/-- The second loop. -/
theorem entry_foldl_removeRoute (cid : Bytes) (cids : List Bytes) (hnodup : cids.Nodup)
    (hheld : ∀ cid ∈ cids, ∃ e, t.entry cid = some e) :
    (cids.foldl removeRoute t).entry cid = (if cid ∈ cids then none else t.entry cid) ∧
      (cids.foldl removeRoute t).len + cids.length = t.len := by
  induction cids generalizing t with
  | nil => exact ⟨rfl, rfl⟩
  | cons c cids ih =>
    obtain ⟨hc, hnodup'⟩ := nodup_cons.1 hnodup
    obtain ⟨e, he⟩ := hheld c mem_cons_self
    have hlen := len_removeRoute he
    have hheld' : ∀ cid ∈ cids, ∃ e, (t.removeRoute c).entry cid = some e := by
      intro cid hcid
      rw [entry_removeRoute, if_neg]
      · exact hheld cid (mem_cons_of_mem _ hcid)
      · rintro rfl
        exact hc hcid
    obtain ⟨hentry, hrest⟩ := ih hnodup' hheld'
    rw [foldl_cons]
    refine ⟨?_, ?_⟩
    · grind [entry_removeRoute]
    · rw [length_cons]
      omega

/-- **What `apply_slide` leaves**, when nobody holds what it adds and it removes what is held. -/
theorem entry_applySlide (closed : Channel → Bool) (cid : Bytes) {slide : CidSlide}
    (hanchor : t.entry slide.anchor = some e)
    (hadd : slide.add.Nodup) (hfree : ∀ cid ∈ slide.add, t.entry cid = none)
    (hroom : t.len + slide.add.length ≤ maxRoutes) (hremove : slide.remove.Nodup)
    (hheld : ∀ cid ∈ slide.remove, ∃ e, t.entry cid = some e) :
    (t.applySlide closed slide).entry cid =
        (if cid ∈ slide.remove then none else if cid ∈ slide.add then some e else t.entry cid) ∧
      (t.applySlide closed slide).len + slide.remove.length ≤ t.len + slide.add.length := by
  have hinsert : ∀ cid, (t.registerWindow closed slide.add e.tx e.owner).entry cid =
      (if cid ∈ slide.add then some e else t.entry cid) ∧
      (t.registerWindow closed slide.add e.tx e.owner).len ≤ t.len + slide.add.length :=
    fun cid => entry_foldl_tryInsert closed cid e.tx e.owner slide.add hadd hfree hroom
  have hheld' : ∀ cid ∈ slide.remove,
      ∃ e', (t.registerWindow closed slide.add e.tx e.owner).entry cid = some e' := by
    intro cid hcid
    rw [(hinsert cid).1]
    split
    · exact ⟨e, rfl⟩
    · exact hheld cid hcid
  have hslide : t.applySlide closed slide =
      (slide.remove.foldl removeRoute (t.registerWindow closed slide.add e.tx e.owner)).sync := by
    unfold applySlide
    rw [hanchor]
    rfl
  obtain ⟨hentry, hlen⟩ := entry_foldl_removeRoute cid slide.remove hremove hheld'
  rw [hslide]
  refine ⟨?_, ?_⟩
  · rw [entry_sync, hentry, (hinsert cid).1]
  · have := (hinsert cid).2
    show (slide.remove.foldl removeRoute _).len + _ ≤ _
    omega

end RouteTable

namespace WindowSlides

open Lts RouteTable

structure State where
  session : Migration
  table : RouteTable

/-- A path id the session sees, and the channels that are closed when the demux applies the
slide. -/
structure Event where
  pathId : UInt8
  closed : Channel → Bool

def step (kdf : Kdf) (s : State) (ev : Event) : Option State :=
  let noted := s.session.noteMigrationPath kdf ev.pathId
  some
    { session := noted.1
      table :=
        match noted.2 with
        | some slide => s.table.applySlide ev.closed slide
        | none => s.table }

/-- How far the path id is ahead of the last one seen. -/
def forward (s : State) (ev : Event) : Nat := (ev.pathId - s.session.lastSeenPathId).toNat

/-- The routes of session `o` are exactly those of the connection IDs `cids`. -/
def HoldsExactly (t : RouteTable) (o : RouteOwner) (cids : List Bytes) : Prop :=
  ∀ cid, (t.entry cid).any (·.owner = o) = true ↔ cid ∈ cids

/-- The chain's connection IDs from index `lo` to `hi` are pairwise distinct, and distinct from the
bootstrap one and from those of other sessions. -/
structure DistinctCids (kdf : Kdf) (chain : CidChain) (bootstrap : Bytes) (t : RouteTable)
    (o : RouteOwner) (lo hi : Nat) : Prop where
  apart : ∀ i j, lo ≤ i → i ≤ hi → lo ≤ j → j ≤ hi →
    chain.inboundCid kdf i = chain.inboundCid kdf j → i = j
  notBootstrap : ∀ i, lo ≤ i → i ≤ hi → chain.inboundCid kdf i ≠ bootstrap
  unshared : ∀ i, lo ≤ i → i ≤ hi → ∀ e, t.entry (chain.inboundCid kdf i) = some e → e.owner = o

variable {kdf : Kdf} {s s' : State} {ev : Event} {bootstrap cid : Bytes} {o : RouteOwner} {hi : Nat}
  {m : Migration}

/-! ## Windows and slides as index intervals -/

theorem mem_cids {f : Nat → Bytes} {lo hi : Nat} :
    cid ∈ (List.range' lo (hi - lo)).map f ↔ ∃ i, lo ≤ i ∧ i < hi ∧ f i = cid := by
  simp only [List.mem_map, List.mem_range'_1]
  grind

theorem mem_inboundWindowCids :
    cid ∈ m.inboundWindowCids kdf ↔ ∃ i, m.inboundCidHighestSeen - cidWindowTrailing ≤ i ∧
      i ≤ m.inboundCidHighestSeen + cidWindowLeading ∧ m.cidChain.inboundCid kdf i = cid := by
  unfold Migration.inboundWindowCids CidChain.inboundWindow
  rw [List.map_map]
  refine mem_cids.trans ?_
  simp only [Function.comp_apply, Nat.lt_succ_iff]

theorem mem_cidSlide_add {oldHigh newHigh : Nat} :
    cid ∈ (m.cidSlide kdf oldHigh newHigh).add ↔ ∃ i, oldHigh + cidWindowLeading < i ∧
      i ≤ newHigh + cidWindowLeading ∧ m.cidChain.inboundCid kdf i = cid := by
  refine mem_cids.trans ?_
  simp only [Nat.succ_le_iff, Nat.lt_succ_iff]

theorem mem_cidSlide_remove {oldHigh newHigh : Nat} :
    cid ∈ (m.cidSlide kdf oldHigh newHigh).remove ↔ ∃ i, oldHigh - cidWindowTrailing ≤ i ∧
      i < newHigh - cidWindowTrailing ∧ m.cidChain.inboundCid kdf i = cid :=
  mem_cids

theorem length_cidSlide_add (kdf : Kdf) (m : Migration) (oldHigh newHigh : Nat) :
    (m.cidSlide kdf oldHigh newHigh).add.length = newHigh - oldHigh := by
  simp only [Migration.cidSlide, length_map, length_range']
  omega

theorem length_cidSlide_remove (kdf : Kdf) (m : Migration) (oldHigh newHigh : Nat) :
    (m.cidSlide kdf oldHigh newHigh).remove.length =
      newHigh - cidWindowTrailing - (oldHigh - cidWindowTrailing) := by
  simp only [Migration.cidSlide, length_map, length_range']

namespace DistinctCids

variable {chain : CidChain} {t : RouteTable} {lo : Nat}

theorem mono (h : DistinctCids kdf chain bootstrap t o lo hi) {lo' hi' : Nat} (hlo : lo ≤ lo')
    (hhi : hi' ≤ hi) : DistinctCids kdf chain bootstrap t o lo' hi' where
  apart i j hi₁ hi₂ hj₁ hj₂ := h.apart i j (by omega) (by omega) (by omega) (by omega)
  notBootstrap i h₁ h₂ := h.notBootstrap i (by omega) (by omega)
  unshared i h₁ h₂ := h.unshared i (by omega) (by omega)

theorem nodup (h : DistinctCids kdf chain bootstrap t o lo hi) {a b : Nat} (ha : lo ≤ a)
    (hb : b ≤ hi + 1) : ((List.range' a (b - a)).map (chain.inboundCid kdf)).Nodup := by
  apply List.Nodup.map_on _ nodup_range'
  intro i hi₁ j hj₁ heq
  rw [mem_range'_1] at hi₁ hj₁
  exact h.apart i j (by omega) (by omega) (by omega) (by omega) heq

end DistinctCids

/-! ## One slide -/

/-- What the next slide needs. While the trailing edge is still at index 0 the window has
`CID_WINDOW_TRAILING` entries or fewer to grow by. -/
structure Ready (kdf : Kdf) (bootstrap : Bytes) (o : RouteOwner) (hi : Nat) (s : State) : Prop where
  holds : HoldsExactly s.table o (bootstrap :: s.session.inboundWindowCids kdf)
  distinct : DistinctCids kdf s.session.cidChain bootstrap s.table o
    (s.session.inboundCidHighestSeen - cidWindowTrailing) hi
  room : s.table.len + (cidWindowTrailing - s.session.inboundCidHighestSeen) + cidWindowLeading ≤
    maxRoutes

namespace Ready

theorem routed (h : Ready kdf bootstrap o hi s) {i : Nat}
    (hlo : s.session.inboundCidHighestSeen - cidWindowTrailing ≤ i)
    (hhi : i ≤ s.session.inboundCidHighestSeen + cidWindowLeading) :
    ∃ e, s.table.entry (s.session.cidChain.inboundCid kdf i) = some e ∧ e.owner = o := by
  have hmem : (s.table.entry (s.session.cidChain.inboundCid kdf i)).any (·.owner = o) = true :=
    (h.holds _).2 (mem_cons_of_mem _ (mem_inboundWindowCids.2 ⟨i, hlo, hhi, rfl⟩))
  obtain ⟨e, he, ho⟩ := (any_eq_true _ _).1 hmem
  exact ⟨e, he, of_decide_eq_true ho⟩

theorem free (h : Ready kdf bootstrap o hi s) {i : Nat}
    (hlo : s.session.inboundCidHighestSeen + cidWindowLeading < i) (hhi : i ≤ hi) :
    s.table.entry (s.session.cidChain.inboundCid kdf i) = none := by
  rw [eq_none_iff_forall_ne_some]
  intro e he
  have ho := h.distinct.unshared i (by omega) hhi e he
  have hmem := (h.holds _).1 ((any_eq_true _ _).2 ⟨e, he, decide_eq_true ho⟩)
  rcases mem_cons.1 hmem with hboot | hwin
  · exact h.distinct.notBootstrap i (by omega) hhi hboot
  · obtain ⟨j, hj₁, hj₂, heq⟩ := mem_inboundWindowCids.1 hwin
    have := h.distinct.apart j i hj₁ (by omega) (by omega) hhi heq
    omega

end Ready

/-- What a slide of the window up to `newHigh` leaves in the demux, by index: the trailing indices
are gone, the leading ones are routed to the session, and nothing else has changed. -/
structure Slid (kdf : Kdf) (o : RouteOwner) (s : State) (newHigh : Nat) (t' : RouteTable) :
    Prop where
  removed : ∀ i, s.session.inboundCidHighestSeen - cidWindowTrailing ≤ i →
    i < newHigh - cidWindowTrailing → t'.entry (s.session.cidChain.inboundCid kdf i) = none
  added : ∀ i, s.session.inboundCidHighestSeen + cidWindowLeading < i →
    i ≤ newHigh + cidWindowLeading →
      ∃ e, t'.entry (s.session.cidChain.inboundCid kdf i) = some e ∧ e.owner = o
  kept : ∀ cid,
    (∀ i, s.session.inboundCidHighestSeen - cidWindowTrailing ≤ i →
      i < newHigh - cidWindowTrailing → s.session.cidChain.inboundCid kdf i ≠ cid) →
    (∀ i, s.session.inboundCidHighestSeen + cidWindowLeading < i →
      i ≤ newHigh + cidWindowLeading → s.session.cidChain.inboundCid kdf i ≠ cid) →
    t'.entry cid = s.table.entry cid
  len : t'.len + (newHigh - cidWindowTrailing) ≤
    s.table.len + (newHigh - s.session.inboundCidHighestSeen) +
      (s.session.inboundCidHighestSeen - cidWindowTrailing)

variable {newHigh : Nat} {t' : RouteTable}

theorem Ready.applySlide (h : Ready kdf bootstrap o hi s) (closed : Channel → Bool)
    (hnew : s.session.inboundCidHighestSeen < newHigh)
    (hstep : newHigh ≤ s.session.inboundCidHighestSeen + cidWindowLeading)
    (hhi : newHigh + cidWindowLeading ≤ hi) :
    Slid kdf o s newHigh (s.table.applySlide closed
      (s.session.cidSlide kdf s.session.inboundCidHighestSeen newHigh)) := by
  obtain ⟨e, hanchor, ho⟩ := h.routed (show _ ≤ newHigh by omega) hstep
  have hfree : ∀ cid ∈ (s.session.cidSlide kdf s.session.inboundCidHighestSeen newHigh).add,
      s.table.entry cid = none := by
    intro cid hcid
    obtain ⟨i, hi₁, hi₂, rfl⟩ := mem_cidSlide_add.1 hcid
    exact h.free hi₁ (by omega)
  have hheld : ∀ cid ∈ (s.session.cidSlide kdf s.session.inboundCidHighestSeen newHigh).remove,
      ∃ e, s.table.entry cid = some e := by
    intro cid hcid
    obtain ⟨i, hi₁, hi₂, rfl⟩ := mem_cidSlide_remove.1 hcid
    obtain ⟨e, he, -⟩ := h.routed hi₁ (by omega)
    exact ⟨e, he⟩
  have haddLen := length_cidSlide_add kdf s.session s.session.inboundCidHighestSeen newHigh
  have hremoveLen := length_cidSlide_remove kdf s.session s.session.inboundCidHighestSeen newHigh
  have hroom := h.room
  have happly := fun cid =>
    entry_applySlide closed cid hanchor (h.distinct.nodup (by omega) (by omega)) hfree (by omega)
      (h.distinct.nodup (by omega) (by omega)) hheld
  refine ⟨fun i hi₁ hi₂ => ?_, fun i hi₁ hi₂ => ⟨e, ?_, ho⟩, fun cid hr ha => ?_, ?_⟩
  · rw [(happly _).1, if_pos (mem_cidSlide_remove.2 ⟨i, hi₁, hi₂, rfl⟩)]
  · rw [(happly _).1, if_neg, if_pos (mem_cidSlide_add.2 ⟨i, hi₁, hi₂, rfl⟩)]
    -- a leading index is not a trailing one
    intro hmem
    obtain ⟨j, hj₁, hj₂, heq⟩ := mem_cidSlide_remove.1 hmem
    have := h.distinct.apart j i hj₁ (by omega) (by omega) (by omega) heq
    omega
  · rw [(happly cid).1, if_neg, if_neg]
    · grind [mem_cidSlide_add]
    · grind [mem_cidSlide_remove]
  · have hlen := (happly bootstrap).2
    omega

section
variable (h : Ready kdf bootstrap o hi s) (hslid : Slid kdf o s newHigh t')
  (hnew : s.session.inboundCidHighestSeen < newHigh)
  (hstep : newHigh ≤ s.session.inboundCidHighestSeen + cidWindowLeading)
  (hhi : newHigh + cidWindowLeading ≤ hi) {e : RouteEntry}
include h hslid hnew hstep hhi

theorem slid_holds (cid : Bytes) : (t'.entry cid).any (·.owner = o) = true ↔ cid = bootstrap ∨
      ∃ i, newHigh - cidWindowTrailing ≤ i ∧ i ≤ newHigh + cidWindowLeading ∧
        s.session.cidChain.inboundCid kdf i = cid := by
  have hbefore := h.holds cid
  rw [mem_cons, mem_inboundWindowCids] at hbefore
  by_cases hr : ∃ i, s.session.inboundCidHighestSeen - cidWindowTrailing ≤ i ∧
      i < newHigh - cidWindowTrailing ∧ s.session.cidChain.inboundCid kdf i = cid
  · -- a trailing index: gone, and not in the new window
    obtain ⟨i, hi₁, hi₂, rfl⟩ := hr
    rw [hslid.removed i hi₁ hi₂]
    refine iff_of_false (by simp) ?_
    rintro (hboot | ⟨j, hj₁, hj₂, heq⟩)
    · exact h.distinct.notBootstrap i hi₁ (by omega) hboot
    · have := h.distinct.apart j i (by omega) (by omega) hi₁ (by omega) heq
      omega
  · by_cases ha : ∃ i, s.session.inboundCidHighestSeen + cidWindowLeading < i ∧
        i ≤ newHigh + cidWindowLeading ∧ s.session.cidChain.inboundCid kdf i = cid
    · -- a leading index
      obtain ⟨i, hi₁, hi₂, rfl⟩ := ha
      obtain ⟨e, he, ho⟩ := hslid.added i hi₁ hi₂
      refine iff_of_true (by simp [he, ho]) (.inr ⟨i, by omega, hi₂, rfl⟩)
    · rw [hslid.kept cid (fun i h₁ h₂ heq => hr ⟨i, h₁, h₂, heq⟩)
        (fun i h₁ h₂ heq => ha ⟨i, h₁, h₂, heq⟩), hbefore]
      refine or_congr_right ⟨?_, ?_⟩
      · grind
      · grind

theorem slid_unshared {i : Nat} (hlo : newHigh - cidWindowTrailing ≤ i) (htop : i ≤ hi)
    (he : t'.entry (s.session.cidChain.inboundCid kdf i) = some e) :
    e.owner = o := by
  by_cases ha : s.session.inboundCidHighestSeen + cidWindowLeading < i ∧
      i ≤ newHigh + cidWindowLeading
  · obtain ⟨e', he', ho⟩ := hslid.added i ha.1 ha.2
    rw [he] at he'
    cases he'
    exact ho
  · apply h.distinct.unshared i (by omega) htop
    rw [← hslid.kept _ ?_ ?_]
    · exact he
    · intro j hj₁ hj₂ heq
      have := h.distinct.apart j i hj₁ (by omega) (by omega) htop heq
      omega
    · intro j hj₁ hj₂ heq
      have := h.distinct.apart j i (by omega) (by omega) (by omega) htop heq
      omega

theorem slid_others (ho : e.owner ≠ o) : t'.entry cid = some e ↔ s.table.entry cid = some e := by
  by_cases hr : ∃ i, s.session.inboundCidHighestSeen - cidWindowTrailing ≤ i ∧
      i < newHigh - cidWindowTrailing ∧ s.session.cidChain.inboundCid kdf i = cid
  · obtain ⟨i, hi₁, hi₂, rfl⟩ := hr
    rw [hslid.removed i hi₁ hi₂]
    refine iff_of_false (by simp) fun he => ?_
    exact ho (h.distinct.unshared i hi₁ (by omega) e he)
  · by_cases ha : ∃ i, s.session.inboundCidHighestSeen + cidWindowLeading < i ∧
        i ≤ newHigh + cidWindowLeading ∧ s.session.cidChain.inboundCid kdf i = cid
    · obtain ⟨i, hi₁, hi₂, rfl⟩ := ha
      obtain ⟨e', he', ho'⟩ := hslid.added i hi₁ hi₂
      rw [he', h.free hi₁ (by omega)]
      refine iff_of_false ?_ (by simp)
      rintro ⟨⟩
      exact ho ho'
    · simp_all [hslid.kept]

end

/-! ## Runs -/

theorem step_newer (hforward : 1 ≤ forward s ev) (hmax : forward s ev ≤ cidWindowLeading) :
    step kdf s ev = some
      { session :=
          { s.session with
            lastSeenPathId := ev.pathId
            inboundCidHighestSeen := s.session.inboundCidHighestSeen + forward s ev }
        table := s.table.applySlide ev.closed (s.session.cidSlide kdf
          s.session.inboundCidHighestSeen (s.session.inboundCidHighestSeen + forward s ev)) } := by
  have hnewer : s.session.Newer ev.pathId := by
    rw [Migration.newer_iff]
    unfold forward cidWindowLeading at *
    omega
  unfold step
  rw [Migration.noteMigrationPath_newer hnewer]
  rfl

/-- **One slide.** The window is again the recomputed one, and the routes of other sessions are
untouched. -/
theorem ready_step (h : Ready kdf bootstrap o hi s) (hs : step kdf s ev = some s')
    (hforward : 1 ≤ forward s ev) (hmax : forward s ev ≤ cidWindowLeading)
    (hhi : s'.session.inboundCidHighestSeen + cidWindowLeading ≤ hi) :
    Ready kdf bootstrap o hi s' ∧
      ∀ cid e, e.owner ≠ o → (s'.table.entry cid = some e ↔ s.table.entry cid = some e) := by
  rw [step_newer hforward hmax] at hs
  cases hs
  have hnew : s.session.inboundCidHighestSeen <
    s.session.inboundCidHighestSeen + forward s ev := by omega
  have hstep : s.session.inboundCidHighestSeen + forward s ev ≤
    s.session.inboundCidHighestSeen + cidWindowLeading := by omega
  have hslid := h.applySlide ev.closed hnew hstep hhi
  have hroom := h.room
  have hlen := hslid.len
  refine ⟨⟨fun cid => ?_, ⟨?_, ?_, fun i hi₁ hi₂ e he => ?_⟩, ?_⟩, fun cid e ho => ?_⟩
  · rw [mem_cons, mem_inboundWindowCids]
    have hholds := slid_holds h hslid hnew hstep hhi cid
    exact hholds
  · exact (h.distinct.mono (by dsimp only; omega) (Nat.le_refl _)).apart
  · exact (h.distinct.mono (by dsimp only; omega) (Nat.le_refl _)).notBootstrap
  all_goals grind [slid_unshared, slid_others]

theorem highest_mono (hs : step kdf s ev = some s') :
    s.session.inboundCidHighestSeen ≤ s'.session.inboundCidHighestSeen := by
  cases hs
  by_cases hnewer : s.session.Newer ev.pathId
  · rw [Migration.noteMigrationPath_newer hnewer]
    exact Nat.le_add_right _ _
  · rw [Migration.noteMigrationPath_not_newer hnewer]

theorem ready_run (es : List Event) (h : Ready kdf bootstrap o hi s)
    (hrun : run (step kdf) s es = some s')
    (hsteps : Along (step kdf)
      (fun s ev _ => 1 ≤ forward s ev ∧ forward s ev ≤ cidWindowLeading) s es)
    (hhi : s'.session.inboundCidHighestSeen + cidWindowLeading ≤ hi) :
    Ready kdf bootstrap o hi s' ∧
      ∀ cid e, e.owner ≠ o → (s'.table.entry cid = some e ↔ s.table.entry cid = some e) := by
  induction es generalizing s with
  | nil =>
    cases hrun
    exact ⟨h, fun _ _ _ => Iff.rfl⟩
  | cons _ es =>
    obtain ⟨s₁, hs, hrest⟩ := run_cons_inv hrun
    obtain ⟨⟨hforward, hmax⟩, hsteps'⟩ := hsteps s₁ hs
    have hreach : Reaches (step kdf) s₁ s' := ⟨es, hrest⟩
    have hmono := hreach.mono (f := fun s => s.session.inboundCidHighestSeen)
      fun _ _ _ => highest_mono
    grind [ready_step]

theorem holdsExactly_registerWindow (cids : List Bytes) (closed : Channel → Bool) (tx : Channel)
    (o : RouteOwner) (hnodup : cids.Nodup) (hroom : cids.length ≤ maxRoutes) :
    HoldsExactly (RouteTable.new.registerWindow closed cids tx o) o cids ∧
      (RouteTable.new.registerWindow closed cids tx o).len ≤ cids.length ∧
      ∀ cid e, (RouteTable.new.registerWindow closed cids tx o).entry cid = some e →
        e.owner = o := by
  have hempty : ∀ cid, RouteTable.new.entry cid = none := fun _ => rfl
  have hzero : RouteTable.new.len = 0 := rfl
  have hentry := fun cid => entry_foldl_tryInsert closed cid tx o cids hnodup
    (fun cid _ => hempty cid) (by omega)
  refine ⟨fun cid => ?_, ?_, fun cid e he => ?_⟩
  · grind
  · have := (hentry []).2
    omega
  · grind

/-- **Incremental slides reproduce the window.** Start from a demux that routes exactly the
session's window and its bootstrap connection ID, with distinct connection IDs and room for one
slide more than a full window. After any path ids, each at most `CID_WINDOW_LEADING` ahead of the
one before, the demux routes exactly the window recomputed from the new index and the bootstrap
connection ID, and routes everybody else as before. -/
theorem slides_reproduce_window (es : List Event) (hrun : run (step kdf) s es = some s')
    (hsteps : Along (step kdf)
      (fun s ev _ => 1 ≤ forward s ev ∧ forward s ev ≤ cidWindowLeading) s es)
    (hstart : HoldsExactly s.table o (bootstrap :: s.session.inboundWindowCids kdf))
    (hdistinct : DistinctCids kdf s.session.cidChain bootstrap s.table o
      (s.session.inboundCidHighestSeen - cidWindowTrailing)
      (s'.session.inboundCidHighestSeen + cidWindowLeading))
    (hroom : s.table.len + cidWindowTrailing + cidWindowLeading ≤ maxRoutes) :
    HoldsExactly s'.table o (bootstrap :: s'.session.inboundWindowCids kdf) ∧
      ∀ cid e, e.owner ≠ o → (s'.table.entry cid = some e ↔ s.table.entry cid = some e) := by
  have hready : Ready kdf bootstrap o (s'.session.inboundCidHighestSeen + cidWindowLeading) s :=
    ⟨hstart, hdistinct, by omega⟩
  obtain ⟨h', hothers⟩ := ready_run es hready hrun hsteps (Nat.le_refl _)
  exact ⟨h'.holds, hothers⟩

/-- A server session on an otherwise empty demux, right after its window was registered. -/
def freshWindow : State :=
  let session := Migration.new Kdf.plain [] true
  { session
    table := RouteTable.new.registerWindow (fun _ => false)
      ([9] :: session.inboundWindowCids Kdf.plain) 7 1 }

theorem plain_inboundCid (n : Nat) :
    freshWindow.session.cidChain.inboundCid Kdf.plain n = beBytes 8 n :=
  take_of_length_le (Nat.le_of_eq (beBytes_length 8 n))

theorem freshWindow_distinct {lo hi : Nat} (hhi : hi < 2 ^ 64) :
    DistinctCids Kdf.plain freshWindow.session.cidChain [9] freshWindow.table 1 lo hi where
  apart i j _ hi _ hj heq := by
    rw [plain_inboundCid, plain_inboundCid] at heq
    have hnat := congrArg beNat heq
    rw [beNat_beBytes, beNat_beBytes] at hnat
    omega
  notBootstrap i _ _ heq := by
    have hlen := congrArg List.length heq
    rw [plain_inboundCid, beBytes_length] at hlen
    cases hlen
  unshared i _ _ e he :=
    (holdsExactly_registerWindow _ (fun _ => false) 7 1 (by decide) (by decide)).2.2 _ e he

def twoSlides : List Event := [⟨1, fun _ => false⟩, ⟨4, fun _ => true⟩]

/-- Two slides, the second across the point where the trailing edge leaves index 0. -/
theorem freshWindow_slides :
    ∃ s', run (step Kdf.plain) freshWindow twoSlides = some s' ∧
      s'.session.inboundCidHighestSeen = 4 ∧
      HoldsExactly s'.table 1 ([9] :: s'.session.inboundWindowCids Kdf.plain) := by
  have hsteps : Along (step Kdf.plain) (fun s ev _ => 1 ≤ forward s ev ∧
      forward s ev ≤ cidWindowLeading) freshWindow twoSlides := by decide
  obtain ⟨hholds, hlen, -⟩ :=
    holdsExactly_registerWindow ([9] :: freshWindow.session.inboundWindowCids Kdf.plain)
      (fun _ => false) 7 1 (by decide) (by decide)
  refine ⟨_, rfl, rfl, ?_⟩
  exact (slides_reproduce_window twoSlides rfl hsteps hholds (freshWindow_distinct (by decide))
    (Nat.le_trans (Nat.add_le_add_right (Nat.add_le_add_right hlen _) _) (by decide))).1

end WindowSlides

end PhantomProtocol
