import PhantomProtocol.Api.RouteTable

/-!
# The reverse index of the route table

Every operation but `retire_session` reaches the two maps through `insert_route` and `remove_route`.
-/

namespace PhantomProtocol.RouteTable

open List AList

variable {closed : Channel → Bool} {t t' t'' : RouteTable} {cid c : Bytes} {tx : Channel}
  {owner o : RouteOwner} {e : RouteEntry}

/-! ## Looking up -/

@[simp] theorem entry_sync : t.sync.entry cid = t.entry cid := rfl

@[simp] theorem entry_forgetOwned : (t.forgetOwned o c).entry cid = t.entry cid := by
  unfold forgetOwned
  split
  · rfl
  · dsimp only
    split
    · rfl
    · rfl

theorem cidsOf_forgetOwned : (t.forgetOwned o c).cidsOf owner =
      if owner = o then (t.cidsOf o).filter (· ≠ c) else t.cidsOf owner := by
  unfold forgetOwned
  split
  · grind [cidsOf]
  · rename_i cids hsome
    dsimp only
    have hcids : t.cidsOf o = cids := by rw [cidsOf, hsome]; rfl
    split
    · rename_i hempty
      by_cases heq : owner = o
      · subst heq
        rw [if_pos rfl, hcids, isEmpty_iff.1 hempty]
        simp [cidsOf]
      · simp [cidsOf, heq]
    · by_cases heq : owner = o
      · subst heq
        rw [if_pos rfl, hcids]
        simp [cidsOf]
      · simp [cidsOf, heq]

theorem entry_insertRoute :
    (t.insertRoute c tx o).entry cid = if cid = c then some ⟨tx, o⟩ else t.entry cid := by
  have hinsert : AList.lookup cid (t.routes.insert c ⟨tx, o⟩) =
      if cid = c then some ⟨tx, o⟩ else t.entry cid := by
    split
    · rename_i heq
      rw [heq, lookup_insert]
    · rename_i hne
      rw [lookup_insert_ne hne]
      rfl
  unfold insertRoute
  dsimp only
  rw [← hinsert]
  cases t.entry c with
  | none => rfl
  | some => exact entry_forgetOwned

theorem entry_removeRoute :
    (t.removeRoute c).entry cid = if cid = c then none else t.entry cid := by
  unfold removeRoute
  split
  · simp_all
  · rw [entry_forgetOwned]
    split
    · rename_i heq
      rw [heq]
      exact lookup_erase ..
    · rename_i hne
      exact lookup_erase_ne hne

theorem entry_of_foldl_removeRoute (cids : List Bytes)
    (h : (cids.foldl removeRoute t).entry cid = some e) : t.entry cid = some e := by
  induction cids generalizing t with
  | nil => exact h
  | cons => grind [entry_removeRoute]

/-! ## The reverse index -/

/-- The reverse index and the routes agree. -/
def Indexed (t : RouteTable) : Prop := ∀ o cid, cid ∈ t.cidsOf o ↔ ∃ tx, t.entry cid = some ⟨tx, o⟩

theorem indexed_new : Indexed new := by
  intro o cid
  simp [cidsOf, entry, new]

theorem Indexed.mem_iff (h : Indexed t) :
    cid ∈ t.cidsOf o ↔ (t.entry cid).any (·.owner = o) = true := by
  rw [h o cid]
  cases he : t.entry cid with
  | none => simp
  | some e =>
    obtain ⟨tx, owner⟩ := e
    simp

theorem Indexed.not_mem (h : Indexed t) (hne : ∀ e, t.entry cid = some e → e.owner ≠ o) :
    cid ∉ t.cidsOf o := by
  intro hmem
  obtain ⟨tx, htx⟩ := (h o cid).1 hmem
  exact hne _ htx rfl

/-- A connection ID that is not listed is not missed. -/
theorem filter_ne_of_not_mem {l : List Bytes} (h : cid ∉ l) : l.filter (· ≠ cid) = l := by
  rw [filter_eq_self]
  intro a ha
  rw [decide_eq_true_eq]
  rintro rfl
  exact h ha

theorem Indexed.cidsOf_removeRoute (h : Indexed t) :
    (t.removeRoute c).cidsOf o = (t.cidsOf o).filter (· ≠ c) := by
  unfold RouteTable.removeRoute
  split
  · rename_i hnone
    rw [filter_ne_of_not_mem]
    apply h.not_mem
    rw [hnone]
    intro e he
    cases he
  · rename_i e he
    rw [cidsOf_forgetOwned]
    split
    · rename_i ho
      rw [ho]
      rfl
    · rename_i ho
      rw [filter_ne_of_not_mem]
      · rfl
      · apply h.not_mem
        rw [he]
        rintro _ ⟨⟩
        exact Ne.symm ho

/-- The route replaces an older one of the same connection ID, whoever that belonged to. -/
theorem Indexed.cidsOf_insertRoute (h : Indexed t) : (t.insertRoute c tx owner).cidsOf o =
      if o = owner then (t.cidsOf o).filter (· ≠ c) ++ [c] else (t.cidsOf o).filter (· ≠ c) := by
  -- once the older route is forgotten, nobody lists `c`
  have hcleared : ∀ t' : RouteTable, (∀ o, t'.cidsOf o = (t.cidsOf o).filter (· ≠ c)) →
      cidsOf { t' with owned := t'.owned.insert owner (t'.cidsOf owner ++ [c]) } o =
        if o = owner then (t.cidsOf o).filter (· ≠ c) ++ [c]
        else (t.cidsOf o).filter (· ≠ c) := by
    intro t' ht'
    split
    · rename_i ho
      subst ho
      rw [← ht']
      simp [cidsOf]
    · simp_all [cidsOf, lookup_insert_ne]
  unfold RouteTable.insertRoute
  dsimp only
  apply hcleared
  intro o
  cases hc : t.entry c with
  | none =>
    rw [filter_ne_of_not_mem]
    · rfl
    · apply h.not_mem
      rw [hc]
      intro e he
      cases he
  | some previous =>
    dsimp only
    rw [cidsOf_forgetOwned]
    split
    · rename_i ho
      rw [ho]
      rfl
    · rename_i ho
      rw [filter_ne_of_not_mem]
      · rfl
      · apply h.not_mem
        rw [hc]
        rintro _ ⟨⟩
        exact Ne.symm ho

theorem Indexed.removeRoute (h : Indexed t) : Indexed (t.removeRoute c) := by
  intro o cid
  rw [h.cidsOf_removeRoute, entry_removeRoute, mem_filter, h o cid]
  by_cases heq : cid = c
  · simp [heq]
  · simp [heq]

theorem Indexed.insertRoute (h : Indexed t) : Indexed (t.insertRoute c tx owner) := by
  intro o cid
  have hold := h o cid
  rw [h.cidsOf_insertRoute, entry_insertRoute]
  by_cases heq : cid = c
  · by_cases ho : o = owner
    · simp [heq, ho]
    · simp [heq, ho, Ne.symm ho]
  · grind

/-! ## Single edits -/

/-- `t'` comes from `t` by inserting routes, each while there was room, and removing routes. -/
inductive Edits (t : RouteTable) : RouteTable → Prop
  | refl : Edits t t
  | insert {t' : RouteTable} (c : Bytes) (tx : Channel) (owner : RouteOwner) (h : Edits t t')
      (hroom : t'.len < maxRoutes) : Edits t (t'.insertRoute c tx owner)
  | remove {t' : RouteTable} (c : Bytes) (h : Edits t t') : Edits t (t'.removeRoute c)
  | sync {t' : RouteTable} (h : Edits t t') : Edits t t'.sync

theorem Edits.trans (h : Edits t t') (h' : Edits t' t'') : Edits t t'' := by
  induction h' with
  | refl => exact h
  | insert c tx owner _ hroom ih => exact ih.insert c tx owner hroom
  | remove c _ ih => exact ih.remove c
  | sync _ ih => exact ih.sync

theorem edits_foldl_removeRoute (cids : List Bytes) : Edits t (cids.foldl removeRoute t) := by
  induction cids generalizing t with
  | nil => exact .refl
  | cons c _ ih => exact (Edits.refl.remove c).trans ih

theorem edits_reapDead : Edits t (t.reapDead closed) :=
  (edits_foldl_removeRoute _).sync

theorem edits_makeRoom : Edits t (t.makeRoom closed) := by
  unfold makeRoom
  split
  · exact edits_reapDead
  · exact .refl

/-- A refused insertion may still have made room. -/
theorem tryInsert_cases (closed : Channel → Bool) (t : RouteTable) (c : Bytes) (tx : Channel)
    (owner : RouteOwner) :
    (t.tryInsert closed c tx owner).1 = t ∨
      (∀ e, t.entry c = some e → closed e.tx = true) ∧
        ((t.tryInsert closed c tx owner).1 = t.makeRoom closed ∨
          (t.makeRoom closed).len < maxRoutes ∧
            (t.tryInsert closed c tx owner).1 =
              ((t.makeRoom closed).insertRoute c tx owner).sync) := by
  unfold tryInsert
  dsimp only
  split
  · exact .inl rfl
  · grind

theorem edits_tryInsert : Edits t (t.tryInsert closed c tx owner).1 := by
  obtain heq | ⟨-, heq | ⟨hroom, heq⟩⟩ := tryInsert_cases closed t c tx owner
  · rw [heq]
    exact .refl
  · rw [heq]
    exact edits_makeRoom
  · rw [heq]
    exact (edits_makeRoom.insert c tx owner hroom).sync

theorem edits_registerWindow (cids : List Bytes) :
    Edits t (t.registerWindow closed cids tx owner) := by
  unfold registerWindow
  induction cids generalizing t with
  | nil => exact .refl
  | cons _ _ ih => exact edits_tryInsert.trans ih

theorem edits_applySlide (slide : CidSlide) : Edits t (t.applySlide closed slide) := by
  unfold applySlide
  split
  · exact .refl
  · exact ((edits_registerWindow slide.add).trans (edits_foldl_removeRoute slide.remove)).sync

theorem edits_removeIfDead : Edits t (t.removeIfDead closed c) := by
  unfold removeIfDead
  split
  · exact (Edits.refl.remove c).sync
  · exact .refl

theorem edits_deliver (frame : Bytes) (full : Bool) :
    Edits t (t.deliver closed c frame full).1 := by
  unfold deliver
  split
  · exact .refl
  · dsimp only
    split
    · exact edits_removeIfDead
    · exact .refl

/-- Insertions and removals keep the agreement. -/
theorem Edits.indexed (h : Edits t t') (hi : Indexed t) : Indexed t' := by
  induction h with
  | refl => exact hi
  | insert _ _ _ _ _ ih => exact ih.insertRoute
  | remove c _ ih => exact ih.removeRoute
  | sync _ ih => exact ih

/-! ## Retiring a session -/

theorem lookup_foldl_erase (routes : AList fun _ : Bytes => RouteEntry) (cids : List Bytes) :
    (cids.foldl (fun routes cid => routes.erase cid) routes).lookup cid =
      if cid ∈ cids then none else routes.lookup cid := by
  induction cids generalizing routes with
  | nil => rfl
  | cons c _ ih =>
    rw [foldl_cons, ih]
    by_cases heq : cid = c
    · subst heq
      simp
    · simp [heq]

/-- Retiring a session releases its routes and no others. -/
theorem entry_retireSession (h : Indexed t) : (t.retireSession owner).entry cid =
      if (t.entry cid).any (·.owner = owner) then none else t.entry cid := by
  have hmem : cid ∈ t.cidsOf owner ↔ (t.entry cid).any (·.owner = owner) = true := h.mem_iff
  unfold retireSession
  split
  · simp_all [cidsOf]
  · rename_i cids hsome
    have hcids : t.cidsOf owner = cids := by rw [cidsOf, hsome]; rfl
    rw [hcids] at hmem
    rw [entry_sync]
    refine (lookup_foldl_erase t.routes cids).trans ?_
    by_cases hin : cid ∈ cids
    · rw [if_pos hin, if_pos (hmem.1 hin)]
    · rw [if_neg hin, if_neg (mt hmem.2 hin)]
      rfl

theorem cidsOf_retireSession :
    (t.retireSession owner).cidsOf o = if o = owner then [] else t.cidsOf o := by
  unfold retireSession
  split
  · grind [cidsOf]
  · split
    · rename_i ho
      subst ho
      simp [cidsOf, sync]
    · rename_i ho
      simp [ho, cidsOf, sync]

theorem Indexed.retireSession (h : Indexed t) : Indexed (t.retireSession owner) := by
  intro o cid
  rw [entry_retireSession h, cidsOf_retireSession]
  by_cases ho : o = owner
  · grind
  · rw [if_neg ho, h o cid]
    constructor
    · rintro ⟨tx, htx⟩
      exact ⟨tx, by simp [htx, ho]⟩
    · simp

/-! ## The whole table -/

theorem routes_forgetOwned : (t.forgetOwned o c).routes = t.routes := by
  unfold forgetOwned
  split
  · rfl
  · dsimp only
    split
    · rfl
    · rfl

theorem len_removeRoute_le : (t.removeRoute c).len ≤ t.len := by
  unfold removeRoute
  split
  · exact Nat.le_refl _
  · rw [len, routes_forgetOwned]
    exact (kerase_sublist c t.routes.entries).length_le

theorem len_insertRoute_le : (t.insertRoute c tx owner).len ≤ t.len + 1 := by
  have hroutes : (t.insertRoute c tx owner).routes = t.routes.insert c ⟨tx, owner⟩ := by
    unfold insertRoute
    dsimp only
    split
    · exact routes_forgetOwned
    · rfl
  rw [len, hroutes, entries_insert, length_cons]
  exact Nat.succ_le_succ (kerase_sublist c t.routes.entries).length_le

theorem len_retireSession_le : (t.retireSession owner).len ≤ t.len := by
  have hfold : ∀ (cids : List Bytes) (routes : AList fun _ : Bytes => RouteEntry),
      (cids.foldl (fun routes cid => routes.erase cid) routes).entries.length ≤
        routes.entries.length := by
    intro cids
    induction cids with
    | nil =>
      intro routes
      exact Nat.le_refl _
    | cons c _ ih =>
      intro routes
      exact (ih _).trans (kerase_sublist c routes.entries).length_le
  unfold retireSession
  split
  · exact Nat.le_refl _
  · exact hfold _ _

/-- The index lists something for every session it has an entry for. -/
def NoneEmpty (t : RouteTable) : Prop := ∀ o, t.owned.lookup o ≠ some []

theorem NoneEmpty.forgetOwned (h : NoneEmpty t) : NoneEmpty (t.forgetOwned o c) := by
  intro owner
  unfold RouteTable.forgetOwned
  split
  · exact h owner
  · rename_i cids hsome
    dsimp only
    by_cases ho : owner = o
    · subst ho
      split
      · simp
      · simp_all
    · split
      · simpa [ho] using h owner
      · simpa [ho] using h owner

theorem NoneEmpty.removeRoute (h : NoneEmpty t) : NoneEmpty (t.removeRoute c) := by
  unfold RouteTable.removeRoute
  split
  · exact h
  · exact NoneEmpty.forgetOwned h

theorem NoneEmpty.insertRoute (h : NoneEmpty t) : NoneEmpty (t.insertRoute c tx owner) := by
  have hpush : ∀ t' : RouteTable, NoneEmpty t' →
      NoneEmpty { t' with owned := t'.owned.insert owner (t'.cidsOf owner ++ [c]) } := by
    intro t' ht' o
    by_cases ho : o = owner
    · subst ho
      simp
    · simpa [ho] using ht' o
  unfold RouteTable.insertRoute
  apply hpush
  split
  · exact NoneEmpty.forgetOwned h
  · exact h

/-- And the index lists every route once, lists nothing for a session without routes, and the table
keeps to its cap. -/
structure Consistent (t : RouteTable) : Prop where
  indexed : Indexed t
  once : ∀ o, (t.cidsOf o).Nodup
  noneEmpty : NoneEmpty t
  bounded : t.len ≤ maxRoutes

theorem consistent_new : Consistent new where
  indexed := indexed_new
  once o := by simp [cidsOf, new]
  noneEmpty o := by simp [new]
  bounded := Nat.zero_le _

theorem Edits.consistent (h : Edits t t') (hc : Consistent t) : Consistent t' := by
  induction h with
  | refl => exact hc
  | insert c _ _ _ hroom ih =>
    refine ⟨ih.indexed.insertRoute, fun o => ?_, ih.noneEmpty.insertRoute,
      len_insertRoute_le.trans hroom⟩
    rw [ih.indexed.cidsOf_insertRoute]
    have hkept := (ih.once o).filter fun cid => decide (cid ≠ c)
    split
    · grind
    · exact hkept
  | remove c _ ih =>
    refine ⟨ih.indexed.removeRoute, fun o => ?_, ih.noneEmpty.removeRoute,
      len_removeRoute_le.trans ih.bounded⟩
    rw [ih.indexed.cidsOf_removeRoute]
    exact (ih.once o).filter _
  | sync _ ih => exact ⟨ih.indexed, ih.once, ih.noneEmpty, ih.bounded⟩

theorem Consistent.retireSession (h : Consistent t) : Consistent (t.retireSession owner) where
  indexed := h.indexed.retireSession
  once o := by
    rw [cidsOf_retireSession]
    split
    · exact nodup_nil
    · exact h.once o
  noneEmpty o := by
    unfold RouteTable.retireSession
    split
    · exact h.noneEmpty o
    · by_cases ho : o = owner
      · subst ho
        simp [sync]
      · simpa [sync, ho] using h.noneEmpty o
  bounded := len_retireSession_le.trans h.bounded

/-! ## Sequences of operations -/

inductive Op where
  | tryInsert (cid : Bytes) (tx : Channel) (owner : RouteOwner)
  | registerWindow (cids : List Bytes) (tx : Channel) (owner : RouteOwner)
  | applySlide (slide : CidSlide)
  | retireSession (owner : RouteOwner)
  | deliver (cid frame : Bytes) (full : Bool)
  | removeIfDead (cid : Bytes)
  | reapDead

def apply (closed : Channel → Bool) (t : RouteTable) : Op → RouteTable
  | .tryInsert cid tx owner => (t.tryInsert closed cid tx owner).1
  | .registerWindow cids tx owner => t.registerWindow closed cids tx owner
  | .applySlide slide => t.applySlide closed slide
  | .retireSession owner => t.retireSession owner
  | .deliver cid frame full => (t.deliver closed cid frame full).1
  | .removeIfDead cid => t.removeIfDead closed cid
  | .reapDead => t.reapDead closed

/-- The table after a sequence of operations, each with the channels that are closed by then. -/
def after (ops : List ((Channel → Bool) × Op)) : RouteTable :=
  ops.foldl (fun t op => t.apply op.1 op.2) new

theorem Consistent.apply (h : Consistent t) (op : Op) : Consistent (t.apply closed op) := by
  cases op with
  | tryInsert => exact edits_tryInsert.consistent h
  | registerWindow cids => exact (edits_registerWindow cids).consistent h
  | applySlide slide => exact (edits_applySlide slide).consistent h
  | retireSession => exact h.retireSession
  | deliver _ frame full => exact (edits_deliver frame full).consistent h
  | removeIfDead => exact edits_removeIfDead.consistent h
  | reapDead => exact edits_reapDead.consistent h

section

variable (h : t.gauge = t.len)
include h

theorem gauge_tryInsert :
    (t.tryInsert closed c tx owner).1.gauge = (t.tryInsert closed c tx owner).1.len := by
  obtain heq | ⟨-, heq | ⟨-, heq⟩⟩ := tryInsert_cases closed t c tx owner
  · rw [heq]
    exact h
  · rw [heq, makeRoom]
    split
    · rfl
    · exact h
  · rw [heq]
    rfl

theorem gauge_registerWindow (cids : List Bytes) : (t.registerWindow closed cids tx owner).gauge =
      (t.registerWindow closed cids tx owner).len := by
  unfold registerWindow
  induction cids generalizing t with
  | nil => exact h
  | cons _ _ ih => exact ih (gauge_tryInsert h)

theorem gauge_removeIfDead : (t.removeIfDead closed c).gauge = (t.removeIfDead closed c).len := by
  unfold removeIfDead
  split
  · rfl
  · exact h

/-- Every operation that changes the table writes the gauge last. -/
theorem gauge_apply (op : Op) : (t.apply closed op).gauge = (t.apply closed op).len := by
  cases op with
  | tryInsert => exact gauge_tryInsert h
  | registerWindow cids => exact gauge_registerWindow h cids
  | applySlide slide =>
    show (t.applySlide closed slide).gauge = (t.applySlide closed slide).len
    unfold applySlide
    split
    · exact h
    · rfl
  | retireSession owner =>
    show (t.retireSession owner).gauge = (t.retireSession owner).len
    unfold retireSession
    split
    · exact h
    · rfl
  | deliver cid frame full =>
    show (t.deliver closed cid frame full).1.gauge = (t.deliver closed cid frame full).1.len
    unfold deliver
    split
    · exact h
    · dsimp only
      split
      · exact gauge_removeIfDead h
      · exact h
  | removeIfDead => exact gauge_removeIfDead h
  | reapDead => rfl

end

theorem consistent_foldl (ops : List ((Channel → Bool) × Op)) (h : Consistent t)
    (hgauge : t.gauge = t.len) :
    Consistent (ops.foldl (fun t op => t.apply op.1 op.2) t) ∧
      (ops.foldl (fun t op => t.apply op.1 op.2) t).gauge =
        (ops.foldl (fun t op => t.apply op.1 op.2) t).len := by
  induction ops generalizing t with
  | nil => exact ⟨h, hgauge⟩
  | cons op _ ih => exact ih (h.apply op.2) (gauge_apply hgauge op.2)

/-- **The reverse index.** After every sequence of operations, a connection ID is in the index of a
session exactly when its route is the session's, and there once; the index has no empty entry; the
table keeps to its cap and the gauge is its size. So retiring a session removes its routes and leaves
every other route as it was. -/
theorem consistent_after (ops : List ((Channel → Bool) × Op)) :
    (∀ o cid, cid ∈ (after ops).cidsOf o ↔ ((after ops).entry cid).any (·.owner = o) = true) ∧
      (∀ o, ((after ops).cidsOf o).Nodup) ∧ (∀ o, (after ops).owned.lookup o ≠ some []) ∧
      (after ops).len ≤ maxRoutes ∧ (after ops).gauge = (after ops).len ∧
      ∀ o cid, ((after ops).retireSession o).entry cid =
        if ((after ops).entry cid).any (·.owner = o) then none else (after ops).entry cid := by
  obtain ⟨hc, hgauge⟩ := consistent_foldl ops consistent_new rfl
  refine ⟨fun o cid => ?_, hc.once, hc.noneEmpty, hc.bounded, hgauge, fun o cid => ?_⟩
  · exact hc.indexed.mem_iff
  · exact entry_retireSession hc.indexed

end PhantomProtocol.RouteTable
