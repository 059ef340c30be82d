import PhantomProtocol.Transport.SessionCache

/-!
# Bookkeeping of the session cache

`lru_order` is kept apart from the tickets. After any operations it lists their ids, each once, and
no ticket has come into the cache but from `store` and from values that `peek` never returned.
-/

namespace PhantomProtocol

open List

namespace SessionCache

variable {c : SessionCache} {id : SessionId} {t : ResumptionTicket} {now : Nat}

/-- The order lists the tickets, and there is room for them. -/
structure Bookkept (c : SessionCache) : Prop where
  order : c.lruOrder.Perm c.tickets.keys
  len_le : c.len ≤ c.maxEntries

theorem len_eq : c.len = c.tickets.keys.length := (length_map ..).symm

theorem bookkept_withCapacity (maxEntries lifetime : Nat) :
    (withCapacity maxEntries lifetime).Bookkept := ⟨.nil, Nat.zero_le _⟩

theorem keys_erase (tickets : AList fun _ : SessionId => ResumptionTicket) (id : SessionId) :
    (tickets.erase id).keys = tickets.keys.filter (· ≠ id) := by
  rw [AList.keys_erase, @List.Nodup.erase_eq_filter _ instBEqOfDecidableEq _ tickets.keys tickets.nodupKeys]
  apply filter_congr
  intro x _
  by_cases hx : x = id <;> simp [hx]

theorem keys_insert (tickets : AList fun _ : SessionId => ResumptionTicket) (id : SessionId)
    (t : ResumptionTicket) : (tickets.insert id t).keys = id :: tickets.keys.filter (· ≠ id) := by
  rw [← keys_erase, AList.keys_insert, AList.keys_erase]

theorem keys_foldl_erase (ids : List SessionId) :
    ∀ tickets : AList fun _ : SessionId => ResumptionTicket,
      (ids.foldl (fun tickets id => tickets.erase id) tickets).keys =
        tickets.keys.filter (· ∉ ids) := by
  induction ids with
  | nil => simp
  | cons _ _ ih =>
    intro tickets
    simp only [List.foldl_cons, ih, keys_erase, List.filter_filter]
    apply List.filter_congr
    intro x _
    simp [Bool.and_comm]

theorem Bookkept.remove (h : c.Bookkept) (id : SessionId) : (c.remove id).1.Bookkept := by
  have horder : (c.remove id).1.lruOrder.Perm (c.remove id).1.tickets.keys := by
    simp only [SessionCache.remove, keys_erase]
    exact h.order.filter _
  refine ⟨horder, ?_⟩
  rw [len_eq, ← horder.length_eq]
  have hle := h.len_le
  rw [len_eq, ← h.order.length_eq] at hle
  exact (List.length_filter_le ..).trans hle

/-- An eviction from a cache that may hold something makes room. -/
theorem Bookkept.evictOldest (h : c.Bookkept) (hpos : 0 < c.maxEntries) (now : Nat) :
    (c.evictOldest now).lruOrder.Perm (c.evictOldest now).tickets.keys ∧
      (c.evictOldest now).len < c.maxEntries := by
  have hle := h.len_le
  rw [len_eq] at hle
  unfold SessionCache.evictOldest
  simp only [len_eq]
  generalize ((c.tickets.entries.filter fun e => decide (e.2.expiresAt ≤ now)).map (·.1)) = expired
  have hkeys := keys_foldl_erase expired c.tickets
  have horder : (c.lruOrder.filter (· ∉ expired)).Perm
      (expired.foldl (fun tickets id => tickets.erase id) c.tickets).keys := by
    rw [hkeys]
    exact h.order.filter _
  have hshort : (expired.foldl (fun tickets id => tickets.erase id) c.tickets).keys.length ≤
      c.maxEntries := by
    rw [hkeys]
    exact (length_filter_le ..).trans hle
  split
  · rename_i hfull
    split
    · rename_i oldest rest hcons
      rw [hcons] at horder
      have hfresh : rest.filter (· ≠ oldest) = rest := by
        rw [filter_eq_self]
        have hnodup := horder.nodup_iff.2 (AList.nodupKeys _)
        intro x hx
        simpa using (ne_of_mem_of_not_mem hx (nodup_cons.1 hnodup).1)
      have hperm := horder.filter (· ≠ oldest)
      rw [filter_cons_of_neg (by simp), hfresh, ← keys_erase] at hperm
      refine ⟨hperm, ?_⟩
      have hlen := horder.length_eq
      rw [length_cons] at hlen
      rw [← hperm.length_eq]
      omega
    · rename_i hnil
      rw [hnil] at horder
      rw [← horder.length_eq, length_nil] at hfull
      omega
  · rename_i hroom
    exact ⟨horder, Nat.lt_of_not_le hroom⟩

theorem Bookkept.insert (h : c.Bookkept) (hpos : 0 < c.maxEntries) :
    (c.insert id t now).Bookkept := by
  unfold SessionCache.insert
  have hroom : ∀ c' : SessionCache, c'.lruOrder.Perm c'.tickets.keys →
      c'.len < c'.maxEntries → Bookkept { c' with
        tickets := c'.tickets.insert id t
        lruOrder := c'.lruOrder.filter (· ≠ id) ++ [id] } := by
    intro c' horder hlt
    rw [len_eq] at hlt
    constructor
    · simp only [keys_insert]
      exact (perm_append_singleton ..).trans ((horder.filter _).cons _)
    · simp only [len_eq, keys_insert, length_cons]
      exact (Nat.succ_le_succ (length_filter_le ..)).trans hlt
  dsimp only
  split
  · obtain ⟨horder, hlt⟩ := h.evictOldest hpos now
    exact hroom _ horder (hlt.trans_eq maxEntries_evictOldest.symm)
  · exact hroom _ h.order (by omega)

theorem pos_of_not_isDisabled (h : ¬c.isDisabled = true) : 0 < c.maxEntries := by
  unfold isDisabled at h
  simp only [beq_iff_eq] at h
  omega

/-! ## Histories -/

inductive Op where
  | store (id : SessionId) (secret : Bytes) (suite : CipherSuite) (now : Nat)
  | peek (id : SessionId) (now : Nat)
  | tryResume (id : SessionId) (now : Nat)
  | reinsertWithExpiry (id : SessionId) (t : ResumptionTicket) (now : Nat)
  | remove (id : SessionId)
  | clear

structure History where
  cache : SessionCache
  /-- The tickets that the calls of `store` were for. -/
  stored : List (SessionId × ResumptionTicket)
  peeked : List (SessionId × ResumptionTicket)
  /-- What was handed back though `peek` had not returned it. -/
  foreign : List (SessionId × ResumptionTicket)

namespace History

def init (maxEntries lifetime : Nat) : History := ⟨withCapacity maxEntries lifetime, [], [], []⟩

def step (h : History) : Op → History
  | .store id secret suite now =>
    { h with
      cache := h.cache.store id secret suite now
      stored := h.stored ++ [(id, .new secret suite h.cache.ticketLifetime now)] }
  | .peek id now =>
    let r := h.cache.peek id now
    { h with cache := r.1, peeked := h.peeked ++ (r.2.map (id, ·)).toList }
  | .tryResume id now => { h with cache := (h.cache.tryResume id now).1 }
  | .reinsertWithExpiry id t now =>
    { h with
      cache := h.cache.reinsertWithExpiry id t now
      foreign := if (id, t) ∈ h.peeked then h.foreign else h.foreign ++ [(id, t)] }
  | .remove id => { h with cache := (h.cache.remove id).1 }
  | .clear => { h with cache := h.cache.clear }

/-- The ticket was made by `store`, or came from elsewhere. -/
def Known (h : History) (id : SessionId) (t : ResumptionTicket) : Prop :=
  (id, t) ∈ h.stored ∨ (id, t) ∈ h.foreign

structure Inv (maxEntries : Nat) (h : History) : Prop where
  maxEntries : h.cache.maxEntries = maxEntries
  bookkept : h.cache.Bookkept
  held : ∀ id t, h.cache.get id = some t → h.Known id t
  peeked : ∀ id t, (id, t) ∈ h.peeked → h.Known id t

variable {h : History} {maxEntries : Nat}

section

variable (hinv : h.Inv maxEntries)
include hinv

theorem Inv.store (id : SessionId) (secret : Bytes) (suite : CipherSuite)
    (now : Nat) : (h.step (.store id secret suite now)).Inv maxEntries := by
  have hmore : ∀ x k, h.Known x k → (h.step (.store id secret suite now)).Known x k :=
    fun x k hk => hk.imp_left (mem_append_left _)
  simp only [step] at hmore ⊢
  refine ⟨?_, ?_, ?_, fun x k hk => hmore x k (hinv.peeked x k hk)⟩
  · simp only [SessionCache.store]
    split <;> simp [hinv.maxEntries]
  · simp only [SessionCache.store]
    split
    · exact hinv.bookkept
    · exact hinv.bookkept.insert (pos_of_not_isDisabled ‹_›)
  · intro x k hk
    by_cases hx : x = id
    · subst hx
      simp only [SessionCache.store] at hk
      split at hk
      · exact hmore x k (hinv.held x k hk)
      · rw [get_insert_self] at hk
        cases hk
        exact .inl (by simp)
    · exact hmore x k (hinv.held x k (get_of_store hx hk))

theorem Inv.reinsertWithExpiry (id : SessionId) (t : ResumptionTicket)
    (now : Nat) : (h.step (.reinsertWithExpiry id t now)).Inv maxEntries := by
  have hmore : ∀ x k, h.Known x k → (h.step (.reinsertWithExpiry id t now)).Known x k := by
    intro x k hk
    apply hk.imp_right
    intro hmem
    simp only [step]
    split
    · exact hmem
    · exact mem_append_left _ hmem
  have hgiven : (h.step (.reinsertWithExpiry id t now)).Known id t := by
    by_cases hpeeked : (id, t) ∈ h.peeked
    · exact hmore id t (hinv.peeked id t hpeeked)
    · right
      simp [step, hpeeked]
  refine ⟨?_, ?_, ?_, fun x k hk => hmore x k (hinv.peeked x k hk)⟩
  · simp only [step, SessionCache.reinsertWithExpiry]
    split <;> simp [hinv.maxEntries]
  · simp only [step, SessionCache.reinsertWithExpiry]
    split
    · exact hinv.bookkept
    · rename_i hopen
      exact hinv.bookkept.insert (pos_of_not_isDisabled fun hoff => hopen (by simp [hoff]))
  · intro x k hk
    rcases get_of_reinsertWithExpiry hk with hk | ⟨rfl, rfl⟩
    · exact hmore x k (hinv.held x k hk)
    · exact hgiven

/-- An operation that leaves a bookkept part of the cache. -/
theorem Inv.shrink {c : SessionCache} (hbook : c.Bookkept)
    (hmax : c.maxEntries = h.cache.maxEntries)
    (hget : ∀ x k, c.get x = some k → h.cache.get x = some k) :
    Inv maxEntries { h with cache := c } :=
  ⟨hmax.trans hinv.maxEntries, hbook, fun x k hk => hinv.held x k (hget x k hk), hinv.peeked⟩

theorem Inv.remove (id : SessionId) : Inv maxEntries { h with cache := (h.cache.remove id).1 } :=
  hinv.shrink (hinv.bookkept.remove id) rfl fun _ _ => get_of_remove

theorem Inv.step (op : Op) : (h.step op).Inv maxEntries := by
  cases op with
  | store id secret suite now => exact hinv.store id secret suite now
  | reinsertWithExpiry id t now => exact hinv.reinsertWithExpiry id t now
  | remove id => exact hinv.remove id
  | clear => exact hinv.shrink ⟨.nil, Nat.zero_le _⟩ rfl fun _ _ hk => by cases hk
  | tryResume id =>
    simp only [History.step, tryResume]
    split
    · exact hinv
    · exact hinv.remove id
  | peek id now =>
    simp only [History.step, peek]
    split
    · simpa using hinv
    · rename_i hget
      split
      · refine ⟨hinv.maxEntries, hinv.bookkept, hinv.held, ?_⟩
        intro x k hk
        rcases mem_append.1 hk with hk | hk
        · exact hinv.peeked x k hk
        · simp only [Option.map_some, Option.toList_some, mem_singleton, Prod.mk.injEq] at hk
          obtain ⟨rfl, rfl⟩ := hk
          exact hinv.held _ _ hget
      · simpa using hinv.remove id

end

theorem Inv.run (maxEntries lifetime : Nat) (ops : List Op) :
    (ops.foldl History.step (.init maxEntries lifetime)).Inv maxEntries := by
  induction ops using List.reverseRecOn with
  | nil =>
    exact ⟨rfl, bookkept_withCapacity _ _, fun _ _ hk => (by cases hk), fun _ _ hk => (by cases hk)⟩
  | append_singleton _ op ih =>
    rw [foldl_append]
    exact ih.step op

end History

/-- What a look-up returns has not expired. -/
theorem peek_valid (hpeek : (c.peek id now).2 = some t) : now < t.expiresAt := by
  unfold peek at hpeek
  split at hpeek
  · cases hpeek
  · split at hpeek
    · rename_i hvalid
      cases hpeek
      exact of_decide_eq_true hvalid
    · cases hpeek

theorem tryResume_valid {v : Bytes × CipherSuite} (hresume : (c.tryResume id now).2 = some v) :
    ∃ t, c.get id = some t ∧ now < t.expiresAt := by
  unfold tryResume at hresume
  split at hresume
  · cases hresume
  · rename_i t hget
    split at hresume
    · rename_i hvalid
      exact ⟨t, hget, of_decide_eq_true hvalid⟩
    · cases hresume

/-- **Bookkeeping of the session cache.** After any operations the order lists each ticket held once
and nothing else, and there are at most `max_entries` of them. Whoever hands back what `peek` returned
adds no ticket: all that is held, or was ever returned, is as `store` made it, or was handed back in
another form. No look-up returns a ticket at or past its expiry. -/
theorem cache_bookkept (maxEntries lifetime : Nat) (ops : List Op) :
    let h := ops.foldl History.step (.init maxEntries lifetime)
    h.cache.lruOrder.Nodup ∧ (∀ id, id ∈ h.cache.lruOrder ↔ (h.cache.get id).isSome) ∧
      h.cache.len ≤ maxEntries ∧
      (∀ id t, h.cache.get id = some t ∨ (id, t) ∈ h.peeked →
        (id, t) ∈ h.stored ∨ (id, t) ∈ h.foreign) ∧
      ∀ id now,
        (∀ t, (h.cache.peek id now).2 = some t → h.cache.get id = some t ∧ now < t.expiresAt) ∧
        ∀ v, (h.cache.tryResume id now).2 = some v →
          ∃ t, h.cache.get id = some t ∧ now < t.expiresAt := by
  intro h
  have hinv : h.Inv maxEntries := .run maxEntries lifetime ops
  refine ⟨?_, ?_, hinv.maxEntries ▸ hinv.bookkept.len_le, ?_, ?_⟩
  · exact hinv.bookkept.order.nodup_iff.2 h.cache.tickets.nodupKeys
  · intro id
    rw [hinv.bookkept.order.mem_iff, ← AList.mem_keys, ← AList.lookup_isSome]
    rfl
  · intro id t hknown
    exact hknown.elim (hinv.held id t) (hinv.peeked id t)
  · intro id now
    exact ⟨fun t ht => ⟨(peek_eq_some (Prod.ext rfl ht)).2, peek_valid ht⟩,
      fun v hv => tryResume_valid hv⟩

end SessionCache

end PhantomProtocol
