import PhantomProtocol.Lib.Scan
import PhantomProtocol.Transport.Proof.Handshake

/-!
# Tickets are one-shot and cannot be burnt

The calls that have a ticket in hand or have used it, together with the cache, are no more than the
tickets stored under its id (`Inv.balanced`); while no two handshakes derive the same session id, all
copies of a ticket agree (`Inv.agree`).
-/

namespace PhantomProtocol.Handshake

open List Lts

variable {kdf : HandshakeKdf} {s s' : Server}

section Step

variable {s : Server} {c c' : Call} {a : Action} {cache' : SessionCache} {id : SessionId}
  {k k' : ResumptionTicket}

/-! ## One ticket, one use -/

def Call.holds (id : SessionId) (c : Call) : Bool := decide (c.resumed.map (·.rid) = some id)

theorem Call.holds_of_none (h : c.resumed = none) : c.holds id = false := by simp [holds, h]

theorem Call.holds_of_some {t : ConsumedTicket} (h : c.resumed = some t) :
    c.holds id = decide (t.rid = id) := by simp [holds, h]

/-- The cache has a ticket `id`. -/
def keeps (cache : SessionCache) (id : SessionId) : Nat := if (cache.get id).isSome then 1 else 0

theorem keeps_le_one (cache : SessionCache) (id : SessionId) : keeps cache id ≤ 1 := by
  unfold keeps
  split <;> omega

theorem keeps_mono {cache cache' : SessionCache}
    (h : ∀ k, cache'.get id = some k → cache.get id = some k) :
    keeps cache' id ≤ keeps cache id := by
  unfold keeps
  cases hget : cache'.get id with
  | none => exact Nat.zero_le _
  | some k => simp [h k hget]

theorem Acts.balance (h : Acts kdf s c a cache' c') (hc : c.Sound) (id : SessionId) :
    (if c'.holds id then 1 else 0) + keeps cache' id ≤
      (if c.holds id then 1 else 0) + keeps s.cache id +
        if s.cache.isDisabled then 0 else if c'.issues id then 1 else 0 := by
  have hone := keeps_le_one cache' id
  -- most steps leave the call's ticket alone and put nothing into the cache
  have hsame : c'.holds id = c.holds id → keeps cache' id ≤ keeps s.cache id →
      (if c'.holds id then 1 else 0) + keeps cache' id ≤
        (if c.holds id then 1 else 0) + keeps s.cache id +
          if s.cache.isDisabled then 0 else if c'.issues id then 1 else 0 := by
    intro hholds hkeeps
    rw [hholds]
    omega
  cases h with
  | refuse | noTicket | mismatch | verify | allow | fail | ready | giveUp | finish =>
    exact hsame rfl (Nat.le_refl _)
  | unknown => exact hsame rfl (keeps_mono fun k => SessionCache.get_of_peek)
  | miss => exact hsame rfl (keeps_mono fun k => SessionCache.get_of_remove)
  | take t _ hphase hget =>
    have hresumed := (hc.verified t hphase).1
    by_cases hid : t.rid = id
    · subst hid
      simp [Call.holds, keeps, hresumed, hget]
    · refine hsame ?_ (keeps_mono fun k => SessionCache.get_of_remove)
      rw [Call.holds_of_none hresumed, Call.holds_of_some rfl, decide_eq_false hid]
  | deny =>
    rw [Call.holds_of_none rfl, if_neg Bool.false_ne_true]
    omega
  | giveBack _ t _ hresumed =>
    rw [Call.holds_of_none rfl, if_neg Bool.false_ne_true, Call.holds_of_some hresumed]
    by_cases hid : t.rid = id
    · rw [decide_eq_true hid, if_pos rfl]
      omega
    · have hmono : keeps (s.cache.reinsertWithExpiry t.rid t.ticket s.now) id ≤
          keeps s.cache id := by
        apply keeps_mono
        intro k hk
        rcases SessionCache.get_of_reinsertWithExpiry hk with h | ⟨rfl, -⟩
        · exact h
        · exact absurd rfl hid
      omega
  | store hello session earlyData _ _ hsecret =>
    by_cases hid : session.id = id
    · by_cases hdis : s.cache.isDisabled = true
      · exact hsame rfl (by simp [SessionCache.store, hdis])
      · have hissues : Call.issues id
            { c with phase := .returned (.success hello session earlyData) } = true := by
          simp [Call.issues, hid, hsecret]
        rw [if_neg hdis, if_pos hissues]
        have : Call.holds id { c with phase := .returned (.success hello session earlyData) } =
          c.holds id := rfl
        rw [this]
        omega
    · exact hsame rfl (keeps_mono fun k => SessionCache.get_of_store (Ne.symm hid))

/-! ## All copies of a ticket agree -/

def Call.carries (c : Call) (id : SessionId) (k : ResumptionTicket) : Prop :=
  c.phase = .verified ⟨id, k⟩ ∨ c.resumed = some ⟨id, k⟩

theorem Acts.copies (h : Acts kdf s c a cache' c')
    (hcopy : cache'.get id = some k ∨ c'.carries id k) :
    (s.cache.get id = some k ∨ c.carries id k) ∨ cache'.get id = some k ∧ c'.issues id = true := by
  -- the steps that leave the cache alone and drop a copy at most
  have hkept : (cache'.get id = some k → s.cache.get id = some k) →
      (c'.carries id k → c.carries id k) →
      s.cache.get id = some k ∨ c.carries id k := by
    intro hcache hcall
    rcases hcopy with hget | hcarries
    · exact .inl (hcache hget)
    · exact .inr (hcall hcarries)
  cases h with
  | refuse | noTicket | mismatch | allow | deny | fail | ready | giveUp | finish =>
    simp_all [Call.carries]
  | unknown =>
    exact .inl (hkept SessionCache.get_of_peek fun h => by simp_all [Call.carries])
  | miss => exact .inl (hkept SessionCache.get_of_remove fun h => by simp_all [Call.carries])
  | verify _ _ _ hget =>
    left
    rcases hcopy with h | h | h
    · exact .inl h
    · cases h
      exact .inl hget
    · exact .inr (.inr h)
  | take _ _ hphase =>
    left
    rcases hcopy with h | h | h
    · exact .inl (SessionCache.get_of_remove h)
    · cases h
    · cases h
      exact .inr (.inl hphase)
  | giveBack _ _ _ hresumed =>
    left
    rcases hcopy with h | h | h
    · rcases SessionCache.get_of_reinsertWithExpiry h with h | ⟨rfl, rfl⟩
      · exact .inl h
      · exact .inr (.inr hresumed)
    · cases h
    · cases h
  | store _ session _ _ _ hsecret =>
    rcases hcopy with h | h | h
    · by_cases hid : session.id = id
      · exact .inr ⟨h, by simp [Call.issues, hid, hsecret]⟩
      · exact .inl (.inl (SessionCache.get_of_store (Ne.symm hid) h))
    · cases h
    · exact .inl (.inr (.inr h))

end Step

/-! ## The invariant -/

section Invariant

variable {s s' : Server} {e : Event} {i : Nat} {a : Action} {c c' : Call} {cache' : SessionCache}
  {id : SessionId} {k k' : ResumptionTicket}

/-- A copy of the ticket is in the cache or with a call. -/
def Occurs (s : Server) (id : SessionId) (k : ResumptionTicket) : Prop :=
  s.cache.get id = some k ∨ ∃ c ∈ s.calls, c.carries id k

structure Inv (s : Server) : Prop where
  sound : ∀ c ∈ s.calls, c.Sound
  balanced : ∀ id, s.calls.countP (·.holds id) + keeps s.cache id ≤ s.stored id
  known : ∀ id k, Occurs s id k → 0 < s.issued id
  agree : (∀ id, s.issued id ≤ 1) → ∀ id k k', Occurs s id k → Occurs s id k' → k = k'

theorem inv_init (maxEntries lifetime : Nat) : Inv (init maxEntries lifetime) where
  sound := by simp [init]
  balanced id := by simp [init, keeps]
  known id k h := by simp [Occurs, init] at h
  agree _ id k k' h := by simp [Occurs, init] at h

section

variable (hacts : Acts kdf s c a cache' c')
include hacts

theorem occurs_of_call (hc : s.calls[i]? = some c)
    (h : Occurs { s with cache := cache', calls := s.calls.set i c' } id k) :
    Occurs s id k ∨ cache'.get id = some k ∧ c'.issues id = true := by
  have hmem := mem_of_getElem? hc
  rcases h with hget | ⟨d, hd, hcarries⟩
  · rcases hacts.copies (.inl hget) with (h | h) | h
    · exact .inl (.inl h)
    · exact .inl (.inr ⟨c, hmem, h⟩)
    · exact .inr h
  · rcases mem_or_eq_of_mem_set hd with hd | rfl
    · exact .inl (.inr ⟨d, hd, hcarries⟩)
    · rcases hacts.copies (.inr hcarries) with (h | h) | h
      · exact .inl (.inl h)
      · exact .inl (.inr ⟨c, hmem, h⟩)
      · exact .inr h

/-- A call issues at most one ticket, at its end. -/
theorem issued_of_call (hc : s.calls[i]? = some c) (id : SessionId) :
    (s.calls.set i c').countP (·.issues id) = s.issued id + if c'.issues id then 1 else 0 := by
  have hcount := Scan.countP_set_add (p := (·.issues id)) (b := c') hc
  rw [hacts.issues_eq_false] at hcount
  exact hcount

theorem stored_of_call (hc : s.calls[i]? = some c) (id : SessionId) :
    Server.stored { s with cache := cache', calls := s.calls.set i c' } id =
      s.stored id + if s.cache.isDisabled then 0 else if c'.issues id then 1 else 0 := by
  unfold Server.stored Server.issued
  rw [hacts.isDisabled_eq, issued_of_call hacts hc]
  split <;> rfl

end

theorem Inv.call (h : Inv s) (hacts : Acts kdf s c a cache' c') (hc : s.calls[i]? = some c) :
    Inv { s with cache := cache', calls := s.calls.set i c' } where
  sound d hd := by
    rcases mem_or_eq_of_mem_set hd with hd | rfl
    · exact h.sound d hd
    · exact hacts.sound (h.sound c (mem_of_getElem? hc))
  balanced id := by
    have hcount := Scan.countP_set_add (p := (·.holds id)) (b := c') hc
    have hstored := stored_of_call hacts hc id
    have hbalance := hacts.balance (h.sound c (mem_of_getElem? hc)) id
    have hbefore := h.balanced id
    rw [hstored]
    show (s.calls.set i c').countP (·.holds id) + keeps cache' id ≤ _
    omega
  known id k hocc := by
    show 0 < (s.calls.set i c').countP (·.issues id)
    rw [issued_of_call hacts hc]
    rcases occurs_of_call hacts hc hocc with hold | ⟨-, hnew⟩
    · have := h.known id k hold
      omega
    · rw [if_pos hnew]
      omega
  agree hone id k k' hk hk' := by
    have hissued : ∀ id, s.issued id + (if c'.issues id then 1 else 0) ≤ 1 := by
      intro id
      rw [← issued_of_call hacts hc]
      exact hone id
    have hfresh : ∀ k, Occurs s id k → c'.issues id = true → False := by
      intro k hold hnew
      have h1 := h.known id k hold
      have h2 := hissued id
      rw [if_pos hnew] at h2
      omega
    rcases occurs_of_call hacts hc hk with hold | ⟨hget, hnew⟩ <;>
      rcases occurs_of_call hacts hc hk' with hold' | ⟨hget', hnew'⟩
    · exact h.agree (fun id => Nat.le_trans (Nat.le_add_right _ _) (hissued id)) id k k' hold hold'
    · exact (hfresh k hold hnew').elim
    · exact (hfresh k' hold' hnew).elim
    · rw [hget] at hget'
      exact Option.some.inj hget'

theorem occurs_of_aside (haside : Aside s s') (h : Occurs s' id k) : Occurs s id k := by
  rcases h with hget | ⟨d, hd, hcarries⟩
  · rcases haside.cache with heq | ⟨rid, heq⟩
    · rw [heq] at hget
      exact .inl hget
    · rw [heq] at hget
      exact .inl (SessionCache.get_of_peek hget)
  · rcases haside.calls with heq | ⟨hello, difficulty, heq⟩
    · rw [heq] at hd
      exact .inr ⟨d, hd, hcarries⟩
    · rw [heq, mem_append, mem_singleton] at hd
      rcases hd with hd | rfl
      · exact .inr ⟨d, hd, hcarries⟩
      · rcases hcarries with hcarries | hcarries <;> cases hcarries

theorem countP_of_aside {p : Call → Bool} (haside : Aside s s')
    (hnew : ∀ hello difficulty, p ⟨hello, difficulty, none, .received⟩ = false) :
    s'.calls.countP p = s.calls.countP p := by
  rcases haside.calls with heq | ⟨hello, difficulty, heq⟩
  · rw [heq]
  · simp [*]

theorem issued_of_aside (haside : Aside s s') (id : SessionId) : s'.issued id = s.issued id :=
  countP_of_aside haside fun _ _ => rfl

theorem Inv.aside (h : Inv s) (haside : Aside s s') : Inv s' where
  sound d hd := by
    rcases haside.calls with heq | ⟨hello, difficulty, heq⟩
    · rw [heq] at hd
      exact h.sound d hd
    · rw [heq, mem_append, mem_singleton] at hd
      rcases hd with hd | rfl
      · exact h.sound d hd
      · constructor <;> simp
  balanced id := by
    have hbefore := h.balanced id
    have hholds : s'.calls.countP (·.holds id) = s.calls.countP (·.holds id) :=
      countP_of_aside haside fun _ _ => rfl
    have hkeeps : keeps s'.cache id ≤ keeps s.cache id := by
      apply keeps_mono
      intro k hk
      rcases haside.cache with heq | ⟨rid, heq⟩
      · rwa [heq] at hk
      · rw [heq] at hk
        exact SessionCache.get_of_peek hk
    have hdisabled : s'.cache.isDisabled = s.cache.isDisabled := by
      rcases haside.cache with heq | ⟨rid, heq⟩
      · rw [heq]
      · rw [heq, SessionCache.isDisabled_peek]
    have hstored : s'.stored id = s.stored id := by
      unfold Server.stored
      rw [hdisabled, issued_of_aside haside]
    omega
  known id k hocc := by
    rw [issued_of_aside haside]
    exact h.known id k (occurs_of_aside haside hocc)
  agree hone id k k' hk hk' := by
    refine h.agree ?_ id k k' (occurs_of_aside haside hk) (occurs_of_aside haside hk')
    intro id
    rw [← issued_of_aside haside]
    exact hone id

theorem Inv.step (h : Inv s) (hs : step kdf s e = some s') : Inv s' := by
  rcases step_cases hs with ⟨i, a, c, cache', c', rfl, hc, hacts, rfl⟩ | ⟨-, haside⟩
  · exact h.call hacts hc
  · exact h.aside haside

theorem issued_mono (hs : Handshake.step kdf s e = some s') (id : SessionId) :
    s.issued id ≤ s'.issued id := by
  rcases step_cases hs with ⟨i, a, c, cache', c', rfl, hc, hacts, rfl⟩ | ⟨-, haside⟩
  · have := issued_of_call hacts hc id
    show s.issued id ≤ (s.calls.set i c').countP (·.issues id)
    omega
  · exact Nat.le_of_eq (issued_of_aside haside id).symm

theorem Inv.accepted_le (h : Inv s) (id : SessionId) : s.accepted id ≤ s.stored id := by
  have hholds : s.accepted id ≤ s.calls.countP (·.holds id) := by
    apply countP_mono_left
    intro c hc hyields
    have hsound := h.sound c hc
    unfold Call.yields at hyields
    split at hyields
    · rename_i hello session data hphase
      have hname := of_decide_eq_true hyields
      obtain ⟨t, ht⟩ := Option.ne_none_iff_exists'.1 (hsound.early hello session data (.inr hphase))
      have := hsound.names t ht
      rw [Call.holds_of_some ht, decide_eq_true]
      rw [hname] at this
      exact (Option.some.inj this).symm
    · cases hyields
  have := h.balanced id
  omega

end Invariant

/-! ## A hello whose binder does not match -/

section Runs

variable {s s' : Server} {e : Event} {i : Nat} {a : Action} {c c' : Call} {cache' : SessionCache}
  {id : SessionId} {k k' : ResumptionTicket} {t : ConsumedTicket}

/-- The call has no ticket and is past the point where it could get one. -/
def Call.Plain (c : Call) : Prop :=
  c.resumed = none ∧ c.phase ≠ .received ∧ c.phase ≠ .consumed ∧ ∀ t, c.phase ≠ .verified t

theorem Acts.plain (h : Acts kdf s c a cache' c') (hplain : c.Plain) :
    c'.Plain ∧ (cache' = s.cache ∨
      ∃ hello session earlyData secret, c.phase = .finalizing hello session earlyData ∧
        session.resumptionSecret = some secret ∧
        cache' = s.cache.store session.id secret .aes256Gcm s.now) := by
  obtain ⟨hnone, hreceived, hconsumed, hverified⟩ := hplain
  cases h with
  | refuse _ hphase | noTicket hphase | unknown _ hphase | mismatch hphase | verify _ hphase =>
    exact absurd hphase hreceived
  | miss t hphase | take t _ hphase => exact absurd hphase (hverified t)
  | deny _ hphase | allow _ hphase => exact absurd hphase hconsumed
  | fail | ready | giveUp | finish => exact ⟨by simp [Call.Plain, hnone], .inl rfl⟩
  | giveBack => simp_all
  | store => simp [*, Call.Plain]

theorem plain_step (h : ∃ c, s.calls[i]? = some c ∧ c.Plain) (hs : step kdf s e = some s') :
    (∃ c, s'.calls[i]? = some c ∧ c.Plain) ∧ StoresOnly i s e s' := by
  obtain ⟨c, hc, hplain⟩ := h
  by_cases he : ∃ a, e = .call i a
  · obtain ⟨a, rfl⟩ := he
    obtain ⟨d, cache', d', hd, hacts, rfl⟩ := step_call hs
    rw [hc] at hd
    cases hd
    obtain ⟨hplain', hcache⟩ := hacts.plain hplain
    refine ⟨⟨d', List.getElem?_set_self (List.getElem?_eq_some_iff.1 hc).1, hplain'⟩, ?_⟩
    intro _ _
    simp_all
  · have hne : ∀ a, e ≠ .call i a := fun a heq => he ⟨a, heq⟩
    exact ⟨⟨c, getElem?_of_step hs hc hne, hplain⟩, fun a heq => absurd heq (hne a)⟩

theorem storesOnly_of_plain (h : ∃ c, s.calls[i]? = some c ∧ c.Plain) (es : List Event) :
    Along (step kdf) (StoresOnly i) s es :=
  along_of_run_inv (fun _ _ _ h hs => (plain_step h hs).1)
    (fun _ _ _ h hs => (plain_step h hs).2)
    es h

/-- Without the binder a call passes the ticket by. -/
theorem Acts.mismatched (h : Acts kdf s c .peek cache' c') (hsound : c.Sound)
    (hmismatch : s.BinderMismatch kdf c) :
    c'.Plain ∧ (cache' = s.cache ∨ ∃ rid ticket, s.cache.get rid = some ticket ∧
      ticket.expiresAt ≤ s.now ∧ cache' = (s.cache.remove rid).1) := by
  cases h with
  | refuse _ hphase | noTicket hphase | mismatch hphase =>
    exact ⟨by simp [Call.Plain, hsound.fresh hphase], .inl rfl⟩
  | unknown rid hphase hid hnone =>
    refine ⟨by simp [Call.Plain, hsound.fresh hphase], ?_⟩
    unfold SessionCache.peek at hnone ⊢
    split at hnone
    · exact .inl rfl
    · rename_i ticket hget
      split at hnone
      · cases hnone
      · rename_i hexpired
        rw [if_neg hexpired]
        refine .inr ⟨rid, ticket, hget, ?_, rfl⟩
        simpa [ResumptionTicket.isValid] using hexpired
  | verify t _ hid hget hbinder => exact absurd hbinder (hmismatch t.rid t.ticket hid hget)

/-! ## A call that fails after it has consumed a ticket -/

theorem Acts.get_of_kept (h : Acts kdf s c a cache' c')
    (ha : a ≠ .finalize ∧ a ≠ .failAndReinsert ∧ a ≠ .remove) (hget : s.cache.get id = some k) :
    cache'.get id = some k ∨ k.expiresAt ≤ s.now := by
  cases h with
  | refuse | noTicket | mismatch | verify | deny | allow | fail | ready => exact .inl hget
  | unknown =>
    rcases Nat.lt_or_ge s.now k.expiresAt with hvalid | hexpired
    · exact .inl (SessionCache.get_peek hget hvalid)
    · exact .inr hexpired
  | miss | take => exact absurd rfl ha.2.2
  | giveBack | giveUp => exact absurd rfl ha.2.1
  | store | finish => exact absurd rfl ha.1

def Restored (t : ConsumedTicket) (s : Server) : Prop :=
  s.cache.get t.rid = some t.ticket ∨ t.ticket.expiresAt ≤ s.now

theorem Restored.step (h : Restored t s) (hs : step kdf s e = some s')
    (hkept : ¬Displaces t.rid s e s') : Restored t s' := by
  rcases step_cases hs with ⟨i, a, c, cache', c', rfl, hc, hacts, rfl⟩ | ⟨-, haside⟩
  · rcases h with hget | hexpired
    · by_cases ha : a ≠ .finalize ∧ a ≠ .failAndReinsert ∧ a ≠ .remove
      · exact hacts.get_of_kept ha hget
      · left
        by_contra hgone
        refine hkept ⟨⟨i, ?_⟩, by simp [hget], by rwa [hget]⟩
        simp only [Event.call.injEq, true_and]
        tauto
    · exact .inr hexpired
  · rcases h with hget | hexpired
    · rcases Nat.lt_or_ge s.now t.ticket.expiresAt with hvalid | hexpired
      · left
        rcases haside.cache with heq | ⟨rid, heq⟩
        · rwa [heq]
        · rw [heq]
          exact SessionCache.get_peek hget hvalid
      · exact .inr (Nat.le_trans hexpired haside.now)
    · exact .inr (Nat.le_trans hexpired haside.now)

/-- The call still has the ticket, and returns without it only if it succeeds; or it has handed the
ticket back. -/
def Tracked (i : Nat) (t : ConsumedTicket) (s : Server) : Prop :=
  ∃ c, s.calls[i]? = some c ∧
    (c.resumed = some t ∧ c.phase ≠ .received ∧ (∀ t', c.phase ≠ .verified t') ∧
        (∀ r, c.phase = .returned r → r.isSuccess = true) ∨
      (∃ r, c.phase = .returned r) ∧ Restored t s)

theorem Inv.enabled_of_holds (h : Inv s) (hc : c ∈ s.calls)
    (hresumed : c.resumed = some t) : s.cache.isDisabled = false := by
  by_contra hdis
  have hcount : 0 < s.calls.countP (·.holds t.rid) :=
    countP_pos_iff.2 ⟨c, hc, by rw [Call.holds_of_some hresumed, decide_eq_true rfl]⟩
  have hbalanced := h.balanced t.rid
  rw [Server.stored, if_pos (by simpa using hdis)] at hbalanced
  omega

theorem Tracked.act (hinv : Inv s) (hc : s.calls[i]? = some c)
    (hacts : Acts kdf s c a cache' c') (hstore : s.antiReplay = false)
    (hresumed : c.resumed = some t)
    (hreceived : c.phase ≠ .received) (hverified : ∀ t', c.phase ≠ .verified t') :
    Tracked i t { s with cache := cache', calls := s.calls.set i c' } := by
  refine ⟨c', List.getElem?_set_self (List.getElem?_eq_some_iff.1 hc).1, ?_⟩
  cases hacts with
  | refuse _ hphase | noTicket hphase | unknown _ hphase | mismatch hphase | verify _ hphase =>
    exact absurd hphase hreceived
  | miss t' hphase | take t' _ hphase => exact absurd hphase (hverified t')
  | deny _ _ hinstalled =>
    rw [hstore] at hinstalled
    cases hinstalled
  | allow | fail | ready =>
    left
    exact ⟨hresumed, by simp⟩
  | giveUp _ _ hnone =>
    rw [hresumed] at hnone
    cases hnone
  | store | finish => simp [*, HandshakeResponse.isSuccess]
  | giveBack r _ _ hresumed' =>
    right
    rw [hresumed] at hresumed'
    cases hresumed'
    refine ⟨⟨r, rfl⟩, ?_⟩
    have henabled := hinv.enabled_of_holds (mem_of_getElem? hc) hresumed
    rcases Nat.lt_or_ge s.now t.ticket.expiresAt with hvalid | hexpired
    · exact .inl (SessionCache.get_reinsertWithExpiry_self henabled hvalid)
    · exact .inr hexpired

theorem Tracked.step (h : Tracked i t s) (hinv : Inv s)
    (hs : step kdf s e = some s') (hstore : s.antiReplay = false)
    (hkept : ¬Displaces t.rid s e s') : Tracked i t s' := by
  obtain ⟨c, hc, h⟩ := h
  by_cases he : ∃ a, e = .call i a
  · obtain ⟨a, rfl⟩ := he
    obtain ⟨d, cache', d', hd, hacts, rfl⟩ := step_call hs
    rw [hc] at hd
    cases hd
    rcases h with ⟨hresumed, hreceived, hverified, -⟩ | ⟨⟨r, hreturned⟩, -⟩
    · exact Tracked.act hinv hc hacts hstore hresumed hreceived hverified
    · -- a call that has returned does not act
      cases hacts <;> simp_all
  · have hc' := getElem?_of_step hs hc fun a heq => he ⟨a, heq⟩
    refine ⟨c, hc', ?_⟩
    rcases h with hhand | ⟨hreturned, hrestored⟩
    · exact .inl hhand
    · exact .inr ⟨hreturned, hrestored.step hs hkept⟩

theorem Tracked.run (h : Tracked i t s) (hinv : Inv s) (es : List Event)
    (halong : Along (Handshake.step kdf)
      (fun u e u' => u.antiReplay = false ∧ ¬Displaces t.rid u e u') s es)
    (hrun : run (Handshake.step kdf) s es = some s') : Tracked i t s' := by
  have hkeep : ∀ u e u', Inv u ∧ Tracked i t u → Handshake.step kdf u e = some u' →
      u.antiReplay = false ∧ ¬Displaces t.rid u e u' → Inv u' ∧ Tracked i t u' := by
    intro u e u' hu hstep hcond
    exact ⟨hu.1.step hstep, hu.2.step hu.1 hstep hcond.1 hcond.2⟩
  exact (run_inv_along hkeep es ⟨hinv, h⟩ halong hrun).2

end Runs

theorem tracked_of_remove {t : ConsumedTicket} {k : ResumptionTicket} (hc : s.calls[i]? = some c)
    (hphase : c.phase = .verified t) (hget : s.cache.get t.rid = some k)
    (hs : Handshake.step kdf s (.call i .remove) = some s') : Tracked i t s' := by
  obtain ⟨d, cache', d', hd, hacts, rfl⟩ := step_call hs
  rw [hc] at hd
  cases hd
  refine ⟨d', List.getElem?_set_self (List.getElem?_eq_some_iff.1 hc).1, ?_⟩
  cases hacts with
  | miss | take => simp_all

/-! ## The result -/

theorem issued_mono_run {es : List Event} (h : run (step kdf) s es = some s')
    (id : SessionId) : s.issued id ≤ s'.issued id := by
  have hkeep : ∀ u e u', s.issued id ≤ u.issued id → step kdf u e = some u' →
      s.issued id ≤ u'.issued id :=
    fun _ _ _ hle hs => Nat.le_trans hle (issued_mono hs id)
  exact run_inv hkeep es (Nat.le_refl _) h

/-- For every run of calls on one server, with or without an anti-replay store:

* No more Success responses carry early data sent under a ticket than tickets were stored under its
  id: one, unless two handshakes derive the same session id.
* A hello whose binder does not match leaves the cache as it is, or drops a ticket that has expired;
  all that its call does to the cache afterwards is to store the ticket of its own session.
* A call that has removed a ticket and returns anything but Success leaves the ticket in the cache as
  it was. There it stays until it expires, a store or a reinsertion evicts it, or another call
  removes it. This is without an anti-replay store, and while no two handshakes derive the same
  session id. -/
theorem tickets_one_shot (kdf : HandshakeKdf) (maxEntries ticketLifetime : Nat) (es : List Event)
    (s : Server) (hrun : run (step kdf) (init maxEntries ticketLifetime) es = some s) :
    (∀ id, s.accepted id ≤ s.stored id ∧ (s.issued id ≤ 1 → s.accepted id ≤ 1)) ∧
    (∀ i c s', s.calls[i]? = some c → s.BinderMismatch kdf c →
      step kdf s (.call i .peek) = some s' →
      (s'.cache = s.cache ∨ ∃ rid ticket, s.cache.get rid = some ticket ∧
        ticket.expiresAt ≤ s.now ∧ s'.cache = (s.cache.remove rid).1) ∧
      ∀ es', Along (step kdf) (StoresOnly i) s' es') ∧
    ∀ i c t k s', s.calls[i]? = some c → c.phase = .verified t → s.cache.get t.rid = some k →
      step kdf s (.call i .remove) = some s' →
      ∀ es' u, run (step kdf) s' es' = some u → (∀ id, u.issued id ≤ 1) →
        Along (step kdf) (fun v e v' => v.antiReplay = false ∧ ¬Displaces t.rid v e v') s' es' →
        ∀ c' r, u.calls[i]? = some c' → c'.phase = .returned r → r.isSuccess = false →
          u.cache.get t.rid = some k ∨ k.expiresAt ≤ u.now := by
  have hinv : Inv s :=
    run_inv (fun _ _ _ h hs => h.step hs) es (inv_init maxEntries ticketLifetime) hrun
  refine ⟨?_, ?_, ?_⟩
  · intro id
    have hle := hinv.accepted_le id
    have hstored : s.stored id ≤ s.issued id := by
      unfold Server.stored
      split <;> omega
    exact ⟨hle, fun hone => by omega⟩
  · intro i c s' hc hmismatch hs
    obtain ⟨d, cache', d', hd, hacts, rfl⟩ := step_call hs
    rw [hc] at hd
    cases hd
    obtain ⟨hplain, hcache⟩ := hacts.mismatched (hinv.sound c (mem_of_getElem? hc)) hmismatch
    refine ⟨hcache, fun es' => storesOnly_of_plain ⟨d', ?_, hplain⟩ es'⟩
    exact List.getElem?_set_self (List.getElem?_eq_some_iff.1 hc).1
  · intro i c t k s' hc hphase hget hs es' u hrun' hone halong c' r hc' hreturned hr
    have hmem := mem_of_getElem? hc
    -- the ticket in the cache is the one that was verified
    have hagree : k = t.ticket := by
      refine hinv.agree (fun id => ?_) t.rid k t.ticket (.inl hget) (.inr ⟨c, hmem, .inl hphase⟩)
      exact Nat.le_trans (issued_mono hs id) (Nat.le_trans (issued_mono_run hrun' id) (hone id))
    have htracked := tracked_of_remove hc hphase hget hs
    obtain ⟨e, he, hend⟩ := htracked.run (hinv.step hs) es' halong hrun'
    rw [hc'] at he
    cases he
    rcases hend with ⟨-, -, -, hsuccess⟩ | ⟨-, hrestored⟩
    · rw [hsuccess r hreturned] at hr
      cases hr
    · rw [hagree]
      exact hrestored

/-! ## Runs -/

def plainKdf : HandshakeKdf :=
  { Kdf.plain with sha256 := fun _ bytes => ⟨(bytes ++ List.replicate 32 0).take 32, by simp⟩ }

/-- Everything goes through, with this shared secret. -/
def plainOutcomes (sharedSecret : Bytes) : Outcomes where
  validateCookie _ := .ok true
  generateCookie := .ok []
  currentSecretHour := .ok 0
  deriveSessionSecretForHour _ := .ok []
  verify _ _ _ := true
  newStateless difficulty _ := ⟨[], difficulty⟩
  openEarlyData _ _ _ blob := some blob
  encapsulate := .ok (sharedSecret, [])
  serverNonce := .ok []
  transcriptHash _ := .ok []
  sign hash := hash
  suite := .ok .aes256Gcm
  resumptionSecret := some

def firstHello : ClientHello where
  nonce := []
  version := protocolVersion
  cookie := some []
  powSolution := none
  resumeSessionId := none
  resumptionBinder := none
  protocolVariant
  earlyData := none

/-- The id of the session with the shared secret `[1]`. -/
def firstId : SessionId := ⟨1 :: List.replicate 31 0, rfl⟩

/-- A first handshake, and the arrival of a hello that names its ticket. -/
def firstTicket (binder : Option Bytes) : List Event :=
  [.arrive firstHello 0, .call 0 .peek, .call 0 (.proceed (plainOutcomes [1])), .call 0 .finalize,
    .arrive { firstHello with
      resumeSessionId := some firstId, resumptionBinder := binder, earlyData := some [7] } 0]

/-- The hello of the second call has no binder; the call ends as a full handshake, and the ticket it
stores evicts the one it did not fit. -/
def passesBy : List Event :=
  [.call 1 .peek, .call 1 (.proceed (plainOutcomes [2])), .call 1 .finalize]

theorem mismatch_evicts :
    ∃ s s' c k, run (step plainKdf) (init 1 3600) (firstTicket none) = some s ∧
      s.calls[1]? = some c ∧ s.BinderMismatch plainKdf c ∧ s.cache.get firstId = some k ∧
      run (step plainKdf) s passesBy = some s' ∧ s'.now < k.expiresAt ∧
      s'.cache.get firstId = none := by
  refine ⟨_, _, _, _, rfl, rfl, ?_, rfl, rfl, by decide, by decide⟩
  intro rid ticket _ _ hbinder
  cases hbinder

/-- The call has returned Success. -/
def Call.succeeds (c : Call) : Bool :=
  match c.phase with
  | .returned r => r.isSuccess
  | _ => false

/-- The second call fits the ticket, consumes it and fails at the key exchange. -/
def handsBack : List Event :=
  [.call 1 (.ask true),
    .call 1 (.proceed { plainOutcomes [2] with encapsulate := .error "bad key" }),
    .call 1 .failAndReinsert]

theorem issued_le_succeeds (s : Server) (id : SessionId) :
    s.issued id ≤ s.calls.countP Call.succeeds := by
  apply countP_mono_left
  grind [Call.issues, Call.succeeds, HandshakeResponse.isSuccess]

theorem not_displaces_of_none {id : SessionId} {e : Event}
    (h : s.cache.get id = none) : ¬Displaces id s e s' :=
  fun hdisplaces => hdisplaces.2.1 h

theorem tickets_one_shot_handsBack :
    ∃ s s' u c t k, run (step plainKdf) (init 1 3600)
        (firstTicket (some (1 :: firstId.1)) ++ [.call 1 .peek]) = some s ∧
      s.calls[1]? = some c ∧ c.phase = .verified t ∧ s.cache.get t.rid = some k ∧
      step plainKdf s (.call 1 .remove) = some s' ∧ s'.cache.get t.rid = none ∧
      run (step plainKdf) s' handsBack = some u ∧ u.cache.get t.rid = some k := by
  obtain ⟨s, hrun, c, hc, t, hphase, hid, k, hget, hlife, s', hs, hgone, u, hback, c', hc', r, hr,
      hfails, hsucceeds, hnow, halong⟩ :
      ∃ s, run (step plainKdf) (init 1 3600)
          (firstTicket (some (1 :: firstId.1)) ++ [.call 1 .peek]) = some s ∧
        ∃ c, s.calls[1]? = some c ∧ ∃ t, c.phase = .verified t ∧ t.rid = firstId ∧
        ∃ k, s.cache.get t.rid = some k ∧ k.expiresAt = 3600 ∧
        ∃ s', step plainKdf s (.call 1 .remove) = some s' ∧ s'.cache.get t.rid = none ∧
        ∃ u, run (step plainKdf) s' handsBack = some u ∧
        ∃ c', u.calls[1]? = some c' ∧ ∃ r, c'.phase = .returned r ∧ r.isSuccess = false ∧
        u.calls.countP Call.succeeds ≤ 1 ∧ u.now = 0 ∧
        Along (step plainKdf)
          (fun v _ _ => v.antiReplay = false ∧ v.cache.get firstId = none) s'
          handsBack :=
    ⟨_, rfl, _, rfl, _, rfl, rfl, _, rfl, rfl, _, rfl, rfl, _, rfl, _, rfl, _, rfl, rfl,
      by decide, rfl, by decide⟩
  have hone : ∀ id, u.issued id ≤ 1 := fun id => Nat.le_trans (issued_le_succeeds u id) hsucceeds
  have hkept : Along (step plainKdf)
      (fun v e v' => v.antiReplay = false ∧ ¬Displaces t.rid v e v') s' handsBack := by
    refine along_of_inv (fun _ _ _ _ _ _ => trivial) (fun v e v' _ _ hv => ?_) _
      (trivial : (fun _ => True) s') halong
    exact ⟨hv.1, not_displaces_of_none (by rw [hid]; exact hv.2)⟩
  have hend := (tickets_one_shot plainKdf 1 3600 _ s hrun).2.2 1 c t k s' hc hphase hget hs handsBack u
    hback hone hkept c' r hc' hr hfails
  rcases hend with hend | hexpired
  · exact ⟨s, s', u, c, t, k, hrun, hc, hphase, hget, hs, hgone, hback, hend⟩
  · omega

end PhantomProtocol.Handshake
