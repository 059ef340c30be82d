import PhantomProtocol.Transport.Handshake

/-!
# What a step of the handshake server does

`act_acts` says for each action of a call what it does to the call and to the session cache,
`step_cases` the same for the events of the server. `Call.Sound` is what is known of a call by
itself.
-/

namespace PhantomProtocol

open Option

namespace Handshake

variable {kdf : HandshakeKdf} {o : Outcomes}

/-! ## A call that fails does not return Success -/

theorem HandshakeResponse.ne_success {r : HandshakeResponse} (h : r.isSuccess = false)
    (hello : ServerHello) (session : Established) (earlyData : Option Bytes) :
    r ≠ .success hello session earlyData := by
  rintro rfl
  cases h

def NoSuccess {α : Type} (x : Except HandshakeResponse α) : Prop :=
  ∀ r, x = .error r → r.isSuccess = false

namespace NoSuccess

variable {α β ε : Type}

theorem ok (a : α) : NoSuccess (.ok a) := by
  intro r h
  cases h

theorem mapError {f : ε → HandshakeResponse} (hf : ∀ e, (f e).isSuccess = false) (x : Except ε α) :
    NoSuccess (x.mapError f) := by
  intro r h
  cases x with
  | ok => cases h
  | error e =>
    cases h
    exact hf e

theorem bind {x : Except HandshakeResponse α} {k : α → Except HandshakeResponse β}
    (hx : NoSuccess x) (hk : ∀ a, NoSuccess (k a)) : NoSuccess (x >>= k) := by
  intro r h
  cases x with
  | ok a => exact hk a r h
  | error =>
    cases h
    exact hx _ rfl

end NoSuccess

theorem checkCookie_noSuccess (hello : ClientHello) : NoSuccess (checkCookie o hello) := by
  unfold checkCookie
  split
  · exact .mapError (fun _ => rfl) _
  · exact .ok _

theorem verifyAny_noSuccess (difficulty : UInt8) (sol : PoWSolution) :
    ∀ hours, NoSuccess (verifyAny o difficulty sol hours)
  | [] => .ok false
  | h :: hours => by
    apply NoSuccess.bind
    · exact .mapError (fun _ => rfl) _
    · intro derived
      split
      · exact .ok true
      · exact verifyAny_noSuccess difficulty sol hours

theorem checkPow_noSuccess (hello : ClientHello) (difficulty : UInt8) :
    NoSuccess (checkPow o hello difficulty) := by
  unfold checkPow
  split
  · apply NoSuccess.bind
    · exact .mapError (fun _ => rfl) _
    · intro hour
      dsimp only
      split
      · exact .bind (verifyAny_noSuccess _ _ _) fun _ => .ok _
      · exact .bind (.mapError (fun _ => rfl) _) fun _ => .ok _
  · exact .ok _

theorem cookiePowGate_noSuccess (hello : ClientHello) (difficulty : UInt8) (bypass : Bool) :
    NoSuccess (cookiePowGate o hello difficulty bypass) := by
  apply NoSuccess.bind (checkCookie_noSuccess _)
  intro cookieValid
  apply NoSuccess.bind (.mapError (fun _ => rfl) _)
  intro expectedCookie
  apply NoSuccess.bind (checkPow_noSuccess _ _)
  intro pow
  dsimp only
  split
  · intro r h
    cases h
    rfl
  · exact .ok _

theorem Call.complete_noSuccess (c : Call) (enabled : Bool) :
    NoSuccess (c.complete kdf o enabled) := by
  apply NoSuccess.bind (cookiePowGate_noSuccess _ _ _)
  intro _
  apply NoSuccess.bind (.mapError (fun _ => rfl) _)
  intro _
  apply NoSuccess.bind (.mapError (fun _ => rfl) _)
  intro _
  apply NoSuccess.bind (.mapError (fun _ => rfl) _)
  intro _
  exact .bind (.mapError (fun _ => rfl) _) fun _ => .ok _

theorem bind_eq_ok {α β ε : Type} {x : Except ε α} {k : α → Except ε β} {b : β}
    (h : (x >>= k) = .ok b) : ∃ a, x = .ok a ∧ k a = .ok b := by
  cases x with
  | ok a => exact ⟨a, rfl, h⟩
  | error => cases h

/-- Early data comes from a ticket. -/
theorem Call.complete_ok {c : Call} {enabled : Bool} {hello : ServerHello} {session : Established}
    {earlyData : Option Bytes} (h : c.complete kdf o enabled = .ok (hello, session, earlyData)) :
    earlyData ≠ none → c.resumed ≠ none := by
  obtain ⟨_, -, h⟩ := bind_eq_ok h
  obtain ⟨_, -, h⟩ := bind_eq_ok h
  obtain ⟨_, -, h⟩ := bind_eq_ok h
  obtain ⟨_, -, h⟩ := bind_eq_ok h
  obtain ⟨_, -, h⟩ := bind_eq_ok h
  cases h
  intro hne hnone
  apply hne
  simp [earlyDataPlaintext, hnone]

/-! ## What a step does -/

section Acts

variable (kdf)

inductive Acts (s : Server) (c : Call) : Action → SessionCache → Call → Prop where
  | refuse (r : HandshakeResponse) (hphase : c.phase = .received) (hr : r.isSuccess = false) :
    Acts s c .peek s.cache { c with phase := .returned r }
  | noTicket (hphase : c.phase = .received) (hid : c.hello.resumeSessionId = none) :
    Acts s c .peek s.cache { c with phase := .resolved }
  | unknown (rid : SessionId) (hphase : c.phase = .received)
    (hid : c.hello.resumeSessionId = some rid) (hnone : (s.cache.peek rid s.now).2 = none) :
    Acts s c .peek (s.cache.peek rid s.now).1 { c with phase := .resolved }
  | mismatch (hphase : c.phase = .received) :
    Acts s c .peek s.cache { c with phase := .resolved }
  | verify (t : ConsumedTicket) (hphase : c.phase = .received)
    (hid : c.hello.resumeSessionId = some t.rid) (hget : s.cache.get t.rid = some t.ticket)
    (hbinder : c.hello.resumptionBinder = some (c.expectedBinder kdf t)) :
    Acts s c .peek s.cache { c with phase := .verified t }
  | miss (t : ConsumedTicket) (hphase : c.phase = .verified t) (hget : s.cache.get t.rid = none) :
    Acts s c .remove (s.cache.remove t.rid).1 { c with phase := .resolved }
  | take (t : ConsumedTicket) (ticket : ResumptionTicket) (hphase : c.phase = .verified t)
    (hget : s.cache.get t.rid = some ticket) :
    Acts s c .remove (s.cache.remove t.rid).1 { c with resumed := some t, phase := .consumed }
  | deny (firstUse : Bool) (hphase : c.phase = .consumed) (hstore : s.antiReplay = true) :
    Acts s c (.ask firstUse) s.cache { c with resumed := none, phase := .resolved }
  | allow (firstUse : Bool) (hphase : c.phase = .consumed) :
    Acts s c (.ask firstUse) s.cache { c with phase := .resolved }
  | fail (o : Outcomes) (r : HandshakeResponse) (hphase : c.phase = .resolved)
    (hr : r.isSuccess = false) : Acts s c (.proceed o) s.cache { c with phase := .failing r }
  | ready (o : Outcomes) (hello : ServerHello) (session : Established) (earlyData : Option Bytes)
    (hphase : c.phase = .resolved) (hearly : earlyData ≠ none → c.resumed ≠ none) :
    Acts s c (.proceed o) s.cache { c with phase := .finalizing hello session earlyData }
  | giveBack (r : HandshakeResponse) (t : ConsumedTicket) (hphase : c.phase = .failing r)
    (hresumed : c.resumed = some t) :
    Acts s c .failAndReinsert (s.cache.reinsertWithExpiry t.rid t.ticket s.now)
      { c with resumed := none, phase := .returned r }
  | giveUp (r : HandshakeResponse) (hphase : c.phase = .failing r) (hresumed : c.resumed = none) :
    Acts s c .failAndReinsert s.cache { c with phase := .returned r }
  | store (hello : ServerHello) (session : Established) (earlyData : Option Bytes) (secret : Bytes)
    (hphase : c.phase = .finalizing hello session earlyData)
    (hsecret : session.resumptionSecret = some secret) :
    Acts s c .finalize (s.cache.store session.id secret .aes256Gcm s.now)
      { c with phase := .returned (.success hello session earlyData) }
  | finish (hello : ServerHello) (session : Established) (earlyData : Option Bytes)
    (hphase : c.phase = .finalizing hello session earlyData)
    (hsecret : session.resumptionSecret = none) :
    Acts s c .finalize s.cache { c with phase := .returned (.success hello session earlyData) }

theorem act_acts {s : Server} {c : Call} {a : Action} {r : SessionCache × Call}
    (h : c.act kdf s a = some r) : Acts kdf s c a r.1 r.2 := by
  cases a with
  | peek =>
    obtain ⟨hphase, heq⟩ := ite_none_right_eq_some.1 h
    cases heq
    unfold Call.peek
    split
    · exact .refuse _ hphase rfl
    split
    · exact .refuse _ hphase rfl
    split
    · exact .noTicket hphase ‹_›
    · rename_i rid hid
      split
      · rename_i cache hpeek
        obtain rfl : (s.cache.peek rid s.now).1 = cache := by rw [hpeek]
        exact .unknown rid hphase hid (by rw [hpeek])
      · rename_i ticket hpeek
        obtain ⟨rfl, hget⟩ := SessionCache.peek_eq_some hpeek
        dsimp only
        split
        · exact .verify ⟨rid, ticket⟩ hphase hid hget ‹_›
        · exact .mismatch hphase
  | remove =>
    simp only [Call.act] at h
    split at h
    · rename_i t hphase
      cases h
      cases hget : s.cache.get t.rid with
      | none => simpa [Call.remove, SessionCache.remove, hget] using Acts.miss t hphase hget
      | some ticket =>
        simpa [Call.remove, SessionCache.remove, hget] using Acts.take t ticket hphase hget
    · cases h
  | ask firstUse =>
    obtain ⟨hphase, heq⟩ := ite_none_right_eq_some.1 h
    cases heq
    dsimp only
    split
    · rename_i hstore
      exact .deny firstUse hphase (Bool.and_eq_true_iff.1 hstore).1
    · exact .allow firstUse hphase
  | proceed o =>
    obtain ⟨hphase, heq⟩ := ite_none_right_eq_some.1 h
    cases heq
    unfold Call.proceed
    split
    · rename_i r hr
      exact .fail o r hphase (c.complete_noSuccess s.earlyDataEnabled r hr)
    · rename_i hok
      exact .ready o _ _ _ hphase (Call.complete_ok hok)
  | failAndReinsert =>
    simp only [Call.act] at h
    split at h
    · rename_i r hphase
      cases h
      cases hresumed : c.resumed with
      | none => simpa [Call.failAndReinsert, hresumed] using Acts.giveUp r hphase hresumed
      | some t => simpa [Call.failAndReinsert, hresumed] using Acts.giveBack r t hphase hresumed
    · cases h
  | finalize =>
    simp only [Call.act] at h
    split at h
    · rename_i hello session earlyData hphase
      cases h
      unfold Call.finalize
      dsimp only
      split
      · exact .store hello session earlyData _ hphase ‹_›
      · exact .finish hello session earlyData hphase ‹_›
    · cases h

end Acts

section Step

variable {s : Server} {c c' : Call} {a : Action} {cache' : SessionCache} {id : SessionId}
  {k k' : ResumptionTicket}

/-- A call that acts has not returned. -/
theorem Acts.issues_eq_false (h : Acts kdf s c a cache' c') : c.issues id = false := by
  cases h <;> simp_all [Call.issues]

theorem Acts.isDisabled_eq (h : Acts kdf s c a cache' c') :
    cache'.isDisabled = s.cache.isDisabled := by
  cases h <;> simp

/-- What is known of a call by itself. -/
structure Call.Sound (c : Call) : Prop where
  fresh : c.phase = .received → c.resumed = none
  verified : ∀ t, c.phase = .verified t → c.resumed = none ∧ c.hello.resumeSessionId = some t.rid
  names : ∀ t, c.resumed = some t → c.hello.resumeSessionId = some t.rid
  failing : ∀ r, c.phase = .failing r → r.isSuccess = false
  early : ∀ hello session data, c.phase = .finalizing hello session (some data) ∨
    c.phase = .returned (.success hello session (some data)) → c.resumed ≠ none

theorem Acts.sound (h : Acts kdf s c a cache' c') (hc : c.Sound) : c'.Sound := by
  obtain ⟨hfresh, hverified, hnames, hfailing, hearly⟩ := hc
  cases h <;> constructor <;> simp_all [HandshakeResponse.ne_success]

end Step

/-! ## The server -/

section Server

variable {s s' : Server} {e : Event} {i : Nat} {a : Action} {c : Call}

/-- What the other events do: a new call begins, an expired ticket is dropped, time passes. -/
structure Aside (s s' : Server) : Prop where
  calls : s'.calls = s.calls ∨
    ∃ hello difficulty, s'.calls = s.calls ++ [⟨hello, difficulty, none, .received⟩]
  cache : s'.cache = s.cache ∨ ∃ rid, s'.cache = (s.cache.peek rid s.now).1
  now : s.now ≤ s'.now

theorem step_call (h : step kdf s (.call i a) = some s') :
    ∃ c cache' c', s.calls[i]? = some c ∧ Acts kdf s c a cache' c' ∧
      s' = { s with cache := cache', calls := s.calls.set i c' } := by
  obtain ⟨c, hc, h⟩ := bind_eq_some_iff.1 h
  obtain ⟨r, hact, rfl⟩ := map_eq_some_iff.1 h
  exact ⟨c, r.1, r.2, hc, act_acts kdf hact, rfl⟩

theorem step_aside (h : step kdf s e = some s') (he : ∀ i a, e ≠ .call i a) : Aside s s' := by
  cases e with
  | arrive hello difficulty =>
    cases h
    exact ⟨.inr ⟨hello, difficulty, rfl⟩, .inl rfl, Nat.le_refl _⟩
  | call i a => exact absurd rfl (he i a)
  | hasValidResume =>
    cases h
    refine ⟨.inl rfl, ?_, Nat.le_refl _⟩
    dsimp only
    split
    · exact .inr ⟨_, rfl⟩
    · exact .inl rfl
  | setZeroRttAntiReplay | setEarlyDataEnabled =>
    cases h
    exact ⟨.inl rfl, .inl rfl, Nat.le_refl _⟩
  | tick =>
    cases h
    exact ⟨.inl rfl, .inl rfl, Nat.le_add_right _ _⟩

/-- A step is one of a call, or an aside. -/
theorem step_cases (h : step kdf s e = some s') :
    (∃ i a c cache' c', e = .call i a ∧ s.calls[i]? = some c ∧ Acts kdf s c a cache' c' ∧
      s' = { s with cache := cache', calls := s.calls.set i c' }) ∨
    (∀ i a, e ≠ .call i a) ∧ Aside s s' := by
  by_cases he : ∃ i a, e = .call i a
  · grind [step_call]
  · grind [step_aside]

/-- A call that another step is not about stays as it is. -/
theorem getElem?_of_step (hs : step kdf s e = some s') (hc : s.calls[i]? = some c)
    (he : ∀ a, e ≠ .call i a) : s'.calls[i]? = some c := by
  rcases step_cases hs with ⟨j, a, d, cache', d', rfl, hd, hacts, rfl⟩ | ⟨-, haside⟩
  · simp_all
  · rcases haside.calls with heq | ⟨hello, difficulty, heq⟩
    · rw [heq, hc]
    · grind

end Server

end Handshake

end PhantomProtocol
