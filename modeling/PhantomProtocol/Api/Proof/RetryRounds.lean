import PhantomProtocol.Api.RetryRounds
import PhantomProtocol.Transport.Proof.RetryGate

/-!
# The retry budget of an honest client

A cookie round and, under load, a proof-of-work round: the second one costs the client two, because
a retry that carries no cookie takes away the one it has. A client that needs three rounds of its
three cannot afford a single repeated retry (`repeats_exhaust`); within what is left over,
neither side runs out (`budget_suffices`).
-/

namespace PhantomProtocol.RetryRounds

open List

variable {difficulty round : Nat} {s s' : State} {e : Event} {r : HelloRetryRequest}

/-! ## The gates, on hellos that carry what is valid -/

section Refines

open Handshake (ClientHello GateClock HandshakeResponse Outcomes UdpAdmit gateOutcomes CookieValid
  SolutionValid)

def Hello.of (hello : ClientHello) : Hello := ⟨hello.cookie.isSome, hello.powSolution.isSome⟩

def HelloRetryRequest.of (request : Handshake.HelloRetryRequest) : HelloRetryRequest :=
  ⟨request.challenge.isSome, request.cookie.isSome⟩

/-- What a gate asks for, if it does not fail. -/
def asked : Except HandshakeResponse Unit → Option (Option HelloRetryRequest)
  | .ok () => some none
  | .error (.retry request) => some (some (.of request))
  | .error _ => none

def askedByDemux : UdpAdmit → Option (Option HelloRetryRequest)
  | .admitted => some none
  | .retry request => some (some (.of request))
  | .drop => none

variable {macs : CookieMacs} {master cookie : Bytes} {ip : IpText.IpAddr} {clock : GateClock}
  {o : Outcomes} {hello : ClientHello} {difficulty : UInt8}
  (hgen : Handshake.generateCookie macs master ip clock.generateHour clock.generateBucket = .ok cookie)
  (hcookie : hello.cookie.isSome → CookieValid macs master ip clock hello)
include hgen hcookie

theorem askedByDemux_udpAdmit :
    askedByDemux (Handshake.udpAdmit (gateOutcomes macs master ip clock o) hello) =
      some (udpAdmit (.of hello)) := by
  have hgen' : (gateOutcomes macs master ip clock o).generateCookie = .ok cookie := hgen
  unfold Handshake.udpAdmit
  cases hpresent : hello.cookie with
  | none => simp [hgen', hpresent, askedByDemux, udpAdmit, Hello.of, HelloRetryRequest.of]
  | some presented =>
    obtain ⟨_, heq, hvalid⟩ := hcookie (by simp [hpresent])
    cases hpresent.symm.trans heq
    have hvalid' : (gateOutcomes macs master ip clock o).validateCookie presented = .ok true := hvalid
    simp [hvalid', hpresent, askedByDemux, udpAdmit, Hello.of, Except.toOption]

theorem asked_cookiePowGate {bypass : Bool} (hpast : 0 ≤ clock.powHour.nanos)
    (hsolution : hello.powSolution.isSome → SolutionValid macs master ip clock hello difficulty) :
    asked (Handshake.cookiePowGate (gateOutcomes macs master ip clock o) hello difficulty bypass) =
      some (cookiePowGate difficulty.toNat (.of hello) bypass) := by
  have hgen' : (gateOutcomes macs master ip clock o).generateCookie = .ok cookie := hgen
  have hcheck : Handshake.checkCookie (gateOutcomes macs master ip clock o) hello =
      .ok hello.cookie.isSome := by
    cases hpresent : hello.cookie with
    | none => rw [Handshake.checkCookie, hpresent]; rfl
    | some => exact Handshake.checkCookie_of_valid (hcookie (by simp [hpresent]))
  unfold Handshake.cookiePowGate cookiePowGate Hello.of
  rw [hcheck, hgen']
  by_cases hdiff : 0 < difficulty
  · obtain ⟨valid, hvalid, hpow⟩ := @Handshake.checkPow_gate macs master ip clock o hello _ hdiff hpast
    have hvalid' : valid = hello.powSolution.isSome := by
      rw [Bool.eq_iff_iff, hvalid]
      refine ⟨?_, hsolution⟩
      rintro ⟨_, _, hpresent, -⟩
      simp [hpresent]
    have hdiff' : 0 < difficulty.toNat := UInt8.lt_iff_toNat_lt.1 hdiff
    rw [hpow, hvalid']
    cases bypass <;> cases hello.cookie <;> cases hello.powSolution <;>
      simp [asked, HelloRetryRequest.of, bind, Except.bind, Except.mapError, hdiff', hdiff'.ne']
  · have hzero : difficulty.toNat = 0 := by simpa [UInt8.lt_iff_toNat_lt] using hdiff
    rw [Handshake.checkPow, if_neg hdiff]
    cases bypass <;> cases hello.cookie <;>
      simp [asked, HelloRetryRequest.of, bind, Except.bind, Except.mapError, hzero]

end Refines

/-! ## Rounds -/

/-- The hello of each round, when every retry answered the hello before. -/
def helloAt (difficulty round : Nat) : Hello :=
  if difficulty = 0 then ⟨decide (0 < round), false⟩
  else match round with
    | 0 => ⟨false, false⟩
    | 1 => ⟨true, false⟩
    | 2 => ⟨false, true⟩
    | _ => ⟨true, true⟩

def retryAt (difficulty round : Nat) : HelloRetryRequest :=
  if 0 < difficulty ∧ round = 1 then ⟨true, false⟩ else ⟨false, true⟩

theorem udpAdmit_helloAt (h : udpAdmit (helloAt difficulty round) = some r) :
    round < roundsNeeded difficulty ∧ r = retryAt difficulty round := by
  by_cases hd : difficulty = 0
  · simp_all [udpAdmit, helloAt, retryAt, roundsNeeded]
  · match round with
    | 0 => simp_all [udpAdmit, helloAt, retryAt, roundsNeeded]
    | 1 => simp [udpAdmit, helloAt, hd] at h
    | 2 => simp_all [udpAdmit, helloAt, retryAt, roundsNeeded]
    | n + 3 => simp [udpAdmit, helloAt, hd] at h

/-- The gate asks for more in the same rounds. Only a hello of round 0 that reaches a task is asked
for something else than the demux asks for. -/
theorem cookiePowGate_helloAt {bypass : Bool}
    (h : cookiePowGate difficulty (helloAt difficulty round) bypass = some r) :
    round < roundsNeeded difficulty ∧
      (0 < round ∨ difficulty = 0 → r = retryAt difficulty round) := by
  by_cases hd : difficulty = 0
  · simp_all [cookiePowGate, helloAt, retryAt, roundsNeeded]
  · have hpos : 0 < difficulty := Nat.pos_of_ne_zero hd
    match round with
    | 0 => simp [roundsNeeded, hd]
    | 1 => cases bypass <;> simp_all [cookiePowGate, helloAt, retryAt, roundsNeeded]
    | 2 => cases bypass <;> simp_all [cookiePowGate, helloAt, retryAt, roundsNeeded]
    | n + 3 => cases bypass <;> simp [cookiePowGate, helloAt, hd] at h

theorem pos_of_cookie (h : (helloAt difficulty round).cookie = true) : 0 < round := by
  by_contra h0
  rw [Nat.eq_zero_of_not_pos h0] at h
  by_cases hd : difficulty = 0 <;> simp [helloAt, hd] at h

theorem helloAt_succ (h : round < roundsNeeded difficulty) :
    (⟨(retryAt difficulty round).cookie, (helloAt difficulty round).powSolution ||
      (retryAt difficulty round).challenge⟩ : Hello) = helloAt difficulty (round + 1) := by
  by_cases hd : difficulty = 0
  · subst hd
    match round, h with
    | 0, _ => rfl
  · have hpos : 0 < difficulty := Nat.pos_of_ne_zero hd
    simp only [roundsNeeded, hd, if_false] at h
    match round, h with
    | 0, _ => simp [retryAt, helloAt, hd]
    | 1, _ => simp [retryAt, helloAt, hd, hpos]
    | 2, _ => simp [retryAt, helloAt, hd]

/-! ## The invariant -/

structure TaskWithin (difficulty : Nat) (s : State) (t : Task) : Prop where
  client : 0 < s.client.retryRounds
  inbox : ∀ m ∈ t.inbox, m ∈ s.hellos
  /-- The hello it was started for is the first it reads, and has a cookie. -/
  first : t.newest = 0 → ∃ m rest, t.inbox = m :: rest ∧ m.2.cookie = true
  rounds : t.retryRounds ≤ t.newest + t.staleHellos
  newest : t.newest < roundsNeeded difficulty
  staleHellos : t.staleHellos ≤ 1

structure Within (difficulty : Nat) (s : State) : Prop where
  budget : roundsNeeded difficulty + s.staleReplies ≤ maxHandshakeRetryRounds
  rounds : s.client.retryRounds ≤ roundsNeeded difficulty + s.staleReplies
  status : s.client.status ≠ .tooManyRounds
  hello : s.client.status = .waiting → s.client.hello = helloAt difficulty s.client.retryRounds
  hellos : ∀ m ∈ s.hellos, m.1 ≤ s.client.retryRounds ∧ m.2 = helloAt difficulty m.1
  retries : ∀ round r, (round, ServerReply.retry r) ∈ s.replies →
    round < roundsNeeded difficulty ∧ round ≤ s.client.retryRounds ∧
      (round = s.client.retryRounds ∨ difficulty = 0 → r = retryAt difficulty round)
  retryLimit : ∀ round, (round, ServerReply.retryLimit) ∉ s.replies
  task : ∀ t, s.route = .task t → TaskWithin difficulty s t

theorem start_within (difficulty : Nat) : Within difficulty start where
  budget := by
    show roundsNeeded difficulty + 0 ≤ 3
    unfold roundsNeeded
    split <;> omega
  rounds := Nat.zero_le _
  status := nofun
  hello _ := by
    by_cases hd : difficulty = 0 <;> simp [start, helloAt, hd]
  hellos := nofun
  retries := nofun
  retryLimit := nofun
  task := nofun

section

variable (hi : Within difficulty s)
include hi

theorem send_within (hw : s.client.status = .waiting) :
    Within difficulty { s with hellos := (s.client.retryRounds, s.client.hello) :: s.hellos } := by
  refine { hi with hellos := ?_, task := ?_ }
  · intro m hm
    rcases mem_cons.1 hm with rfl | hm
    · exact ⟨Nat.le_refl _, hi.hello hw⟩
    · exact hi.hellos m hm
  · intro t ht
    have ht := hi.task t ht
    exact { ht with inbox := fun m hm => mem_cons_of_mem _ (ht.inbox m hm) }

theorem Within.reply (hround : round < roundsNeeded difficulty) (hle : round ≤ s.client.retryRounds)
    (hr : round = s.client.retryRounds ∨ difficulty = 0 → r = retryAt difficulty round) :
    ∀ round' r', (round', ServerReply.retry r') ∈ (round, .retry r) :: s.replies →
      round' < roundsNeeded difficulty ∧ round' ≤ s.client.retryRounds ∧
        (round' = s.client.retryRounds ∨ difficulty = 0 → r' = retryAt difficulty round') := by
  intro round' r' hmem
  rcases mem_cons.1 hmem with heq | hmem
  · cases heq
    exact ⟨hround, hle, hr⟩
  · exact hi.retries round' r' hmem

theorem Within.retryLimit_cons {m : Nat × ServerReply}
    (hm : m.2 ≠ .retryLimit) (round : Nat) : (round, ServerReply.retryLimit) ∉ m :: s.replies := by
  intro hmem
  obtain rfl | hmem := mem_cons.1 hmem
  · exact hm rfl
  · exact hi.retryLimit round hmem

theorem demux_within {m : Nat × Hello} (hm : m ∈ s.hellos) : Within difficulty (s.demux m) := by
  obtain ⟨hle, hhello⟩ := hi.hellos m hm
  unfold State.demux
  split
  · rename_i t hroute
    have ht := hi.task t hroute
    refine { hi with task := fun t' ht' => ?_ }
    cases ht'
    refine { ht with inbox := ?_, first := ?_ }
    · intro m' hm'
      rcases mem_append.1 hm' with hm' | hm'
      · exact ht.inbox m' hm'
      · exact mem_singleton.1 hm' ▸ hm
    · intro h0
      obtain ⟨m', rest, hin, hc⟩ := ht.first h0
      exact ⟨m', rest ++ [m], by simp [hin], hc⟩
  · exact hi
  · rename_i hroute
    cases hadmit : udpAdmit m.2 with
    | some =>
      rw [hhello] at hadmit
      obtain ⟨hround, hr⟩ := udpAdmit_helloAt hadmit
      refine { hi with
        retries := hi.reply hround hle fun _ => hr
        retryLimit := hi.retryLimit_cons (by simp)
        task := ?_ }
      simp [hroute]
    | none =>
      refine { hi with task := fun t ht => ?_ }
      cases ht
      have hc : m.2.cookie = true := by
        by_contra hc
        simp [udpAdmit, hc] at hadmit
      exact {
        client := Nat.lt_of_lt_of_le (pos_of_cookie (hhello ▸ hc)) hle
        inbox := fun m' hm' => mem_singleton.1 hm' ▸ hm
        first := fun _ => ⟨m, [], rfl, hc⟩
        rounds := Nat.le_refl _
        newest := by unfold roundsNeeded; split <;> simp
        staleHellos := Nat.zero_le _ }

end

theorem roundsNeeded_le (difficulty : Nat) : roundsNeeded difficulty ≤ 3 := by
  unfold roundsNeeded
  split <;> omega

section

variable (hi : Within difficulty s) {stale : Nat}
include hi

theorem serve_within {t : Task} (hroute : s.route = .task t)
    {m : Nat × Hello} {rest : List (Nat × Hello)} (hin : t.inbox = m :: rest) (bypass : Bool)
    (hsp : t.spares = true) : Within difficulty (s.serve difficulty t m rest bypass) := by
  have ht := hi.task t hroute
  obtain ⟨hle, hhello⟩ := hi.hellos m (ht.inbox m (by simp [hin]))
  unfold State.serve
  cases hgate : cookiePowGate difficulty m.2 bypass with
  | none =>
    refine { hi with
      retries := fun round r hmem => ?_, retryLimit := hi.retryLimit_cons (by simp), task := nofun }
    exact hi.retries round r (by simpa using hmem)
  | some =>
    rw [hhello] at hgate
    obtain ⟨hround, hr⟩ := cookiePowGate_helloAt hgate
    have hspare : t.newest < m.1 ∨ t.staleHellos = 0 := by
      simpa [Task.spares, hin] using hsp
    have hneed := roundsNeeded_le difficulty
    have hnew := ht.newest
    have hstale := ht.staleHellos
    have hrounds := ht.rounds
    have hpos : 0 < max t.newest m.1 := by
      by_contra h0
      obtain ⟨m', rest', hin', hc⟩ := ht.first (by omega)
      rw [hin] at hin'
      cases hin'
      have := pos_of_cookie (hhello ▸ hc)
      omega
    have hlimit : ¬t.retryRounds + 1 > maxHandshakeRetryRounds := by
      show ¬t.retryRounds + 1 > 3
      omega
    dsimp only
    rw [if_neg hlimit]
    refine { hi with
      retries := ?_, retryLimit := hi.retryLimit_cons (by simp), task := fun t' ht' => ?_ }
    · refine hi.reply hround hle fun h => hr ?_
      rcases h with h | h
      · exact .inl (h ▸ ht.client)
      · exact .inr h
    · cases ht'
      exact {
        client := ht.client
        inbox := fun m' hm' => ht.inbox m' (by simp [hin, hm'])
        first := fun h0 => absurd h0 (Nat.ne_of_gt hpos)
        rounds := by
          show t.retryRounds + 1 ≤ max t.newest m.1 +
            if m.1 ≤ t.newest then t.staleHellos + 1 else t.staleHellos
          split <;> omega
        newest := by
          show max t.newest m.1 < roundsNeeded difficulty
          omega
        staleHellos := by
          show (if m.1 ≤ t.newest then t.staleHellos + 1 else t.staleHellos) ≤ 1
          split <;> omega }

/-- The client goes one round on. -/
theorem Within.advance {c : Client}
    (hround : c.retryRounds = s.client.retryRounds + 1) (hstatus : c.status ≠ .tooManyRounds)
    (hhello : c.status = .waiting → c.hello = helloAt difficulty c.retryRounds)
    (hle : c.retryRounds ≤ roundsNeeded difficulty + stale)
    (hbudget : roundsNeeded difficulty + stale ≤ maxHandshakeRetryRounds) :
    Within difficulty { s with client := c, staleReplies := stale } where
  budget := hbudget
  rounds := hle
  status := hstatus
  hello := hhello
  hellos m hm := by
    obtain ⟨hle, hhello⟩ := hi.hellos m hm
    exact ⟨by simp only [hround]; omega, hhello⟩
  retries round r hm := by
    obtain ⟨hlt, hle, hr⟩ := hi.retries round r hm
    refine ⟨hlt, by simp only [hround]; omega, fun h => hr (.inr ?_)⟩
    -- no reply is tagged with the round that begins here
    rcases h with h | h
    · simp only [hround] at h
      omega
    · exact h
  retryLimit := hi.retryLimit
  task t ht := by
    have ht := hi.task t ht
    exact { ht with client := by simp only [hround]; omega }

theorem retry_next (hm : (round, ServerReply.retry r) ∈ s.replies) (hw : s.client.status = .waiting)
    (hsp : s.spares difficulty (.toClient (round, .retry r)) = true)
    (hstale : stale = if s.staleReply (round, .retry r) then s.staleReplies + 1
      else s.staleReplies) :
    (⟨r.cookie, s.client.hello.powSolution || r.challenge⟩ : Hello) =
        helloAt difficulty (s.client.retryRounds + 1) ∧
      s.client.retryRounds + 1 ≤ roundsNeeded difficulty + stale ∧
      roundsNeeded difficulty + stale ≤ maxHandshakeRetryRounds := by
  obtain ⟨hround, hle, hr⟩ := hi.retries round r hm
  have hbudget := hi.budget
  have hrounds := hi.rounds
  rw [hi.hello hw]
  by_cases hfresh : round = s.client.retryRounds
  · subst hfresh
    rw [hr (.inl rfl)]
    simp only [State.staleReply, ne_eq, not_true, decide_false, Bool.false_eq_true,
      if_false] at hstale
    subst hstale
    exact ⟨helloAt_succ hround, by omega, hbudget⟩
  · have hst : s.staleReply (round, .retry r) = true := by simp [State.staleReply, hfresh]
    simp only [State.spares, hst, Bool.not_true, Bool.false_or, decide_eq_true_eq] at hsp
    rw [hst, if_pos rfl] at hstale
    subst hstale
    -- only a client that needs a single round has one to spare
    have hd : difficulty = 0 := by
      by_contra hd
      simp only [roundsNeeded, hd, if_false, maxHandshakeRetryRounds] at hsp
      omega
    rw [hr (.inr hd)]
    exact ⟨by simp [retryAt, helloAt, hd], by omega, by omega⟩

theorem receive_within {m : Nat × ServerReply} (hm : m ∈ s.replies)
    (hw : s.client.status = .waiting) (hsp : s.spares difficulty (.toClient m) = true) :
    Within difficulty { s with
      client := s.client.receive difficulty m.2
      staleReplies := if s.staleReply m then s.staleReplies + 1 else s.staleReplies } := by
  obtain ⟨round, reply⟩ := m
  cases reply with
  | hello =>
    exact { hi with
      status := nofun, hello := nofun, task := fun t ht => { hi.task t ht with } }
  | retryLimit => exact absurd hm (hi.retryLimit round)
  | retry =>
    obtain ⟨hhello, hle, hbudget⟩ := retry_next hi hm hw hsp rfl
    simp only [Client.receive]
    rw [if_neg (by omega)]
    split
    · exact hi.advance rfl nofun nofun hle hbudget
    · exact hi.advance rfl (by simp [hw]) (fun _ => hhello) hle hbudget

theorem step_within (h : step difficulty s e = some s')
    (hsp : s.spares difficulty e = true) : Within difficulty s' := by
  cases e with
  | send => grind [step, send_within]
  | toServer => grind [step, demux_within]
  | serve => grind [step, State.spares, serve_within]
  | taskEnds | retire =>
    simp only [step] at h
    split at h
    · cases h
      exact { hi with task := nofun }
    · cases h
  | toClient => grind [step, receive_within]

end

/-- **The retry budget suffices** when the network repeats no more than it leaves over: the client
does not stop for too many rounds, and the server never answers that the limit is reached. -/
theorem budget_suffices (difficulty : Nat) (es : List Event) {t : State}
    (ha : Lts.Along (step difficulty) (fun s e _ => s.spares difficulty e = true) start es)
    (hrun : Lts.run (step difficulty) start es = some t) :
    t.client.status ≠ .tooManyRounds ∧ ∀ round, (round, ServerReply.retryLimit) ∉ t.replies := by
  have hi : Within difficulty t :=
    Lts.run_inv_along (fun _ _ _ hi h hsp => step_within hi h hsp) es (start_within difficulty) ha
      hrun
  exact ⟨hi.status, hi.retryLimit⟩

/-- The exchange at difficulty 1, nothing lost or repeated. -/
def lossless : List Event :=
  [.send, .toServer (0, ⟨false, false⟩), .toClient (0, .retry ⟨false, true⟩),
    .send, .toServer (1, ⟨true, false⟩), .serve false, .toClient (1, .retry ⟨true, false⟩),
    .send, .toServer (2, ⟨false, true⟩), .serve false, .toClient (2, .retry ⟨false, true⟩),
    .send, .toServer (3, ⟨true, true⟩), .serve false, .toClient (3, .hello)]

theorem budget_suffices_lossless :
    ∃ t, Lts.run (step 1) start lossless = some t ∧ t.client.status = .established ∧
      t.client.retryRounds = 3 ∧
      (t.client.status ≠ .tooManyRounds ∧
        ∀ round, (round, ServerReply.retryLimit) ∉ t.replies) :=
  ⟨_, rfl, rfl, rfl, budget_suffices 1 lossless (by decide) rfl⟩

/-- The same exchange with the demux's cookie retry arriving twice: the client stops in what would
have been its fourth round. -/
def repeatedRetry : List Event :=
  [.send, .toServer (0, ⟨false, false⟩), .toClient (0, .retry ⟨false, true⟩),
    .toClient (0, .retry ⟨false, true⟩),
    .send, .toServer (2, ⟨true, false⟩), .serve false, .toClient (2, .retry ⟨true, false⟩),
    .send, .toServer (3, ⟨false, true⟩), .serve false, .toClient (3, .retry ⟨false, true⟩)]

/-- The client's cookie-bearing hello arriving four times at its task, which then answers that the
limit is reached. -/
def repeatedHello : List Event :=
  [.send, .toServer (0, ⟨false, false⟩), .toClient (0, .retry ⟨false, true⟩), .send,
    .toServer (1, ⟨true, false⟩), .toServer (1, ⟨true, false⟩), .toServer (1, ⟨true, false⟩),
    .toServer (1, ⟨true, false⟩), .serve false, .serve false, .serve false, .serve false]

theorem repeats_exhaust :
    (∃ t, Lts.run (step 1) start repeatedRetry = some t ∧ t.client.status = .tooManyRounds) ∧
    ∃ t, Lts.run (step 1) start repeatedHello = some t ∧
      (1, ServerReply.retryLimit) ∈ t.replies :=
  ⟨⟨_, rfl, rfl⟩, _, rfl, by decide⟩

end PhantomProtocol.RetryRounds
