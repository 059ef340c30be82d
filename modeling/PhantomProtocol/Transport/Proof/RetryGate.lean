import PhantomProtocol.Transport.Proof.CookieLifetime
import PhantomProtocol.Transport.Proof.Tickets

/-!
# What a retry asks for

`cookie_pow_gate` sends a fresh cookie whenever the one presented is not valid, but a challenge only
when no solution was presented: a hello with a stale solution is retried without one.
-/

namespace PhantomProtocol.Handshake

open List

open IpText (IpAddr toText)

variable {macs : CookieMacs} {master cookie : Bytes} {ip : IpAddr} {clock clock' : GateClock}
  {o o' : Outcomes} {hello : ClientHello} {difficulty : UInt8} {bypass : Bool}
  {req : HelloRetryRequest} {sol : PoWSolution} {challenge : PoWChallenge}

/-! ## The two halves of the gate -/

section

variable (macs master ip clock hello)

def CookieValid : Prop :=
  ∃ cookie, hello.cookie = some cookie ∧
    validateCookie macs master ip cookie clock.validateBucket clock.validateHour = .ok true

/-- The hello has a solution that is valid when the gate checks it, under the secret of the hour or of
the one before. -/
def SolutionValid (difficulty : UInt8) : Prop :=
  ∃ sol hour, hello.powSolution = some sol ∧
    (hour = hourOf clock.powHour ∨ hour = hourOf clock.powHour - 1) ∧
    verify macs ⟨sol.nonce, difficulty⟩ sol (toText ip) (deriveSessionSecretForHour macs master hour)
      (clock.verified (deriveSessionSecretForHour macs master hour)) = true

end

theorem checkCookie_gate {valid : Bool}
    (h : checkCookie (gateOutcomes macs master ip clock o) hello = .ok valid) :
    valid = true ↔ CookieValid macs master ip clock hello := by
  unfold checkCookie at h
  unfold CookieValid
  cases hcookie : hello.cookie with
  | none =>
    rw [hcookie] at h
    cases h
    simp
  | some cookie =>
    rw [hcookie] at h
    change (validateCookie macs master ip cookie clock.validateBucket clock.validateHour).mapError
      HandshakeResponse.fail = .ok valid at h
    cases hvalid : validateCookie macs master ip cookie clock.validateBucket clock.validateHour with
    | error =>
      rw [hvalid] at h
      cases h
    | ok =>
      rw [hvalid] at h
      cases h
      simp [hvalid]

theorem checkCookie_of_valid (h : CookieValid macs master ip clock hello) :
    checkCookie (gateOutcomes macs master ip clock o) hello = .ok true := by
  obtain ⟨cookie, hcookie, hvalid⟩ := h
  rw [checkCookie, hcookie]
  show (validateCookie macs master ip cookie clock.validateBucket clock.validateHour).mapError
    _ = _
  rw [hvalid]
  rfl

theorem verifyAny_gate (macs : CookieMacs) (master : Bytes) (ip : IpAddr) (clock : GateClock)
    (o : Outcomes) (difficulty : UInt8) (sol : PoWSolution) (hours : List Nat) :
    verifyAny (gateOutcomes macs master ip clock o) difficulty sol hours =
      .ok (hours.any fun hour => verify macs ⟨sol.nonce, difficulty⟩ sol (toText ip)
        (deriveSessionSecretForHour macs master hour)
        (clock.verified (deriveSessionSecretForHour macs master hour))) := by
  induction hours with
  | nil => rfl
  | cons hour hours ih =>
    rw [verifyAny, ih, any_cons]
    show (if verify macs ⟨sol.nonce, difficulty⟩ sol (toText ip)
      (deriveSessionSecretForHour macs master hour)
      (clock.verified (deriveSessionSecretForHour macs master hour)) then _ else _) = _
    split
    · rename_i hverify
      rw [hverify]
      rfl
    · simp [*]

theorem mem_hours {hour cur : Nat} :
    hour ∈ (if cur = cur - 1 then [cur] else [cur, cur - 1]) ↔ hour = cur ∨ hour = cur - 1 := by
  split
  · rename_i heq
    rw [← heq]
    simp
  · simp

theorem checkPow_gate (hdiff : 0 < difficulty) (hpast : 0 ≤ clock.powHour.nanos) :
    ∃ valid, (valid = true ↔ SolutionValid macs master ip clock hello difficulty) ∧
      checkPow (gateOutcomes macs master ip clock o) hello difficulty = .ok (valid,
        if hello.powSolution.isSome then none
        else some (newStateless macs difficulty (toText ip)
          (deriveSessionSecretForHour macs master (hourOf clock.powHour)) clock.issued)) := by
  have hhour : (gateOutcomes macs master ip clock o).currentSecretHour =
      .ok (hourOf clock.powHour) := currentSecretHour_of_nonneg hpast
  unfold checkPow
  rw [if_pos hdiff, hhour]
  cases hsol : hello.powSolution with
  | none =>
    refine ⟨false, ?_, rfl⟩
    unfold SolutionValid
    simp [hsol]
  | some sol =>
    let hours := if hourOf clock.powHour = hourOf clock.powHour - 1 then [hourOf clock.powHour]
      else [hourOf clock.powHour, hourOf clock.powHour - 1]
    have hany := verifyAny_gate macs master ip clock o difficulty sol hours
    refine ⟨_, ?_, congrArg (· >>= fun valid => Except.ok (valid, none)) hany⟩
    rw [any_eq_true]
    simp only [hours, mem_hours]
    constructor
    · rintro ⟨hour, hmem, hverify⟩
      exact ⟨sol, hour, hsol, hmem, hverify⟩
    · rintro ⟨sol', hour, hsol', hmem, hverify⟩
      rw [hsol] at hsol'
      cases hsol'
      exact ⟨hour, hmem, hverify⟩

/-! ## The gate -/

theorem not_retry_of_mapError {α : Type} {e : Except HandshakeError α}
    (h : e.mapError HandshakeResponse.fail = .error (.retry req)) : False := by
  cases e with
  | error | ok => cases h

theorem checkCookie_ne_retry (h : checkCookie o hello = .error (.retry req)) : False := by
  unfold checkCookie at h
  split at h
  · exact not_retry_of_mapError h
  · cases h

theorem checkPow_ne_retry
    (h : checkPow (gateOutcomes macs master ip clock o) hello difficulty = .error (.retry req)) :
    False := by
  unfold checkPow at h
  split at h
  · cases hhour : (gateOutcomes macs master ip clock o).currentSecretHour with
    | error =>
      rw [hhour] at h
      cases h
    | ok =>
      rw [hhour] at h
      cases hsol : hello.powSolution with
      | none =>
        rw [hsol] at h
        cases h
      | some sol =>
        rw [hsol] at h
        change (verifyAny (gateOutcomes macs master ip clock o) difficulty sol _ >>= _) = _ at h
        rw [verifyAny_gate] at h
        cases h
  · cases h

theorem checkPow_ok_past {r : Bool × Option PoWChallenge} (hdiff : 0 < difficulty)
    (h : checkPow (gateOutcomes macs master ip clock o) hello difficulty = .ok r) :
    0 ≤ clock.powHour.nanos := by
  rw [checkPow, if_pos hdiff] at h
  cases hhour : currentSecretHour clock.powHour with
  | error e =>
    have hhour' : (gateOutcomes macs master ip clock o).currentSecretHour = .error e := hhour
    rw [hhour'] at h
    cases h
  | ok => exact currentSecretHour_ok hhour

theorem cookiePowGate_retry
    (h : cookiePowGate (gateOutcomes macs master ip clock o) hello difficulty bypass =
      .error (.retry req)) :
    ∃ cookieValid cookie powValid challenge,
      checkCookie (gateOutcomes macs master ip clock o) hello = .ok cookieValid ∧
      generateCookie macs master ip clock.generateHour clock.generateBucket = .ok cookie ∧
      checkPow (gateOutcomes macs master ip clock o) hello difficulty = .ok (powValid, challenge) ∧
      req = ⟨challenge, if cookieValid = true then none else some cookie⟩ := by
  unfold cookiePowGate at h
  cases hcookie : checkCookie (gateOutcomes macs master ip clock o) hello with
  | error =>
    rw [hcookie] at h
    cases h
    exact (checkCookie_ne_retry hcookie).elim
  | ok cookieValid =>
    rw [hcookie] at h
    cases hgen : generateCookie macs master ip clock.generateHour clock.generateBucket with
    | error e =>
      have hgen' : (gateOutcomes macs master ip clock o).generateCookie = .error e := hgen
      rw [hgen'] at h
      cases h
    | ok cookie =>
      have hgen' : (gateOutcomes macs master ip clock o).generateCookie = .ok cookie := hgen
      rw [hgen'] at h
      cases hpow : checkPow (gateOutcomes macs master ip clock o) hello difficulty with
      | error =>
        rw [hpow] at h
        cases h
        exact (checkPow_ne_retry hpow).elim
      | ok r =>
        obtain ⟨powValid, challenge⟩ := r
        rw [hpow] at h
        change (if !bypass && (!cookieValid || !powValid) then _ else _) = _ at h
        split at h
        · simp_all
        · cases h

/-- A hello that both halves accept passes. -/
theorem cookiePowGate_ok {challenge : Option PoWChallenge}
    (hcookie : checkCookie o hello = .ok true) (hgen : o.generateCookie = .ok cookie)
    (hpow : checkPow o hello difficulty = .ok (true, challenge)) :
    cookiePowGate o hello difficulty bypass = .ok () := by
  unfold cookiePowGate
  rw [hcookie, hgen, hpow]
  cases bypass <;> rfl

theorem cookiePowGate_retry_fields
    (h : cookiePowGate (gateOutcomes macs master ip clock o) hello difficulty bypass =
      .error (.retry req)) :
    ∃ cookie, generateCookie macs master ip clock.generateHour clock.generateBucket = .ok cookie ∧
      (CookieValid macs master ip clock hello → req.cookie = none) ∧
      (¬CookieValid macs master ip clock hello → req.cookie = some cookie) ∧
      req.challenge = if 0 < difficulty ∧ hello.powSolution = none then
        some (newStateless macs difficulty (toText ip)
          (deriveSessionSecretForHour macs master (hourOf clock.powHour)) clock.issued) else none := by
  obtain ⟨cookieValid, cookie, powValid, challenge, hcookie, hgen, hpow, rfl⟩ := cookiePowGate_retry h
  refine ⟨cookie, hgen, ?_, ?_, ?_⟩
  · intro hvalid
    rw [if_pos ((checkCookie_gate hcookie).2 hvalid)]
  · intro hvalid
    rw [if_neg (mt (checkCookie_gate hcookie).1 hvalid)]
  · show challenge = _
    by_cases hdiff : 0 < difficulty
    · obtain ⟨valid, -, hok⟩ :=
        @checkPow_gate macs master ip clock o hello difficulty hdiff (checkPow_ok_past hdiff hpow)
      rw [hpow] at hok
      cases hok
      cases hello.powSolution with
      | none => simp [hdiff]
      | some => simp
    · rw [checkPow, if_neg hdiff] at hpow
      cases hpow
      rw [if_neg (fun hboth => hdiff hboth.1)]

/-! ## The answer -/

/-- `sol` solves the challenge. -/
def Solves (macs : CookieMacs) (challenge : PoWChallenge) (sol : PoWSolution) : Prop :=
  sol.nonce = challenge.nonce ∧
    checkLeadingZeros (computeBlake3Hash macs challenge.nonce sol.solution) challenge.difficulty = true

theorem solves_of_solveFrom {turns : Nat}
    {solution : UInt64} (h : solveFrom macs challenge turns solution = some sol) :
    Solves macs challenge sol := by
  induction turns generalizing solution with
  | zero => cases h
  | succ turns ih =>
    rw [solveFrom] at h
    split at h
    · rename_i hzeros
      cases h
      exact ⟨rfl, hzeros⟩
    · exact ih h

theorem solves_of_solve
    (h : solve macs challenge = some sol) : Solves macs challenge sol := solves_of_solveFrom h

/-- The hello with what the retry supplied: its cookie, and a solution of its challenge. -/
def answer (hello : ClientHello) (req : HelloRetryRequest) (sol : PoWSolution) : ClientHello :=
  { hello with
    cookie := req.cookie.or hello.cookie
    powSolution := if req.challenge.isSome then some sol else hello.powSolution }

/-- The readings of one call follow each other, and less than a cookie bucket passes between two that
are put together. -/
structure GateClock.InOrder (clock : GateClock) : Prop where
  validate : Soon clock.validateBucket clock.validateHour
  generateHour : clock.validateHour.nanos ≤ clock.generateHour.nanos
  generate : Soon clock.generateHour clock.generateBucket
  powHour : clock.generateBucket.nanos ≤ clock.powHour.nanos
  verified : ∀ secret, clock.powHour.nanos ≤ (clock.verified secret).nanos
  issued : Soon clock.powHour clock.issued

/-- The call at `clock'` comes after that at `clock` and within the validity times: the new cookie is
in its bucket or the next, the new challenge is not older than two minutes, and what the hello had
that was valid still is. -/
structure InTime (macs : CookieMacs) (master : Bytes) (ip : IpAddr) (hello : ClientHello)
    (difficulty : UInt8) (clock clock' : GateClock) : Prop where
  inOrder : clock.InOrder
  inOrder' : clock'.InOrder
  generated_le : clock.generateBucket.nanos ≤ clock'.validateBucket.nanos
  issued_le : clock.issued.nanos ≤ clock'.validateBucket.nanos
  bucket : bucketOf clock'.validateBucket ≤ bucketOf clock.generateBucket + 1
  challenge : ∀ secret, secs (clock'.verified secret) ≤ secs clock.issued + powValidity
  cookie_kept : CookieValid macs master ip clock hello → CookieValid macs master ip clock' hello
  solution_kept : SolutionValid macs master ip clock hello difficulty →
    SolutionValid macs master ip clock' hello difficulty

theorem cookieValid_new
    (hgen : generateCookie macs master ip clock.generateHour clock.generateBucket = .ok cookie)
    (hlater : clock.generateBucket.nanos ≤ clock'.validateBucket.nanos) (hinOrder : clock.InOrder)
    (hinOrder' : clock'.InOrder)
    (hbucket : bucketOf clock'.validateBucket ≤ bucketOf clock.generateBucket + 1)
    (hcookie : hello.cookie = some cookie) : CookieValid macs master ip clock' hello := by
  obtain ⟨hpast, hpast', htag⟩ := generateCookie_ok hgen
  have hnonneg := hpast'.trans hlater
  obtain ⟨accepted, hok, hiff⟩ := validateCookie_of_nonneg hnonneg
    (hnonneg.trans hinOrder'.validate.1)
  have hmono : bucketOf clock.generateBucket ≤ bucketOf clock'.validateBucket := by
    unfold bucketOf secs cookieBucketSeconds nanosPerSecond
    omega
  obtain ⟨hge, hle⟩ := hour_le_of_bucket hpast hinOrder.generate hlater hinOrder'.validate hbucket
  refine ⟨cookie, hcookie, ?_⟩
  rw [hok, hiff.2 ⟨hourOf clock.generateHour, bucketOf clock.generateBucket, by omega, by omega, htag⟩]

theorem verify_new {secret clientId : Bytes} {issued now : SystemTime}
    (hlater : issued.nanos ≤ now.nanos) (hexpired : secs now ≤ secs issued + powValidity)
    (hsolves : Solves macs (newStateless macs difficulty clientId secret issued) sol) :
    verify macs ⟨sol.nonce, difficulty⟩ sol clientId secret now = true := by
  obtain ⟨hnonce, hzeros⟩ := hsolves
  have hform : sol.nonce = leBytes 8 (secs issued) ++
      (macs.keyedBlake3 secret (leBytes 8 (secs issued) ++ clientId)).take 24 := by
    rw [hnonce, newStateless, sinceEpoch_getD]
  have htake : sol.nonce.take 8 = leBytes 8 (secs issued) := by
    rw [hform, take_left' (leBytes_length _ _)]
  have hdrop : sol.nonce.drop 8 =
      (macs.keyedBlake3 secret (leBytes 8 (secs issued) ++ clientId)).take 24 := by
    rw [hform, drop_left' (leBytes_length _ _)]
  have hlt := secs_lt issued
  have hread : leNat (leBytes 8 (secs issued)) = secs issued := leNat_leBytes (by omega)
  have hmono : secs issued ≤ secs now := by
    unfold secs nanosPerSecond
    omega
  unfold verify
  rw [if_neg (by simp)]
  simp only [htake, hdrop, take_take, hread, sinceEpoch_getD, Nat.min_self]
  rw [if_neg (by simp), if_neg ?_]
  · rw [← hnonce] at hzeros
    exact hzeros
  · unfold powValidity at *
    simp only [Bool.or_eq_true, decide_eq_true_eq]
    omega

theorem solutionValid_new (hpast : 0 ≤ clock.powHour.nanos)
    (hinOrder : clock.InOrder) (hinOrder' : clock'.InOrder)
    (hlater : clock.issued.nanos ≤ clock'.validateBucket.nanos)
    (hexpired : ∀ secret, secs (clock'.verified secret) ≤ secs clock.issued + powValidity)
    (hsolves : Solves macs (newStateless macs difficulty (toText ip)
      (deriveSessionSecretForHour macs master (hourOf clock.powHour)) clock.issued) sol)
    (hsol : hello.powSolution = some sol) :
    SolutionValid macs master ip clock' hello difficulty := by
  obtain ⟨hissued, hsoon⟩ := hinOrder.issued
  have hvalidate := hinOrder'.validate.1
  have hgenerate := hinOrder'.generateHour
  have hgenerated := hinOrder'.generate.1
  have hpow := hinOrder'.powHour
  have hverified := hinOrder'.verified (deriveSessionSecretForHour macs master (hourOf clock.powHour))
  have hage := hexpired (deriveSessionSecretForHour macs master (hourOf clock.powHour))
  refine ⟨sol, hourOf clock.powHour, hsol, ?_, verify_new (by omega) (hexpired _) hsolves⟩
  unfold hourOf secs secretRotationSeconds powValidity cookieBucketSeconds nanosPerSecond at *
  omega

/-- The retry says what is missing. -/
structure Says (macs : CookieMacs) (master : Bytes) (ip : IpAddr) (clock : GateClock)
    (hello : ClientHello) (difficulty : UInt8) (req : HelloRetryRequest) : Prop where
  cookie : req.cookie.isSome ↔ ¬CookieValid macs master ip clock hello
  cookie_new : ∀ cookie, req.cookie = some cookie →
    generateCookie macs master ip clock.generateHour clock.generateBucket = .ok cookie
  challenge : req.challenge.isSome ↔
    0 < difficulty ∧ ¬SolutionValid macs master ip clock hello difficulty
  challenge_new : ∀ challenge, req.challenge = some challenge →
    challenge = newStateless macs difficulty (toText ip)
      (deriveSessionSecretForHour macs master (hourOf clock.powHour)) clock.issued

def Clears (macs : CookieMacs) (master : Bytes) (ip : IpAddr) (clock : GateClock)
    (hello : ClientHello) (difficulty : UInt8) (req : HelloRetryRequest) : Prop :=
  ∀ (clock' : GateClock) (o' : Outcomes) (bypass' : Bool) (sol : PoWSolution),
    InTime macs master ip hello difficulty clock clock' →
    (∀ challenge, req.challenge = some challenge → Solves macs challenge sol) →
    cookiePowGate (gateOutcomes macs master ip clock' o') (answer hello req sol) difficulty bypass' =
      .ok ()

theorem cookiePowGate_of_valid (hinOrder : clock.InOrder) (hpast : 0 ≤ clock.validateBucket.nanos)
    (hcookie : CookieValid macs master ip clock hello)
    (hsolution : 0 < difficulty → SolutionValid macs master ip clock hello difficulty) :
    cookiePowGate (gateOutcomes macs master ip clock o) hello difficulty bypass = .ok () := by
  have hvalidate := hinOrder.validate.1
  have hgenerate := hinOrder.generateHour
  have hgenerated := hinOrder.generate.1
  have hpow := hinOrder.powHour
  have hgen : generateCookie macs master ip clock.generateHour clock.generateBucket =
      .ok (generateCookieForBucket macs ip
        (deriveSessionSecretForHour macs master (hourOf clock.generateHour))
        (bucketOf clock.generateBucket)) := by
    rw [generateCookie, currentSecretHour_of_nonneg (by omega),
      currentCookieBucket_of_nonneg (by omega)]
    rfl
  by_cases hdiff : 0 < difficulty
  · obtain ⟨valid, hvalid, hok⟩ :=
      @checkPow_gate macs master ip clock o hello difficulty hdiff (by omega)
    rw [hvalid.2 (hsolution hdiff)] at hok
    exact cookiePowGate_ok (checkCookie_of_valid hcookie) hgen hok
  · have hok : checkPow (gateOutcomes macs master ip clock o) hello difficulty = .ok (true, none) := by
      rw [checkPow, if_neg hdiff]
    exact cookiePowGate_ok (checkCookie_of_valid hcookie) hgen hok

theorem clears_of_not_stale
    (hretry : cookiePowGate (gateOutcomes macs master ip clock o) hello difficulty bypass =
      .error (.retry req))
    (hstale : 0 < difficulty → hello.powSolution.isSome →
      SolutionValid macs master ip clock hello difficulty) :
    Clears macs master ip clock hello difficulty req := by
  intro clock' o' bypass' sol htime hsolves
  obtain ⟨cookie, hgen, hkept, hnew, hchallenge⟩ := cookiePowGate_retry_fields hretry
  obtain ⟨hpast, hpast', -⟩ := generateCookie_ok hgen
  apply cookiePowGate_of_valid htime.inOrder' (hpast'.trans htime.generated_le)
  · by_cases hvalid : CookieValid macs master ip clock hello
    · obtain ⟨kept, hcookie, hok⟩ := htime.cookie_kept hvalid
      refine ⟨kept, ?_, hok⟩
      show req.cookie.or hello.cookie = _
      rw [hkept hvalid]
      exact hcookie
    · apply cookieValid_new hgen htime.generated_le htime.inOrder htime.inOrder' htime.bucket
      show req.cookie.or hello.cookie = _
      rw [hnew hvalid]
      rfl
  · intro hdiff
    cases hsol : hello.powSolution with
    | none =>
      rw [if_pos ⟨hdiff, hsol⟩] at hchallenge
      apply solutionValid_new (hpast'.trans htime.inOrder.powHour) htime.inOrder htime.inOrder'
        htime.issued_le htime.challenge (hsolves _ hchallenge)
      show (if req.challenge.isSome then some sol else hello.powSolution) = _
      rw [hchallenge]
      rfl
    | some =>
      rw [if_neg (by simp [hsol])] at hchallenge
      have hvalid := htime.solution_kept (hstale hdiff (by rw [hsol]; rfl))
      obtain ⟨old', hour, hold, hhour, hverify⟩ := hvalid
      refine ⟨old', hour, ?_, hhour, hverify⟩
      show (if req.challenge.isSome then some sol else hello.powSolution) = _
      rw [hchallenge]
      exact hold

/-- **Retries.** A retry says what is missing, and the client that supplies it passes, unless the
hello came with a solution that is not valid where one is demanded: to that the gate sends no
challenge. -/
theorem retry_iff (macs : CookieMacs) (master : Bytes) (ip : IpAddr) (clock : GateClock)
    (o : Outcomes) (hello : ClientHello) (difficulty : UInt8) (bypass : Bool)
    (req : HelloRetryRequest)
    (hretry : cookiePowGate (gateOutcomes macs master ip clock o) hello difficulty bypass =
      .error (.retry req)) :
    (Says macs master ip clock hello difficulty req ∧
        Clears macs master ip clock hello difficulty req) ↔
      difficulty = 0 ∨ hello.powSolution = none ∨
        SolutionValid macs master ip clock hello difficulty := by
  obtain ⟨cookie, hgen, hkept, hnew, hchallenge⟩ := cookiePowGate_retry_fields hretry
  have hpos : 0 < difficulty ↔ difficulty ≠ 0 := UInt8.pos_iff_ne_zero
  constructor
  · intro hboth
    obtain ⟨hsaid, -⟩ := hboth
    by_contra hstale
    obtain ⟨hdiff, hsol, hvalid⟩ : difficulty ≠ 0 ∧ hello.powSolution ≠ none ∧
        ¬SolutionValid macs master ip clock hello difficulty := by
      simpa only [not_or] using hstale
    have hsome := hsaid.challenge.2 ⟨hpos.2 hdiff, hvalid⟩
    rw [hchallenge, if_neg (fun h => hsol h.2)] at hsome
    cases hsome
  · intro hcond
    refine ⟨⟨?_, ?_, ?_, ?_⟩, clears_of_not_stale hretry ?_⟩
    · grind
    · grind
    · rw [hchallenge]
      by_cases hsol : hello.powSolution = none
      · have hnot : ¬SolutionValid macs master ip clock hello difficulty := by
          intro hvalid
          obtain ⟨sol, hour, hsome, -⟩ := hvalid
          rw [hsol] at hsome
          cases hsome
        simp [hsol, hnot]
      · grind
    · simp [*]
    · grind

/-- Every reading of one call at the same time. -/
def GateClock.still (now : SystemTime) : GateClock where
  validateBucket := now
  validateHour := now
  generateHour := now
  generateBucket := now
  powHour := now
  verified _ := now
  issued := now

/-- A first hello at a positive difficulty is sent a cookie and a challenge, and its answer passes. -/
theorem retry_first_hello :
    ∃ req, cookiePowGate (gateOutcomes plainMacs [7] localhost
          (.still hourEnd) (plainOutcomes []))
        { firstHello with cookie := none } 1 false = .error (.retry req) ∧
      Says plainMacs [7] localhost (.still hourEnd)
        { firstHello with cookie := none } 1 req ∧
      Clears plainMacs [7] localhost (.still hourEnd)
        { firstHello with cookie := none } 1 req := by
  obtain ⟨req, hreq⟩ : ∃ req, cookiePowGate (gateOutcomes plainMacs [7] localhost
      (.still hourEnd) (plainOutcomes [])) { firstHello with cookie := none } 1 false =
      .error (.retry req) := ⟨_, rfl⟩
  exact ⟨req, hreq, (retry_iff _ _ _ _ _ _ _ _ _ hreq).2 (.inr (.inl rfl))⟩

/-- A hello with a cookie that is valid and a solution that is not is told nothing. -/
theorem stale_solution_told_nothing :
    ∃ cookie hello, generateCookie plainMacs [7] localhost hourEnd
        hourEnd = .ok cookie ∧
      hello = { firstHello with cookie := some cookie, powSolution := some ⟨List.replicate 32 0, 0⟩ } ∧
      cookiePowGate (gateOutcomes plainMacs [7] localhost
          (.still hourEnd) (plainOutcomes [])) hello 1 false =
        .error (.retry ⟨none, none⟩) ∧
      ¬Says plainMacs [7] localhost (.still hourEnd) hello 1
        ⟨none, none⟩ := by
  refine ⟨_, _, rfl, rfl, by decide, ?_⟩
  intro hsaid
  have hsome := hsaid.challenge.2 ⟨by decide, ?_⟩
  · cases hsome
  · intro hvalid
    obtain ⟨sol, hour, hsol, hhour, hverify⟩ := hvalid
    cases hsol
    rcases hhour with rfl | rfl
    · exact absurd hverify (by decide)
    · exact absurd hverify (by decide)

end PhantomProtocol.Handshake
