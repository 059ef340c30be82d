import PhantomProtocol.Transport.Cookie

/-!
# How long a cookie is accepted

Two readings of the clock are combined in a table of two hours by two buckets. When the tags at hand
do not collide, a cookie is found in it for its own address only (`cookieRequest_injective`), and for
its own bucket and the next. The hour never decides: between the mint and the end of a check that
finds the bucket there are less than four buckets, and an hour has twelve (`hour_le_of_bucket`).
-/

namespace PhantomProtocol

open List

open IpText (IpAddr toText toText_injective)

/-- What a tag is computed from. -/
structure TagRequest where
  master : Bytes
  info : Bytes
  message : Bytes
deriving DecidableEq

namespace CookieMacs

variable (macs : CookieMacs)

def tag (q : TagRequest) : Bytes := macs.hmac (macs.hkdf q.master q.info) q.message

/-- No two of the requests have one tag. -/
def NoCollision (qs : List TagRequest) : Prop :=
  ∀ q ∈ qs, ∀ q' ∈ qs, macs.tag q = macs.tag q' → q = q'

instance (qs : List TagRequest) : Decidable (macs.NoCollision qs) :=
  inferInstanceAs (Decidable (∀ q ∈ qs, ∀ q' ∈ qs, _))

end CookieMacs

namespace Handshake

variable {macs : CookieMacs} {master master' cookie : Bytes} {ip ip' : IpAddr} {t : SystemTime}
  {check : Check}

/-! ## Readings of the clock -/

def secs (t : SystemTime) : Nat := t.nanos.toNat / nanosPerSecond

def bucketOf (t : SystemTime) : Nat := secs t / cookieBucketSeconds

def hourOf (t : SystemTime) : Nat := secs t / secretRotationSeconds

theorem secs_lt (t : SystemTime) : secs t < 2 ^ 63 := by
  have hlt := t.lt
  unfold secs nanosPerSecond at *
  omega

theorem bucketOf_lt (t : SystemTime) : bucketOf t < 256 ^ 8 := by
  have hlt := secs_lt t
  unfold bucketOf cookieBucketSeconds
  omega

theorem hourOf_lt (t : SystemTime) : hourOf t < 256 ^ 8 := by
  have hlt := secs_lt t
  unfold hourOf secretRotationSeconds
  omega

theorem sinceEpoch_of_nonneg (h : 0 ≤ t.nanos) : t.sinceEpoch = some (secs t) := by
  rw [SystemTime.sinceEpoch, if_neg (by omega), secs]

theorem sinceEpoch_getD (t : SystemTime) : t.sinceEpoch.getD 0 = secs t := by
  unfold SystemTime.sinceEpoch secs
  split
  · rw [Int.toNat_of_nonpos (by omega)]
    rfl
  · rfl

theorem currentCookieBucket_of_nonneg (h : 0 ≤ t.nanos) :
    currentCookieBucket t = .ok (bucketOf t) := by
  rw [currentCookieBucket, sinceEpoch_of_nonneg h]
  rfl

theorem currentSecretHour_of_nonneg (h : 0 ≤ t.nanos) : currentSecretHour t = .ok (hourOf t) := by
  rw [currentSecretHour, sinceEpoch_of_nonneg h]
  rfl

theorem currentCookieBucket_ok {bucket : Nat}
    (h : currentCookieBucket t = .ok bucket) : 0 ≤ t.nanos := by
  unfold currentCookieBucket SystemTime.sinceEpoch at h
  split at h
  · cases h
  · simp_all

theorem currentSecretHour_ok {hour : Nat} (h : currentSecretHour t = .ok hour) : 0 ≤ t.nanos := by
  unfold currentSecretHour SystemTime.sinceEpoch at h
  split at h
  · cases h
  · simp_all

/-- Less than a cookie bucket passes from `a` to `b`. -/
def Soon (a b : SystemTime) : Prop :=
  a.nanos ≤ b.nanos ∧ b.nanos < a.nanos + cookieBucketSeconds * nanosPerSecond

/-- **Rotation.** From the reading of the hour at the mint to that at the check less than an hour
passes, if the buckets read between them are the same or follow each other. -/
theorem hour_le_of_bucket {hourAt bucketAt bucketAt' hourAt' : SystemTime} (hpast : 0 ≤ hourAt.nanos)
    (hmint : Soon hourAt bucketAt) (hlater : bucketAt.nanos ≤ bucketAt'.nanos)
    (hcheck : Soon bucketAt' hourAt') (hbucket : bucketOf bucketAt' ≤ bucketOf bucketAt + 1) :
    hourOf hourAt ≤ hourOf hourAt' ∧ hourOf hourAt' ≤ hourOf hourAt + 1 := by
  obtain ⟨h1, h2⟩ := hmint
  obtain ⟨h3, h4⟩ := hcheck
  unfold hourOf bucketOf secs secretRotationSeconds cookieBucketSeconds nanosPerSecond at *
  omega

/-! ## Minting and checking -/

theorem generateCookie_ok {hourAt bucketAt : SystemTime}
    (h : generateCookie macs master ip hourAt bucketAt = .ok cookie) :
    0 ≤ hourAt.nanos ∧ 0 ≤ bucketAt.nanos ∧
      cookie = generateCookieForBucket macs ip
        (deriveSessionSecretForHour macs master (hourOf hourAt)) (bucketOf bucketAt) := by
  unfold generateCookie at h
  cases hhour : currentSecretHour hourAt with
  | error =>
    rw [hhour] at h
    cases h
  | ok =>
    cases hbucket : currentCookieBucket bucketAt with
    | error =>
      rw [hhour, hbucket] at h
      cases h
    | ok =>
      have hpast := currentSecretHour_ok hhour
      have hpast' := currentCookieBucket_ok hbucket
      rw [currentSecretHour_of_nonneg hpast] at h
      rw [currentCookieBucket_of_nonneg hpast'] at h
      exact ⟨hpast, hpast', (Except.ok.inj h).symm⟩

theorem validateCookie_of_nonneg {bucketAt hourAt : SystemTime} (hbucket : 0 ≤ bucketAt.nanos)
    (hhour : 0 ≤ hourAt.nanos) :
    ∃ accepted, validateCookie macs master ip cookie bucketAt hourAt = .ok accepted ∧
      (accepted = true ↔ ∃ h b, (h = hourOf hourAt ∨ h = hourOf hourAt - 1) ∧
        (b = bucketOf bucketAt ∨ b = bucketOf bucketAt - 1) ∧
        cookie = generateCookieForBucket macs ip (deriveSessionSecretForHour macs master h) b) := by
  unfold validateCookie
  rw [currentCookieBucket_of_nonneg hbucket, currentSecretHour_of_nonneg hhour]
  refine ⟨_, rfl, ?_⟩
  have hpair : ∀ n x : Nat, x ∈ (if n = n - 1 then [n, n] else [n, n - 1]) ↔ x = n ∨ x = n - 1 := by
    intro n x
    split
    · rename_i heq
      rw [← heq]
      simp
    · simp
  simp only [any_eq_true, beq_iff_eq, hpair]
  constructor
  · rintro ⟨h, hh, b, hb, heq⟩
    exact ⟨h, b, hh, hb, heq⟩
  · rintro ⟨h, b, hh, hb, heq⟩
    exact ⟨h, hh, b, hb, heq⟩

def cookieRequest (master : Bytes) (ip : IpAddr) (hour bucket : Nat) : TagRequest :=
  ⟨master, powCookieLabel ++ beBytes 8 hour, toText ip ++ beBytes 8 bucket⟩

/-- The text of the address and the bucket are not separated, but the bucket has eight bytes. -/
theorem cookieRequest_injective {h h' b b' : Nat}
    (hh : h < 256 ^ 8) (hh' : h' < 256 ^ 8) (hb : b < 256 ^ 8) (hb' : b' < 256 ^ 8)
    (heq : cookieRequest master ip h b = cookieRequest master' ip' h' b') :
    master = master' ∧ h = h' ∧ ip = ip' ∧ b = b' := by
  obtain ⟨hmaster, hinfo, hmessage⟩ := TagRequest.mk.inj heq
  obtain ⟨htext, hbucket⟩ := append_inj' hmessage (by simp)
  exact ⟨hmaster, beBytes_injective hh hh' (append_cancel_left hinfo),
    toText_injective htext, beBytes_injective hb hb' hbucket⟩

/-- A call of `generate_cookie`, with its two readings of the clock. -/
structure Mint where
  ip : IpAddr
  hourAt : SystemTime
  bucketAt : SystemTime
  soon : Soon hourAt bucketAt

def Mint.generate (macs : CookieMacs) (master : Bytes) (mint : Mint) : Except HandshakeError Bytes :=
  generateCookie macs master mint.ip mint.hourAt mint.bucketAt

def Mint.request (master : Bytes) (mint : Mint) : TagRequest :=
  cookieRequest master mint.ip (hourOf mint.hourAt) (bucketOf mint.bucketAt)

/-- A call of `validate_cookie`, with its two readings of the clock. -/
structure Check where
  ip : IpAddr
  bucketAt : SystemTime
  hourAt : SystemTime
  soon : Soon bucketAt hourAt

def Check.accepts (macs : CookieMacs) (master : Bytes) (check : Check) (cookie : Bytes) :
    Except HandshakeError Bool :=
  validateCookie macs master check.ip cookie check.bucketAt check.hourAt

/-- The table: the hour read and the one before it, and so the bucket. -/
def Check.requests (master : Bytes) (check : Check) : List TagRequest :=
  [hourOf check.hourAt, hourOf check.hourAt - 1].flatMap fun h =>
    [bucketOf check.bucketAt, bucketOf check.bucketAt - 1].map (cookieRequest master check.ip h)

/-- Whoever presents `cookie` does not forge: if it is a tag under one of the secrets derived from
`master`, then it was minted. -/
def NotForged (macs : CookieMacs) (master : Bytes) (mints : List Mint) (cookie : Bytes) : Prop :=
  ∀ hour message, cookie = macs.hmac (deriveSessionSecretForHour macs master hour) message →
    ∃ mint ∈ mints, mint.generate macs master = .ok cookie

theorem Check.mem_requests {q : TagRequest} : q ∈ check.requests master ↔
    ∃ h b, (h = hourOf check.hourAt ∨ h = hourOf check.hourAt - 1) ∧
      (b = bucketOf check.bucketAt ∨ b = bucketOf check.bucketAt - 1) ∧
      q = cookieRequest master check.ip h b := by
  simp only [requests, mem_flatMap, mem_map, mem_cons, not_mem_nil, or_false]
  constructor
  · rintro ⟨h, hh, b, hb, rfl⟩
    exact ⟨h, b, hh, hb, rfl⟩
  · rintro ⟨h, b, hh, hb, rfl⟩
    exact ⟨h, hh, b, hb, rfl⟩

theorem Check.accepts_iff (hpast : 0 ≤ check.bucketAt.nanos) :
    ∃ accepted, check.accepts macs master cookie = .ok accepted ∧
      (accepted = true ↔ ∃ q ∈ check.requests master, cookie = macs.tag q) := by
  obtain ⟨accepted, hok, hiff⟩ := validateCookie_of_nonneg hpast (hpast.trans check.soon.1)
  refine ⟨accepted, hok, hiff.trans ⟨?_, ?_⟩⟩
  · rintro ⟨h, b, hh, hb, htag⟩
    exact ⟨_, mem_requests.2 ⟨h, b, hh, hb, rfl⟩, htag⟩
  · rintro ⟨q, hq, htag⟩
    obtain ⟨h, b, hh, hb, rfl⟩ := mem_requests.1 hq
    exact ⟨h, b, hh, hb, htag⟩

theorem Check.table_of_accepts (h : check.accepts macs master cookie = .ok true) :
    ∃ q ∈ check.requests master, cookie = macs.tag q := by
  have hnonneg : 0 ≤ check.bucketAt.nanos := by
    cases hbucket : currentCookieBucket check.bucketAt with
    | error =>
      rw [accepts, validateCookie, hbucket] at h
      cases h
    | ok => exact currentCookieBucket_ok hbucket
  obtain ⟨accepted, hok, hiff⟩ := check.accepts_iff hnonneg
  rw [hok] at h
  exact hiff.1 (Except.ok.inj h)

/-- A tag of the table that is a minted one is for the master secret, the address and the bucket of
the mint. -/
theorem Check.of_tag_eq {mint : Mint} {q : TagRequest} (hq : q ∈ check.requests master)
    (hfree : macs.NoCollision (mint.request master' :: check.requests master))
    (htag : macs.tag (mint.request master') = macs.tag q) :
    master' = master ∧ mint.ip = check.ip ∧
      (bucketOf mint.bucketAt = bucketOf check.bucketAt ∨
        bucketOf mint.bucketAt = bucketOf check.bucketAt - 1) := by
  have heq := hfree _ mem_cons_self q (mem_cons_of_mem _ hq) htag
  obtain ⟨h, b, hh, hb, rfl⟩ := mem_requests.1 hq
  have hhour := hourOf_lt check.hourAt
  have hbucket := bucketOf_lt check.bucketAt
  obtain ⟨hmaster, -, hip, hsame⟩ := cookieRequest_injective (hourOf_lt _) (by omega)
    (bucketOf_lt _) (by omega) heq
  exact ⟨hmaster, hip, hsame ▸ hb⟩

theorem accepts_minted {mint : Mint} (hmint : mint.generate macs master = .ok cookie)
    (hlater : mint.bucketAt.nanos ≤ check.bucketAt.nanos)
    (hfree : macs.NoCollision (mint.request master :: check.requests master)) :
    ∃ accepted, check.accepts macs master cookie = .ok accepted ∧
      (accepted = true ↔ check.ip = mint.ip ∧
        (bucketOf check.bucketAt = bucketOf mint.bucketAt ∨
          bucketOf check.bucketAt = bucketOf mint.bucketAt + 1)) := by
  obtain ⟨hpast, hpast', rfl⟩ := generateCookie_ok hmint
  obtain ⟨accepted, hok, hiff⟩ := check.accepts_iff (hpast'.trans hlater)
  refine ⟨accepted, hok, hiff.trans ⟨?_, ?_⟩⟩
  · rintro ⟨q, hq, htag⟩
    obtain ⟨-, hip, hsame⟩ := check.of_tag_eq hq hfree htag
    have hmono : bucketOf mint.bucketAt ≤ bucketOf check.bucketAt := by
      unfold bucketOf secs cookieBucketSeconds nanosPerSecond
      omega
    exact ⟨hip.symm, by omega⟩
  · rintro ⟨hip, hbucket⟩
    obtain ⟨hge, hle⟩ := hour_le_of_bucket hpast mint.soon hlater check.soon (by omega)
    exact ⟨mint.request master, Check.mem_requests.2 ⟨hourOf mint.hourAt, bucketOf mint.bucketAt,
      by omega, by omega, by rw [hip]; rfl⟩, rfl⟩

/-- **When a cookie is accepted.** Minted for an address, it is accepted for that address while the
current bucket is the one of the mint or the next; and what was not minted under this master secret
is not accepted. Of the primitives, that the tag minted and the four checked do not collide. -/
theorem cookie_lifetime (macs : CookieMacs) (master : Bytes) :
    (∀ (mint : Mint) (check : Check) (cookie : Bytes), mint.generate macs master = .ok cookie →
      mint.bucketAt.nanos ≤ check.bucketAt.nanos →
      macs.NoCollision (mint.request master :: check.requests master) →
      ∃ accepted, check.accepts macs master cookie = .ok accepted ∧
        (accepted = true ↔ check.ip = mint.ip ∧
          (bucketOf check.bucketAt = bucketOf mint.bucketAt ∨
            bucketOf check.bucketAt = bucketOf mint.bucketAt + 1))) ∧
    (∀ (mints : List Mint) (check : Check) (cookie : Bytes), NotForged macs master mints cookie →
      check.accepts macs master cookie = .ok true →
      ∃ mint ∈ mints, mint.generate macs master = .ok cookie) ∧
    ∀ (master' : Bytes) (mint : Mint) (check : Check) (cookie : Bytes), master' ≠ master →
      macs.NoCollision (mint.request master' :: check.requests master) →
      mint.generate macs master' = .ok cookie → check.accepts macs master cookie ≠ .ok true := by
  refine ⟨fun mint check cookie hmint hlater hfree => accepts_minted hmint hlater hfree, ?_, ?_⟩
  · intro mints check cookie hforged haccepts
    obtain ⟨q, hq, hcookie⟩ := Check.table_of_accepts haccepts
    obtain ⟨h, b, -, -, rfl⟩ := Check.mem_requests.1 hq
    exact hforged h _ hcookie
  · intro master' mint check cookie hne hfree hmint haccepts
    obtain ⟨q, hq, hcookie⟩ := Check.table_of_accepts haccepts
    obtain ⟨-, -, rfl⟩ := generateCookie_ok hmint
    exact hne (check.of_tag_eq hq hfree hcookie).1

/-- Primitives with outputs of 32 bytes, by cutting off: the end of the message comes first. The work
for a nonce is done when the first byte of the solution is three. -/
def plainMacs : CookieMacs where
  hkdf k i := (i.reverse ++ k).take 32
  hmac k m := (m.reverse ++ k).take 32
  keyedBlake3 k m := (m.reverse ++ k).take 32
  blake3 m := ((m.drop 32 ++ m).map (· - 3)).take 32

def localhost : IpAddr := .v4 #v[127, 0, 0, 1]

/-- The last second of an hour. -/
def hourEnd : SystemTime := ⟨3599000000000, by decide⟩

/-- The first second of the next. -/
def nextHour : SystemTime := ⟨3600000000000, by decide⟩

def lateMint : Mint := ⟨localhost, hourEnd, hourEnd, by decide, by decide⟩

def earlyCheck : Check := ⟨localhost, nextHour, nextHour, by decide, by decide⟩

theorem cookie_lifetime_rotation :
    let master := List.replicate 32 7
    plainMacs.NoCollision (lateMint.request master :: earlyCheck.requests master) ∧
      ∃ cookie, cookie.length = 32 ∧ lateMint.generate plainMacs master = .ok cookie ∧
        earlyCheck.accepts plainMacs master cookie = .ok true := by
  intro master
  have hfree : plainMacs.NoCollision (lateMint.request master :: earlyCheck.requests master) := by
    decide +kernel
  obtain ⟨cookie, hlen, hcookie⟩ : ∃ cookie, cookie.length = 32 ∧
      lateMint.generate plainMacs master = .ok cookie := ⟨_, by decide, rfl⟩
  obtain ⟨hminted, -⟩ := cookie_lifetime plainMacs master
  obtain ⟨accepted, hok, hiff⟩ := hminted lateMint earlyCheck cookie hcookie (by decide) hfree
  refine ⟨hfree, cookie, hlen, hcookie, ?_⟩
  rw [hok, hiff.2 ⟨rfl, .inr (by decide)⟩]

end Handshake

end PhantomProtocol
