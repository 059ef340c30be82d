import PhantomProtocol.Lib.IpText
import PhantomProtocol.Transport.Handshake

/-!
# Cookies and proofs of work

The stateless half of the handshake gate: `generate_cookie`, `validate_cookie` and the secrets they
use (`transport::handshake`), and `PoWChallenge::new_stateless`, `verify` and `solve`
(`crypto::pow`). Each reading of the clock is an argument.

HKDF, HMAC and BLAKE3 are parameters. HKDF-Expand fails only on outputs longer than 255 blocks and
HMAC takes keys of every length, so that the two internal errors of the source do not occur.
-/

namespace PhantomProtocol

open IpText (IpAddr toText)

def nanosPerSecond : Nat := 1000000000

/-- `SystemTime` in nanoseconds from `UNIX_EPOCH`; its seconds are an `i64`. -/
structure SystemTime where
  nanos : Int
  lt : nanos < 2 ^ 63 * nanosPerSecond
deriving DecidableEq

/-- `duration_since(UNIX_EPOCH)` in whole seconds, if the time is not before it. -/
def SystemTime.sinceEpoch (t : SystemTime) : Option Nat :=
  if t.nanos < 0 then none else some (t.nanos.toNat / nanosPerSecond)

/-- The primitives. -/
structure CookieMacs where
  /-- `Hkdf::<Sha256>::new(None, master)` expanded to 32 bytes under an info. -/
  hkdf : Bytes → Bytes → Bytes
  /-- `Hmac::<Sha256>` of a message under a key. -/
  hmac : Bytes → Bytes → Bytes
  /-- `Hasher::new_keyed`. -/
  keyedBlake3 : Bytes → Bytes → Bytes
  blake3 : Bytes → Bytes

namespace Handshake

def cookieBucketSeconds : Nat := 300
def secretRotationSeconds : Nat := 3600

def currentCookieBucket (now : SystemTime) : Except HandshakeError Nat :=
  match now.sinceEpoch with
  | none => .error .clockBackwards
  | some secs => .ok (secs / cookieBucketSeconds)

def currentSecretHour (now : SystemTime) : Except HandshakeError Nat :=
  match now.sinceEpoch with
  | none => .error .clockBackwards
  | some secs => .ok (secs / secretRotationSeconds)

/-- `b"phantom-pow-cookie-v1"`. -/
def powCookieLabel : Bytes :=
  [0x70, 0x68, 0x61, 0x6e, 0x74, 0x6f, 0x6d, 0x2d, 0x70, 0x6f, 0x77, 0x2d, 0x63, 0x6f, 0x6f, 0x6b,
    0x69, 0x65, 0x2d, 0x76, 0x31]

section

variable (macs : CookieMacs) (master : Bytes) (ip : IpAddr)

def deriveSessionSecretForHour (hour : Nat) : Bytes :=
  macs.hkdf master (powCookieLabel ++ beBytes 8 hour)

def generateCookieForBucket (derivedSecret : Bytes) (bucket : Nat) : Bytes :=
  macs.hmac derivedSecret (toText ip ++ beBytes 8 bucket)

/-- `generate_cookie`. The hour is read first. -/
def generateCookie (hourAt bucketAt : SystemTime) : Except HandshakeError Bytes := do
  let hour ← currentSecretHour hourAt
  let derived := deriveSessionSecretForHour macs master hour
  let bucket ← currentCookieBucket bucketAt
  .ok (generateCookieForBucket macs ip derived bucket)

/-- `validate_cookie`. The bucket is read first. -/
def validateCookie (cookie : Bytes) (bucketAt hourAt : SystemTime) : Except HandshakeError Bool := do
  let bucket ← currentCookieBucket bucketAt
  let hour ← currentSecretHour hourAt
  let prevBucket := bucket - 1
  let prevHour := hour - 1
  let bucketCandidates := if bucket = prevBucket then [bucket, bucket] else [bucket, prevBucket]
  let hourCandidates := if hour = prevHour then [hour, hour] else [hour, prevHour]
  .ok (hourCandidates.any fun h =>
    let derived := deriveSessionSecretForHour macs master h
    bucketCandidates.any fun b => cookie == generateCookieForBucket macs ip derived b)

end

/-! ## Proof of work -/

/-- How long a challenge is valid, in seconds. -/
def powValidity : Nat := 120

section

variable (macs : CookieMacs)

def computeBlake3Hash (nonce : Bytes) (solution : UInt64) : Bytes :=
  macs.blake3 (nonce ++ leBytes 8 solution.toNat)

/-- The loop of `check_leading_zeros`. Its counter is a `u8`, which 32 zero bytes overflow. -/
def countZeros : Bytes → UInt8 → UInt8
  | [], zeros => zeros
  | byte :: rest, zeros =>
    if byte = 0 then countZeros rest (zeros + 8) else zeros + UInt8.ofNat (7 - byte.toNat.log2)

def checkLeadingZeros (hash : Bytes) (difficulty : UInt8) : Bool := difficulty ≤ countZeros hash 0

/-- `PoWChallenge::new_stateless`. A clock before the epoch reads as zero. -/
def newStateless (difficulty : UInt8) (clientId secret : Bytes) (now : SystemTime) : PoWChallenge :=
  let timestamp := now.sinceEpoch.getD 0
  let mac := macs.keyedBlake3 secret (leBytes 8 timestamp ++ clientId)
  ⟨leBytes 8 timestamp ++ mac.take 24, difficulty⟩

def verify (challenge : PoWChallenge) (solution : PoWSolution) (clientId secret : Bytes)
    (now : SystemTime) : Bool :=
  if challenge.nonce ≠ solution.nonce then false
  else
    let timestampBytes := challenge.nonce.take 8
    let timestamp := leNat timestampBytes
    let mac := macs.keyedBlake3 secret (timestampBytes ++ clientId)
    if (challenge.nonce.drop 8).take 24 ≠ mac.take 24 then false
    else
      let now := now.sinceEpoch.getD 0
      if now < timestamp || (timestamp + powValidity) % 2 ^ 64 < now then false
      else checkLeadingZeros (computeBlake3Hash macs challenge.nonce solution.solution)
        challenge.difficulty

/-- The loop of `solve_with_bound`, with the number of turns left. -/
def solveFrom (challenge : PoWChallenge) : Nat → UInt64 → Option PoWSolution
  | 0, _ => none
  | turns + 1, solution =>
    if checkLeadingZeros (computeBlake3Hash macs challenge.nonce solution) challenge.difficulty then
      some ⟨challenge.nonce, solution⟩
    else solveFrom challenge turns (solution + 1)

def maxSolveIterations : Nat := 2 ^ 32

def solveWithBound (challenge : PoWChallenge) (maxIters : UInt64) : Option PoWSolution :=
  solveFrom macs challenge maxIters.toNat 0

def solve (challenge : PoWChallenge) : Option PoWSolution :=
  solveFrom macs challenge maxSolveIterations 0

end

/-! ## The gate -/

/-- What the clock reads in one call of `cookie_pow_gate`. -/
structure GateClock where
  validateBucket : SystemTime
  validateHour : SystemTime
  generateHour : SystemTime
  generateBucket : SystemTime
  powHour : SystemTime
  /-- In the verification under an hour's secret. -/
  verified : Bytes → SystemTime
  /-- In `new_stateless`. -/
  issued : SystemTime

/-- The outcomes of a call from an address, with cookies and challenges as the server computes them. -/
def gateOutcomes (macs : CookieMacs) (master : Bytes) (ip : IpAddr) (clock : GateClock)
    (o : Outcomes) : Outcomes :=
  { o with
    validateCookie := fun cookie =>
      validateCookie macs master ip cookie clock.validateBucket clock.validateHour
    generateCookie := generateCookie macs master ip clock.generateHour clock.generateBucket
    currentSecretHour := currentSecretHour clock.powHour
    deriveSessionSecretForHour := fun hour => .ok (deriveSessionSecretForHour macs master hour)
    verify := fun challenge solution derived =>
      verify macs challenge solution (toText ip) derived (clock.verified derived)
    newStateless := fun difficulty derived =>
      newStateless macs difficulty (toText ip) derived clock.issued }

end Handshake

end PhantomProtocol
