import PhantomProtocol.Transport.Rto

/-!
# The walk over a name's addresses

`walk_candidate_addresses` of `api/session.rs`, with the functions it decides by. The walk waits at
two places, for a socket to open and in its `select!`. What runs between them is one step here: the
environment says which wait ends and how, and what the clock reads. A session is named by the
candidate it is built on.
-/

namespace PhantomProtocol

/-- `CoreError`, as a socket or `await_ready` gives it. -/
inductive ConnectError where
  | networkError (message : String)
  | serializationError (message : String)
  | configError (message : String)
  | cryptoError (message : String)
  | validationError (message : String)
  | keyDerivationError
  | rngError (message : String)
  | internalError (message : String)
  | handshakeError (message : String)
  | streamError (message : String)
  | connectionClosed
  | timeout
  | replayDetected (message : String)
  | cipherSuiteUnavailable (message : String)
  | serverIdentityMismatch
  | protocolRejected (message : String)
  | unsupported (message : String)
  | fipsSelfTestFailure (message : String)
deriving DecidableEq, Repr

/-- The `Display` of `CoreError`. -/
def ConnectError.display : ConnectError → String
  | .networkError m => "Network I/O Error: " ++ m
  | .serializationError m => "Serialization Error: " ++ m
  | .configError m => "Invalid Configuration: " ++ m
  | .cryptoError m => "Cryptography Error: " ++ m
  | .validationError m => "Validation Error: " ++ m
  | .keyDerivationError => "Key derivation failed"
  | .rngError m => "Random number generation failed: " ++ m
  | .internalError m => "Internal concurrency error: " ++ m
  | .handshakeError m => "Handshake failed: " ++ m
  | .streamError m => "Stream error: " ++ m
  | .connectionClosed => "Connection closed"
  | .timeout => "Timeout"
  | .replayDetected m => "replay protection rejected packet: " ++ m
  | .cipherSuiteUnavailable m => "cipher suite unavailable: " ++ m
  | .serverIdentityMismatch =>
    "server identity mismatch: the server's signing key did not match the pinned key"
  | .protocolRejected m => "protocol rejected by server: " ++ m
  | .unsupported m => "unsupported operation: " ++ m
  | .fipsSelfTestFailure m => "FIPS POST self-test failed: " ++ m

namespace AddressWalk

def candidateAttemptDelay : Nat := millis 250

/-! ## What the walk decides by -/

def refusalEndsTheWalk : ConnectError → Bool
  | .serverIdentityMismatch | .protocolRejected _ | .cipherSuiteUnavailable _ | .configError _
  | .fipsSelfTestFailure _ => true
  | .timeout | .networkError _ | .connectionClosed | .serializationError _ | .validationError _
  | .cryptoError _ | .handshakeError _ | .replayDetected _ | .streamError _ | .unsupported _
  | .keyDerivationError | .rngError _ | .internalError _ => false

def addressRoster {Addr : Type} [ToString Addr] (tried : List (Addr × ConnectError)) : String :=
  if tried.isEmpty then "no address was tried"
  else
    let each := tried.map fun r => toString r.1 ++ ": " ++ r.2.display
    toString tried.length ++ " address(es) tried — " ++ "; ".intercalate each

/-- `Attempt`, with what its `answered` flag reads. -/
structure Attempt where
  session : Nat
  answered : Bool
deriving DecidableEq, Repr

def anEarlierAddressIsStillAnswering (winner : Nat) (waiting : List (Option Attempt)) : Bool :=
  ((waiting.take winner).filterMap id).any (·.answered)

def mayContactTheNextAddress (next total : Nat) (verdictInHand : Bool)
    (waiting : List (Option Attempt)) : Bool :=
  next < total && !verdictInHand && !(waiting.filterMap id).any (·.answered)

def aRefusalIsTheAnswerNow (refuser : Nat) (waiting : List (Option Attempt)) : Bool :=
  (waiting.take refuser).all Option.isNone

inductive VerdictToActOn where
  | win
  | refusal
  | neither
deriving DecidableEq, Repr

def verdictToActOn : Option Nat → Option Nat → VerdictToActOn
  | some winner, some refuser => if winner < refuser then .win else .refusal
  | some _, none => .win
  | none, some _ => .refusal
  | none, none => .neither

/-! ## The walk -/

/-- How the walk returns. -/
inductive Answer where
  /-- A session whose handshake is not waited for. -/
  | unawaited (session : Nat)
  | completed (winner session : Nat)
  | refusal (refuser : Nat) (e : ConnectError)
  | failed (e : ConnectError)
deriving DecidableEq, Repr

/-- What the caller gets. -/
def Answer.result : Answer → Except ConnectError Nat
  | .unawaited session | .completed _ session => .ok session
  | .refusal _ e | .failed e => .error e

/-- What `tokio::time::timeout(share, session.await_ready())` gives. -/
inductive Outcome where
  | ready
  | failed (e : ConnectError)
  | elapsed
deriving DecidableEq, Repr

/-- Where the walk waits, or how it has returned. -/
inductive Control where
  /-- In `open(server).await`. -/
  | opening
  /-- In the `select!`, with the guard of its contact timer. -/
  | selecting (contactTimer : Bool)
  | returned (answer : Answer)
  /-- Returned in the arm of the budget deadline. -/
  | expired (answer : Answer)
deriving DecidableEq, Repr

/-- The arguments and variables of `walk_candidate_addresses`. -/
structure Walk (Addr : Type) where
  addr : String
  candidates : List Addr
  deadline : Nat
  tried : List (Addr × ConnectError)
  waiting : List (Option Attempt)
  /-- The candidates of the futures in `running`. -/
  running : List Nat
  next : Nat
  contactNextAt : Nat
  won : Option (Nat × Nat)
  refused : Option (Nat × ConnectError)

namespace Walk

variable {Addr : Type}

def verdict (w : Walk Addr) : VerdictToActOn :=
  verdictToActOn (w.won.map (·.1)) (w.refused.map (·.1))

def mayContact (w : Walk Addr) : Bool :=
  mayContactTheNextAddress w.next w.candidates.length (w.won.isSome || w.refused.isSome) w.waiting

/-- `waiting.iter().flatten().next()`. -/
def firstWaiting (w : Walk Addr) : Option Answer :=
  (w.waiting.filterMap id).head?.map fun attempt => .unawaited attempt.session

/-- The verdict a pass of the loop returns. -/
def settle (w : Walk Addr) : Option Answer :=
  if w.verdict = .win then
    match w.won with
    | some (i, session) =>
      if anEarlierAddressIsStillAnswering i w.waiting then none else some (.completed i session)
    | none => none
  else
    match w.refused with
    | some (i, e) => if aRefusalIsTheAnswerNow i w.waiting then some (.refusal i e) else none
    | none => none

/-- Every candidate contacted and one attempt left. -/
def lastLeft (w : Walk Addr) : Option Answer :=
  if w.candidates.length ≤ w.next ∧ w.won = none ∧ w.refused = none ∧ w.running.length = 1 then
    w.firstWaiting
  else none

/-- `waiting[at].take()`, and the future leaves `running`. -/
def take (w : Walk Addr) (i : Nat) : Walk Addr :=
  { w with waiting := w.waiting.set i none, running := w.running.erase i }

/-- A candidate that did not work, and the next one may be contacted at `now`. -/
def setAside (w : Walk Addr) (i : Nat) (e : ConnectError) (now : Nat) : Walk Addr :=
  { w with
    tried := w.tried ++ (w.candidates[i]?.map (·, e)).toList
    contactNextAt := now }

def contact (w : Walk Addr) (now : Nat) : Walk Addr :=
  { w with
    waiting := w.waiting.set w.next (some ⟨w.next, false⟩)
    running := w.running ++ [w.next]
    contactNextAt := now + candidateAttemptDelay
    next := w.next + 1 }

def skip (w : Walk Addr) (e : ConnectError) (now : Nat) : Walk Addr :=
  { w.setAside w.next e now with next := w.next + 1 }

/-- The arm of `running.next()`. -/
def finish (w : Walk Addr) (i : Nat) (outcome : Outcome) (now : Nat) : Walk Addr :=
  let finished := w.waiting[i]?.join
  let w := w.take i
  match outcome with
  | .ready =>
    match finished with
    | some attempt =>
      if w.won.all (fun held => i < held.1) then { w with won := some (i, attempt.session) }
      else w
    | none => w
  | .failed e =>
    if refusalEndsTheWalk e then
      if w.refused.all (fun held => i < held.1) then { w with refused := some (i, e) } else w
    else w.setAside i e now
  | .elapsed => w.setAside i .timeout now

def hear (w : Walk Addr) (i : Nat) : Walk Addr :=
  { w with waiting := w.waiting.modify i (Option.map fun a => { a with answered := true }) }

variable [ToString Addr]

def afterLoop (w : Walk Addr) : Answer :=
  match w.verdict, w.won, w.refused with
  | .win, some (i, session), _ => .completed i session
  | .refusal, _, some (i, e) => .refusal i e
  | _, _, _ =>
    .failed (.networkError ("no usable address for " ++ w.addr ++ ": " ++ addressRoster w.tried))

/-- A pass of the loop, from its head to where it waits or returns. -/
def pass (w : Walk Addr) (now : Nat) : Control :=
  if w.contactNextAt ≤ now ∧ w.mayContact then .opening
  else
    match w.settle with
    | some answer => .returned answer
    | none =>
      match w.lastLeft with
      | some answer => .returned answer
      | none =>
        if w.running = [] ∧ w.candidates.length ≤ w.next then .returned w.afterLoop
        else .selecting w.mayContact

/-- The arm of the deadline. -/
def expire (w : Walk Addr) : Answer :=
  match w.verdict, w.won, w.refused with
  | .win, some (i, session), _ => .completed i session
  | _, _, some (i, e) => .refusal i e
  | _, some (i, session), none => .completed i session
  | _, none, none => w.firstWaiting.getD w.afterLoop

end Walk

/-! ## Steps -/

/-- What has become of a candidate. -/
inductive Fate where
  | notContacted
  /-- Its socket could not be opened. -/
  | unopened
  | contacted (answered : Bool)
  | finished (outcome : Outcome)
deriving DecidableEq, Repr

/-- The walk, with the fate of each candidate, which the source does not keep. -/
structure State (Addr : Type) where
  walk : Walk Addr
  control : Control
  fate : Nat → Fate

/-- How a wait of the walk ends, with the clock where it sets `contact_next_at` and where it reads
it, or a candidate that is heard from. -/
inductive Event where
  | opened (setAt checkAt : Nat)
  | openFailed (e : ConnectError) (setAt checkAt : Nat)
  | finished (candidate : Nat) (outcome : Outcome) (setAt checkAt : Nat)
  | timer (now checkAt : Nat)
  | deadline (now : Nat)
  | answers (candidate : Nat)
deriving DecidableEq, Repr

def Fate.hear : Fate → Fate
  | .contacted _ => .contacted true
  | f => f

variable {Addr : Type} [ToString Addr]

/-- The walk at its first wait. -/
def start (addr : String) (candidates : List Addr) (budget now checkAt : Nat) : State Addr :=
  let w : Walk Addr :=
    { addr
      candidates
      deadline := now + budget
      tried := []
      waiting := List.replicate candidates.length none
      running := []
      next := 0
      contactNextAt := now
      won := none
      refused := none }
  { walk := w
    control :=
      if candidates.isEmpty then .returned (.failed (.networkError ("no address for " ++ addr)))
      else w.pass checkAt
    fate := fun _ => .notContacted }

def step (s : State Addr) : Event → Option (State Addr)
  | .opened setAt checkAt =>
    if s.control = .opening then
      let w := s.walk.contact setAt
      some
        { walk := w
          control :=
            if w.candidates.length = 1 then .returned (.unawaited s.walk.next)
            else w.pass checkAt
          fate := Function.update s.fate s.walk.next (.contacted false) }
    else none
  | .openFailed e setAt checkAt =>
    if s.control = .opening then
      let w := s.walk.skip e setAt
      some ⟨w, w.pass checkAt, Function.update s.fate s.walk.next .unopened⟩
    else none
  | .finished i outcome setAt checkAt =>
    match s.control with
    | .selecting _ =>
      if i ∈ s.walk.running then
        let w := s.walk.finish i outcome setAt
        some ⟨w, w.pass checkAt, Function.update s.fate i (.finished outcome)⟩
      else none
    | _ => none
  | .timer now checkAt =>
    if s.control = .selecting true ∧ s.walk.contactNextAt ≤ now then
      some { s with control := s.walk.pass checkAt }
    else none
  | .deadline now =>
    match s.control with
    | .selecting _ =>
      if s.walk.deadline ≤ now then some { s with control := .expired s.walk.expire } else none
    | _ => none
  | .answers i =>
    match s.control with
    | .opening | .selecting _ =>
      some ⟨s.walk.hear i, s.control, Function.update s.fate i (s.fate i).hear⟩
    | _ => none

end AddressWalk

end PhantomProtocol
