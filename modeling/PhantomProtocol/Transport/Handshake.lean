import PhantomProtocol.Lib.Run
import PhantomProtocol.Transport.Session
import PhantomProtocol.Transport.SessionCache

/-!
# The handshake of a server

`HandshakeServer::process_client_hello` on one server, called by any number of tasks at once. A call
is cut at the points where it takes the lock of the session cache or asks the anti-replay store:
peek, remove, ask, and at the end store or reinsert. Between them it works on its own data; what can
fail there is given by `Outcomes`. Metrics are left out.
-/

namespace PhantomProtocol

namespace Handshake

def earlyDataMaxLen : Nat := 16 * 1024

def earlyDataSealedMaxLen : Nat := earlyDataMaxLen + aeadOverhead

/-- `PROTOCOL_VARIANT`, `b"phantom-default-1"`. -/
def protocolVariant : Bytes :=
  [0x70, 0x68, 0x61, 0x6e, 0x74, 0x6f, 0x6d, 0x2d, 0x64, 0x65, 0x66, 0x61, 0x75, 0x6c, 0x74, 0x2d,
    0x31]

def protocolVersion : UInt8 := 5

/-! ## Messages -/

structure PoWChallenge where
  nonce : Bytes
  difficulty : UInt8
deriving DecidableEq, Repr

structure PoWSolution where
  nonce : Bytes
  solution : UInt64
deriving DecidableEq, Repr

/-- `ClientHello` without its two public keys. -/
structure ClientHello where
  nonce : Bytes
  version : UInt8
  cookie : Option Bytes
  powSolution : Option PoWSolution
  resumeSessionId : Option SessionId
  resumptionBinder : Option Bytes
  protocolVariant : Bytes
  earlyData : Option Bytes
deriving DecidableEq, Repr

structure HelloRetryRequest where
  challenge : Option PoWChallenge
  cookie : Option Bytes
deriving DecidableEq, Repr

/-- `ServerReject`; its marker is always the same. -/
structure ServerReject where
  code : UInt8
  supportedVersion : UInt8
deriving DecidableEq, Repr

namespace ServerReject

def unsupportedVersion : ServerReject := ⟨1, protocolVersion⟩

def protocolVariantMismatch : ServerReject := ⟨2, protocolVersion⟩

end ServerReject

/-- The variants of `HandshakeError` that a server returns. -/
inductive HandshakeError where
  | kemFailed (message : String)
  | rngError (message : String)
  | serializationError (message : String)
  | clockBackwards
  | internalError (message : String)
deriving DecidableEq, Repr

/-- `ServerHello` without the verifying key. -/
structure ServerHello where
  serverNonce : Bytes
  ciphertext : Bytes
  signature : Bytes
  sessionId : SessionId
  earlyDataAccepted : Bool
deriving DecidableEq, Repr

/-- What the server signs, without its own key. -/
structure HandshakeTranscript where
  protocolVariant : Bytes
  clientHello : ClientHello
  serverNonce : Bytes
  ciphertext : Bytes
  sessionId : SessionId
  earlyDataAccepted : Bool

/-- The `Session` of a handshake, with its id and the secret for the next resumption. -/
structure Established where
  id : SessionId
  session : Session
  resumptionSecret : Option Bytes
deriving DecidableEq

inductive HandshakeResponse where
  | success (hello : ServerHello) (session : Established) (earlyData : Option Bytes)
  | retry (request : HelloRetryRequest)
  | reject (reject : ServerReject)
  | fail (error : HandshakeError)
deriving DecidableEq

def HandshakeResponse.isSuccess : HandshakeResponse → Bool
  | .success .. => true
  | _ => false

/-! ## What a call computes -/

/-- The key derivation of the handshake. -/
structure HandshakeKdf extends Kdf where
  /-- `Sha256` over a label and what follows it. -/
  sha256 : String → Bytes → SessionId

/-- What the fallible and the random steps of one call return. -/
structure Outcomes where
  validateCookie : Bytes → Except HandshakeError Bool
  generateCookie : Except HandshakeError Bytes
  currentSecretHour : Except HandshakeError Nat
  deriveSessionSecretForHour : Nat → Except HandshakeError Bytes
  /-- `PoWChallenge::verify`, under an hour's secret. -/
  verify : PoWChallenge → PoWSolution → Bytes → Bool
  newStateless : UInt8 → Bytes → PoWChallenge
  /-- The AEAD under `derive_early_data_keying`: secret, nonce, associated data and ciphertext. -/
  openEarlyData : Bytes → Bytes → Bytes → Bytes → Option Bytes
  /-- The shared secret and the ciphertext. -/
  encapsulate : Except String (Bytes × Bytes)
  serverNonce : Except String Bytes
  transcriptHash : HandshakeTranscript → Except HandshakeError Bytes
  sign : Bytes → Bytes
  /-- `CryptoState::new` on the suite of the host. -/
  suite : Except String CipherSuite
  /-- HKDF-Expand of the resumption secret. -/
  resumptionSecret : Bytes → Option Bytes

section Compute

variable (kdf : HandshakeKdf) (o : Outcomes)

def deriveResumptionBinder (resumptionSecret : Bytes) (resumeSessionId : SessionId)
    (clientNonce : Bytes) : Bytes :=
  kdf.deriveKey32 "phantom-resume-binder-v1" (resumptionSecret ++ resumeSessionId.1 ++ clientNonce)

def deriveSessionId (sharedSecret nonce : Bytes) : SessionId :=
  kdf.sha256 "phantom-session-id-v1" (sharedSecret ++ nonce)

def decryptEarlyData (resumptionSecret clientNonce : Bytes) (resumeSessionId : SessionId)
    (blob : Bytes) : Option Bytes :=
  if blob.length > earlyDataSealedMaxLen then none
  else o.openEarlyData resumptionSecret clientNonce (resumeSessionId.1 ++ clientNonce) blob

/-- The cookie half of the gate. -/
def checkCookie (hello : ClientHello) : Except HandshakeResponse Bool :=
  match hello.cookie with
  | some cookie => (o.validateCookie cookie).mapError .fail
  | none => .ok false

/-- The loop over the hours a solution may be from. -/
def verifyAny (difficulty : UInt8) (sol : PoWSolution) : List Nat → Except HandshakeResponse Bool
  | [] => .ok false
  | h :: hours => do
    let derived ← (o.deriveSessionSecretForHour h).mapError .fail
    if o.verify ⟨sol.nonce, difficulty⟩ sol derived then .ok true
    else verifyAny difficulty sol hours

/-- The proof-of-work half of the gate: whether it is met, and the challenge to send otherwise. -/
def checkPow (hello : ClientHello) (difficulty : UInt8) :
    Except HandshakeResponse (Bool × Option PoWChallenge) :=
  if 0 < difficulty then do
    let curHour ← o.currentSecretHour.mapError .fail
    let prevHour := curHour - 1
    let hours := if curHour = prevHour then [curHour] else [curHour, prevHour]
    match hello.powSolution with
    | some sol =>
      let anyValid ← verifyAny o difficulty sol hours
      .ok (anyValid, none)
    | none =>
      let derived ← (o.deriveSessionSecretForHour curHour).mapError .fail
      .ok (false, some (o.newStateless difficulty derived))
  else .ok (true, none)

def cookiePowGate (hello : ClientHello) (difficulty : UInt8) (bypass : Bool) :
    Except HandshakeResponse Unit := do
  let cookieValid ← checkCookie o hello
  let expectedCookie ← o.generateCookie.mapError .fail
  let (powValid, challenge) ← checkPow o hello difficulty
  if !bypass && (!cookieValid || !powValid) then
    .error (.retry ⟨challenge, if cookieValid then none else some expectedCookie⟩)
  else .ok ()

/-- The outcome of `udp_admit`. -/
inductive UdpAdmit where
  | admitted
  | retry (request : HelloRetryRequest)
  | drop
deriving DecidableEq, Repr

/-- `udp_admit`, the cookie half of the gate on the demux. -/
def udpAdmit (hello : ClientHello) : UdpAdmit :=
  let cookieValid := match hello.cookie with
    | some cookie => (o.validateCookie cookie).toOption.getD false
    | none => false
  if cookieValid then .admitted
  else match o.generateCookie with
    | .ok cookie => .retry ⟨none, some cookie⟩
    | .error _ => .drop

end Compute

/-! ## Calls -/

structure ConsumedTicket where
  rid : SessionId
  ticket : ResumptionTicket
deriving DecidableEq, Repr

inductive Phase where
  | received
  /-- The binder fits this ticket, which is still in the cache. -/
  | verified (t : ConsumedTicket)
  /-- The ticket is removed, the anti-replay store not asked yet. -/
  | consumed
  /-- The resume path is done. -/
  | resolved
  /-- `fail_and_reinsert` with this response. -/
  | failing (response : HandshakeResponse)
  /-- `finalize_session` is about to store the new ticket. -/
  | finalizing (hello : ServerHello) (session : Established) (earlyData : Option Bytes)
  | returned (response : HandshakeResponse)
deriving DecidableEq

/-- One call of `process_client_hello`. -/
structure Call where
  hello : ClientHello
  difficulty : UInt8
  /-- The ticket it has consumed and not handed back. -/
  resumed : Option ConsumedTicket
  phase : Phase
deriving DecidableEq

namespace Call

variable (kdf : HandshakeKdf)

/-- The binder that the hello has to present for a ticket. -/
def expectedBinder (c : Call) (t : ConsumedTicket) : Bytes :=
  deriveResumptionBinder kdf t.ticket.resumptionSecret t.rid c.hello.nonce

/-- The variant and version gates, the look-up and the binder check. -/
def peek (c : Call) (cache : SessionCache) (now : Nat) : SessionCache × Call :=
  if c.hello.protocolVariant ≠ protocolVariant then
    (cache, { c with phase := .returned (.reject .protocolVariantMismatch) })
  else if c.hello.version ≠ protocolVersion then
    (cache, { c with phase := .returned (.reject .unsupportedVersion) })
  else
    match c.hello.resumeSessionId with
    | none => (cache, { c with phase := .resolved })
    | some rid =>
      match cache.peek rid now with
      | (cache, none) => (cache, { c with phase := .resolved })
      | (cache, some ticket) =>
        let t : ConsumedTicket := ⟨rid, ticket⟩
        if c.hello.resumptionBinder = some (c.expectedBinder kdf t) then
          (cache, { c with phase := .verified t })
        else (cache, { c with phase := .resolved })

/-- Of several calls that have verified the same ticket, one finds it. -/
def remove (c : Call) (cache : SessionCache) (t : ConsumedTicket) : SessionCache × Call :=
  match cache.remove t.rid with
  | (cache, true) => (cache, { c with resumed := some t, phase := .consumed })
  | (cache, false) => (cache, { c with phase := .resolved })

/-- The 0-RTT data of the hello, opened under the ticket. -/
def earlyDataPlaintext (c : Call) (o : Outcomes) (enabled : Bool) : Option Bytes :=
  if enabled then
    match c.resumed, c.hello.earlyData with
    | some t, some blob => decryptEarlyData o t.ticket.resumptionSecret c.hello.nonce t.rid blob
    | _, _ => none
  else none

/-- From the cookie gate to the point where the new ticket is stored. -/
def complete (c : Call) (o : Outcomes) (earlyDataEnabled : Bool) :
    Except HandshakeResponse (ServerHello × Established × Option Bytes) := do
  cookiePowGate o c.hello c.difficulty c.resumed.isSome
  let earlyData := c.earlyDataPlaintext o earlyDataEnabled
  let (sharedSecret, ciphertext) ← o.encapsulate.mapError fun e => .fail (.kemFailed e)
  let serverNonce ← o.serverNonce.mapError fun e => .fail (.rngError e)
  let sessionId := deriveSessionId kdf sharedSecret c.hello.nonce
  let transcript : HandshakeTranscript :=
    { protocolVariant, clientHello := c.hello, serverNonce, ciphertext, sessionId
      earlyDataAccepted := earlyData.isSome }
  let transcriptHash ← (o.transcriptHash transcript).mapError .fail
  let hello : ServerHello :=
    { serverNonce, ciphertext, signature := o.sign transcriptHash, sessionId
      earlyDataAccepted := earlyData.isSome }
  let suite ← o.suite.mapError fun e => .fail (.kemFailed e)
  let session : Established :=
    { id := sessionId
      session := Session.new kdf.toKdf suite sharedSecret true
      resumptionSecret := o.resumptionSecret sharedSecret }
  .ok (hello, session, earlyData)

def proceed (c : Call) (o : Outcomes) (earlyDataEnabled : Bool) : Call :=
  match c.complete kdf o earlyDataEnabled with
  | .error response => { c with phase := .failing response }
  | .ok (hello, session, earlyData) => { c with phase := .finalizing hello session earlyData }

def failAndReinsert (c : Call) (cache : SessionCache) (now : Nat) (response : HandshakeResponse) :
    SessionCache × Call :=
  let cache :=
    match c.resumed with
    | some t => cache.reinsertWithExpiry t.rid t.ticket now
    | none => cache
  (cache, { c with resumed := none, phase := .returned response })

/-- The end of `finalize_session`. -/
def finalize (c : Call) (cache : SessionCache) (now : Nat) (hello : ServerHello)
    (session : Established) (earlyData : Option Bytes) : SessionCache × Call :=
  let cache :=
    match session.resumptionSecret with
    | some secret => cache.store session.id secret .aes256Gcm now
    | none => cache
  (cache, { c with phase := .returned (.success hello session earlyData) })

end Call

/-! ## The server -/

structure Server where
  cache : SessionCache
  /-- Whether an anti-replay store is installed. -/
  antiReplay : Bool
  earlyDataEnabled : Bool
  now : Nat
  calls : List Call

def init (maxEntries ticketLifetime : Nat) : Server where
  cache := .withCapacity maxEntries ticketLifetime
  antiReplay := false
  earlyDataEnabled := true
  now := 0
  calls := []

/-- What a call does next. -/
inductive Action where
  | peek
  | remove
  /-- `firstUse` is what `check_and_set` answers, if a store is installed. -/
  | ask (firstUse : Bool)
  | proceed (o : Outcomes)
  | failAndReinsert
  | finalize

inductive Event where
  | arrive (hello : ClientHello) (difficulty : UInt8)
  | call (i : Nat) (a : Action)
  /-- The listener asks whether a hello would resume. -/
  | hasValidResume (hello : ClientHello)
  | setZeroRttAntiReplay
  | setEarlyDataEnabled (enabled : Bool)
  | tick (d : Nat)

variable (kdf : HandshakeKdf)

def Call.act (s : Server) (c : Call) : Action → Option (SessionCache × Call)
  | .peek => if c.phase = .received then some (c.peek kdf s.cache s.now) else none
  | .remove =>
    match c.phase with
    | .verified t => some (c.remove s.cache t)
    | _ => none
  | .ask firstUse =>
    if c.phase = .consumed then
      some (s.cache,
        { c with
          resumed := if s.antiReplay && !firstUse then none else c.resumed
          phase := .resolved })
    else none
  | .proceed o =>
    if c.phase = .resolved then some (s.cache, c.proceed kdf o s.earlyDataEnabled) else none
  | .failAndReinsert =>
    match c.phase with
    | .failing response => some (c.failAndReinsert s.cache s.now response)
    | _ => none
  | .finalize =>
    match c.phase with
    | .finalizing hello session earlyData =>
      some (c.finalize s.cache s.now hello session earlyData)
    | _ => none

def step (s : Server) : Event → Option Server
  | .arrive hello difficulty =>
    some { s with calls := s.calls ++ [⟨hello, difficulty, none, .received⟩] }
  | .call i a =>
    s.calls[i]?.bind fun c => (c.act kdf s a).map fun r =>
      { s with cache := r.1, calls := s.calls.set i r.2 }
  | .hasValidResume hello =>
    some { s with
      cache :=
        match hello.resumeSessionId with
        | some rid => (s.cache.peek rid s.now).1
        | none => s.cache }
  | .setZeroRttAntiReplay => some { s with antiReplay := true }
  | .setEarlyDataEnabled enabled => some { s with earlyDataEnabled := enabled }
  | .tick d => some { s with now := s.now + d }

/-! ## Tickets over a run -/

/-- The call has ended a handshake with the session id `id` and a resumption secret. -/
def Call.issues (id : SessionId) (c : Call) : Bool :=
  match c.phase with
  | .returned (.success _ session _) => decide (session.id = id) && session.resumptionSecret.isSome
  | _ => false

/-- The call has returned Success with early data sent under the ticket `id`. -/
def Call.yields (id : SessionId) (c : Call) : Bool :=
  match c.phase with
  | .returned (.success _ _ (some _)) => decide (c.hello.resumeSessionId = some id)
  | _ => false

namespace Server

/-- The number of handshakes that derived the session id `id`, with a resumption secret. -/
def issued (s : Server) (id : SessionId) : Nat := s.calls.countP (·.issues id)

/-- The number of tickets stored under `id`. -/
def stored (s : Server) (id : SessionId) : Nat := if s.cache.isDisabled then 0 else s.issued id

/-- The number of Success responses with early data sent under the ticket `id`. -/
def accepted (s : Server) (id : SessionId) : Nat := s.calls.countP (·.yields id)

/-- The binder of a hello is not the one of the ticket it names. -/
def BinderMismatch (s : Server) (c : Call) : Prop :=
  ∀ rid ticket, c.hello.resumeSessionId = some rid → s.cache.get rid = some ticket →
    c.hello.resumptionBinder ≠ some (c.expectedBinder kdf ⟨rid, ticket⟩)

end Server

/-- A step of the call `i` leaves the cache as it is, or stores the ticket of its own session. -/
def StoresOnly (i : Nat) (s : Server) (e : Event) (s' : Server) : Prop :=
  ∀ a, e = .call i a → s'.cache = s.cache ∨
    ∃ c hello session earlyData secret, s.calls[i]? = some c ∧
      c.phase = .finalizing hello session earlyData ∧ session.resumptionSecret = some secret ∧
      s'.cache = s.cache.store session.id secret .aes256Gcm s.now

/-- A store or a reinsertion evicts or replaces the ticket `id`, or a call consumes it. -/
def Displaces (id : SessionId) (s : Server) (e : Event) (s' : Server) : Prop :=
  (∃ i, e = .call i .finalize ∨ e = .call i .failAndReinsert ∨ e = .call i .remove) ∧
    s.cache.get id ≠ none ∧ s'.cache.get id ≠ s.cache.get id

end Handshake

end PhantomProtocol
