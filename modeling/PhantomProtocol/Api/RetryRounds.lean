import PhantomProtocol.Lib.Run

/-!
# The retry rounds of a handshake over PhantomUDP

`api::session::run_client_handshake` against the cookie gate of the demux
(`HandshakeServer::udp_admit`) and the per-connection task (`api::listener::drive_server_handshake`
with `cookie_pow_gate`), on a network that loses, repeats and reorders. Both sides count the rounds
they spend.

Cookies and proof-of-work solutions are presented within their validity, so a hello is what it
carries of the two. Everything ever sent can arrive, any number of times and in any order. A hello
is tagged with the client's round it was built in and a reply with the tag of the hello it answers;
the tags are not on the wire and only serve to say which deliveries are stale.
-/

namespace PhantomProtocol

namespace RetryRounds

/-- `MAX_HANDSHAKE_RETRY_ROUNDS`, read by both sides. -/
def maxHandshakeRetryRounds : Nat := 3

def maxClientRejectRounds : Nat := 3

def maxClientPowDifficulty : Nat := 24

/-- What a `ClientHello` carries for the gate. -/
structure Hello where
  cookie : Bool
  powSolution : Bool
deriving DecidableEq, Repr

structure HelloRetryRequest where
  challenge : Bool
  cookie : Bool
deriving DecidableEq, Repr

inductive ServerReply where
  | hello
  | retry (request : HelloRetryRequest)
  /-- `ServerReject` with `REJECT_RETRY_LIMIT`. -/
  | retryLimit
deriving DecidableEq, Repr

/-- `udp_admit`: `none` admits. -/
def udpAdmit (h : Hello) : Option HelloRetryRequest :=
  if h.cookie then none else some { challenge := false, cookie := true }

/-- `cookie_pow_gate`: `none` passes. -/
def cookiePowGate (difficulty : Nat) (h : Hello) (bypass : Bool) : Option HelloRetryRequest :=
  let powValid := difficulty == 0 || h.powSolution
  let challenge := decide (0 < difficulty) && !h.powSolution
  if !bypass && (!h.cookie || !powValid) then some { challenge, cookie := !h.cookie } else none

/-! ## The client -/

inductive ClientStatus where
  | waiting
  | established
  /-- "server demanded more than 3 HelloRetryRequest rounds". -/
  | tooManyRounds
  /-- More rejects than it reads past. -/
  | rejected
  /-- The challenge is above the difficulty it solves. -/
  | refusedPow
deriving DecidableEq, Repr

structure Client where
  hello : Hello
  retryRounds : Nat
  rejectRounds : Nat
  status : ClientStatus
deriving DecidableEq, Repr

/-- One reply read by `run_client_handshake`. -/
def Client.receive (c : Client) (difficulty : Nat) : ServerReply → Client
  | .hello => { c with status := .established }
  | .retryLimit =>
    if c.rejectRounds + 1 > maxClientRejectRounds then
      { c with rejectRounds := c.rejectRounds + 1, status := .rejected }
    else { c with rejectRounds := c.rejectRounds + 1 }
  | .retry r =>
    if c.retryRounds + 1 > maxHandshakeRetryRounds then
      { c with retryRounds := c.retryRounds + 1, status := .tooManyRounds }
    else if r.challenge && decide (maxClientPowDifficulty < difficulty) then
      { c with retryRounds := c.retryRounds + 1, status := .refusedPow }
    else
      -- the cookie is replaced by whatever the retry carries, a solution is kept
      { c with
        retryRounds := c.retryRounds + 1
        hello := { cookie := r.cookie, powSolution := c.hello.powSolution || r.challenge } }

/-! ## The server -/

structure Task where
  retryRounds : Nat
  /-- Hellos routed to it and not yet read. -/
  inbox : List (Nat × Hello)
  /-- The newest round it has read a hello of. -/
  newest : Nat
  /-- Hellos it has read that were no newer than one before. -/
  staleHellos : Nat
deriving DecidableEq, Repr

/-- The demux route of the client's bootstrap connection id. -/
inductive Route where
  | unrouted
  | task (t : Task)
  /-- The handshake succeeded; a repeated hello gets the retained reply again. -/
  | committed
deriving DecidableEq, Repr

structure State where
  client : Client
  route : Route
  hellos : List (Nat × Hello)
  replies : List (Nat × ServerReply)
  /-- Retries the client has read that did not answer its current hello. -/
  staleReplies : Nat
deriving DecidableEq, Repr

inductive Event where
  | send
  | toServer (m : Nat × Hello)
  /-- The task reads its next hello; `bypass` when a resumption ticket clears the gate. -/
  | serve (bypass : Bool)
  /-- The task ends without a reply: its deadline, a transport error, a failed hello. -/
  | taskEnds
  /-- The session has ended, and `retire_session` takes its routes. -/
  | retire
  | toClient (m : Nat × ServerReply)
deriving DecidableEq, Repr

namespace State

/-- `run_udp_demux`, for a datagram that completes a hello. -/
def demux (s : State) (m : Nat × Hello) : State :=
  match s.route with
  | .task t => { s with route := .task { t with inbox := t.inbox ++ [m] } }
  | .committed => s
  | .unrouted =>
    match udpAdmit m.2 with
    | some r => { s with replies := (m.1, .retry r) :: s.replies }
    | none => { s with route := .task ⟨0, [m], 0, 0⟩ }

/-- One turn of `drive_server_handshake`. -/
def serve (s : State) (difficulty : Nat) (t : Task) (m : Nat × Hello) (rest : List (Nat × Hello))
    (bypass : Bool) : State :=
  match cookiePowGate difficulty m.2 bypass with
  | none => { s with route := .committed, replies := (m.1, .hello) :: s.replies }
  | some r =>
    if t.retryRounds + 1 > maxHandshakeRetryRounds then
      { s with route := .unrouted, replies := (m.1, .retryLimit) :: s.replies }
    else
      { s with
        route := .task
          { retryRounds := t.retryRounds + 1
            inbox := rest
            newest := max t.newest m.1
            staleHellos := if m.1 ≤ t.newest then t.staleHellos + 1 else t.staleHellos }
        replies := (m.1, .retry r) :: s.replies }

/-- The reply is a retry that does not answer the client's current hello. -/
def staleReply (s : State) : Nat × ServerReply → Bool
  | (round, .retry _) => round ≠ s.client.retryRounds
  | _ => false

end State

def step (difficulty : Nat) (s : State) : Event → Option State
  | .send =>
    if s.client.status = .waiting then
      some { s with hellos := (s.client.retryRounds, s.client.hello) :: s.hellos }
    else none
  | .toServer m => if m ∈ s.hellos then some (s.demux m) else none
  | .serve bypass =>
    match s.route with
    | .task t =>
      match t.inbox with
      | m :: rest => some (s.serve difficulty t m rest bypass)
      | [] => none
    | _ => none
  | .taskEnds =>
    match s.route with
    | .task _ => some { s with route := .unrouted }
    | _ => none
  | .retire => if s.route = .committed then some { s with route := .unrouted } else none
  | .toClient m =>
    if m ∈ s.replies ∧ s.client.status = .waiting then
      some { s with
        client := s.client.receive difficulty m.2
        staleReplies := if s.staleReply m then s.staleReplies + 1 else s.staleReplies }
    else none

def start : State := ⟨⟨⟨false, false⟩, 0, 0, .waiting⟩, .unrouted, [], [], 0⟩

/-- The rounds a client needs when no stale retry reaches it. -/
def roundsNeeded (difficulty : Nat) : Nat := if difficulty = 0 then 1 else 3

/-- The task's next hello is newer than those it has read, or it has read none that was not. -/
def Task.spares (t : Task) : Bool :=
  match t.inbox with
  | m :: _ => decide (t.newest < m.1) || t.staleHellos == 0
  | [] => true

/-- The step is within what the network may repeat: a retry that does not answer the client's
current hello reaches it only while it has rounds to spare, and the task reads at most one hello
that is no newer than one it has read. -/
def State.spares (s : State) (difficulty : Nat) : Event → Bool
  | .toClient m =>
    !s.staleReply m || decide (roundsNeeded difficulty + s.staleReplies < maxHandshakeRetryRounds)
  | .serve _ =>
    match s.route with
    | .task t => t.spares
    | _ => true
  | _ => true

end RetryRounds

end PhantomProtocol
