import PhantomProtocol.Crypto.KeySchedule
import PhantomProtocol.Lib.Run

/-!
# Framed pipes

`EmbeddedLeg` and `TcpSessionTransport` put messages on a byte stream, each behind its length in four
bytes. The writer answers every call with what it accepted or with an error; a call that gets no
more answers keeps the lock. A leg remembers one kind of failure, the one that says the peer has
stopped reading, and refuses every send after it.
-/

namespace PhantomProtocol

namespace FramedPipe

/-- The errors of a writer. -/
inductive ErrorKind where
  | timedOut
  | interrupted
  | writeZero
  | other (code : Nat)
deriving DecidableEq, Repr

/-- What the writer answers. -/
inductive Reply where
  /-- The first `n` bytes are on the pipe. -/
  | accepts (n : Nat)
  | fails (kind : ErrorKind)
  /-- `write_stall_timeout` has passed. -/
  | elapsed
deriving DecidableEq, Repr

inductive Outcome where
  | done
  | tooLarge
  /-- The leg has given up on the peer. -/
  | refused
  | stalled
  | failed (kind : ErrorKind)
  | panicked
  /-- The call has not returned. -/
  | waiting
deriving DecidableEq, Repr

inductive Leg where
  /-- `EmbeddedLeg` with a buffer of `N` bytes. -/
  | embedded (capacity : Nat)
  | tcp
deriving DecidableEq, Repr

/-- A message as it is on the pipe. -/
def frame (data : Bytes) : Bytes := beBytes 4 data.length ++ data

def steadyStateFrameCap : Nat := 4 * 1024 * 1024

/-- What a loop does about an answer. -/
inductive Turn where
  | advance (n : Nat)
  | again
  | stop (o : Outcome)

namespace Leg

/-- `encode_header`, or the check of `send_bytes` and the length as it writes it. -/
def header : Leg → Nat → Option Bytes
  | .embedded capacity, len =>
    if capacity < len then none else if 2 ^ 32 ≤ len then none else some (beBytes 4 len)
  | .tcp, len => if steadyStateFrameCap < len then none else some (beBytes 4 len)

/-- `Write::write_all` of `embedded-io-async`, which has no clock, and `write_all_making_progress`. -/
def onWrite : Leg → Reply → Turn
  | .embedded _, .accepts 0 => .stop .panicked
  | .embedded _, .fails kind => .stop (.failed kind)
  | .embedded _, .elapsed => .again
  | .tcp, .accepts 0 => .stop (.failed .writeZero)
  | .tcp, .fails .interrupted => .again
  | .tcp, .fails kind => .stop (.failed kind)
  | .tcp, .elapsed => .stop .stalled
  | _, .accepts n => .advance n

def onFlush : Leg → Reply → Turn
  | _, .accepts _ => .stop .done
  | _, .fails kind => .stop (.failed kind)
  | .embedded _, .elapsed => .again
  | .tcp, .elapsed => .stop .stalled

/-- What is on the pipe, how the loop ended and the answers that are left. -/
def writeAll (leg : Leg) : Bytes → List Reply → Bytes × Outcome × List Reply
  | [], replies => ([], .done, replies)
  | _, [] => ([], .waiting, [])
  | rest, reply :: replies =>
    match leg.onWrite reply with
    | .advance n =>
      let w := writeAll leg (rest.drop n) replies
      (rest.take n ++ w.1, w.2)
    | .again => writeAll leg rest replies
    | .stop o => ([], o, replies)

def flush (leg : Leg) : List Reply → Outcome
  | [] => .waiting
  | reply :: replies =>
    match leg.onFlush reply with
    | .stop o => o
    | _ => flush leg replies

/-- Header, payload, flush. -/
def writeFrame (leg : Leg) (header data : Bytes) (replies : List Reply) : Bytes × Outcome :=
  match leg.writeAll header replies with
  | (h, .done, replies) =>
    match leg.writeAll data replies with
    | (d, .done, replies) => (h ++ d, leg.flush replies)
    | (d, o, _) => (h ++ d, o)
  | (h, o, _) => (h, o)

/-- The failure that sets `write_timed_out`, or `write_stalled`. -/
def remembers : Leg → Outcome → Bool
  | .embedded _, o => o == .failed .timedOut
  | .tcp, o => o == .stalled

end Leg

structure State where
  pipe : Bytes
  gaveUp : Bool
  /-- A call has not returned and keeps the lock. -/
  locked : Bool
  sent : List Bytes
  /-- The pipe has part of a frame only. -/
  torn : Bool
deriving DecidableEq

def init : State := ⟨[], false, false, [], false⟩

/-- `send_frame` and `send_bytes`. -/
def send (leg : Leg) (s : State) (data : Bytes) (replies : List Reply) : State × Outcome :=
  let s := { s with sent := s.sent ++ [data] }
  match leg.header data.length with
  | none => (s, .tooLarge)
  | some header =>
    if s.gaveUp then (s, .refused)
    else
      let w := leg.writeFrame header data replies
      ({ s with
          pipe := s.pipe ++ w.1
          gaveUp := leg.remembers w.2
          locked := w.2 == .waiting
          torn := s.torn || decide (0 < w.1.length ∧ w.1.length < (header ++ data).length) },
        w.2)

/-- A send, with what the writer answers to it. -/
def step (leg : Leg) (s : State) (e : Bytes × List Reply) : Option State :=
  if s.locked then none else some (send leg s e.1 e.2).1

/-- `recv_frame` and `recv_bytes` under a limit: the message and what is left. `none`: an error. -/
def recvFrame (cap : Nat) (pipe : Bytes) : Option (Bytes × Bytes) :=
  if pipe.length < 4 then none
  else
    let len := beNat (pipe.take 4)
    let rest := pipe.drop 4
    if cap < len then none
    else if rest.length < len then none
    else some (rest.take len, rest.drop len)

/-- What calls under these limits return, up to the first error. -/
def received : List Nat → Bytes → List Bytes
  | [], _ => []
  | cap :: caps, pipe =>
    match recvFrame cap pipe with
    | none => []
    | some (frame, rest) => frame :: received caps rest

end FramedPipe

end PhantomProtocol
