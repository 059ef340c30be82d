import PhantomProtocol.Lib.Chunks
import PhantomProtocol.Transport.FramedPipe

/-!
# TLS records

`transport::legs::mimic_tls::record`: messages behind their length make up a byte stream, which is
cut into chunks; a record carries a chunk behind its length, and padding. The deframer takes the
records apart (`drain_records`) and the stream into messages (`next_message`).
-/

namespace PhantomProtocol

namespace RecordDeframer

open FramedPipe (frame)

def ctApplicationData : UInt8 := 0x17
def verTls12 : Nat := 0x0303
def maxRecordFragment : Nat := 16384
def maxRecordFragmentWire : Nat := maxRecordFragment + 256
def innerChunkHeaderLen : Nat := 2
def handshakeFrameCap : Nat := 64 * 1024
def steadyStateFrameCap : Nat := 4 * 1024 * 1024
def streamSlack : Nat := 256 * 1024
def maxConsecutiveEmpty : Nat := 64
def maxStreamChunk : Nat := maxRecordFragment - innerChunkHeaderLen

/-- The network errors, with the values that their texts name. -/
inductive RecordError where
  | fragmentTooLarge (len : Nat)
  | messageTooLarge (len : Nat)
  | oversizedRecord (len : Nat)
  | unexpectedContentType (contentType : UInt8)
  | fragmentTooSmall
  | chunkExceedsBody (chunkLen body : Nat)
  | streamExceeded (len cap : Nat)
  | tooManyEmpty
  | oversizedMessage (len cap : Nat)
deriving DecidableEq, Repr

def RecordError.overflow : RecordError → Bool
  | .streamExceeded .. => true
  | _ => false

/-! ## Framing -/

def encodeRecord (contentType : UInt8) (version : Nat) (fragment : Bytes) :
    Except RecordError Bytes :=
  if maxRecordFragmentWire < fragment.length then .error (.fragmentTooLarge fragment.length)
  else .ok (contentType :: (beBytes 2 version ++ beBytes 2 fragment.length ++ fragment))

def frameMessage (message : Bytes) : Except RecordError Bytes :=
  if 2 ^ 32 ≤ message.length then .error (.messageTooLarge message.length)
  else do
    let records ← (chunksOf maxStreamChunk (frame message)).mapM fun chunk =>
      encodeRecord ctApplicationData verTls12 (beBytes 2 chunk.length ++ chunk)
    .ok records.flatten

end RecordDeframer

/-! ## The deframer -/

open RecordDeframer

structure RecordDeframer where
  wire : Bytes
  stream : Bytes
  cap : Nat
  consecutiveEmpty : Nat
deriving DecidableEq

inductive FramePhase where
  | handshake
  | established
deriving DecidableEq, Repr

def FramePhase.cap : FramePhase → Nat
  | .handshake => handshakeFrameCap
  | .established => steadyStateFrameCap

namespace RecordDeframer

def new : RecordDeframer := ⟨[], [], handshakeFrameCap, 0⟩

def setPhase (d : RecordDeframer) (phase : FramePhase) : RecordDeframer := { d with cap := phase.cap }

def push (d : RecordDeframer) (data : Bytes) : RecordDeframer := { d with wire := d.wire ++ data }

/-- How one turn of the loop of `drain_records` ends. -/
inductive Turn where
  | again
  | incomplete
  | failed (e : RecordError)
deriving DecidableEq

def noteEmpty (d : RecordDeframer) : RecordDeframer × Turn :=
  ({ d with consecutiveEmpty := d.consecutiveEmpty + 1 },
    if maxConsecutiveEmpty < d.consecutiveEmpty + 1 then .failed .tooManyEmpty else .again)

def takeFragment (d : RecordDeframer) : Bytes → RecordDeframer × Turn
  | [] => d.noteEmpty
  | [_] => (d, .failed .fragmentTooSmall)
  | hi :: lo :: body =>
    let chunkLen := beNat [hi, lo]
    if body.length < chunkLen then (d, .failed (.chunkExceedsBody chunkLen body.length))
    else if chunkLen = 0 then d.noteEmpty
    else
      let stream := d.stream ++ body.take chunkLen
      ({ d with consecutiveEmpty := 0, stream },
        if d.cap + streamSlack < stream.length then .failed (.streamExceeded stream.length d.cap)
        else .again)

/-- One turn. The version is not looked at. -/
def drainRecord (d : RecordDeframer) : RecordDeframer × Turn :=
  match d.wire with
  | contentType :: _ :: _ :: hi :: lo :: rest =>
    let fragLen := beNat [hi, lo]
    if maxRecordFragmentWire < fragLen then (d, .failed (.oversizedRecord fragLen))
    else if contentType ≠ ctApplicationData then (d, .failed (.unexpectedContentType contentType))
    else if rest.length < fragLen then (d, .incomplete)
    else { d with wire := rest.drop fragLen }.takeFragment (rest.take fragLen)
  | _ => (d, .incomplete)

theorem wire_takeFragment (d : RecordDeframer) (fragment : Bytes) :
    (d.takeFragment fragment).1.wire = d.wire := by
  unfold takeFragment
  split
  · rfl
  · rfl
  · dsimp only
    repeat' split
    all_goals rfl

/-- A turn fails on the header, has to wait for the rest of a record, or takes a record off the wire
and looks at its fragment. -/
theorem drainRecord_cases (d : RecordDeframer) : (∃ e, d.drainRecord = (d, .failed e)) ∨
      d.drainRecord = (d, .incomplete) ∧ d.wire.length < 5 + maxRecordFragmentWire ∨
      ∃ wire fragment, wire.length + fragment.length < d.wire.length ∧
        fragment.length ≤ maxRecordFragmentWire ∧
        d.drainRecord = { d with wire }.takeFragment fragment := by
  unfold drainRecord
  split
  · rename_i hwire
    dsimp only
    rw [hwire]
    simp only [List.length_cons]
    split
    · exact .inl ⟨_, rfl⟩
    · split
      · exact .inl ⟨_, rfl⟩
      · split
        · exact .inr (.inl ⟨rfl, by omega⟩)
        · exact .inr (.inr ⟨_, _, by simp; omega, by simp; omega, rfl⟩)
  · rename_i hshort
    refine .inr (.inl ⟨rfl, ?_⟩)
    match hwire : d.wire with
    | [] | [_] | [_, _] | [_, _, _] | [_, _, _, _] =>
      simp only [List.length_cons, List.length_nil]
      omega
    | a :: b :: c :: e :: f :: tail => exact absurd hwire (hshort a b c e f tail)

theorem wire_drainRecord_lt {d d' : RecordDeframer} (h : d.drainRecord = (d', .again)) :
    d'.wire.length < d.wire.length := by
  rcases d.drainRecord_cases with ⟨e, hturn⟩ | ⟨hturn, -⟩ | ⟨wire, fragment, hlt, -, hturn⟩
  · cases hturn.symm.trans h
  · cases hturn.symm.trans h
  · have heq : d'.wire = wire := by
      simpa [← hturn, h] using wire_takeFragment { d with wire } fragment
    rw [heq]
    omega

def drainRecords (d : RecordDeframer) : RecordDeframer × Option RecordError :=
  match _h : d.drainRecord with
  | (d', .again) => drainRecords d'
  | (d', .incomplete) => (d', none)
  | (d', .failed e) => (d', some e)
termination_by d.wire.length
decreasing_by exact wire_drainRecord_lt ‹_›

/-- A whole message at the front of the stream, if there is one. -/
def popMessage (d : RecordDeframer) : RecordDeframer × Except RecordError (Option Bytes) :=
  if d.stream.length < 4 then (d, .ok none)
  else
    let msgLen := beNat (d.stream.take 4)
    if d.cap < msgLen then (d, .error (.oversizedMessage msgLen d.cap))
    else if d.stream.length < 4 + msgLen then (d, .ok none)
    else
      let rest := d.stream.drop 4
      ({ d with stream := rest.drop msgLen }, .ok (some (rest.take msgLen)))

def nextMessage (d : RecordDeframer) : RecordDeframer × Except RecordError (Option Bytes) :=
  match d.drainRecords with
  | (d', some e) => (d', .error e)
  | (d', none) => d'.popMessage

/-! ## Its use -/

structure Feed where
  deframer : RecordDeframer
  pushed : Bytes
  /-- Nothing was pushed since `next_message` returned `None`. -/
  idle : Bool
  got : List Bytes
  failed : Option RecordError

inductive Event where
  | push (data : Bytes)
  | next
  /-- `set_phase(Established)`; the phase is never lowered. -/
  | establish

def Feed.start (phase : FramePhase) : Feed := ⟨new.setPhase phase, [], true, [], none⟩

/-- The session ends with the first error. Whoever goes on here, does so only as long as the stream
has not overflowed. -/
def Feed.step (f : Feed) (e : Event) : Option Feed :=
  if f.failed.any RecordError.overflow then none
  else
    match e with
    | .push data =>
      some { f with
        deframer := f.deframer.push data, pushed := f.pushed ++ data, idle := false }
    | .next =>
      match f.deframer.nextMessage with
      | (d, .ok (some m)) => some { f with deframer := d, idle := false, got := f.got ++ [m] }
      | (d, .ok none) => some { f with deframer := d, idle := true }
      | (d, .error e) => some { f with deframer := d, idle := false, failed := some e }
    | .establish => some { f with deframer := f.deframer.setPhase .established }

end RecordDeframer

end PhantomProtocol
