import PhantomProtocol.Transport.Proof.FramedPipe
import PhantomProtocol.Transport.RecordDeframer

/-!
# Deframing TLS records

What the deframer has of a stream is a part of it at either level: the wire buffer begins with a
record or with the part of one that has arrived, the stream buffer with a message or a part of one.
One socket read behind those parts is less than the slack allows.
-/

namespace PhantomProtocol.RecordDeframer

open List

open FramedPipe (frame take_frame drop_frame take_cut length_frame)

variable {d d' : RecordDeframer} {fragment rest m wire w : Bytes} {chunks ms : List Bytes}
  {f f' : Feed} {cap : Nat} {e : Event}

/-! ## One record -/

def record (fragment : Bytes) : Bytes :=
  ctApplicationData :: (beBytes 2 verTls12 ++ beBytes 2 fragment.length ++ fragment)

theorem length_record (fragment : Bytes) : (record fragment).length = 5 + fragment.length := by
  simp [record]
  omega

section

variable (h : fragment.length ≤ maxRecordFragmentWire)
include h

/-- The five bytes in front of a fragment. -/
theorem record_eq : ∃ v w hi lo,
    record fragment = ctApplicationData :: v :: w :: hi :: lo :: fragment ∧
      beNat [hi, lo] = fragment.length := by
  obtain ⟨v, w, hver⟩ := length_eq_two.1 (beBytes_length 2 verTls12)
  obtain ⟨hi, lo, hlen⟩ := length_eq_two.1 (beBytes_length 2 fragment.length)
  refine ⟨v, w, hi, lo, by simp [record, hver, hlen], ?_⟩
  rw [← hlen, beNat_beBytes, Nat.mod_eq_of_lt]
  unfold maxRecordFragmentWire maxRecordFragment at h
  omega

theorem drainRecord_record (hwire : d.wire = record fragment ++ rest) :
    d.drainRecord = { d with wire := rest }.takeFragment fragment := by
  obtain ⟨v, w, hi, lo, hrecord, hlen⟩ := record_eq h
  unfold drainRecord
  simp only [hwire, hrecord, cons_append, hlen]
  rw [if_neg (by omega), if_neg (by simp), if_neg (by simp), take_left, drop_left]

theorem drainRecord_part
    (hpart : d.wire <+: record fragment) (hlt : d.wire.length < (record fragment).length) :
    d.drainRecord = (d, .incomplete) := by
  obtain ⟨v, w, hi, lo, hrecord, hlen⟩ := record_eq h
  rw [hrecord] at hpart hlt
  obtain ⟨missing, hmissing⟩ := hpart
  unfold drainRecord
  split
  · simp_all
  · rfl

end

theorem noteEmpty_turn (d : RecordDeframer) : d.noteEmpty.2 ≠ .incomplete := by
  unfold noteEmpty
  split <;> simp

def Turn.overflow : Turn → Bool
  | .failed e => e.overflow
  | _ => false

theorem takeFragment_spec (d : RecordDeframer) (fragment : Bytes) :
    (d.takeFragment fragment).1.cap = d.cap ∧ (d.takeFragment fragment).2 ≠ .incomplete ∧
      (d.takeFragment fragment).1.stream.length ≤
        d.stream.length + (fragment.length - innerChunkHeaderLen) ∧
      (d.stream.length ≤ d.cap + streamSlack → (d.takeFragment fragment).2.overflow = false →
        (d.takeFragment fragment).1.stream.length ≤ d.cap + streamSlack) := by
  unfold takeFragment
  split
  · exact ⟨rfl, noteEmpty_turn d, Nat.le_add_right _ _, fun h _ => h⟩
  · exact ⟨rfl, by simp, Nat.le_add_right _ _, fun h _ => h⟩
  · rename_i hi lo body
    dsimp only
    split
    · exact ⟨rfl, by simp, Nat.le_add_right _ _, fun h _ => h⟩
    · split
      · exact ⟨rfl, noteEmpty_turn d, Nat.le_add_right _ _, fun h _ => h⟩
      all_goals grind [length_append, length_take, length_cons, innerChunkHeaderLen,
        Turn.overflow, RecordError.overflow]

/-- What is left on the wire is less than a record. -/
theorem wire_lt_of_incomplete (h : d.drainRecord = (d', .incomplete)) :
    d.wire.length < 5 + maxRecordFragmentWire := by
  rcases d.drainRecord_cases with ⟨e, hturn⟩ | ⟨-, hlt⟩ | ⟨wire, fragment, -, -, hturn⟩
  · cases hturn.symm.trans h
  · exact hlt
  · exact absurd (congrArg Prod.snd (hturn.symm.trans h)) (takeFragment_spec _ _).2.1

theorem takeFragment_chunk {chunk pad : Bytes} (hne : chunk ≠ []) (hlen : chunk.length < 2 ^ 16) :
    d.takeFragment (beBytes 2 chunk.length ++ chunk ++ pad) =
      ({ d with consecutiveEmpty := 0, stream := d.stream ++ chunk },
        if d.cap + streamSlack < (d.stream ++ chunk).length then
          .failed (.streamExceeded (d.stream ++ chunk).length d.cap)
        else .again) := by
  obtain ⟨hi, lo, hfield⟩ := length_eq_two.1 (beBytes_length 2 chunk.length)
  have hread : beNat [hi, lo] = chunk.length := by
    rw [← hfield, beNat_beBytes, Nat.mod_eq_of_lt (by omega)]
  have hpos : ¬chunk.length = 0 := by simpa using hne
  simp only [hfield, cons_append, nil_append, takeFragment, hread, length_append, take_left]
  rw [if_neg (by omega), if_neg hpos]

/-- A fragment without a chunk. -/
def IsEmpty (fragment : Bytes) : Prop := fragment = [] ∨ ∃ pad, fragment = 0 :: 0 :: pad

theorem takeFragment_empty (h : IsEmpty fragment) : d.takeFragment fragment = d.noteEmpty := by
  rcases h with rfl | ⟨pad, rfl⟩
  · rfl
  · simp [takeFragment, beNat]

/-! ## An honest stream -/

/-- The wire carries the chunks in order, each in a record with any padding up to the limit, and
empty records between them, at most 64 in a row; `n` are allowed before the next chunk. -/
inductive Dressed : Nat → List Bytes → Bytes → Prop where
  | nil (n : Nat) : Dressed n [] []
  | empty {n : Nat} {chunks : List Bytes} {fragment wire : Bytes} (hempty : IsEmpty fragment)
      (hlen : fragment.length ≤ maxRecordFragmentWire) (hwire : Dressed n chunks wire) :
      Dressed (n + 1) chunks (record fragment ++ wire)
  | chunk {n : Nat} {chunks : List Bytes} {chunk pad wire : Bytes} (hne : chunk ≠ [])
      (hlen : (beBytes 2 chunk.length ++ chunk ++ pad).length ≤ maxRecordFragmentWire)
      (hwire : Dressed maxConsecutiveEmpty chunks wire) :
      Dressed n (chunk :: chunks) (record (beBytes 2 chunk.length ++ chunk ++ pad) ++ wire)

/-- The wire begins with this record, or has part of it. -/
theorem record_cases {wire wire' : Bytes} (h : wire ++ rest = record fragment ++ wire') :
    (∃ w, wire = record fragment ++ w ∧ w ++ rest = wire') ∨
      wire <+: record fragment ∧ wire.length < (record fragment).length := by
  rcases append_eq_append_iff.1 h with ⟨missing, hrecord, hrest⟩ | ⟨w, hwire, hrest⟩
  · cases missing with
    | nil => exact .inl ⟨[], by simpa using hrecord.symm, by simpa using hrest⟩
    | cons => simp [*]
  · exact .inl ⟨w, hwire, hrest.symm⟩

/-- The deframer has the first part of a dressed stream, and `rest` is to come. -/
structure Tracks (d : RecordDeframer) (rest : Bytes) (chunks : List Bytes) : Prop where
  dressed : ∃ n, Dressed n chunks (d.wire ++ rest) ∧ d.consecutiveEmpty + n ≤ maxConsecutiveEmpty
  room : d.stream.length + d.wire.length ≤ d.cap + streamSlack

/-- What a turn, or all of them, keep of a tracked deframer. -/
structure Kept (d : RecordDeframer) (rest : Bytes) (chunks : List Bytes) (d' : RecordDeframer)
    (chunks' : List Bytes) : Prop where
  tracks : d'.Tracks rest chunks'
  stream : d'.stream ++ chunks'.flatten = d.stream ++ chunks.flatten
  cap : d'.cap = d.cap

theorem Tracks.drainRecord (h : d.Tracks rest chunks) : d.drainRecord = (d, .incomplete) ∨
      ∃ d' chunks', d.drainRecord = (d', .again) ∧ Kept d rest chunks d' chunks' := by
  obtain ⟨n, hdressed, hempty⟩ := h.dressed
  have hroom := h.room
  generalize hwire : d.wire ++ rest = wire at hdressed
  cases hdressed with
  | nil => simp_all [RecordDeframer.drainRecord]
  | empty hno hlen hrest =>
    rcases record_cases hwire with ⟨w, hw, rfl⟩ | ⟨hpart, hlt⟩
    · right
      rw [drainRecord_record hlen hw, takeFragment_empty hno, noteEmpty, if_neg (by simp; omega)]
      refine ⟨_, _, rfl, ⟨⟨_, hrest, by simp; omega⟩, ?_⟩, rfl, rfl⟩
      rw [hw, length_append] at hroom
      simp
      omega
    · exact .inl (drainRecord_part hlen hpart hlt)
  | @chunk n chunks chunk pad wire hne hlen hrest =>
    rcases record_cases hwire with ⟨w, hw, rfl⟩ | ⟨hpart, hlt⟩
    · right
      have hroom' : (d.stream ++ chunk).length + w.length ≤ d.cap + streamSlack := by
        grind [length_append, length_record]
      have hshort : chunk.length < 2 ^ 16 := by
        have hmax : maxRecordFragmentWire < 2 ^ 16 := by decide
        simp only [length_append] at hlen
        omega
      rw [drainRecord_record hlen hw, takeFragment_chunk hne hshort, if_neg (by simp only; omega)]
      exact ⟨_, _, rfl, ⟨⟨_, hrest, (Nat.zero_add _).le⟩, hroom'⟩, by simp, rfl⟩
    · exact .inl (drainRecord_part hlen hpart hlt)

theorem Tracks.drainRecords (h : d.Tracks rest chunks) :
    ∃ d' chunks', d.drainRecords = (d', none) ∧ Kept d rest chunks d' chunks' ∧
      d'.drainRecord = (d', .incomplete) := by
  induction hlen : d.wire.length using Nat.strong_induction_on generalizing d chunks with
  | _ k ih =>
    subst hlen
    rw [RecordDeframer.drainRecords]
    rcases h.drainRecord with hstop | ⟨d', chunks', hagain, hkept⟩
    · rw [hstop]
      exact ⟨d, chunks, rfl, ⟨h, rfl, rfl⟩, hstop⟩
    · rw [hagain]
      obtain ⟨d'', chunks'', hdrain, hkept', hstop⟩ :=
        ih _ (wire_drainRecord_lt hagain) hkept.tracks rfl
      exact ⟨d'', chunks'', hdrain, ⟨hkept'.tracks, hkept'.stream.trans hkept.stream,
        hkept'.cap.trans hkept.cap⟩, hstop⟩

/-! ## Messages -/

theorem popMessage_frame (hcap : m.length ≤ d.cap) (hlen : m.length < 2 ^ 32)
    (hstream : d.stream = frame m ++ rest) :
    d.popMessage = ({ d with stream := rest }, .ok (some m)) := by
  unfold popMessage
  simp only [hstream, take_frame hlen, drop_frame, length_append, length_frame, drop_left,
    take_left]
  rw [if_neg (by omega), if_neg (by omega), if_neg (by omega)]

theorem popMessage_part (hcap : m.length ≤ d.cap) (hlen : m.length < 2 ^ 32)
    (hpart : d.stream <+: frame m) (hlt : d.stream.length < (frame m).length) :
    d.popMessage = (d, .ok none) := by
  rw [length_frame] at hlt
  unfold popMessage
  split
  · rfl
  · simp only [take_cut hlen hpart (by omega)]
    rw [if_neg (by omega), if_pos (by omega)]

/-- What is left of the stream is less than a message. -/
theorem stream_lt_of_none (h : d.popMessage = (d', .ok none)) : d.stream.length < 4 + d.cap := by
  unfold popMessage at h
  split at h
  · omega
  · grind

/-- The messages still to come: the first one is popped, or has not arrived. -/
theorem popMessage_cases {tail : Bytes} (hcap : ∀ m ∈ ms, m.length ≤ d.cap)
    (hbig : d.cap < 2 ^ 32) (hstream : d.stream ++ tail = ms.flatMap frame) :
    d.popMessage = (d, .ok none) ∧ (tail = [] → ms = []) ∨
      ∃ m ms' stream, ms = m :: ms' ∧ stream ++ tail = ms'.flatMap frame ∧
        stream.length ≤ d.stream.length ∧
        d.popMessage = ({ d with stream }, .ok (some m)) := by
  cases ms with
  | nil => simp_all [popMessage]
  | cons m ms =>
    have hm := hcap m mem_cons_self
    rw [flatMap_cons] at hstream
    rcases append_eq_append_iff.1 hstream with ⟨missing, hframe, htail⟩ | ⟨stream, hs, htail⟩
    · cases missing with
      | nil =>
        rw [append_nil] at hframe
        refine .inr ⟨m, ms, [], rfl, by simpa using htail, Nat.zero_le _, ?_⟩
        exact popMessage_frame hm (by omega) (by rw [hframe, append_nil])
      | cons => grind [length_append, length_cons, popMessage_part]
    · grind [length_append, popMessage_frame]

/-! ## Feeding an honest stream -/

/-- The transport pushes the stream in pieces of at most 64 KiB, each when the last call has returned
`None`; the phase stays. -/
def Honest (wire : Bytes) (f : Feed) (e : Event) (_ : Feed) : Prop :=
  match e with
  | .push data => f.idle = true ∧ data.length ≤ 64 * 1024 ∧ f.pushed ++ data <+: wire
  | .next => True
  | .establish => False

structure Inv (cap : Nat) (ms : List Bytes) (wire : Bytes) (f : Feed) : Prop where
  cap : f.deframer.cap = cap
  failed : f.failed = none
  owed : ∃ rest chunks ms', f.pushed ++ rest = wire ∧ f.deframer.Tracks rest chunks ∧
    f.deframer.stream ++ chunks.flatten = ms'.flatMap frame ∧ f.got ++ ms' = ms ∧
    (f.idle = true → f.deframer.drainRecord = (f.deframer, .incomplete) ∧
      f.deframer.popMessage = (f.deframer, .ok none) ∧ (rest = [] → ms' = []))

theorem FramePhase.cap_le (phase : FramePhase) : phase.cap ≤ steadyStateFrameCap := by
  cases phase <;> decide

theorem Dressed.eq_nil {n : Nat} (h : Dressed n chunks []) : chunks = [] := by
  generalize hwire : ([] : Bytes) = wire at h
  cases h with
  | nil => rfl
  | empty | chunk => simp [record] at hwire

/-- When everything has arrived and no record is left, no chunk is. -/
theorem Tracks.eq_nil (h : d.Tracks [] chunks)
    (hstop : d.drainRecord = (d', .incomplete)) : chunks = [] := by
  obtain ⟨n, hdressed, -⟩ := h.dressed
  rw [append_nil] at hdressed
  generalize hwire : d.wire = wire at hdressed
  cases hdressed with
  | nil => rfl
  | empty _ hlen =>
    rw [drainRecord_record hlen hwire] at hstop
    exact absurd (congrArg Prod.snd hstop) (takeFragment_spec _ _).2.1
  | chunk _ hlen =>
    rw [drainRecord_record hlen hwire] at hstop
    exact absurd (congrArg Prod.snd hstop) (takeFragment_spec _ _).2.1

/-- The chunks of the messages. -/
def chunksOfMessages (ms : List Bytes) : List Bytes :=
  ms.flatMap fun m => chunksOf maxStreamChunk (frame m)

theorem flatten_chunksOfMessages (ms : List Bytes) :
    (chunksOfMessages ms).flatten = ms.flatMap frame := by
  induction ms with
  | nil => rfl
  | cons _ _ ih =>
    simp only [chunksOfMessages, flatMap_cons, flatten_append] at ih ⊢
    rw [ih, flatten_chunksOf (by decide)]

theorem Inv.start {phase : FramePhase}
    (h : Dressed maxConsecutiveEmpty (chunksOfMessages ms) wire) :
    Inv phase.cap ms wire (.start phase) := by
  refine ⟨rfl, rfl, wire, chunksOfMessages ms, ms, rfl, ⟨⟨_, h, (Nat.zero_add _).le⟩, ?_⟩,
    flatten_chunksOfMessages ms, rfl, fun _ => ⟨rfl, rfl, fun hnil => ?_⟩⟩
  · exact Nat.zero_le _
  · subst hnil
    have hflat := flatten_chunksOfMessages ms
    rw [h.eq_nil] at hflat
    cases ms with
    | nil => rfl
    | cons =>
      have hlen := congrArg List.length hflat
      simp only [flatten_nil, length_nil, flatMap_cons, length_append, length_frame] at hlen
      omega

theorem Inv.step
    (hms : ∀ m ∈ ms, m.length ≤ cap) (hcap : cap ≤ steadyStateFrameCap) (hinv : Inv cap ms wire f)
    (h : f.step e = some f') (hhonest : Honest wire f e f') : Inv cap ms wire f' := by
  obtain ⟨rest, chunks, ms', hpushed, htracks, hstream, hgot, hidle⟩ := hinv.owed
  have hsome : f.failed.any RecordError.overflow = false := by rw [hinv.failed]; rfl
  unfold Feed.step at h
  rw [hsome] at h
  cases e with
  | establish => exact hhonest.elim
  | push =>
    obtain ⟨hready, hdata, hle⟩ := hhonest
    obtain ⟨hstop, hnone, -⟩ := hidle hready
    obtain ⟨rest', hrest'⟩ := hle
    rw [append_assoc, ← hpushed, append_cancel_left_eq] at hrest'
    subst hrest'
    have hwire := wire_lt_of_incomplete hstop
    have hshort := stream_lt_of_none hnone
    cases h
    refine ⟨hinv.cap, hinv.failed, rest', chunks, ms', by simp [← hpushed], ⟨?_, ?_⟩, hstream, hgot,
      fun hfalse => by cases hfalse⟩
    · obtain ⟨n, hdressed, hempty⟩ := htracks.dressed
      exact ⟨n, by simpa [push] using hdressed, hempty⟩
    · simp only [push, length_append]
      unfold maxRecordFragmentWire maxRecordFragment at hwire
      unfold streamSlack
      omega
  | next =>
    obtain ⟨d', chunks', hdrain, hkept, hstop⟩ := htracks.drainRecords
    have hcap' : d'.cap = cap := hkept.cap.trans hinv.cap
    have hbig : d'.cap < 2 ^ 32 := by
      have hlt : steadyStateFrameCap < 2 ^ 32 := by decide
      omega
    have hin : ∀ m ∈ ms', m.length ≤ d'.cap := by grind
    simp only [Bool.false_eq_true, if_false, nextMessage, hdrain] at h
    rcases popMessage_cases hin hbig (hkept.stream.trans hstream) with
      ⟨hnone, hdone⟩ | ⟨m, ms'', stream, rfl, hrest, hle, hsome⟩
    · rw [hnone] at h
      cases h
      refine ⟨hcap', hinv.failed, rest, chunks', ms', hpushed, hkept.tracks,
        hkept.stream.trans hstream, hgot, fun _ => ⟨hstop, hnone, fun hnil => hdone ?_⟩⟩
      subst hnil
      rw [hkept.tracks.eq_nil hstop]
      rfl
    · rw [hsome] at h
      cases h
      have hroom := hkept.tracks.room
      exact ⟨hcap', hinv.failed, rest, chunks', ms'', hpushed,
        ⟨hkept.tracks.dressed, (Nat.add_le_add_right hle _).trans hroom⟩, hrest, by simpa using hgot,
        fun hfalse => by cases hfalse⟩

/-! ## Arbitrary input -/

/-- The most that one record adds to the stream. -/
def maxChunk : Nat := maxRecordFragmentWire - innerChunkHeaderLen

/-- The stream is within the slack, or a chunk above it when it has overflowed. -/
structure Within (d : RecordDeframer) (cap : Nat) (overflow : Bool) : Prop where
  stream_le : d.stream.length ≤ cap + streamSlack + maxChunk
  slack : overflow = false → d.stream.length ≤ cap + streamSlack
  cap : d.cap = cap

theorem drainRecord_within {turn : Turn} (hslack : d.stream.length ≤ d.cap + streamSlack)
    (h : d.drainRecord = (d', turn)) : d'.Within d.cap turn.overflow := by
  have hsame : d.Within d.cap turn.overflow :=
    ⟨hslack.trans (Nat.le_add_right _ _), fun _ => hslack, rfl⟩
  rcases d.drainRecord_cases with ⟨e, hturn⟩ | ⟨hturn, -⟩ | ⟨wire, fragment, -, hlen, hturn⟩
  · cases hturn.symm.trans h
    exact hsame
  · cases hturn.symm.trans h
    exact hsame
  · obtain ⟨hcap, -, hmore, hgood⟩ := takeFragment_spec { d with wire } fragment
    rw [← hturn, h] at hcap hmore hgood
    refine ⟨?_, hgood hslack, hcap⟩
    unfold maxChunk
    dsimp only at hmore
    omega

theorem drainRecords_within (hslack : d.stream.length ≤ d.cap + streamSlack) :
    d.drainRecords.1.Within d.cap (d.drainRecords.2.any RecordError.overflow) := by
  induction hlen : d.wire.length using Nat.strong_induction_on generalizing d with
  | _ k ih =>
    subst hlen
    rw [drainRecords]
    split
    · rename_i hagain
      have hwithin := drainRecord_within hslack hagain
      have hrest := ih _ (wire_drainRecord_lt hagain) (by
        rw [hwithin.cap]
        exact hwithin.slack rfl) rfl
      rwa [hwithin.cap] at hrest
    · exact drainRecord_within hslack ‹_›
    · exact drainRecord_within hslack ‹_›

theorem popMessage_shrinks (d : RecordDeframer) :
    d.popMessage.1.cap = d.cap ∧ d.popMessage.1.stream.length ≤ d.stream.length := by
  unfold popMessage
  dsimp only
  repeat' split
  all_goals
    refine ⟨rfl, ?_⟩
    simp

theorem nextMessage_within (hslack : d.stream.length ≤ d.cap + streamSlack) :
    ∃ overflow, d.nextMessage.1.Within d.cap overflow ∧
      (overflow = true → ∃ e, d.nextMessage.2 = .error e ∧ e.overflow = true) := by
  have hwithin := drainRecords_within hslack
  unfold nextMessage
  split
  · rename_i e hdrain
    rw [hdrain] at hwithin
    exact ⟨e.overflow, hwithin, fun hover => ⟨e, rfl, hover⟩⟩
  · rename_i d' hdrain
    rw [hdrain] at hwithin
    obtain ⟨hcap, hle⟩ := popMessage_shrinks d'
    have hslack' := hle.trans (hwithin.slack rfl)
    exact ⟨false, ⟨hslack'.trans (Nat.le_add_right _ _), fun _ => hslack', hcap.trans hwithin.cap⟩,
      nofun⟩

structure Bounded (f : Feed) : Prop where
  within : f.deframer.Within f.deframer.cap (f.failed.any RecordError.overflow)
  cap_le : f.deframer.cap ≤ steadyStateFrameCap

theorem Within.bounded {overflow : Bool} {f : Feed}
    (h : f.deframer.Within cap overflow) (hle : cap ≤ steadyStateFrameCap)
    (hover : overflow = true → f.failed.any RecordError.overflow = true) : Bounded f := by
  have hcap := h.cap
  subst hcap
  refine ⟨⟨h.stream_le, fun hgood => h.slack ?_, rfl⟩, hle⟩
  exact Bool.eq_false_iff.2 fun htrue => Bool.eq_false_iff.1 hgood (hover htrue)

theorem Bounded.step (hinv : Bounded f) (h : f.step e = some f') : Bounded f' := by
  unfold Feed.step at h
  split at h
  · cases h
  · rename_i hgood
    have hslack := hinv.within.slack (Bool.eq_false_iff.2 hgood)
    cases e with
    | push =>
      cases h
      exact ⟨⟨hinv.within.stream_le, hinv.within.slack, rfl⟩, hinv.cap_le⟩
    | establish =>
      cases h
      have hmore := hslack.trans (Nat.add_le_add_right hinv.cap_le streamSlack)
      exact ⟨⟨hmore.trans (Nat.le_add_right _ _), fun _ => hmore, rfl⟩, le_rfl⟩
    | next =>
      obtain ⟨overflow, hwithin, hover⟩ := nextMessage_within hslack
      dsimp only at h
      split at h <;> rename_i hnext <;> rw [hnext] at hwithin hover <;> cases h
      · exact hwithin.bounded hinv.cap_le fun htrue => by simpa using hover htrue
      · exact hwithin.bounded hinv.cap_le fun htrue => by simpa using hover htrue
      · exact hwithin.bounded hinv.cap_le fun htrue => by simpa using hover htrue

/-- **Deframing.** An honest stream of messages within the cap, in whatever pieces it arrives, comes
out as these messages without an error, all of them when everything has arrived and the last call
returned `None`. Whatever arrives, the stream buffer is never above the cap by more than the slack
and one chunk, up to the first overflow. -/
theorem deframe_spec :
    (∀ (phase : FramePhase) (ms : List Bytes) (wire : Bytes) (es : List Event) (f : Feed),
      (∀ m ∈ ms, m.length ≤ phase.cap) →
      Dressed maxConsecutiveEmpty (chunksOfMessages ms) wire →
      Lts.Along Feed.step (Honest wire) (.start phase) es →
      Lts.run Feed.step (.start phase) es = some f →
      f.failed = none ∧ f.got <+: ms ∧ (f.pushed = wire → f.idle = true → f.got = ms)) ∧
      ∀ (phase : FramePhase) (es : List Event) (f : Feed),
        Lts.run Feed.step (.start phase) es = some f →
        f.deframer.stream.length ≤ f.deframer.cap + streamSlack + maxChunk := by
  constructor
  · intro phase ms wire es f hms hdressed hhonest hrun
    have hinv : Inv phase.cap ms wire f :=
      Lts.run_inv_along (fun _ _ _ hi hs hp => Inv.step hms (FramePhase.cap_le phase) hi hs hp) es
        (Inv.start hdressed) hhonest hrun
    obtain ⟨rest, chunks, ms', hpushed, -, -, hgot, hidle⟩ := hinv.owed
    refine ⟨hinv.failed, ⟨ms', hgot⟩, fun hall hready => ?_⟩
    have hnil : rest = [] := by simp_all
    have hdone := (hidle hready).2.2 hnil
    rwa [hdone, append_nil] at hgot
  · intro phase es f hrun
    have hstart : Bounded (.start phase) :=
      ⟨⟨Nat.zero_le _, fun _ => Nat.zero_le _, rfl⟩, FramePhase.cap_le phase⟩
    have hinv : Bounded f := Lts.run_inv (fun _ _ _ hi hs => Bounded.step hi hs) es hstart hrun
    exact hinv.within.stream_le

theorem mapM_encodeRecord (h : ∀ c ∈ chunks, c ≠ [] ∧ c.length ≤ maxStreamChunk) :
    ∃ records, (chunks.mapM fun c =>
        encodeRecord ctApplicationData verTls12 (beBytes 2 c.length ++ c)) = .ok records ∧
      ∀ n, Dressed n chunks records.flatten := by
  induction chunks with
  | nil => exact ⟨[], rfl, .nil⟩
  | cons c chunks ih =>
    obtain ⟨hne, hlen⟩ := h c mem_cons_self
    obtain ⟨records, hrecords, hdressed⟩ := ih fun c hc => h c (mem_cons_of_mem _ hc)
    have hmax : maxStreamChunk + 2 ≤ maxRecordFragmentWire := by decide
    have hfits : (beBytes 2 c.length ++ c).length ≤ maxRecordFragmentWire := by
      rw [length_append, beBytes_length]
      omega
    refine ⟨record (beBytes 2 c.length ++ c) :: records, ?_, fun n => ?_⟩
    · rw [mapM_cons, hrecords, encodeRecord, if_neg (Nat.not_lt.2 hfits)]
      rfl
    · have hdressed' : Dressed n (c :: chunks)
          (record (beBytes 2 c.length ++ c ++ []) ++ records.flatten) :=
        .chunk hne (by rwa [append_nil]) (hdressed _)
      rwa [append_nil] at hdressed'

theorem frameMessage_dressed (h : m.length < 2 ^ 32) : ∃ wire, frameMessage m = .ok wire ∧
      Dressed maxConsecutiveEmpty (chunksOfMessages [m]) wire := by
  obtain ⟨records, hrecords, hdressed⟩ := @mapM_encodeRecord (chunksOfMessages [m]) (by
    intro c hc
    simp only [chunksOfMessages, flatMap_cons, flatMap_nil, append_nil] at hc
    exact ⟨ne_nil_of_mem_chunksOf (by decide) hc, length_le_of_mem_chunksOf hc⟩)
  refine ⟨records.flatten, ?_, hdressed _⟩
  simp only [chunksOfMessages, flatMap_cons, flatMap_nil, append_nil] at hrecords
  rw [frameMessage, if_neg (by omega), hrecords]
  rfl

/-- A message of three bytes arrives in two pieces. -/
theorem deframe_spec_one :
    ∃ f, frameMessage [1, 2, 3] = .ok ([23, 3, 3, 0, 9, 0] ++ [7, 0, 0, 0, 3, 1, 2, 3]) ∧
      Lts.run Feed.step (.start .handshake) [.push [23, 3, 3, 0, 9, 0], .next,
        .push [7, 0, 0, 0, 3, 1, 2, 3], .next, .next] = some f ∧
      f.failed = none ∧ f.got = [[1, 2, 3]] ∧
      f.deframer.stream.length ≤ f.deframer.cap + streamSlack + maxChunk := by
  have hframe : frameMessage [1, 2, 3] =
    .ok ([23, 3, 3, 0, 9, 0] ++ [7, 0, 0, 0, 3, 1, 2, 3]) := rfl
  obtain ⟨wire, hwire, hdressed⟩ := @frameMessage_dressed [1, 2, 3] (by decide)
  obtain rfl := Except.ok.inj (hframe.symm.trans hwire)
  have hnone : ((new.setPhase .handshake).push [23, 3, 3, 0, 9, 0]).nextMessage =
      (new.push [23, 3, 3, 0, 9, 0], .ok none) := by decide +kernel
  have hsome : ((new.push [23, 3, 3, 0, 9, 0]).push [7, 0, 0, 0, 3, 1, 2, 3]).nextMessage =
      (new, .ok (some [1, 2, 3])) := by decide +kernel
  have hend : new.nextMessage = (new, .ok none) := by decide +kernel
  have hrun : Lts.run Feed.step (.start .handshake) [.push [23, 3, 3, 0, 9, 0], .next,
      .push [7, 0, 0, 0, 3, 1, 2, 3], .next, .next] =
        some ⟨new, [23, 3, 3, 0, 9, 0] ++ [7, 0, 0, 0, 3, 1, 2, 3], true, [[1, 2, 3]], none⟩ := by
    simp [Lts.run, Feed.step, Feed.start, hnone, hsome, hend]
  obtain ⟨hfailed, -, hgot⟩ := deframe_spec.1 .handshake [[1, 2, 3]] _ _ _ (by decide) hdressed
    (by simp [Lts.Along, Feed.step, Feed.start, Honest, hnone]) hrun
  exact ⟨_, hframe, hrun, hfailed, hgot rfl rfl, deframe_spec.2 _ _ _ hrun⟩

/-! ## After an error -/

theorem drainRecords_chunk {chunk w : Bytes} (hne : chunk ≠ []) (hlen : chunk.length ≤ maxStreamChunk)
    (hwire : d.wire = record (beBytes 2 chunk.length ++ chunk) ++ w) :
    d.drainRecords =
      let d' := { d with wire := w, consecutiveEmpty := 0, stream := d.stream ++ chunk }
      if d.cap + streamSlack < d'.stream.length then
        (d', some (.streamExceeded d'.stream.length d.cap))
      else d'.drainRecords := by
  have hmax : maxStreamChunk + 2 ≤ maxRecordFragmentWire := by decide
  have hword : maxStreamChunk < 2 ^ 16 := by decide
  have hfits : (beBytes 2 chunk.length ++ chunk).length ≤ maxRecordFragmentWire := by
    rw [length_append, beBytes_length]
    omega
  have hturn := drainRecord_record hfits hwire
  rw [← append_nil (_ ++ chunk), takeFragment_chunk hne (by omega)] at hturn
  dsimp only at hturn ⊢
  rw [drainRecords]
  by_cases hover : d.cap + streamSlack < (d.stream ++ chunk).length
  · rw [if_pos hover] at hturn ⊢
    rw [hturn]
  · rw [if_neg hover] at hturn ⊢
    rw [hturn]

/-- A chunk of zeros as long as the framer makes them, in its record. -/
def zeros : Bytes := List.replicate maxStreamChunk 0

def zerosRecord : Bytes := record (beBytes 2 zeros.length ++ zeros)

theorem length_zeros : zeros.length = maxStreamChunk := length_replicate

theorem zeros_ne_nil : zeros ≠ [] := by
  intro hnil
  have hlen := congrArg List.length hnil
  rw [length_zeros] at hlen
  exact absurd hlen (by decide)

theorem drainRecords_zeros (k : Nat) (hempty : d.consecutiveEmpty = 0)
    (hwire : d.wire = (List.replicate k zerosRecord).flatten ++ w)
    (hroom : d.stream.length + k * maxStreamChunk ≤ d.cap + streamSlack) :
    ∃ stream, stream.length = d.stream.length + k * maxStreamChunk ∧
      d.drainRecords = { d with wire := w, stream }.drainRecords := by
  induction k generalizing d with
  | zero => exact ⟨d.stream, by simp, by simp [← show d.wire = w by simpa using hwire]⟩
  | succ k ih =>
    rw [replicate_succ, flatten_cons, append_assoc] at hwire
    rw [Nat.succ_mul] at hroom
    have hlen : (d.stream ++ zeros).length = d.stream.length + maxStreamChunk := by
      rw [length_append, length_zeros]
    obtain ⟨stream, hstream, hdrain⟩ := @ih
      { d with
        wire := (List.replicate k zerosRecord).flatten ++ w
        consecutiveEmpty := 0
        stream := d.stream ++ zeros } rfl rfl (by simp only [hlen]; omega)
    refine ⟨stream, by rw [hstream, hlen, Nat.succ_mul]; omega, ?_⟩
    rw [drainRecords_chunk zeros_ne_nil length_zeros.le hwire]
    simp only [hlen]
    rw [if_neg (by omega), hdrain, hempty]

theorem drainRecords_over (hwire : d.wire = zerosRecord ++ w)
    (hover : d.cap + streamSlack < d.stream.length + maxStreamChunk) :
    d.drainRecords = ({ d with wire := w, consecutiveEmpty := 0, stream := d.stream ++ zeros },
      some (.streamExceeded (d.stream ++ zeros).length d.cap)) := by
  rw [drainRecords_chunk zeros_ne_nil length_zeros.le hwire]
  exact if_pos (by simpa [length_zeros] using hover)

/-- Whoever calls `next_message` again after the buffer was found too long adds the next record to it:
of 22 records the first call fails at the 21st, and the second call is above the bound. -/
theorem stream_after_error :
    ∃ input d e, (new.push input).nextMessage = (d, .error e) ∧
      d.cap + streamSlack + maxChunk < d.nextMessage.1.stream.length := by
  have hchunk : maxStreamChunk = 16382 := rfl
  have hslack : streamSlack = 262144 := rfl
  have hcap : handshakeFrameCap = 65536 := rfl
  have hmore : maxChunk = 16638 := rfl
  have hzeros := length_zeros
  obtain ⟨stream, hstream, hdrain⟩ := @drainRecords_zeros
    (new.push ((List.replicate 20 zerosRecord).flatten ++ (zerosRecord ++ zerosRecord)))
    (zerosRecord ++ zerosRecord) 20 rfl (nil_append _)
    (by simp only [push, new, length_nil]; omega)
  simp only [push, new, length_nil] at hstream
  have hfirst := @drainRecords_over
    ⟨zerosRecord ++ zerosRecord, stream, handshakeFrameCap, 0⟩ zerosRecord rfl (by simp only; omega)
  have hsecond := @drainRecords_over
    ⟨zerosRecord, stream ++ zeros, handshakeFrameCap, 0⟩ [] (append_nil _).symm (by
      simp only [length_append]
      omega)
  refine ⟨(List.replicate 20 zerosRecord).flatten ++ (zerosRecord ++ zerosRecord),
    ⟨zerosRecord, stream ++ zeros, handshakeFrameCap, 0⟩,
    .streamExceeded (stream ++ zeros).length handshakeFrameCap, ?_, ?_⟩
  · rw [nextMessage, hdrain]
    simp only [push, new]
    rw [hfirst]
  · rw [nextMessage, hsecond]
    simp only [length_append]
    omega

end PhantomProtocol.RecordDeframer
