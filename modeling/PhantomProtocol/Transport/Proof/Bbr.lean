import PhantomProtocol.Lib.Run
import PhantomProtocol.Transport.Proof.WindowFilter

/-!
# Round trips

What `on_ack` does to the flight, the round counter and `min_rtt`, which the rest of the estimator
only reads.
-/

namespace PhantomProtocol

open List

namespace BbrEstimator

/-! ## What an acknowledgement leaves alone -/

/-- The counters that mark rounds. -/
structure Rounds where
  delivered : Nat
  next : Nat
  count : Nat
  start : Bool
deriving DecidableEq

/-- The counters after an acknowledgement of `bytes`, sent when `stamp` bytes were delivered. -/
def Rounds.take (r : Rounds) (stamp bytes : Nat) : Rounds :=
  let delivered := (r.delivered + bytes) % (u64Max + 1)
  if r.next ≤ stamp then ⟨delivered, delivered, (r.count + 1) % (u32Max + 1), true⟩
  else ⟨delivered, r.next, r.count, false⟩

def rounds (e : BbrEstimator) : Rounds :=
  ⟨e.deliveredBytes, e.nextRoundDelivered, e.roundCount, e.roundStart⟩

/-- The round-trip filter and its reading. -/
structure Timing where
  minRtt : Nat
  rttFilter : WindowFilter
  seeded : Bool
deriving DecidableEq

/-- `rtt_floor`. -/
def Timing.floor (t : Timing) : Option Nat := if t.seeded then some t.minRtt else none

/-- The round trip taken from a sample. -/
def Timing.adjusted (t : Timing) (sample : DeliverySample) : Nat :=
  ackDelayAdjustedRtt (sample.ackedAt - sample.sentAt) t.floor sample.ackDelayUs

/-- The filter after a sample. -/
def Timing.take (t : Timing) (sample : DeliverySample) : Timing :=
  if sample.rttSampled ∧ 0 < wholeMicros (t.adjusted sample) then
    let r := t.rttFilter.updateMin sample.ackedAt (wholeMicros (t.adjusted sample))
    ⟨micros r.2, r.1, true⟩
  else t

def timing (e : BbrEstimator) : Timing := ⟨e.minRtt, e.rttFilter, e.rttFilterSeeded⟩

structure Agrees (e e' : BbrEstimator) : Prop where
  rounds : e'.rounds = e.rounds
  timing : e'.timing = e.timing
  flight : e'.inflightBytes = e.inflightBytes

namespace Agrees

theorem refl (e : BbrEstimator) : Agrees e e := ⟨rfl, rfl, rfl⟩

theorem trans {e e' e'' : BbrEstimator} (h : Agrees e e') (h' : Agrees e' e'') : Agrees e e'' :=
  ⟨h'.rounds.trans h.rounds, h'.timing.trans h.timing, h'.flight.trans h.flight⟩

theorem transitionTo {e e' : BbrEstimator} (h : Agrees e e') (newState : BbrState) :
    Agrees e (e'.transitionTo newState) := by
  cases newState <;> exact h.trans ⟨rfl, rfl, rfl⟩

variable (fp : Float64) (e : BbrEstimator)

theorem checkStartupFullBandwidth (isAppLimited : Bool) :
    Agrees e (e.checkStartupFullBandwidth fp isAppLimited) := by
  unfold BbrEstimator.checkStartupFullBandwidth
  dsimp only
  split_ifs
  · exact .refl e
  · exact ⟨rfl, rfl, rfl⟩
  · apply transitionTo
    exact ⟨rfl, rfl, rfl⟩
  · exact ⟨rfl, rfl, rfl⟩

theorem probeRttTurn (now : Nat) : Agrees e (e.probeRttTurn now) := by
  unfold BbrEstimator.probeRttTurn
  split
  · apply transitionTo
    exact ⟨rfl, rfl, rfl⟩
  · generalize (if e.pipeIsDrained = true then _ else _) = drainedAt
    dsimp only
    split_ifs
    · apply transitionTo
      exact ⟨rfl, rfl, rfl⟩
    · exact ⟨rfl, rfl, rfl⟩

theorem updateState (now : Nat) (isAppLimited : Bool) :
    Agrees e (e.updateState fp now isAppLimited) := by
  unfold BbrEstimator.updateState
  split
  · exact ⟨rfl, rfl, rfl⟩
  · split
    · exact checkStartupFullBandwidth fp e isAppLimited
    · split
      · exact transitionTo (.refl e) _
      · exact .refl e
    · exact ⟨rfl, rfl, rfl⟩
    · exact probeRttTurn e now

theorem adaptInflightBound (isAppLimited : Bool) :
    Agrees e (e.adaptInflightBound fp isAppLimited) := by
  unfold BbrEstimator.adaptInflightBound
  dsimp only
  split_ifs <;> exact ⟨rfl, rfl, rfl⟩

theorem sampleRate (sample : DeliverySample) : Agrees e (e.sampleRate fp sample) := by
  unfold BbrEstimator.sampleRate
  dsimp only
  split_ifs <;> exact ⟨rfl, rfl, rfl⟩

theorem endAppLimited : Agrees e e.endAppLimited := by
  unfold BbrEstimator.endAppLimited
  split_ifs <;> exact ⟨rfl, rfl, rfl⟩

theorem settle (sample : DeliverySample) : Agrees e (e.settle fp sample) := by
  unfold BbrEstimator.settle
  dsimp only
  refine ((sampleRate fp e sample).trans (endAppLimited _)).trans (.trans ?_ (updateState fp _ _ _))
  split_ifs
  · exact adaptInflightBound fp _ _
  · exact .refl _

end Agrees

variable (fp : Float64) (e : BbrEstimator) (sample : DeliverySample)

theorem updateRound_frame (packetDelivered : Nat) :
    (e.updateRound packetDelivered).timing = e.timing ∧
      (e.updateRound packetDelivered).inflightBytes = e.inflightBytes := by
  unfold updateRound
  split_ifs
  · exact ⟨rfl, rfl⟩
  · exact ⟨rfl, rfl⟩

theorem sampleRtt_frame (adjustedRtt : Nat) : (e.sampleRtt sample adjustedRtt).rounds = e.rounds ∧
      (e.sampleRtt sample adjustedRtt).inflightBytes = e.inflightBytes := by
  unfold sampleRtt
  dsimp only
  split_ifs
  · exact ⟨rfl, rfl⟩
  · exact ⟨rfl, rfl⟩

theorem timing_sampleRtt :
    (e.sampleRtt sample (e.timing.adjusted sample)).timing = e.timing.take sample := by
  unfold sampleRtt Timing.take
  dsimp only
  split_ifs <;> rfl

theorem rounds_updateRound_countDelivery :
    ((e.countDelivery sample).updateRound sample.deliveredBytes).rounds =
      e.rounds.take sample.deliveredBytes sample.packetBytes := by
  unfold updateRound Rounds.take
  exact apply_ite rounds ..

/-- What an acknowledgement does to the round counter. -/
theorem rounds_onAck :
    (e.onAck fp sample).1.rounds = e.rounds.take sample.deliveredBytes sample.packetBytes := by
  rw [← rounds_updateRound_countDelivery]
  exact (Agrees.settle fp _ sample).rounds.trans (sampleRtt_frame ..).1

/-- What it does to `min_rtt`. -/
theorem timing_onAck : (e.onAck fp sample).1.timing = e.timing.take sample := by
  have hcounted : ((e.countDelivery sample).updateRound sample.deliveredBytes).timing = e.timing :=
    (updateRound_frame ..).1
  rw [← hcounted, ← timing_sampleRtt]
  exact (Agrees.settle fp _ sample).timing

/-- What it does to the flight. -/
theorem flight_onAck : (e.onAck fp sample).1.inflightBytes = e.inflightBytes - sample.packetBytes :=
  calc (e.onAck fp sample).1.inflightBytes
    _ = _ := (Agrees.settle fp _ sample).flight
    _ = _ := (sampleRtt_frame ..).2
    _ = _ := (updateRound_frame ..).2

/-! ## The floor under `min_rtt` -/

def observedUs (sample : DeliverySample) : Nat := wholeMicros (sample.ackedAt - sample.sentAt)

/-- One of the samples with a usable round trip took at most `us` microseconds. -/
def Observed (samples : List DeliverySample) (us : Nat) : Prop :=
  ∃ s ∈ samples, s.rttSampled = true ∧ observedUs s ≤ us

/-- Nothing the filter holds, nor its reading, is below every observed round trip. -/
structure Floored (samples : List DeliverySample) (t : Timing) : Prop where
  entries : ∀ e ∈ t.rttFilter.window, Observed samples e.2
  reading : t.seeded = true → ∃ us, t.minRtt = micros us ∧ Observed samples us

variable {samples : List DeliverySample} {t : Timing} {s : DeliverySample}

theorem Observed.append {us : Nat} (h : Observed samples us) (more : List DeliverySample) :
    Observed (samples ++ more) us := by
  obtain ⟨s, hs, hrest⟩ := h
  exact ⟨s, mem_append_left _ hs, hrest⟩

theorem wholeMicros_mono {a b : Nat} (h : a ≤ b) : wholeMicros a ≤ wholeMicros b := by
  have := Nat.div_le_div_right (c := 1000) h
  unfold wholeMicros
  omega

theorem ackDelayAdjustedRtt_cases (latestRtt : Nat) (rttFloor : Option Nat) (ackDelayUs : Nat) :
    ackDelayAdjustedRtt latestRtt rttFloor ackDelayUs = latestRtt ∨
      ∃ floor ∈ rttFloor, floor ≤ ackDelayAdjustedRtt latestRtt rttFloor ackDelayUs := by
  cases rttFloor with
  | none => exact .inl rfl
  | some floor =>
    rw [ackDelayAdjustedRtt]
    split_ifs with h
    · exact .inr ⟨floor, rfl, by omega⟩
    · exact .inl rfl

/-- The round trip offered to the filter is not below every observed one: it was observed itself, or
is at or above the current reading. -/
theorem Floored.adjusted (h : Floored samples t) (hsampled : s.rttSampled = true) :
    Observed (samples ++ [s]) (wholeMicros (t.adjusted s)) := by
  rcases ackDelayAdjustedRtt_cases (s.ackedAt - s.sentAt) t.floor s.ackDelayUs with
    hraw | ⟨floor, hfloor, hle⟩
  · refine ⟨s, by simp, hsampled, ?_⟩
    rw [Timing.adjusted, hraw, observedUs]
  · obtain ⟨hseeded, rfl⟩ : t.seeded = true ∧ t.minRtt = floor := by
      simpa [Timing.floor] using hfloor
    obtain ⟨us, hread, s', hs', hsampled', hus⟩ := h.reading hseeded
    refine ⟨s', mem_append_left _ hs', hsampled', ?_⟩
    have hcap : observedUs s' ≤ u64Max := Nat.min_le_right ..
    have hmono := wholeMicros_mono hle
    rw [hread] at hmono
    have hus' : wholeMicros (micros us) = min us u64Max := by
      rw [wholeMicros, micros, Nat.mul_div_cancel _ (by decide)]
    rw [hus'] at hmono
    exact (le_min hus hcap).trans hmono

theorem updateMin_mem (f : WindowFilter) (now value : Nat) :
    (∀ e ∈ (f.updateMin now value).1.window, e ∈ f.window ∨ e = (now, value)) ∧
      ((f.updateMin now value).2 = value ∨
        ∃ e ∈ (f.updateMin now value).1.window, (f.updateMin now value).2 = e.2) := by
  rw [WindowFilter.updateMin_eq]
  refine ⟨fun e he => ?_, ?_⟩
  · rcases WindowExtremum.mem_update he with he | rfl
    · exact .inl (WindowExtremum.kept_sublist.subset he)
    · exact .inr rfl
  · by_cases hne : (f.updateBy (· ≥ ·) now value).1.window = []
    · left
      show ((f.updateBy (· ≥ ·) now value).1.head).getD value = value
      rw [WindowFilter.head, hne]
      rfl
    · grind [WindowFilter.reading_updateBy]

theorem Floored.take (h : Floored samples t) (s : DeliverySample) :
    Floored (samples ++ [s]) (t.take s) := by
  unfold Timing.take
  split_ifs with htaken
  · have hoffered := h.adjusted htaken.1
    obtain ⟨hmem, hread⟩ := updateMin_mem t.rttFilter s.ackedAt (wholeMicros (t.adjusted s))
    have hentries : ∀ e ∈ (t.rttFilter.updateMin s.ackedAt (wholeMicros (t.adjusted s))).1.window,
        Observed (samples ++ [s]) e.2 := by
      intro e he
      rcases hmem e he with he | rfl
      · exact (h.entries e he).append [s]
      · exact hoffered
    refine ⟨hentries, fun _ => ⟨_, rfl, ?_⟩⟩
    grind
  · refine ⟨fun e he => (h.entries e he).append [s], fun hseeded => ?_⟩
    obtain ⟨us, hread, hobs⟩ := h.reading hseeded
    exact ⟨us, hread, hobs.append [s]⟩

/-- The estimator after acknowledgements. -/
def acked (fp : Float64) (start : Nat) (samples : List DeliverySample) : BbrEstimator :=
  samples.foldl (fun e s => (e.onAck fp s).1) (new start)

theorem floored_acked (fp : Float64) (start : Nat) (samples : List DeliverySample) :
    Floored samples (acked fp start samples).timing := by
  induction samples using List.reverseRecOn with
  | nil =>
    refine ⟨fun e he => ?_, fun h => ?_⟩
    · cases he
    · cases h
  | append_singleton _ s ih =>
    rw [acked, foldl_append, foldl_cons, foldl_nil, timing_onAck]
    exact ih.take s

/-- **A peer cannot talk `min_rtt` below the clock.** Whatever delays it claims, the reading is at
least the smallest round trip this side has timed. -/
theorem observed_le_minRtt (fp : Float64) (start : Nat) (samples : List DeliverySample)
    (hseeded : (acked fp start samples).rttFilterSeeded = true) :
    ∃ s ∈ samples, s.rttSampled = true ∧
      micros (observedUs s) ≤ (acked fp start samples).minRtt := by
  obtain ⟨us, hread, s, hs, hsampled, hus⟩ := (floored_acked fp start samples).reading hseeded
  refine ⟨s, hs, hsampled, ?_⟩
  have hread' : (acked fp start samples).minRtt = micros us := hread
  rw [hread']
  exact Nat.mul_le_mul_right 1000 hus

/-- A peer that claims 199.9 ms of a round trip of 200 ms. -/
theorem observed_le_minRtt_claimed :
    (acked .exact 0 [⟨0, 0, 0, millis 200, 1200, false, 199900, true⟩,
      ⟨1200, millis 200, millis 200, millis 400, 1200, false, 199900, true⟩]).minRtt = millis 200 ∧
    ∃ s ∈ ([⟨0, 0, 0, millis 200, 1200, false, 199900, true⟩,
      ⟨1200, millis 200, millis 200, millis 400, 1200, false, 199900, true⟩] : List DeliverySample),
      s.rttSampled = true ∧ micros (observedUs s) ≤
        (acked .exact 0 [⟨0, 0, 0, millis 200, 1200, false, 199900, true⟩,
          ⟨1200, millis 200, millis 200, millis 400, 1200, false, 199900, true⟩]).minRtt :=
  ⟨by decide, observed_le_minRtt .exact 0 _ (by decide)⟩

end BbrEstimator

/-! ## Rounds -/

namespace RoundTrips

open Lts BbrEstimator

/-- A segment in flight. -/
structure Segment where
  bytes : Nat
  /-- `delivered_bytes` at its first transmission. -/
  stamp : Nat
  sentStep : Nat
deriving DecidableEq

structure State where
  est : BbrEstimator
  steps : Nat
  flying : List Segment
  /-- The steps at which an acknowledgement has opened a round. -/
  opened : List Nat
deriving DecidableEq

inductive Event where
  | send (bytes : Nat)
  /-- The acknowledgement of the segment at this place of the flight, which leaves it. What the
  segment does not say is taken from `rest`. -/
  | ack (index : Nat) (rest : DeliverySample)
  | retransmit (bytes : Nat)
  | loss (bytes : Nat)
  | appLimitedDrain
deriving DecidableEq

def init (start : Nat) : State := ⟨.new start, 0, [], []⟩

/-- The sample `on_ack` gets for a segment. -/
def sampleFor (seg : Segment) (rest : DeliverySample) : DeliverySample :=
  { rest with deliveredBytes := seg.stamp, packetBytes := seg.bytes }

/-- The segment at `index` is acknowledged. -/
def State.ack (fp : Float64) (s : State) (index : Nat) (seg : Segment) (rest : DeliverySample) :
    State :=
  let est := (s.est.onAck fp (sampleFor seg rest)).1
  { s with
    est
    steps := s.steps + 1
    flying := s.flying.eraseIdx index
    opened := if est.roundStart then s.steps :: s.opened else s.opened }

def step (fp : Float64) (s : State) : Event → Option State
  | .send bytes =>
    some { s with
      est := s.est.onSend bytes
      steps := s.steps + 1
      flying := s.flying ++ [⟨bytes, s.est.deliveredBytes, s.steps⟩] }
  | .ack index rest =>
    s.flying[index]?.map fun seg => s.ack fp index seg rest
  | .retransmit bytes => some { s with est := s.est.onRetransmit bytes, steps := s.steps + 1 }
  | .loss bytes => some { s with est := s.est.onLoss bytes, steps := s.steps + 1 }
  | .appLimitedDrain => some { s with est := s.est.noteAppLimitedDrain fp, steps := s.steps + 1 }

/-- An acknowledgement that advances the round count is for a segment sent after every earlier one
that opened a round. -/
def ClosesOnce (s : State) (e : Event) (s' : State) : Prop :=
  match e with
  | .ack index _ =>
    s'.est.roundCount ≠ s.est.roundCount →
      ∀ seg ∈ s.flying[index]?, ∀ opening ∈ s.opened, opening < seg.sentStep
  | _ => True

/-- The delivered total does not wrap; and when an empty segment's acknowledgement opens a round, no
other segment in flight was sent at the total of now. -/
def OpensByBytes (s : State) (e : Event) (_ : State) : Prop :=
  match e with
  | .ack index _ =>
    ∀ seg ∈ s.flying[index]?,
      s.est.deliveredBytes + seg.bytes ≤ u64Max ∧
      (seg.bytes = 0 → s.est.nextRoundDelivered ≤ seg.stamp →
        ∀ other ∈ s.flying.eraseIdx index, other.stamp ≠ s.est.deliveredBytes)
  | _ => True

instance (s : State) (e : Event) (s' : State) : Decidable (OpensByBytes s e s') := by
  unfold OpensByBytes
  split <;> infer_instance

/-- Stamps against the marks of the rounds. -/
structure Marked (s : State) : Prop where
  next_le : s.est.nextRoundDelivered ≤ s.est.deliveredBytes
  stamp_le : ∀ seg ∈ s.flying, seg.stamp ≤ s.est.deliveredBytes
  opened_lt : ∀ opening ∈ s.opened, opening < s.steps
  /-- What was in flight when a round opened is below the mark. -/
  below : ∀ seg ∈ s.flying, ∀ opening ∈ s.opened, seg.sentStep ≤ opening →
    seg.stamp < s.est.nextRoundDelivered

theorem marked_init (start : Nat) : Marked (init start) := by
  constructor <;> simp [init, BbrEstimator.new, BandwidthEstimator.new]

variable {fp : Float64} {s s' : State} {rest : DeliverySample} {index : Nat} {e : Event}

theorem Marked.same {est : BbrEstimator} (h : Marked s) (hest : est.rounds = s.est.rounds) :
    Marked { s with est, steps := s.steps + 1 } := by
  have hdelivered : est.deliveredBytes = s.est.deliveredBytes := congrArg Rounds.delivered hest
  have hnext : est.nextRoundDelivered = s.est.nextRoundDelivered := congrArg Rounds.next hest
  refine ⟨?_, ?_, fun o ho => Nat.lt_succ_of_lt (h.opened_lt o ho), ?_⟩
  · rw [hnext, hdelivered]
    exact h.next_le
  · rw [hdelivered]
    exact h.stamp_le
  · rw [hnext]
    exact h.below

theorem Marked.send (h : Marked s) (bytes : Nat) : Marked { s with
      est := s.est.onSend bytes
      steps := s.steps + 1
      flying := s.flying ++ [⟨bytes, s.est.deliveredBytes, s.steps⟩] } := by
  refine ⟨h.next_le, fun seg hseg => ?_, fun o ho => Nat.lt_succ_of_lt (h.opened_lt o ho),
    fun seg hseg o ho hle => ?_⟩
  · rcases mem_append.1 hseg with hseg | hseg
    · exact h.stamp_le seg hseg
    · rw [mem_singleton.1 hseg]
      exact Nat.le_refl _
  · rcases mem_append.1 hseg with hseg | hseg
    · exact h.below seg hseg o ho hle
    · rw [mem_singleton.1 hseg] at hle
      exact absurd (h.opened_lt o ho) (Nat.not_lt.2 hle)

theorem onAck_rounds (fp : Float64) (e : BbrEstimator) (seg : Segment) (rest : DeliverySample)
    (hmax : e.deliveredBytes + seg.bytes ≤ u64Max) :
    let e' := (e.onAck fp (sampleFor seg rest)).1
    e'.deliveredBytes = e.deliveredBytes + seg.bytes ∧
      (e.nextRoundDelivered ≤ seg.stamp ∧ e'.roundStart = true ∧
          e'.nextRoundDelivered = e.deliveredBytes + seg.bytes ∨
        seg.stamp < e.nextRoundDelivered ∧ e'.roundStart = false ∧
          e'.nextRoundDelivered = e.nextRoundDelivered ∧ e'.roundCount = e.roundCount) := by
  intro e'
  have hwrap : (e.deliveredBytes + seg.bytes) % (u64Max + 1) = e.deliveredBytes + seg.bytes :=
    Nat.mod_eq_of_lt (Nat.lt_succ_of_le hmax)
  have hrounds : e'.rounds = e.rounds.take seg.stamp seg.bytes := rounds_onAck fp e _
  by_cases hopens : e.rounds.next ≤ seg.stamp
  · rw [Rounds.take, if_pos hopens] at hrounds
    have hdelivered := (congrArg Rounds.delivered hrounds).trans hwrap
    have hnext := (congrArg Rounds.next hrounds).trans hwrap
    exact ⟨hdelivered, .inl ⟨hopens, congrArg Rounds.start hrounds, hnext⟩⟩
  · rw [Rounds.take, if_neg hopens] at hrounds
    have hdelivered := (congrArg Rounds.delivered hrounds).trans hwrap
    exact ⟨hdelivered, .inr ⟨Nat.lt_of_not_le hopens, congrArg Rounds.start hrounds,
      congrArg Rounds.next hrounds, congrArg Rounds.count hrounds⟩⟩

theorem Marked.ack (h : Marked s) {seg : Segment} (hmax : s.est.deliveredBytes + seg.bytes ≤ u64Max)
    (hempty : seg.bytes = 0 → s.est.nextRoundDelivered ≤ seg.stamp →
      ∀ other ∈ s.flying.eraseIdx index, other.stamp ≠ s.est.deliveredBytes) :
    Marked (s.ack fp index seg rest) := by
  unfold State.ack
  obtain ⟨hdelivered, hmarks⟩ := onAck_rounds fp s.est seg rest hmax
  have hstamps : ∀ other ∈ s.flying.eraseIdx index, other.stamp ≤ s.est.deliveredBytes :=
    fun other hother => h.stamp_le other (mem_of_mem_eraseIdx hother)
  have hopened : ∀ o ∈ s.steps :: s.opened, o < s.steps + 1 := by
    intro o ho
    rcases mem_cons.1 ho with rfl | ho
    · exact Nat.lt_succ_self _
    · exact Nat.lt_succ_of_lt (h.opened_lt o ho)
  rcases hmarks with ⟨hopens, hstart, hnext⟩ | ⟨-, hstart, hnext, -⟩
  · refine ⟨?_, fun other hother => ?_, ?_, fun other hother _ _ _ => ?_⟩
    all_goals grind
  · have hnext_le := h.next_le
    refine ⟨?_, fun other hother => ?_, ?_, fun other hother o ho hle => ?_⟩
    · simp only [hnext, hdelivered]
      omega
    · have := hstamps other hother
      simp only [hdelivered]
      omega
    · simp_all
    · simp only [hstart, Bool.false_eq_true, if_false] at ho
      simp only [hnext]
      exact h.below other (mem_of_mem_eraseIdx hother) o ho hle

theorem Marked.step (h : Marked s) (hs : RoundTrips.step fp s e = some s')
    (hopens : OpensByBytes s e s') : Marked s' := by
  cases e with
  | send bytes =>
    cases hs
    exact h.send bytes
  | ack =>
    obtain ⟨seg, hseg, rfl⟩ := Option.map_eq_some_iff.1 hs
    obtain ⟨hmax, hempty⟩ := hopens seg hseg
    exact h.ack hmax hempty
  | retransmit | loss =>
    cases hs
    exact h.same rfl
  | appLimitedDrain =>
    cases hs
    refine h.same ?_
    unfold noteAppLimitedDrain
    split_ifs <;> rfl

theorem Marked.closesOnce (h : Marked s) (hs : RoundTrips.step fp s e = some s')
    (hopens : OpensByBytes s e s') : ClosesOnce s e s' := by
  cases e with
  | ack _ rest =>
    intro hcount seg hseg opening hopening
    obtain ⟨seg', hseg', rfl⟩ := Option.map_eq_some_iff.1 hs
    cases hseg.symm.trans hseg'
    obtain ⟨-, hmarks⟩ := onAck_rounds fp s.est seg rest (hopens seg hseg).1
    rcases hmarks with ⟨hle, -⟩ | ⟨-, -, -, hsame⟩
    · -- sent before that round opened, it would be stamped below the mark
      by_contra hearlier
      have hmem := mem_of_getElem? hseg'
      exact absurd (h.below seg hmem opening hopening (Nat.le_of_not_lt hearlier)) (Nat.not_lt.2 hle)
    · exact absurd hsame hcount
  | send | retransmit | loss | appLimitedDrain => trivial

/-- **A round trip closes once per flight.** In every run in which the delivered total does not wrap
and no empty segment opens a round beside others sent at the same total, an acknowledgement that
advances the round count is for a segment first sent after every earlier opening. -/
theorem rounds_close_once (fp : Float64) (start : Nat) (es : List Event)
    (hopens : Along (step fp) OpensByBytes (init start) es) :
    Along (step fp) ClosesOnce (init start) es :=
  along_of_inv (fun _ _ _ h hs hp => h.step hs hp) (fun _ _ _ h hs hp => h.closesOnce hs hp) es
    (marked_init start) hopens

/-- Any values for what a segment does not say. -/
def someSample : DeliverySample := ⟨0, 0, 0, millis 50, 0, false, 0, true⟩

theorem rounds_close_once_two_flights :
    Along (step .exact) OpensByBytes (init 0)
        [.send 1200, .send 0, .ack 0 someSample, .send 1200, .ack 0 someSample, .ack 0 someSample] ∧
      Along (step .exact) ClosesOnce (init 0)
        [.send 1200, .send 0, .ack 0 someSample, .send 1200, .ack 0 someSample, .ack 0 someSample] :=
  have hopens : Along (step .exact) OpensByBytes (init 0)
      [.send 1200, .send 0, .ack 0 someSample, .send 1200, .ack 0 someSample, .ack 0 someSample] := by
    decide
  ⟨hopens, rounds_close_once .exact 0 _ hopens⟩

instance (s : State) (e : Event) (s' : State) : Decidable (ClosesOnce s e s') := by
  unfold ClosesOnce
  split <;> infer_instance

/-- A FIN behind data, both sent before anything was delivered. The acknowledgement of the FIN opens
a round and leaves the mark at zero; that of the data opens another, for the same flight. -/
theorem fin_closes_round_twice :
    ¬Along (step .exact) ClosesOnce (init 0)
      [.send 1200, .send 0, .ack 1 someSample, .ack 0 someSample] := by
  decide

end RoundTrips

end PhantomProtocol
