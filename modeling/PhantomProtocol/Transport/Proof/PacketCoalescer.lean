import PhantomProtocol.Transport.PacketCoalescer

/-!
# Round trip of the packet coalescer

What the coalescer holds is a batch of payloads, and a datagram is the encoding of one. Both limits
are checked before a payload joins a batch that is not empty, so that they bind every batch of two.
-/

namespace PhantomProtocol

open List hiding all

namespace Decoalescer

/-- The payloads of a batch, each behind its length. -/
def encode (batch : List Bytes) : Bytes := batch.flatMap fun p => beBytes 2 p.length ++ p

theorem subs_encode {batch : List Bytes} (h : ∀ p ∈ batch, p.length ≤ 65535) :
    subs batch.length (encode batch) = batch := by
  induction batch with
  | nil => rfl
  | cons p _ ih =>
    have hp := h p mem_cons_self
    have hlen : beNat (beBytes 2 p.length) = p.length := by
      rw [beNat_beBytes, Nat.mod_eq_of_lt (by omega)]
    obtain ⟨hi, lo, hfield⟩ := length_eq_two.1 (beBytes_length 2 p.length)
    rw [hfield] at hlen
    simp only [encode, flatMap_cons, length_cons, hfield, cons_append, nil_append,
      subs, hlen, length_append, take_left, drop_left]
    rw [if_neg (by omega)]
    exact congrArg (p :: ·) (ih fun q hq => h q (mem_cons_of_mem p hq))

end Decoalescer

namespace PacketCoalescer

open Decoalescer

variable {c : PacketCoalescer} {batch : List Bytes} {config : CoalescerConfig} {data : Bytes}

/-- What holds of a batch under the limits. -/
structure Fits (config : CoalescerConfig) (batch : List Bytes) : Prop where
  short : ∀ p ∈ batch, p.length ≤ 65535
  count_le : batch.length ≤ max 1 config.maxPackets.toNat
  size_le : 2 ≤ batch.length → headerSize + (encode batch).length ≤ config.maxDatagramSize

/-- The coalescer holds the batch. -/
structure Holds (c : PacketCoalescer) (batch : List Bytes) : Prop where
  buf : c.buf = replicate headerSize 0 ++ encode batch
  count : c.count.toNat = batch.length
  fits : Fits c.config batch

/-- The datagram of a batch. -/
def datagram (batch : List Bytes) : Bytes := beBytes 2 batch.length ++ encode batch

theorem length_datagram : (datagram batch).length = headerSize + (encode batch).length := by
  simp [datagram, headerSize]

theorem Fits.length_lt (h : Fits config batch) : batch.length < 65536 := by
  have hle := h.count_le
  have hlt := config.maxPackets.toNat_lt
  omega

theorem Fits.all_datagram (h : Fits config batch) : all (datagram batch) = some batch := by
  have hcount : beNat (beBytes 2 batch.length) = batch.length := by
    exact (beNat_beBytes 2 _).trans (Nat.mod_eq_of_lt h.length_lt)
  obtain ⟨hi, lo, hfield⟩ := length_eq_two.1 (beBytes_length 2 batch.length)
  rw [hfield] at hcount
  simp only [datagram, hfield, cons_append, nil_append, all, hcount, subs_encode h.short]

theorem Fits.nil (config : CoalescerConfig) : Fits config [] := ⟨by simp, by simp, by simp⟩

theorem Fits.single (h : data.length ≤ 65535) :
    Fits config [data] := ⟨by simpa using h, by simp, by simp⟩

theorem holds_new (config : CoalescerConfig) : (new config).Holds [] := ⟨rfl, rfl, .nil config⟩

/-- An operation leaves a batch and emits the one before it, if it emits anything; between them
they have what was held and what was added. -/
structure Emits (c : PacketCoalescer) (batch added : List Bytes)
    (r : PacketCoalescer × Option Bytes) (rest : List Bytes) (out : List (List Bytes)) : Prop where
  holds : r.1.Holds rest
  config : r.1.config = c.config
  datagrams : r.2.toList = out.map datagram
  flatten : out.flatten ++ rest = batch ++ added
  eq_batch : ∀ b ∈ out, b = batch

section

variable (h : c.Holds batch)
include h

theorem Holds.flush : ∃ out, Emits c batch [] c.flush [] out := by
  unfold PacketCoalescer.flush
  by_cases hnil : batch = []
  · subst hnil
    have hzero : c.count = 0 := UInt16.toNat_inj.1 h.count
    rw [if_pos hzero]
    exact ⟨[], h, rfl, rfl, rfl, by simp⟩
  · have hpos : ¬c.count = 0 := by
      intro hzero
      have hcount := h.count
      rw [hzero] at hcount
      exact hnil (length_eq_zero_iff.1 hcount.symm)
    rw [if_neg hpos]
    refine ⟨[batch], holds_new c.config, rfl, ?_, by simp, by simp⟩
    simp [h.buf, h.count, datagram, drop_left' length_replicate]

theorem Holds.pushInner
    (hfits : Fits c.config (batch ++ [data])) : (c.pushInner data).Holds (batch ++ [data]) := by
  refine ⟨?_, ?_, hfits⟩
  · simp [PacketCoalescer.pushInner, h.buf, encode]
  · have hlt := hfits.length_lt
    simp only [length_append, length_singleton] at hlt ⊢
    simp only [PacketCoalescer.pushInner, UInt16.toNat_add, h.count]
    exact Nat.mod_eq_of_lt hlt

theorem Holds.push (hdata : data.length ≤ 65535) :
    ∃ rest out, Emits c batch [data] (c.push data) rest out := by
  unfold PacketCoalescer.push
  split
  · obtain ⟨out, hempty⟩ := h.flush
    have hflat := hempty.flatten
    simp only [append_nil] at hflat
    exact ⟨[data], out, hempty.holds.pushInner (.single hdata), hempty.config, hempty.datagrams,
      by rw [hflat], hempty.eq_batch⟩
  · rename_i hroom
    simp only [Bool.or_eq_true, decide_eq_true_eq, not_or, Nat.not_lt, UInt16.not_le,
      UInt16.lt_iff_toNat_lt, h.count, h.buf, length_append, length_replicate,
      subHeaderSize] at hroom
    refine ⟨batch ++ [data], [], h.pushInner ⟨?_, ?_, fun _ => ?_⟩, rfl, rfl, by simp, by simp⟩
    · intro p hp
      rcases mem_append.1 hp with hp | hp
      · exact h.fits.short p hp
      · rwa [mem_singleton.1 hp]
    · simp only [length_append, length_singleton]
      omega
    · simp only [encode, flatMap_append, flatMap_singleton, length_append,
        beBytes_length] at hroom ⊢
      omega

theorem Holds.step {op : Op} (hshort : ∀ p, op = .push p → p.length ≤ 65535) :
    ∃ rest out, Emits c batch (pushed [op]) (c.step op) rest out := by
  cases op with
  | push data => exact h.push (hshort data rfl)
  | flush => exact ⟨[], h.flush⟩

end

theorem pushed_cons (op : Op) (ops : List Op) : pushed (op :: ops) = pushed [op] ++ pushed ops := by
  cases op <;> rfl

/-- The datagrams of a run that ends with a flush are those of batches under the limits, which are
what was held and pushed. -/
theorem Holds.emitted {ops : List Op} (h : c.Holds batch)
    (hshort : ∀ p, .push p ∈ ops → p.length ≤ 65535) :
    ∃ batches : List (List Bytes), c.emitted (ops ++ [.flush]) = batches.map datagram ∧
      batches.flatten = batch ++ pushed ops ∧ ∀ b ∈ batches, Fits c.config b := by
  induction ops generalizing c batch with
  | nil =>
    obtain ⟨out, hout⟩ := h.flush
    have hflat := hout.flatten
    simp only [append_nil] at hflat
    refine ⟨out, ?_, by simp [hflat, pushed], fun b hb => hout.eq_batch b hb ▸ h.fits⟩
    simp [PacketCoalescer.emitted, PacketCoalescer.step, hout.datagrams]
  | cons op _ ih =>
    obtain ⟨rest, out, hout⟩ :=
      h.step (fun p (hp : op = .push p) => hshort p (hp ▸ mem_cons_self))
    obtain ⟨batches, hmap, hflat, hfits⟩ :=
      ih hout.holds fun p hp => hshort p (mem_cons_of_mem op hp)
    refine ⟨out ++ batches, ?_, ?_, ?_⟩
    · rw [cons_append, PacketCoalescer.emitted, hout.datagrams, hmap, map_append]
    · rw [flatten_append, hflat, pushed_cons, ← append_assoc, hout.flatten,
        append_assoc]
    · intro b hb
      rcases mem_append.1 hb with hb | hb
      · exact hout.eq_batch b hb ▸ h.fits
      · exact hout.config ▸ hfits b hb

/-- **Round trip.** Whatever the limits and however pushes and flushes alternate, the datagrams
decode to the payloads in order once the last batch is flushed. A datagram of two packets or more
is within both limits. -/
theorem coalesce_round_trip (config : CoalescerConfig) (ops : List Op)
    (hshort : ∀ p, .push p ∈ ops → p.length ≤ 65535) :
    ∃ batches : List (List Bytes),
      ((new config).emitted (ops ++ [.flush])).map all = batches.map some ∧
      batches.flatten = pushed ops ∧
      ∀ d ∈ (new config).emitted (ops ++ [.flush]), ∀ b, all d = some b → 2 ≤ b.length →
        d.length ≤ config.maxDatagramSize ∧ b.length ≤ max 1 config.maxPackets.toNat := by
  obtain ⟨batches, hmap, hflat, hfits⟩ := (holds_new config).emitted hshort
  refine ⟨batches, ?_, hflat, ?_⟩
  · rw [hmap, map_map]
    exact map_congr_left fun b hb => (hfits b hb).all_datagram
  · intro d hd b hb htwo
    rw [hmap] at hd
    obtain ⟨b', hb', rfl⟩ := mem_map.1 hd
    have hfit := hfits b' hb'
    rw [hfit.all_datagram] at hb
    cases hb
    exact ⟨length_datagram.trans_le (hfit.size_le htwo), hfit.count_le⟩

/-- Three payloads under a limit of two packets. -/
theorem coalesce_round_trip_three :
    ∃ batches : List (List Bytes),
      ((new ⟨1200, 2⟩).emitted [.push [1], .push [2], .push [3], .flush]).map all =
        batches.map some ∧ batches.flatten = [[1], [2], [3]] := by
  obtain ⟨batches, hmap, hflat, -⟩ :=
    coalesce_round_trip ⟨1200, 2⟩ [.push [1], .push [2], .push [3]] (by simp)
  exact ⟨batches, hmap, hflat⟩

end PacketCoalescer

end PhantomProtocol
