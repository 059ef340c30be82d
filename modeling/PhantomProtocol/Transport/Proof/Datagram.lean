import Mathlib.Algebra.BigOperators.Group.List.Basic
import PhantomProtocol.Transport.Datagram

/-!
# What the encoder spends

`wire_len` is what `encode_datagrams` puts on the path, for every frame it encodes.
-/

namespace PhantomProtocol

open List

variable {ty : PacketType} {cid : ConnId} {packetId : UInt32} {frame : Bytes}

@[simp] theorem encodeHeader_length (ty : PacketType) (fragmented : Bool) (cid : ConnId) :
    (encodeHeader ty fragmented cid).length = hdrLen := by
  simp [encodeHeader, hdrLen, Nat.add_comm]

theorem sum_zipIdx_length (overhead : Nat) (f : Bytes × Nat → Nat) (chunks : List Bytes) (n : Nat)
    (hf : ∀ chunk i, f (chunk, i) = overhead + chunk.length) :
    ((chunks.zipIdx n).map f).sum = chunks.length * overhead + (chunks.map List.length).sum := by
  induction chunks generalizing n with
  | nil => simp
  | cons => grind

/-- A frame that fits is one datagram. -/
theorem encodeDatagrams_single (ty : PacketType) (cid : ConnId) (packetId : UInt32)
    (h : frame.length ≤ maxInnerUnfragmented) :
    ∃ d, encodeDatagrams ty cid packetId frame = .ok [d] ∧
      d.bytes.length = hdrLen + frame.length := by
  unfold encodeDatagrams
  rw [if_pos h]
  exact ⟨_, rfl, by simp [Datagram.withCapacity]⟩

/-- **`wire_len` is what the encoder spends.** -/
theorem wireBytes_encodeDatagrams {datagrams : List Datagram}
    (h : encodeDatagrams ty cid packetId frame = .ok datagrams) :
    wireBytes datagrams = wireLen frame.length := by
  by_cases hfits : frame.length ≤ maxInnerUnfragmented
  · obtain ⟨d, hd, hlen⟩ := encodeDatagrams_single ty cid packetId hfits
    rw [hd] at h
    cases h
    rw [wireLen, if_pos hfits]
    simp [wireBytes, hlen]
  · unfold encodeDatagrams at h
    rw [if_neg hfits] at h
    dsimp only at h
    split at h
    · cases h
    · cases h
      rw [wireBytes, map_map, sum_zipIdx_length (hdrLen + fragSubhdrLen),
        ← length_flatten, flatten_chunksOf (by decide), length_chunksOf, wireLen, if_neg hfits,
        Nat.add_comm]
      intro chunk i
      simp only [Function.comp_apply, Datagram.withCapacity, length_append,
        encodeHeader_length, beBytes_length, fragSubhdrLen]

end PhantomProtocol
