import PhantomProtocol.Lib.Run
import PhantomProtocol.Transport.Proof.Fragmentation

/-!
# From a frame to datagrams and back

What the receiver returns for the datagrams of one frame, in any order, with duplicates and between
the datagrams of other frames.
-/

namespace PhantomProtocol

open List Finset

variable {ty : PacketType} {cid : ConnId} {packetId : UInt32} {frame : Bytes}
  {asm : FragmentAssembler} {iter : IterOrder FragmentAssembler.Entry} {now : Nat}
  {datagrams : List Datagram}

/-! ## One datagram -/

theorem decodeHeader_encodeHeader (ty : PacketType) (fragmented : Bool) (cid : ConnId)
    (rest : Bytes) :
    decodeHeader (encodeHeader ty fragmented cid ++ rest) = .ok (⟨ty, fragmented, cid⟩, rest) := by
  have hrest : ((cid.toList ++ rest).drop cidLen) = rest := drop_left' cid.length_toList
  have hvec : (⟨((cid.toList ++ rest).take cidLen).toArray, by simp⟩ : ConnId) = cid := by
    apply Vector.toList_inj.1
    exact take_left' cid.length_toList
  unfold encodeHeader decodeHeader
  simp only [cons_append]
  rw [dif_pos (by simp)]
  simp only [hvec, hrest]
  cases ty <;> cases fragmented <;> rfl

/-- The datagram of the chunk with index `i`, of `total`. -/
def fragmentDatagram (ty : PacketType) (cid : ConnId) (packetId : UInt32) (total i : Nat)
    (chunk : Bytes) : Bytes :=
  encodeHeader ty true cid ++ beBytes 4 packetId.toNat ++ beBytes 2 i ++ beBytes 2 total ++ chunk

/-- What the receiver makes of a frame in one datagram. -/
theorem pushDatagram_single (ty : PacketType) (cid : ConnId) (frame : Bytes) :
    pushDatagram asm iter (encodeHeader ty false cid ++ frame) now =
      (asm, .ok (⟨ty, false, cid⟩, some frame)) := by
  rw [pushDatagram, decodeHeader_encodeHeader]
  rfl

/-- What it makes of a fragment. -/
theorem pushDatagram_fragmentDatagram {total i : Nat} (ty : PacketType) (cid : ConnId)
    (packetId : UInt32) (chunk : Bytes) (htotal : total < 256 ^ 2) (hi : i < 256 ^ 2) :
    pushDatagram asm iter (fragmentDatagram ty cid packetId total i chunk) now =
      ((asm.processChunk iter ⟨cid16 cid, packetId, i, total, chunk⟩ now).1,
        .ok (⟨ty, true, cid⟩,
          (asm.processChunk iter ⟨cid16 cid, packetId, i, total, chunk⟩ now).2)) := by
  have hsplit : fragmentDatagram ty cid packetId total i chunk = encodeHeader ty true cid ++
      (beBytes 4 packetId.toNat ++ (beBytes 2 i ++ (beBytes 2 total ++ chunk))) := by
    simp only [fragmentDatagram, append_assoc]
  have hid : beAt (beBytes 4 packetId.toNat ++ (beBytes 2 i ++ (beBytes 2 total ++ chunk))) 0 4 =
      packetId.toNat := beAt_append [] _ rfl packetId.toNat_lt
  have hindex : beAt (beBytes 4 packetId.toNat ++ (beBytes 2 i ++ (beBytes 2 total ++ chunk))) 4 2 =
      i := beAt_append _ _ (beBytes_length ..) hi
  have htotalAt : beAt (beBytes 4 packetId.toNat ++ (beBytes 2 i ++ (beBytes 2 total ++ chunk))) 6 2 =
      total := by
    rw [← append_assoc]
    exact beAt_append _ _ (by simp) htotal
  have hchunk : (beBytes 4 packetId.toNat ++ (beBytes 2 i ++ (beBytes 2 total ++ chunk))).drop
      fragSubhdrLen = chunk := by
    rw [← append_assoc, ← append_assoc]
    exact drop_left' (by simp [fragSubhdrLen])
  rw [hsplit, pushDatagram, decodeHeader_encodeHeader]
  simp only [hid, hindex, htotalAt, hchunk, UInt32.ofNat_toNat]
  rw [if_neg (by decide), if_neg]
  simp only [length_append, beBytes_length, fragSubhdrLen]
  omega

theorem cid16_injective {c d : ConnId} (h : cid16 c = cid16 d) : c = d := by
  have hlist : (c ++ Vector.replicate 8 (0 : UInt8)).toList =
      (d ++ Vector.replicate 8 (0 : UInt8)).toList := congrArg Vector.toList h
  rw [Vector.toList_append, Vector.toList_append] at hlist
  exact Vector.toList_inj.1 (append_inj_left' hlist rfl)

/-! ## What the encoder emits -/

/-- The bytes of chunk `i`. -/
def chunkOf (frame : Bytes) (i : Nat) : Bytes :=
  (frame.drop (i * maxInnerFragChunk)).take maxInnerFragChunk

theorem chunkOf_length_le (frame : Bytes) (i : Nat) :
    (chunkOf frame i).length ≤ maxInnerFragChunk := length_take_le ..

theorem frameOf_chunkOf (frame : Bytes) (k : Nat) :
    Chunks.frameOf (chunkOf frame) k = frame.take (k * maxInnerFragChunk) := by
  induction k with
  | zero => simp [Chunks.frameOf]
  | succ k ih =>
    unfold Chunks.frameOf at ih ⊢
    rw [range_succ, map_append, flatten_append, ih, Nat.succ_mul, take_add]
    simp [chunkOf]

theorem frameOf_chunkOf_all {k : Nat} (h : k = (frame.length + maxInnerFragChunk - 1) / maxInnerFragChunk) :
    Chunks.frameOf (chunkOf frame) k = frame := by
  rw [frameOf_chunkOf, take_of_length_le]
  have hdiv := Nat.lt_div_mul_add (a := frame.length + maxInnerFragChunk - 1)
    (show 0 < maxInnerFragChunk by decide)
  rw [h]
  omega

theorem encodeDatagrams_ok (h : encodeDatagrams ty cid packetId frame = .ok datagrams) :
    (frame.length ≤ maxInnerUnfragmented ∧
      datagrams.map (·.bytes) = [encodeHeader ty false cid ++ frame]) ∨
    (maxInnerUnfragmented < frame.length ∧ datagrams.length ≤ maxTotalChunks ∧
      datagrams.length = (frame.length + maxInnerFragChunk - 1) / maxInnerFragChunk ∧
      ∀ i : Fin datagrams.length, (datagrams.get i).bytes =
        fragmentDatagram ty cid packetId datagrams.length i (chunkOf frame i)) := by
  unfold encodeDatagrams at h
  split at h
  · rename_i hfits
    cases h
    exact .inl ⟨hfits, rfl⟩
  · rename_i hlong
    dsimp only at h
    split at h
    · cases h
    · rename_i hcount
      cases h
      have hlen := length_chunksOf maxInnerFragChunk frame
      refine .inr ⟨by omega, ?_, ?_, fun i => ?_⟩
      · simpa using hcount
      · simpa using hlen
      · rw [get_eq_getElem, getElem_map, getElem_zipIdx]
        simp [fragmentDatagram, Datagram.withCapacity, chunksOf, chunkOf]

theorem bytes_length_le_pathMtu (h : encodeDatagrams ty cid packetId frame = .ok datagrams) :
    ∀ d ∈ datagrams, d.bytes.length ≤ pathMtu := by
  intro d hd
  rcases encodeDatagrams_ok h with ⟨hfits, hone⟩ | ⟨-, -, -, hall⟩
  · have hbytes : d.bytes ∈ datagrams.map (·.bytes) := mem_map.2 ⟨d, hd, rfl⟩
    rw [hone, List.mem_singleton] at hbytes
    rw [hbytes, length_append, encodeHeader_length]
    unfold maxInnerUnfragmented hdrLen at *
    have hmtu : 1 + cidLen ≤ pathMtu := by decide
    omega
  · obtain ⟨i, rfl⟩ := get_of_mem hd
    have hchunk := chunkOf_length_le frame i
    rw [hall i, fragmentDatagram]
    simp only [length_append, encodeHeader_length, beBytes_length]
    have hmtu : maxInnerFragChunk + hdrLen + 8 = pathMtu := by decide
    omega

/-! ## Many datagrams -/

/-- A datagram that arrives: one of the `n` of the frame, or another. -/
inductive Arrival (n : Nat) where
  | own (i : Fin n)
  | other (datagram : Bytes)

def Arrival.bytes (datagrams : List Datagram) : Arrival datagrams.length → Bytes
  | .own i => (datagrams.get i).bytes
  | .other datagram => datagram

/-- The table after one arrival, at a time. -/
def arrive (datagrams : List Datagram) (iter : IterOrder FragmentAssembler.Entry)
    (asm : FragmentAssembler) (a : Arrival datagrams.length × Nat) : Option FragmentAssembler :=
  some (pushDatagram asm iter (a.1.bytes datagrams) a.2).1

/-- What `push_datagram` returns for the datagrams of the frame, in the order in which they come. -/
def ownResults (datagrams : List Datagram) (iter : IterOrder FragmentAssembler.Entry) :
    FragmentAssembler → List (Arrival datagrams.length × Nat) →
      List (Except EnvelopeError (OuterHeader × Option Bytes))
  | _, [] => []
  | asm, (.own i, now) :: rest =>
    let r := pushDatagram asm iter (datagrams.get i).bytes now
    r.2 :: ownResults datagrams iter r.1 rest
  | asm, (.other datagram, now) :: rest =>
    ownResults datagrams iter (pushDatagram asm iter datagram now).1 rest

/-- Which of the datagrams of the frame complete a set, given those of the set begun. -/
def completions (n : Nat) : Finset Nat → List (Arrival n × Nat) → List Bool
  | _, [] => []
  | T, (.own i, _) :: rest =>
    if insert i.val T = Finset.range n then true :: completions n ∅ rest
    else false :: completions n (insert i.val T) rest
  | T, (.other _, _) :: rest => completions n T rest

/-- A datagram of a frame with another key. -/
def OfOtherFrame (cid : ConnId) (packetId : UInt32) (datagram : Bytes) : Prop :=
  ∃ ty' cid' packetId' frame' datagrams', encodeDatagrams ty' cid' packetId' frame' = .ok datagrams' ∧
    (∃ d ∈ datagrams', d.bytes = datagram) ∧ (cid', packetId') ≠ (cid, packetId)

theorem lookup_pushDatagram_other {datagram : Bytes} (iter : IterOrder FragmentAssembler.Entry)
    (now : Nat) (h : OfOtherFrame cid packetId datagram) (hroom : asm.len < maxConcurrentAssemblies) :
    (pushDatagram asm iter datagram now).1.assemblies.lookup (cid16 cid, packetId) =
      asm.assemblies.lookup (cid16 cid, packetId) := by
  obtain ⟨ty', cid', packetId', frame', datagrams', hok, ⟨d, hd, rfl⟩, hne⟩ := h
  rcases encodeDatagrams_ok hok with ⟨-, hone⟩ | ⟨-, hcount, -, hall⟩
  · have hbytes : d.bytes ∈ datagrams'.map (·.bytes) := mem_map.2 ⟨d, hd, rfl⟩
    rw [hone, List.mem_singleton] at hbytes
    rw [hbytes, pushDatagram_single]
  · obtain ⟨i, rfl⟩ := get_of_mem hd
    have hlt := i.isLt
    have hmax : maxTotalChunks < 256 ^ 2 := by decide
    rw [hall i, pushDatagram_fragmentDatagram _ _ _ _ (by omega) (by omega)]
    apply FragmentAssembler.lookup_processChunk_ne iter now _ (.inr hroom)
    intro heq
    apply hne
    obtain ⟨hcid, hid⟩ := Prod.mk.inj heq
    rw [cid16_injective hcid.symm, hid]

theorem card_insert_eq_iff {n i : Nat} {T : Finset Nat} (hT : T ⊆ Finset.range n) (hi : i < n) :
    (insert i T).card = n ↔ insert i T = Finset.range n := by
  have hsub : insert i T ⊆ Finset.range n := Finset.insert_subset (Finset.mem_range.2 hi) hT
  grind [card_range, eq_of_subset_of_card_le]

/-- Fewer than `MAX_CONCURRENT_ASSEMBLIES` assemblies are open whenever a datagram arrives. -/
def RoomAlong (datagrams : List Datagram) (iter : IterOrder FragmentAssembler.Entry)
    (asm : FragmentAssembler) (arrivals : List (Arrival datagrams.length × Nat)) : Prop :=
  Lts.Along (arrive datagrams iter) (fun asm _ _ => asm.len < maxConcurrentAssemblies) asm arrivals

theorem RoomAlong.cons {a : Arrival datagrams.length × Nat}
    {rest : List (Arrival datagrams.length × Nat)} (h : RoomAlong datagrams iter asm (a :: rest)) :
    asm.len < maxConcurrentAssemblies ∧
      RoomAlong datagrams iter (pushDatagram asm iter (a.1.bytes datagrams) a.2).1 rest :=
  h _ rfl

section

variable {datagrams : List Datagram} {T : Finset Nat}

/-- **One datagram of a fragmented frame.** -/
theorem pushDatagram_own (iter : IterOrder FragmentAssembler.Entry) (now : Nat)
    (hcount : datagrams.length ≤ maxTotalChunks)
    (hframe : Chunks.frameOf (chunkOf frame) datagrams.length = frame)
    (hall : ∀ i : Fin datagrams.length, (datagrams.get i).bytes =
      fragmentDatagram ty cid packetId datagrams.length i (chunkOf frame i))
    (hholds : asm.Holds (cid16 cid, packetId) datagrams.length (chunkOf frame) T)
    (hT : T ⊆ Finset.range datagrams.length) (i : Fin datagrams.length) :
    (pushDatagram asm iter (datagrams.get i).bytes now).2 = .ok (⟨ty, true, cid⟩,
        if insert i.val T = Finset.range datagrams.length then some frame else none) ∧
      (pushDatagram asm iter (datagrams.get i).bytes now).1.Holds (cid16 cid, packetId)
        datagrams.length (chunkOf frame)
        (if insert i.val T = Finset.range datagrams.length then ∅ else insert i.val T) := by
  have hlt := i.isLt
  have hmax : maxTotalChunks < 256 ^ 2 := by decide
  have hchunk := chunkOf_length_le frame i
  have hfits : maxInnerFragChunk ≤ maxUdpPayload := by decide
  have hok : ¬CryptoFrame.Malformed
      ⟨cid16 cid, packetId, i, datagrams.length, chunkOf frame i⟩ := by
    unfold CryptoFrame.Malformed
    simp only
    omega
  obtain ⟨hnext, -, hresult⟩ := FragmentAssembler.processChunk_collect iter now hholds hok
    (fun _ => rfl) (fun _ => rfl)
  rw [hall i, pushDatagram_fragmentDatagram _ _ _ _ (by omega) (by omega)]
  have hcard := card_insert_eq_iff hT hlt
  simp only [hresult]
  by_cases hdone : insert i.val T = Finset.range datagrams.length
  · rw [collect, if_pos (hcard.2 hdone)] at hnext ⊢
    simp only [hdone, if_true, subset_refl, and_self, hframe]
    exact ⟨trivial, hnext⟩
  · rw [collect, if_neg fun h => hdone (hcard.1 h)] at hnext ⊢
    simp only [hdone, if_false, Bool.false_eq_true, false_and]
    exact ⟨trivial, hnext⟩

/-- What is returned for the datagrams of a fragmented frame, in the order in which they come. The
induction carries the set of chunks held. -/
theorem ownResults_fragmented (hcount : datagrams.length ≤ maxTotalChunks)
    (hframe : Chunks.frameOf (chunkOf frame) datagrams.length = frame)
    (hall : ∀ i : Fin datagrams.length, (datagrams.get i).bytes =
      fragmentDatagram ty cid packetId datagrams.length i (chunkOf frame i))
    (arrivals : List (Arrival datagrams.length × Nat))
    (hother : ∀ datagram now, (.other datagram, now) ∈ arrivals → OfOtherFrame cid packetId datagram)
    (hroom : RoomAlong datagrams iter asm arrivals)
    (hholds : asm.Holds (cid16 cid, packetId) datagrams.length (chunkOf frame) T)
    (hT : T ⊆ Finset.range datagrams.length) :
    ownResults datagrams iter asm arrivals = (completions datagrams.length T arrivals).map
      fun complete => .ok (⟨ty, true, cid⟩, if complete = true then some frame else none) := by
  induction arrivals generalizing asm T with
  | nil => rfl
  | cons a rest ih =>
    obtain ⟨arrival, now⟩ := a
    obtain ⟨hlen, hroom'⟩ := hroom.cons
    have hother' : ∀ datagram now, (.other datagram, now) ∈ rest →
        OfOtherFrame cid packetId datagram :=
      fun datagram now hmem => hother datagram now (mem_cons_of_mem _ hmem)
    cases arrival with
    | own i =>
      obtain ⟨hresult, hnext⟩ := pushDatagram_own iter now hcount hframe hall hholds hT i
      change RoomAlong datagrams iter (pushDatagram asm iter (datagrams.get i).bytes now).1 rest
        at hroom'
      rw [ownResults, completions]
      grind
    | other datagram =>
      have hsame := lookup_pushDatagram_other iter now (hother datagram now mem_cons_self) hlen
      rw [ownResults, completions]
      exact ih hother' hroom' ((FragmentAssembler.holds_congr hsame).2 hholds) hT

theorem ownResults_single (hone : datagrams.map (·.bytes) = [encodeHeader ty false cid ++ frame])
    (arrivals : List (Arrival datagrams.length × Nat)) :
    ownResults datagrams iter asm arrivals = (completions datagrams.length ∅ arrivals).map
      fun complete => .ok (⟨ty, false, cid⟩, if complete = true then some frame else none) := by
  obtain ⟨d, rfl⟩ : ∃ d, datagrams = [d] := by
    rw [← length_eq_one_iff, ← length_map (·.bytes), hone]
    rfl
  have hbytes : d.bytes = encodeHeader ty false cid ++ frame := (List.cons.inj hone).1
  induction arrivals generalizing asm with
  | nil => rfl
  | cons a _ ih =>
    obtain ⟨arrival, now⟩ := a
    cases arrival with
    | own i =>
      obtain rfl : i = 0 := Fin.fin_one_eq_zero i
      simp [*, ownResults, completions, pushDatagram_single]
    | other =>
      rw [ownResults, completions]
      exact ih

end

/-- **Fragmentation round trip.** For every frame that is encoded, the datagrams fit the path and
spend what `wire_len` says; and the receiver, given those datagrams in any order and any number of
times among the datagrams of other frames, returns the frame for each datagram that completes a set of
them, and nothing for the others. -/
theorem datagrams_round_trip {datagrams : List Datagram}
    (h : encodeDatagrams ty cid packetId frame = .ok datagrams) :
    (∀ d ∈ datagrams, d.bytes.length ≤ pathMtu) ∧ wireBytes datagrams = wireLen frame.length ∧
    ∀ (iter : IterOrder FragmentAssembler.Entry) (asm : FragmentAssembler)
      (arrivals : List (Arrival datagrams.length × Nat)),
      (cid16 cid, packetId) ∉ asm.assemblies →
      (∀ datagram now, (.other datagram, now) ∈ arrivals → OfOtherFrame cid packetId datagram) →
      RoomAlong datagrams iter asm arrivals →
      ownResults datagrams iter asm arrivals =
        (completions datagrams.length ∅ arrivals).map fun complete =>
          .ok (⟨ty, maxInnerUnfragmented < frame.length, cid⟩,
            if complete = true then some frame else none) := by
  refine ⟨bytes_length_le_pathMtu h, wireBytes_encodeDatagrams h, ?_⟩
  intro iter asm arrivals hnew hother hroom
  rcases encodeDatagrams_ok h with ⟨hfits, hone⟩ | ⟨hlong, hcount, hlen, hall⟩
  · rw [decide_eq_false (by omega)]
    exact ownResults_single hone arrivals
  · rw [decide_eq_true hlong]
    apply ownResults_fragmented hcount (frameOf_chunkOf_all hlen) hall arrivals hother hroom _
      (empty_subset _)
    exact FragmentAssembler.holds_of_lookup_none (AList.lookup_eq_none.2 hnew)

theorem len_pushDatagram_le (asm : FragmentAssembler) (iter : IterOrder FragmentAssembler.Entry)
    (datagram : Bytes) (now : Nat) : (pushDatagram asm iter datagram now).1.len ≤ asm.len + 1 := by
  unfold pushDatagram
  split
  · exact Nat.le_succ _
  · split
    · exact Nat.le_succ _
    · split
      · exact Nat.le_succ _
      · exact asm.len_processChunk_le_succ iter _ now

theorem roomAlong_of_few (arrivals : List (Arrival datagrams.length × Nat))
    (h : asm.len + arrivals.length ≤ maxConcurrentAssemblies) :
    RoomAlong datagrams iter asm arrivals := by
  induction arrivals generalizing asm with
  | nil => trivial
  | cons a _ ih =>
    rw [length_cons] at h
    intro asm' hstep
    cases hstep
    have hle := len_pushDatagram_le asm iter (a.1.bytes datagrams) a.2
    exact ⟨by omega, ih (by omega)⟩

/-- A frame of two chunks, whose second chunk comes first, and comes again before the first one. -/
theorem datagrams_round_trip_two :
    ∃ d₀ d₁, encodeDatagrams .oneRtt (Vector.replicate 8 7) 3 (List.replicate 1300 5) =
        .ok [d₀, d₁] ∧
      ownResults [d₀, d₁] ⟨id, List.Perm.refl⟩ .new [(.own 1, 0), (.own 1, 1), (.own 0, 2)] =
        [.ok (⟨.oneRtt, true, Vector.replicate 8 7⟩, none),
          .ok (⟨.oneRtt, true, Vector.replicate 8 7⟩, none),
          .ok (⟨.oneRtt, true, Vector.replicate 8 7⟩, some (List.replicate 1300 5))] := by
  have hlong : ¬(List.replicate 1300 (5 : UInt8)).length ≤ maxInnerUnfragmented := by
    rw [length_replicate]
    decide
  have hchunks : (chunksOf maxInnerFragChunk (List.replicate 1300 (5 : UInt8))).length = 2 := by
    rw [length_chunksOf, length_replicate]
    rfl
  obtain ⟨datagrams, hok⟩ : ∃ datagrams, encodeDatagrams .oneRtt (Vector.replicate 8 7) 3
      (List.replicate 1300 5) = .ok datagrams := by
    unfold encodeDatagrams
    rw [if_neg hlong]
    dsimp only
    rw [hchunks, if_neg (by decide)]
    exact ⟨_, rfl⟩
  obtain ⟨d₀, d₁, rfl⟩ : ∃ d₀ d₁, datagrams = [d₀, d₁] := by
    rw [← length_eq_two]
    rcases encodeDatagrams_ok hok with ⟨hfits, -⟩ | ⟨-, -, hlen, -⟩
    · exact absurd hfits hlong
    · rw [hlen, length_replicate]
      rfl
  obtain ⟨-, -, htrip⟩ := datagrams_round_trip hok
  have hflag : decide (maxInnerUnfragmented < (List.replicate 1300 (5 : UInt8)).length) = true :=
    decide_eq_true (Nat.lt_of_not_le hlong)
  have hcomplete : completions 2 ∅ [(.own 1, 0), (.own 1, 1), (.own 0, 2)] = [false, false, true] := by
    decide
  refine ⟨d₀, d₁, hok, ?_⟩
  refine (htrip _ .new [(.own 1, 0), (.own 1, 1), (.own 0, 2)] (by decide) (by simp)
    (roomAlong_of_few _ (show 0 + 3 ≤ 256 by decide))).trans ?_
  rw [hflag]
  exact congrArg (List.map _) hcomplete

end PhantomProtocol
