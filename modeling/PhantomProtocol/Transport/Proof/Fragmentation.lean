import Mathlib.Data.Finset.Card
import PhantomProtocol.Transport.Fragmentation
import PhantomProtocol.Transport.Proof.Datagram

/-!
# Reassembly as a set of indices

Completion is decided by counting chunks. Here the assembly under one key is described by the set of
indices it holds (`FragmentAssembler.Holds`), and one call of `process_chunk` by a step on that set
(`collect`): `FragmentAssembler.processChunk_collect` for the key itself and
`FragmentAssembler.lookup_processChunk_ne` for every other one.
-/

namespace PhantomProtocol

variable {T : Finset Nat} {n i : Nat}

open List Finset AList

/-! ## Chunks -/

namespace Chunks

def Agrees (chunks : Chunks) (content : Nat → Bytes) (T : Finset Nat) : Prop :=
  ∀ i, chunks.lookup i = if i ∈ T then some (content i) else none

variable {chunks : Chunks} {content : Nat → Bytes} {T : Finset Nat} {n i : Nat} {payload : Bytes}
  {l : List Nat}

theorem agrees_empty (content : Nat → Bytes) : Agrees ∅ content ∅ := by
  intro i
  simp

/-- What is held agrees with what is found under each index. -/
theorem agrees_keys (h : ∀ i p, chunks.lookup i = some p → p = content i) :
    chunks.Agrees content chunks.keys.toFinset := by
  intro i
  cases hi : chunks.lookup i with
  | none =>
    rw [if_neg fun hmem => lookup_eq_none.1 hi (mem_keys.2 (mem_toFinset.1 hmem))]
  | some p =>
    have hmem : i ∈ chunks := lookup_isSome.1 (by rw [hi]; rfl)
    rw [if_pos (mem_toFinset.2 (mem_keys.1 hmem)), h i p hi]

namespace Agrees

section

variable (h : chunks.Agrees content T)
include h

theorem mem_iff : i ∈ chunks ↔ i ∈ T := by
  rw [← lookup_isSome, h i]
  split <;> simp_all

theorem len_eq : chunks.len = T.card := by
  have hset : chunks.keys.toFinset = T := by
    ext i
    rw [List.mem_toFinset, ← AList.mem_keys, h.mem_iff]
  rw [← hset, toFinset_card_of_nodup chunks.keys_nodup, AList.keys, List.keys, length_map, len]

theorem orInsert (hpayload : i ∉ T → payload = content i) :
    (chunks.orInsert i payload).Agrees content (insert i T) := by
  intro j
  unfold Chunks.orInsert
  split
  · rename_i hmem
    rw [h j, insert_eq_of_mem (h.mem_iff.1 hmem)]
  · rename_i hmem
    have hi : i ∉ T := fun hi => hmem (h.mem_iff.2 hi)
    by_cases hj : j = i
    · subst hj
      rw [AList.lookup_insert, hpayload hi, if_pos (Finset.mem_insert_self ..)]
    · rw [lookup_insert_ne hj, h j]
      simp [hj]

end

end Agrees

theorem mapM_lookup_some (h : chunks.Agrees content T) (hl : ∀ i ∈ l, i ∈ T) :
    (l.mapM fun i => chunks.lookup i) = some (l.map content) := by
  induction l with
  | nil => rfl
  | cons i l ih =>
    obtain ⟨hi, hrest⟩ := forall_mem_cons.1 hl
    rw [mapM_cons, h i, if_pos hi, ih hrest]
    rfl

theorem mapM_lookup_none (h : chunks.Agrees content T) (hi : i ∈ l) (hT : i ∉ T) :
    (l.mapM fun i => chunks.lookup i) = none := by
  induction l with
  | nil => cases hi
  | cons j l ih =>
    rw [mapM_cons]
    rcases mem_cons.1 hi with rfl | hi
    · rw [h i, if_neg hT]
      rfl
    · rw [ih hi]
      cases chunks.lookup j <;> rfl

/-- The frame that `n` chunks make. -/
def frameOf (content : Nat → Bytes) (n : Nat) : Bytes := ((List.range n).map content).flatten

theorem join_of_subset (h : chunks.Agrees content T) (hall : Finset.range n ⊆ T) :
    chunks.join n = some (frameOf content n) := by
  rw [join, mapM_lookup_some h fun i hi => hall (Finset.mem_range.2 (List.mem_range.1 hi))]
  rfl

theorem join_of_missing (h : chunks.Agrees content T) (hi : i < n) (hT : i ∉ T) :
    chunks.join n = none := by
  rw [join, mapM_lookup_none h (List.mem_range.2 hi) hT]
  rfl

end Chunks

/-- One fragment, as far as the set of held indices goes: the set that is left, and whether the count
was reached. -/
def collect (n : Nat) (T : Finset Nat) (i : Nat) : Finset Nat × Bool :=
  if (insert i T).card = n then (∅, true) else (insert i T, false)

theorem collect_of_eq (h : (insert i T).card = n) : collect n T i = (∅, true) := if_pos h

theorem collect_of_ne (h : (insert i T).card ≠ n) : collect n T i = (insert i T, false) := if_neg h

/-! ## The table -/

namespace FragmentAssembler

variable {asm : FragmentAssembler} {iter : IterOrder Entry} {key : AssemblyKey} {n : Nat}
  {content : Nat → Bytes} {T : Finset Nat} {frame : CryptoFrame}

/-- A fragment under `key` evicts nothing. -/
def HasRoom (asm : FragmentAssembler) (key : AssemblyKey) : Prop :=
  key ∈ asm.assemblies ∨ asm.len < maxConcurrentAssemblies

theorem makeRoom_of_hasRoom (h : asm.HasRoom key) : asm.makeRoom iter key = asm := by
  unfold HasRoom at h
  rw [makeRoom, if_neg]
  rintro ⟨hnew, hfull⟩
  rcases h with h | h
  · exact hnew h
  · omega

/-- What is evicted for a key is under another one. -/
theorem lookup_makeRoom (asm : FragmentAssembler) (iter : IterOrder Entry) (key : AssemblyKey) :
    (asm.makeRoom iter key).assemblies.lookup key = asm.assemblies.lookup key := by
  unfold makeRoom
  split
  · grind [evictStalest, AList.lookup_eq_none.2, AList.lookup_eq_none, AList.mem_erase]
  · rfl

/-- The assembly under `key` has `n` chunks, of which those in `T` are held. -/
def Holds (asm : FragmentAssembler) (key : AssemblyKey) (n : Nat) (content : Nat → Bytes)
    (T : Finset Nat) : Prop :=
  match asm.assemblies.lookup key with
  | none => T = ∅
  | some state => state.totalChunks = n ∧ state.chunks.Agrees content T

theorem holds_of_lookup {state : AssemblyState} (h : asm.assemblies.lookup key = some state)
    (htotal : state.totalChunks = n) (hagrees : state.chunks.Agrees content T) :
    asm.Holds key n content T := by
  rw [Holds, h]
  exact ⟨htotal, hagrees⟩

theorem holds_of_lookup_none (h : asm.assemblies.lookup key = none) :
    asm.Holds key n content ∅ := by
  rw [Holds, h]

theorem holds_congr {asm' : FragmentAssembler}
    (h : asm'.assemblies.lookup key = asm.assemblies.lookup key) :
    asm'.Holds key n content T ↔ asm.Holds key n content T := by
  rw [Holds, Holds, h]

/-- The assembly a well-formed fragment of the frame goes to. -/
theorem assembly_of_holds (now : Nat) (h : asm.Holds frame.key n content T)
    (hok : ¬frame.Malformed) (htotal : frame.key ∉ asm.assemblies → frame.totalChunks = n) :
    (asm.assembly frame hok now).totalChunks = n ∧
      (asm.assembly frame hok now).chunks.Agrees content T := by
  unfold Holds at h
  unfold assembly
  split at h
  · rename_i hnone
    subst h
    rw [hnone]
    exact ⟨htotal (lookup_eq_none.1 hnone), Chunks.agrees_empty content⟩
  · rename_i hsome
    rw [hsome]
    exact h

/-- **One fragment under the key.** The set of held indices takes a step; what is returned is the frame
if the count was reached with every index below it. -/
theorem processChunk_collect (iter : IterOrder Entry) (now : Nat)
    (h : asm.Holds frame.key n content T) (hok : ¬frame.Malformed)
    (htotal : frame.key ∉ asm.assemblies → frame.totalChunks = n)
    (hpayload : frame.chunkIndex ∉ T → frame.payload = content frame.chunkIndex) :
    (asm.processChunk iter frame now).1.Holds frame.key n content (collect n T frame.chunkIndex).1 ∧
    ((collect n T frame.chunkIndex).2 = true →
      (asm.processChunk iter frame now).1.assemblies.lookup frame.key = none) ∧
    ((asm.processChunk iter frame now).2 =
      if (collect n T frame.chunkIndex).2 = true ∧ Finset.range n ⊆ insert frame.chunkIndex T then
        some (Chunks.frameOf content n)
      else none) := by
  have hlookup := lookup_makeRoom asm iter frame.key
  have htotal' : frame.key ∉ (asm.makeRoom iter frame.key).assemblies → frame.totalChunks = n := by
    rw [← lookup_eq_none, hlookup, lookup_eq_none]
    exact htotal
  obtain ⟨htot, hagrees⟩ := assembly_of_holds now ((holds_congr hlookup).2 h) hok htotal'
  have hstored : (((asm.makeRoom iter frame.key).assembly frame hok now).stored frame).Agrees content
      (insert frame.chunkIndex T) := hagrees.orInsert hpayload
  unfold processChunk
  rw [dif_neg hok]
  simp only [collect]
  by_cases hcount : (insert frame.chunkIndex T).card = n
  · rw [dif_pos (by rw [hstored.len_eq, hcount, htot])]
    have hgone : AList.lookup frame.key
        ((asm.makeRoom iter frame.key).assemblies.erase frame.key) = none := lookup_erase ..
    simp only [if_pos hcount, true_and, htot]
    refine ⟨holds_of_lookup_none hgone, fun _ => hgone, ?_⟩
    by_cases hall : Finset.range n ⊆ insert frame.chunkIndex T
    · rw [if_pos hall, Chunks.join_of_subset hstored hall]
    · obtain ⟨i, hi, hmiss⟩ := not_subset.1 hall
      rw [if_neg hall, Chunks.join_of_missing hstored (Finset.mem_range.1 hi) hmiss]
  · rw [dif_neg (by rw [hstored.len_eq, htot]; exact hcount)]
    simp only [if_neg hcount]
    refine ⟨holds_of_lookup (lookup_insert _) htot hstored, fun h => ?_, ?_⟩
    · cases h
    · simp

/-- **One fragment under another key.** -/
theorem lookup_processChunk_ne (iter : IterOrder Entry) (now : Nat) (hne : key ≠ frame.key)
    (hroom : asm.HasRoom frame.key) :
    (asm.processChunk iter frame now).1.assemblies.lookup key = asm.assemblies.lookup key := by
  unfold processChunk
  grind [makeRoom_of_hasRoom, lookup_erase_ne, lookup_insert_ne]

/-! ## How many -/

theorem length_kerase {entries : List Entry} (h : key ∈ entries.keys) :
    (entries.kerase key).length + 1 = entries.length := by
  obtain ⟨state, l₁, l₂, -, hl, hk⟩ := exists_of_kerase h
  rw [hk, hl, length_append, length_append, length_cons, Nat.add_assoc]

theorem length_insert (asm : FragmentAssembler) (key : AssemblyKey) (state : AssemblyState) :
    (asm.assemblies.insert key state).entries.length =
      if key ∈ asm.assemblies then asm.len else asm.len + 1 := by
  rw [entries_insert, length_cons, len]
  split
  · exact length_kerase ‹_›
  · rw [kerase_of_notMem_keys ‹_›]

theorem length_erase_le (asm : FragmentAssembler) (key : AssemblyKey) :
    (asm.assemblies.erase key).entries.length ≤ asm.len :=
  (kerase_sublist key asm.assemblies.entries).length_le

/-- An eviction makes room for one. -/
theorem len_evictStalest (iter : IterOrder Entry) (h : asm.len ≠ 0) : (asm.evictStalest iter).len + 1 = asm.len := by
  unfold evictStalest
  split
  · rename_i hnone
    rw [argmin_eq_none] at hnone
    have hlen := (iter.perm asm.assemblies.entries).length_eq
    rw [hnone] at hlen
    exact absurd hlen.symm h
  · rename_i hsome
    have hmem := (iter.perm asm.assemblies.entries).mem_iff.1 (argmin_mem hsome)
    exact length_kerase (mem_keys_of_mem hmem)

theorem len_makeRoom_le (asm : FragmentAssembler) (iter : IterOrder Entry) (key : AssemblyKey) :
    (asm.makeRoom iter key).len ≤ asm.len := by
  unfold makeRoom
  split
  · rename_i hfull
    have hpos : asm.len ≠ 0 := by
      have hmax : 0 < maxConcurrentAssemblies := by decide
      omega
    have hevict := len_evictStalest iter hpos
    omega
  · exact Nat.le_refl _

theorem len_processChunk_le_succ (asm : FragmentAssembler) (iter : IterOrder Entry)
    (frame : CryptoFrame) (now : Nat) : (asm.processChunk iter frame now).1.len ≤ asm.len + 1 := by
  have hroom := asm.len_makeRoom_le iter frame.key
  unfold processChunk
  split
  · exact Nat.le_succ _
  · dsimp only
    split
    · exact ((length_erase_le _ _).trans hroom).trans (Nat.le_succ _)
    · refine (length_insert _ _ _).le.trans ?_
      split <;> omega

/-- **The table stays within its cap.** -/
theorem len_processChunk_le (h : asm.len ≤ maxConcurrentAssemblies) (iter : IterOrder Entry)
    (frame : CryptoFrame) (now : Nat) :
    (asm.processChunk iter frame now).1.len ≤ maxConcurrentAssemblies := by
  have hroom := asm.len_makeRoom_le iter frame.key
  unfold processChunk
  split
  · exact h
  · dsimp only
    split
    · exact (length_erase_le _ _).trans (hroom.trans h)
    · refine (length_insert _ _ _).le.trans ?_
      split
      · exact hroom.trans h
      · rename_i hnew
        have hgone : frame.key ∉ asm.assemblies := by grind [lookup_eq_none, lookup_makeRoom]
        by_cases hfull : maxConcurrentAssemblies ≤ asm.len
        · have hpos : asm.len ≠ 0 := by
            have hmax : 0 < maxConcurrentAssemblies := by decide
            omega
          have hevict := len_evictStalest iter hpos
          rw [makeRoom, if_pos ⟨hgone, hfull⟩]
          omega
        · omega

end FragmentAssembler

end PhantomProtocol
