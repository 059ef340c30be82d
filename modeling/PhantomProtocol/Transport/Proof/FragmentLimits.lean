import Mathlib.Algebra.Order.BigOperators.Group.Finset
import PhantomProtocol.Lib.Run
import PhantomProtocol.Transport.Proof.Fragmentation

/-!
# Foreign fragments and the memory of the assembler

`process_chunk` compares a fragment with its own `total_chunks` and never with that of the assembly it
goes to, and it bounds the bytes of an assembly by the number of its chunks.
-/

namespace PhantomProtocol

open List Option Function Finset AList

namespace FragmentAssembler

variable {asm : FragmentAssembler} {key : AssemblyKey} {n : Nat} {payload content : Nat → Bytes}
  {T : Finset Nat} {given : List Given}

/-! ## The honest fragments -/

/-- What `process_chunk` is given: a fragment, the time, and the order in which the table is
iterated. -/
structure Given where
  frame : CryptoFrame
  now : Nat
  iter : IterOrder Entry

/-- The table after one call. -/
def process (asm : FragmentAssembler) (e : Given) : Option FragmentAssembler :=
  some (asm.processChunk e.iter e.frame e.now).1

/-- What the calls return. -/
def packets : FragmentAssembler → List Given → List (Option Bytes)
  | _, [] => []
  | asm, e :: rest =>
    (asm.processChunk e.iter e.frame e.now).2 ::
      packets (asm.processChunk e.iter e.frame e.now).1 rest

/-- The fragment with index `i` of the packet whose chunks are `payload`, of which there are `n`. -/
def IsHonest (key : AssemblyKey) (n : Nat) (payload : Nat → Bytes) (frame : CryptoFrame) : Prop :=
  frame.key = key ∧ frame.totalChunks = n ∧ frame.payload = payload frame.chunkIndex

theorem IsHonest.processChunk {frame : CryptoFrame} (hhonest : IsHonest key n payload frame)
    (iter : IterOrder Entry) (now : Nat) (hholds : asm.Holds key n content T)
    (hsame : ∀ i < n, payload i = content i) (hok : ¬frame.Malformed) :
    (asm.processChunk iter frame now).1.Holds key n content (collect n T frame.chunkIndex).1 ∧
    ((asm.processChunk iter frame now).2 =
      if (collect n T frame.chunkIndex).2 = true ∧ Finset.range n ⊆ insert frame.chunkIndex T then
        some (Chunks.frameOf content n)
      else none) := by
  obtain ⟨rfl, htotal, hpayload⟩ := hhonest
  have hindex : frame.chunkIndex < n := by
    unfold CryptoFrame.Malformed at hok
    omega
  grind [processChunk_collect]

section

variable (hsame : ∀ i < n, payload i = content i)
include hsame

section

variable (hhonest : ∀ e ∈ given, IsHonest key n payload e.frame ∧ ¬e.frame.Malformed)
include hhonest

theorem packets_of_few (hholds : asm.Holds key n content T) (hfew : T.card + given.length < n) :
    ∀ r ∈ packets asm given, r = none := by
  induction given generalizing asm T with
  | nil => simp [packets]
  | cons e _ ih =>
    obtain ⟨⟨he, hok⟩, hrest⟩ := forall_mem_cons.1 hhonest
    obtain ⟨hnext, hresult⟩ := he.processChunk e.iter e.now hholds hsame hok
    have hcard := card_insert_le e.frame.chunkIndex T
    rw [length_cons] at hfew
    rw [collect_of_ne (by omega)] at hnext hresult
    rw [packets, List.forall_mem_cons]
    refine ⟨by rw [hresult, if_neg (by simp)], ih hrest hnext ?_⟩
    simp only
    omega

/-- **Completion.** The missing fragments, each once and in any order, return the packet. -/
theorem packets_of_missing (hnodup : (given.map (·.frame.chunkIndex)).Nodup)
    (hnew : ∀ e ∈ given, e.frame.chunkIndex ∉ T) (hT : T ⊆ Finset.range n)
    (hholds : asm.Holds key n content T) (hcount : T.card + given.length = n)
    (hne : given ≠ []) : some (Chunks.frameOf content n) ∈ packets asm given := by
  induction given generalizing asm T with
  | nil => exact absurd rfl hne
  | cons e given =>
    obtain ⟨⟨he, hok⟩, hrest⟩ := forall_mem_cons.1 hhonest
    obtain ⟨hfresh, hnew'⟩ := forall_mem_cons.1 hnew
    obtain ⟨hdistinct, hnodup'⟩ := nodup_cons.1 hnodup
    obtain ⟨hnext, hresult⟩ := he.processChunk e.iter e.now hholds hsame hok
    have hindex : e.frame.chunkIndex < n := by
      have htotal := he.2.1
      unfold CryptoFrame.Malformed at hok
      omega
    have hcard := card_insert_of_notMem hfresh
    have hT' := insert_subset (mem_range.2 hindex) hT
    rw [length_cons] at hcount
    rw [packets]
    cases given with
    | nil =>
      rw [length_nil] at hcount
      have hfull : insert e.frame.chunkIndex T = Finset.range n :=
        eq_of_subset_of_card_le hT' (by rw [card_range]; omega)
      rw [collect_of_eq (by omega), if_pos ⟨rfl, hfull.superset⟩] at hresult
      rw [hresult]
      exact mem_cons_self
    | cons =>
      rw [length_cons] at hcount
      rw [collect_of_ne (by omega)] at hnext
      grind

/-- With a chunk out of range among those held, the count is reached too early, and the assembly is
gone before the last fragments come. -/
theorem packets_of_stray {stray : Nat}
    (hstray : n ≤ stray) (hmem : stray ∈ T) (hholds : asm.Holds key n content T)
    (hcount : T.card + given.length ≤ n + 1) (htwo : 2 ≤ n) :
    ∀ r ∈ packets asm given, r = none := by
  induction given generalizing asm T with
  | nil => simp [packets]
  | cons e _ ih =>
    obtain ⟨⟨he, hok⟩, hrest⟩ := forall_mem_cons.1 hhonest
    obtain ⟨hnext, hresult⟩ := he.processChunk e.iter e.now hholds hsame hok
    have hcard := card_insert_le e.frame.chunkIndex T
    have hmem' := mem_insert_of_mem (b := e.frame.chunkIndex) hmem
    rw [length_cons] at hcount
    rw [packets, List.forall_mem_cons]
    by_cases hreached : (insert e.frame.chunkIndex T).card = n
    · -- the stray chunk takes the place of one that is needed
      have hmissing : ¬Finset.range n ⊆ insert e.frame.chunkIndex T := by
        intro hsub
        have hall := eq_of_subset_of_card_le hsub (by rw [card_range, hreached])
        rw [← hall, Finset.mem_range] at hmem'
        omega
      rw [collect_of_eq hreached] at hnext
      refine ⟨by rw [hresult, if_neg fun h => hmissing h.2], ?_⟩
      apply packets_of_few hsame hrest hnext
      simp only [card_empty]
      omega
    · rw [collect_of_ne hreached] at hnext hresult
      refine ⟨by rw [hresult, if_neg (by simp)], ih hrest hmem' hnext ?_⟩
      omega

end

end

/-! ## A foreign fragment -/

/-- The indices an assembly has no chunk for. -/
def missing (state : AssemblyState) : List Nat :=
  (List.range state.totalChunks).filter fun i => i ∉ state.chunks

/-- The fragments `given` are the honest ones that are missing, in some order. -/
def Completes (key : AssemblyKey) (payload : Nat → Bytes) (state : AssemblyState)
    (given : List Given) : Prop :=
  (∀ e ∈ given, IsHonest key state.totalChunks payload e.frame) ∧
    (given.map (·.frame.chunkIndex)).Perm (missing state)

/-- The assembly `state` is still in the table, with the same chunks below its total, and the honest
fragments that are missing complete the packet. -/
def Survives (asm : FragmentAssembler) (key : AssemblyKey) (payload : Nat → Bytes)
    (state : AssemblyState) : Prop :=
  (∃ state', asm.assemblies.lookup key = some state' ∧ state'.totalChunks = state.totalChunks ∧
    ∀ i < state.totalChunks, state'.chunks.lookup i = state.chunks.lookup i) ∧
  ∀ given, Completes key payload state given →
    some (Chunks.frameOf payload state.totalChunks) ∈ packets asm given

section

variable {state : AssemblyState} {given : List Given}

/-- The set of indices held. -/
def held (state : AssemblyState) : Finset Nat := state.chunks.keys.toFinset

theorem mem_held {i : Nat} : i ∈ held state ↔ i ∈ state.chunks := by
  rw [held, List.mem_toFinset, AList.mem_keys]

theorem agrees_held (h : ∀ i p, state.chunks.lookup i = some p → p = payload i) :
    state.chunks.Agrees payload (held state) := Chunks.agrees_keys h

theorem held_subset (h : ∀ i p, state.chunks.lookup i = some p → i < state.totalChunks) :
    held state ⊆ Finset.range state.totalChunks := by
  intro i hi
  obtain ⟨p, hp⟩ := isSome_iff_exists.1 (lookup_isSome.2 (mem_held.1 hi))
  exact Finset.mem_range.2 (h i p hp)

theorem length_missing (h : ∀ i p, state.chunks.lookup i = some p → i < state.totalChunks) :
    (held state).card + (missing state).length = state.totalChunks := by
  have hset : (missing state).toFinset = Finset.range state.totalChunks \ held state := by
    ext i
    simp [missing, mem_held]
  have hnodup : (missing state).Nodup := nodup_range.filter _
  have hsub := card_sdiff_add_card_eq_card (held_subset h)
  rw [← hset, toFinset_card_of_nodup hnodup, card_range] at hsub
  omega

theorem Completes.honest (h : Completes key payload state given)
    (hsize : ∀ i < state.totalChunks, (payload i).length ≤ maxUdpPayload) :
    ∀ e ∈ given, IsHonest key state.totalChunks payload e.frame ∧ ¬e.frame.Malformed := by
  intro e he
  have hhonest := h.1 e he
  refine ⟨hhonest, ?_⟩
  have hmem : e.frame.chunkIndex ∈ missing state := h.2.subset (mem_map.2 ⟨e, he, rfl⟩)
  have hindex : e.frame.chunkIndex < state.totalChunks :=
    List.mem_range.1 (List.mem_filter.1 hmem).1
  have hpayload := hsize _ hindex
  have hmax := state.total_le
  obtain ⟨-, htotal, hbytes⟩ := hhonest
  rw [← hbytes] at hpayload
  unfold CryptoFrame.Malformed
  omega

theorem packets_of_completes (h : Completes key payload state given)
    (hsize : ∀ i < state.totalChunks, (payload i).length ≤ maxUdpPayload)
    (hheld : ∀ i p, state.chunks.lookup i = some p → i < state.totalChunks)
    (hholds : asm.Holds key state.totalChunks payload (held state)) :
    some (Chunks.frameOf payload state.totalChunks) ∈ packets asm given := by
  have hcount := length_missing hheld
  have hlen := h.2.length_eq
  rw [length_map] at hlen
  have hopen : state.chunks.len = (held state).card :=
    (length_map ..).symm.trans (toFinset_card_of_nodup state.chunks.keys_nodup).symm
  have hlt := state.incomplete
  apply packets_of_missing (fun _ _ => rfl) (h.honest hsize) _ _ (held_subset hheld) hholds
  · omega
  · intro hnil
    rw [hnil, length_nil] at hlen
    omega
  · exact h.2.nodup_iff.2 (nodup_range.filter _)
  · intro e he hmem
    have hmissing : e.frame.chunkIndex ∈ missing state := h.2.subset (mem_map.2 ⟨e, he, rfl⟩)
    have hnot := (mem_filter.1 hmissing).2
    simp only [decide_eq_true_eq] at hnot
    exact hnot (mem_held.1 hmem)

/-- A well-formed fragment for an index that is not held destroys the reassembly: it takes the place of
an honest chunk, or it is counted for one. -/
theorem not_survives_of_stored {frame : CryptoFrame} (hkey : frame.key = key)
    (hstate : asm.assemblies.lookup key = some state)
    (hsize : ∀ i < state.totalChunks, (payload i).length ≤ maxUdpPayload)
    (hheld : ∀ i p, state.chunks.lookup i = some p → i < state.totalChunks ∧ p = payload i)
    (hok : ¬frame.Malformed) (hnew : frame.chunkIndex ∉ state.chunks) (iter : IterOrder Entry)
    (now : Nat) : ¬Survives (asm.processChunk iter frame now).1 key payload state := by
  rintro ⟨⟨state', hstate', -, hsame⟩, hcompletes⟩
  subst hkey
  -- the chunks held with the foreign one among them
  have hagrees : state.chunks.Agrees (Function.update payload frame.chunkIndex frame.payload)
      (held state) := by
    apply agrees_held
    intro i p hp
    have hne : i ≠ frame.chunkIndex := by
      rintro rfl
      rw [lookup_eq_none.2 hnew] at hp
      cases hp
    rw [update_of_ne hne]
    exact (hheld i p hp).2
  have hin : frame.key ∈ asm.assemblies := lookup_isSome.1 (by rw [hstate]; rfl)
  obtain ⟨hnext, hgone, -⟩ := processChunk_collect iter now (holds_of_lookup hstate rfl hagrees) hok
    (fun hout => absurd hin hout) (fun _ => by rw [update_self])
  by_cases hreached : (insert frame.chunkIndex (held state)).card = state.totalChunks
  · rw [hgone (by rw [collect_of_eq hreached])] at hstate'
    cases hstate'
  · rw [collect_of_ne hreached] at hnext
    by_cases hbelow : frame.chunkIndex < state.totalChunks
    · -- its payload stands where the honest one belongs
      rw [Holds, hstate'] at hnext
      have htaken := hnext.2 frame.chunkIndex
      rw [hsame _ hbelow, AList.lookup_eq_none.2 hnew, if_pos (Finset.mem_insert_self ..)] at htaken
      cases htaken
    · have hcount := length_missing fun i p hp => (hheld i p hp).1
      have hcard := card_insert_of_notMem (mem_held.not.2 hnew)
      have hlt := state.incomplete
      have hopen : state.chunks.len = (held state).card := hagrees.len_eq
      let given : List Given := (missing state).map fun i =>
        ⟨⟨frame.key.1, frame.key.2, i, state.totalChunks, payload i⟩, now, iter⟩
      have hgiven : Completes frame.key payload state given := by
        refine ⟨fun e he => ?_, ?_⟩
        · obtain ⟨i, -, rfl⟩ := mem_map.1 he
          exact ⟨rfl, rfl, rfl⟩
        · rw [List.map_map]
          exact List.Perm.of_eq (map_id _)
      have hlength : given.length = (missing state).length := length_map ..
      have hpayload : ∀ i < state.totalChunks,
          payload i = Function.update payload frame.chunkIndex frame.payload i := by
        intro i hi
        rw [update_of_ne (by omega)]
      have hnone := packets_of_stray hpayload (hgiven.honest hsize) (Nat.le_of_not_lt hbelow)
        (mem_insert_self ..) hnext (by omega) (by omega) _ (hcompletes given hgiven)
      cases hnone

/-- **Which fragments an honest reassembly survives.** Whatever total and index a fragment under the
key declares, the assembly stays as it is and can be completed exactly when the fragment is dropped at
once or its index is held. -/
theorem foreign_harmless_iff (asm : FragmentAssembler) (key : AssemblyKey) (state : AssemblyState)
    (hstate : asm.assemblies.lookup key = some state) (payload : Nat → Bytes)
    (hsize : ∀ i < state.totalChunks, (payload i).length ≤ maxUdpPayload)
    (hheld : ∀ i p, state.chunks.lookup i = some p → i < state.totalChunks ∧ p = payload i)
    (frame : CryptoFrame) (hkey : frame.key = key)
    (iter : IterOrder Entry) (now : Nat) :
    Survives (asm.processChunk iter frame now).1 key payload state ↔
      frame.Malformed ∨ frame.chunkIndex ∈ state.chunks := by
  have hagrees := agrees_held fun i p hp => (hheld i p hp).2
  have hrange : ∀ i p, state.chunks.lookup i = some p → i < state.totalChunks :=
    fun i p hp => (hheld i p hp).1
  constructor
  · intro hsurvives
    by_contra hharm
    obtain ⟨hok, hnew⟩ := not_or.1 hharm
    exact not_survives_of_stored hkey hstate hsize hheld hok hnew iter now hsurvives
  · intro hharmless
    by_cases hbad : frame.Malformed
    · have hsame : (asm.processChunk iter frame now).1 = asm := by
        rw [processChunk, dif_pos hbad]
      rw [hsame]
      exact ⟨⟨state, hstate, rfl, fun _ _ => rfl⟩, fun given hgiven =>
        packets_of_completes hgiven hsize hrange (holds_of_lookup hstate rfl hagrees)⟩
    · have hmem := hharmless.resolve_left hbad
      subst hkey
      have hin : frame.key ∈ asm.assemblies := lookup_isSome.1 (by rw [hstate]; rfl)
      obtain ⟨hnext, -, -⟩ := processChunk_collect iter now (holds_of_lookup hstate rfl hagrees) hbad
        (fun hout => absurd hin hout) (fun hnew => absurd (mem_held.2 hmem) hnew)
      have hlt := state.incomplete
      rw [hagrees.len_eq] at hlt
      have hinsert := insert_eq_of_mem (mem_held.2 hmem)
      rw [collect_of_ne (by rw [hinsert]; omega), hinsert] at hnext
      refine ⟨?_, fun given hgiven => packets_of_completes hgiven hsize hrange hnext⟩
      unfold Holds at hnext
      split at hnext
      · simp_all
      · rename_i state' hstate'
        refine ⟨state', hstate', hnext.1, fun i _ => ?_⟩
        rw [hnext.2 i, hagrees i]

end

/-- One chunk of two has come. -/
def halfReceived : FragmentAssembler :=
  (new.processChunk ⟨id, List.Perm.refl⟩ ⟨Vector.replicate 16 0, 0, 0, 2, [1, 2]⟩ 0).1

/-- A fragment that declares a third chunk, for the index that is held. -/
theorem foreign_harmless_held :
    ∃ state, halfReceived.assemblies.lookup (Vector.replicate 16 0, 0) = some state ∧
      Survives (halfReceived.processChunk ⟨id, List.Perm.refl⟩
        ⟨Vector.replicate 16 0, 0, 0, 3, [9]⟩ 1).1 (Vector.replicate 16 0, 0)
        (fun i => if i = 0 then [1, 2] else [3]) state := by
  obtain ⟨state, hstate, htotal, hchunks⟩ : ∃ state,
      halfReceived.assemblies.lookup (Vector.replicate 16 0, 0) = some state ∧
        state.totalChunks = 2 ∧ state.chunks = Chunks.orInsert ∅ 0 [1, 2] := ⟨_, rfl, rfl, rfl⟩
  have hagrees : state.chunks.Agrees (fun i => if i = 0 then [1, 2] else [3]) {0} := by
    rw [hchunks]
    exact (Chunks.agrees_empty _).orInsert fun _ => rfl
  refine ⟨state, hstate, (foreign_harmless_iff halfReceived _ state hstate _ ?_ ?_
    ⟨Vector.replicate 16 0, 0, 0, 3, [9]⟩ rfl _ _).2 (.inr (hagrees.mem_iff.2 (by decide)))⟩
  · intro i _
    split <;> decide
  · intro i p hp
    rw [hagrees i] at hp
    split at hp
    · simp_all
    · cases hp

/-- A fragment that declares a third chunk and carries it: the count is reached, the assembly is thrown
away, and the honest second chunk completes nothing. -/
theorem foreign_destroys :
    ∃ state, halfReceived.assemblies.lookup (Vector.replicate 16 0, 0) = some state ∧
      state.totalChunks = 2 ∧ state.chunks.lookup 0 = some [1, 2] ∧
      ¬Survives (halfReceived.processChunk ⟨id, List.Perm.refl⟩
        ⟨Vector.replicate 16 0, 0, 2, 3, [9]⟩ 1).1 (Vector.replicate 16 0, 0)
        (fun i => if i = 0 then [1, 2] else [3]) state := by
  refine ⟨_, rfl, rfl, rfl, ?_⟩
  rintro ⟨⟨state', hstate', -⟩, -⟩
  have hgone : (halfReceived.processChunk ⟨id, List.Perm.refl⟩
      ⟨Vector.replicate 16 0, 0, 2, 3, [9]⟩ 1).1.assemblies.lookup (Vector.replicate 16 0, 0) =
        none := rfl
  rw [hgone] at hstate'
  cases hstate'

/-! ## Memory -/

end FragmentAssembler

namespace Chunks

variable {chunks : Chunks} {n i : Nat} {payload p : Bytes}

theorem bytes_le (h : ∀ r ∈ chunks.entries, r.2.length ≤ maxUdpPayload) :
    chunks.bytes ≤ chunks.len * maxUdpPayload := by
  have hsum := sum_le_card_nsmul (chunks.entries.map fun r => r.2.length) maxUdpPayload (by
    intro x hx
    obtain ⟨r, hr, rfl⟩ := mem_map.1 hx
    exact h r hr)
  rw [length_map] at hsum
  exact hsum

theorem bytes_orInsert (chunks : Chunks) (i : Nat) (payload : Bytes) :
    (chunks.orInsert i payload).bytes =
      if i ∈ chunks then chunks.bytes else payload.length + chunks.bytes := by
  unfold orInsert
  split
  · rfl
  · rw [bytes, AList.entries_insert_of_notMem ‹_›, List.map_cons, List.sum_cons, bytes]

theorem length_join_le (h : chunks.join n = some p) : p.length ≤ chunks.bytes := by
  have hagrees : chunks.Agrees (fun i => (chunks.lookup i).getD []) chunks.keys.toFinset :=
    agrees_keys fun i q hq => by rw [hq, getD_some]
  by_cases hall : Finset.range n ⊆ chunks.keys.toFinset
  · rw [join_of_subset hagrees hall] at h
    cases h
    -- both are sums of the same lengths, over the indices below `n` and over all that are held
    have hbytes : chunks.bytes =
        ∑ i ∈ chunks.keys.toFinset, ((chunks.lookup i).getD []).length := by
      rw [List.sum_toFinset _ chunks.keys_nodup, bytes, AList.keys, List.keys, List.map_map]
      refine congrArg List.sum (map_congr_left fun r hr => ?_)
      rw [comp_apply, mem_lookup_iff.2 hr]
      rfl
    have hframe : (frameOf (fun i => (chunks.lookup i).getD []) n).length =
        ∑ i ∈ Finset.range n, ((chunks.lookup i).getD []).length := by
      rw [frameOf, List.length_flatten, List.map_map]
      rfl
    rw [hframe, hbytes]
    exact sum_le_sum_of_subset hall
  · obtain ⟨i, hi, hmiss⟩ := not_subset.1 hall
    rw [join_of_missing hagrees (Finset.mem_range.1 hi) hmiss] at h
    cases h

end Chunks

namespace FragmentAssembler

variable {asm : FragmentAssembler} {e : Given}

theorem bytes_le_of_open (state : AssemblyState) : state.chunks.bytes ≤ maxReassembledLen := by
  have hbytes := Chunks.bytes_le state.payload_le
  have hlt := state.incomplete
  have hmax := state.total_le
  have htotal : maxTotalChunks = 219 := by decide
  calc state.chunks.bytes
    _ ≤ state.chunks.len * maxUdpPayload := hbytes
    _ ≤ 218 * maxUdpPayload := Nat.mul_le_mul_right _ (by omega)
    _ ≤ maxReassembledLen := by decide

/-- The chunks of the assembly a fragment goes to, with the fragment among them. -/
def storing (asm : FragmentAssembler) (e : Given) (h : ¬e.frame.Malformed) : Chunks :=
  ((asm.makeRoom e.iter e.frame.key).assembly e.frame h e.now).stored e.frame

/-- After a call, and while it stores its fragment, the assembler is within its caps, and so is what it
returns. -/
def Bounded (asm : FragmentAssembler) (e : Given) (asm' : FragmentAssembler) : Prop :=
  asm'.len ≤ maxConcurrentAssemblies ∧
  (∀ key state, asm'.assemblies.lookup key = some state → state.chunks.bytes ≤ maxReassembledLen) ∧
  (∀ h : ¬e.frame.Malformed, (asm.storing e h).bytes ≤ maxReassembledLen) ∧
  ∀ packet, (asm.processChunk e.iter e.frame e.now).2 = some packet →
    packet.length ≤ maxReassembledLen

/-- The last chunk of an assembly of `MAX_TOTAL_CHUNKS` does not bring it above
`MAX_REASSEMBLED_LEN`. -/
def LastFits (asm : FragmentAssembler) (e : Given) (_ : FragmentAssembler) : Prop :=
  ¬e.frame.Malformed → ∀ state, asm.assemblies.lookup e.frame.key = some state →
    state.totalChunks = maxTotalChunks → state.chunks.len + 1 = maxTotalChunks →
    e.frame.chunkIndex ∉ state.chunks →
    e.frame.payload.length + state.chunks.bytes ≤ maxReassembledLen

theorem assembly_makeRoom (asm : FragmentAssembler) (iter : IterOrder Entry) (frame : CryptoFrame)
    (h : ¬frame.Malformed) (now : Nat) :
    (asm.makeRoom iter frame.key).assembly frame h now = asm.assembly frame h now := by
  rw [assembly, assembly, lookup_makeRoom]

theorem storing_le_iff (asm : FragmentAssembler) (e : Given) (asm' : FragmentAssembler) :
    (∀ h : ¬e.frame.Malformed, (asm.storing e h).bytes ≤ maxReassembledLen) ↔
      asm.LastFits e asm' := by
  refine forall_congr' fun hok => ?_
  rw [storing, assembly_makeRoom, AssemblyState.stored, Chunks.bytes_orInsert]
  have htotal : maxTotalChunks = 219 := by decide
  cases hlookup : asm.assemblies.lookup e.frame.key with
  | none =>
    rw [assembly, hlookup, getD_none]
    refine iff_of_true ?_ fun state hstate => by cases hstate
    show (if e.frame.chunkIndex ∈ (∅ : Chunks) then 0 else e.frame.payload.length + 0) ≤ _
    unfold CryptoFrame.Malformed at hok
    have hmax : maxUdpPayload ≤ maxReassembledLen := by decide
    split <;> omega
  | some state =>
    rw [assembly, hlookup, getD_some]
    have hopen := bytes_le_of_open state
    by_cases hmem : e.frame.chunkIndex ∈ state.chunks
    · simp [*]
    · rw [if_neg hmem]
      constructor
      · simp_all
      · intro hfits
        by_cases hlast : state.totalChunks = maxTotalChunks ∧ state.chunks.len + 1 = maxTotalChunks
        · exact hfits state rfl hlast.1 hlast.2 hmem
        · -- with fewer chunks each can be full
          have hbytes := Chunks.bytes_le state.payload_le
          have hlt := state.incomplete
          have hmax := state.total_le
          have hpayload : e.frame.payload.length ≤ maxUdpPayload := by
            unfold CryptoFrame.Malformed at hok
            omega
          calc e.frame.payload.length + state.chunks.bytes
            _ ≤ maxUdpPayload + state.chunks.len * maxUdpPayload := Nat.add_le_add hpayload hbytes
            _ = (state.chunks.len + 1) * maxUdpPayload := by rw [Nat.succ_mul, Nat.add_comm]
            _ ≤ 218 * maxUdpPayload := Nat.mul_le_mul_right _ (by omega)
            _ ≤ maxReassembledLen := by decide

theorem packet_le_storing {packet : Bytes} (hok : ¬e.frame.Malformed)
    (h : (asm.processChunk e.iter e.frame e.now).2 = some packet) :
    packet.length ≤ (asm.storing e hok).bytes := by
  unfold processChunk at h
  rw [dif_neg hok] at h
  dsimp only at h
  split at h
  · exact Chunks.length_join_le h
  · cases h

theorem bounded_iff_lastFits {asm' : FragmentAssembler}
    (hlen : asm.len ≤ maxConcurrentAssemblies) (hstep : asm.process e = some asm') :
    asm.Bounded e asm' ↔ asm.LastFits e asm' := by
  cases hstep
  rw [← storing_le_iff asm e _]
  constructor
  · rintro ⟨-, -, hstoring, -⟩
    exact hstoring
  · intro hstoring
    refine ⟨len_processChunk_le hlen _ _ _, fun _ state _ => bytes_le_of_open state, hstoring, ?_⟩
    intro packet hpacket
    by_cases hbad : e.frame.Malformed
    · rw [processChunk, dif_pos hbad] at hpacket
      cases hpacket
    · exact (packet_le_storing hbad hpacket).trans (hstoring hbad)

/-- **When the memory of the assembler stays within its caps.** In every run from the empty table, each
call does exactly when none gives an assembly of `MAX_TOTAL_CHUNKS` chunks a last chunk that brings it
above `MAX_REASSEMBLED_LEN`. -/
theorem bounded_iff (given : List Given) :
    Lts.Along process Bounded new given ↔ Lts.Along process LastFits new given := by
  apply Lts.along_iff (fun asm => asm.len ≤ maxConcurrentAssemblies)
  · intro asm e asm' hlen hstep _
    cases hstep
    exact len_processChunk_le hlen _ _ _
  · intro asm e asm' hlen hstep
    exact bounded_iff_lastFits hlen hstep
  · decide

theorem packets_le_of_bounded {given : List Given} (h : Lts.Along process Bounded asm given) :
    ∀ packet, some packet ∈ packets asm given → packet.length ≤ maxReassembledLen := by
  induction given generalizing asm with
  | nil => simp [packets]
  | cons _ _ ih =>
    intro packet hmem
    obtain ⟨hbounded, hrest⟩ := h _ rfl
    rcases mem_cons.1 hmem with heq | hmem
    · exact hbounded.2.2.2 packet heq.symm
    · exact ih hrest packet hmem

/-- 219 chunks of 1200 bytes, each within its bounds, make a packet of 262800 bytes. -/
theorem oversized_packet :
    let given : List Given := (List.range 219).map fun i =>
      ⟨⟨Vector.replicate 16 0, 0, i, 219, List.replicate 1200 0⟩, 0, ⟨id, List.Perm.refl⟩⟩
    (∃ packet, some packet ∈ packets new given ∧ packet.length = 262800) ∧
      ¬Lts.Along process Bounded new given := by
  intro given
  have hhonest : ∀ e ∈ given, IsHonest (Vector.replicate 16 0, 0) 219
      (fun _ => List.replicate 1200 0) e.frame ∧ ¬e.frame.Malformed := by
    intro e he
    obtain ⟨i, hi, rfl⟩ := mem_map.1 he
    refine ⟨⟨rfl, rfl, rfl⟩, ?_⟩
    have hlt := List.mem_range.1 hi
    have hmax : maxTotalChunks = 219 := by decide
    have hpayload : maxUdpPayload = 1200 := rfl
    unfold CryptoFrame.Malformed
    rw [length_replicate]
    simp only
    omega
  have hcount : given.length = 219 := by rw [length_map, length_range]
  have hpacket : some (Chunks.frameOf (fun _ => List.replicate 1200 0) 219) ∈ packets new given := by
    apply packets_of_missing (T := ∅) (fun _ _ => rfl) hhonest
    · rw [List.map_map]
      exact (map_id _).symm ▸ nodup_range
    · exact fun _ _ => Finset.notMem_empty _
    · exact empty_subset _
    · exact holds_of_lookup_none rfl
    · rw [hcount]
      rfl
    · exact ne_nil_of_length_pos (by rw [hcount]; decide)
  have hlength : (Chunks.frameOf (fun _ => List.replicate 1200 0) 219).length = 262800 := by
    rw [Chunks.frameOf, List.length_flatten, List.map_map, List.map_congr_left (g := fun _ => 1200)]
    · rw [map_const', length_range, sum_replicate]
      rfl
    · intro i _
      exact length_replicate
  refine ⟨⟨_, hpacket, hlength⟩, fun hbounded => ?_⟩
  have hle := packets_le_of_bounded hbounded _ hpacket
  rw [hlength] at hle
  exact absurd hle (by decide)

end FragmentAssembler

end PhantomProtocol
