import Mathlib.Data.List.Induction
import Mathlib.Data.List.Nodup
import PhantomProtocol.Security.Proof.ReplayWindow

/-!
# The replay window over whole runs

A fresh window and any sequence of `accept` calls, on a 64-bit target and on a 32-bit one.
-/

namespace PhantomProtocol.ReplayWindow

variable {w : ReplayWindow} {b b' : Vector UInt64 windowWords} {seen : Set UInt64} {seq : UInt64}
  {usizeBits : Nat}

/-! ## Runs of calls -/

/-- A fresh window after a sequence of calls, and the numbers it accepted, in their order. -/
def acceptAll (seqs : List UInt64) : ReplayWindow × List UInt64 :=
  seqs.foldl (fun r seq =>
    ((r.1.accept seq).1, if (r.1.accept seq).2 then r.2 ++ [seq] else r.2)) (new, [])

def after (seqs : List UInt64) : ReplayWindow := (acceptAll seqs).1

def accepted (seqs : List UInt64) : List UInt64 := (acceptAll seqs).2

theorem after_snoc (seqs : List UInt64) (seq : UInt64) :
    after (seqs ++ [seq]) = ((after seqs).accept seq).1 := by
  rw [after, acceptAll, List.foldl_append]
  rfl

theorem accepted_snoc (seqs : List UInt64) (seq : UInt64) : accepted (seqs ++ [seq]) =
      if ((after seqs).accept seq).2 then accepted seqs ++ [seq] else accepted seqs := by
  rw [accepted, acceptAll, List.foldl_append]
  rfl

theorem remembers_after (seqs : List UInt64) :
    Remembers (after seqs) {s | s ∈ accepted seqs} ∧ (accepted seqs).Nodup := by
  -- over the calls, the last one last
  induction seqs using List.reverseRecOn with
  | nil =>
    refine ⟨?_, List.nodup_nil⟩
    have hempty : {s | s ∈ accepted []} = (∅ : Set UInt64) := by
      ext s
      simp [accepted, acceptAll]
    rw [hempty]
    exact remembers_new
  | append_singleton seqs seq ih =>
    obtain ⟨hrem, hnodup⟩ := ih
    rw [after_snoc, accepted_snoc]
    obtain ⟨htrue, hnew⟩ | ⟨hfalse, hsame⟩ := hrem.accept seq
    · have hfresh : seq ∉ accepted seqs := ((hrem.accept_iff seq).1 htrue).1
      have hinsert : {s | s ∈ accepted seqs ++ [seq]} = insert seq {s | s ∈ accepted seqs} := by
        ext s
        simp [or_comm]
      grind
    · simp [*]

theorem Remembers.recent_iff {l : List UInt64} (h : Remembers w {s | s ∈ l}) (seq : UInt64) :
    (∀ s ∈ l, s.toNat < seq.toNat + windowBits) ↔ l = [] ∨ ∃ M ∈ l, (∀ s ∈ l, s ≤ M) ∧
      (M.toNat : Int) - windowBits < seq.toNat := by
  constructor
  · intro hnear
    cases hinit : w.initialized with
    | false =>
      left
      have hnone := h.empty hinit
      exact List.eq_nil_iff_forall_not_mem.2 fun s hs =>
        Set.notMem_empty s (hnone ▸ (hs : s ∈ {s | s ∈ l}))
    | true =>
      -- the watermark is the largest number accepted
      obtain ⟨hmem, hmax⟩ := h.high hinit
      refine .inr ⟨w.highWatermark, hmem, hmax, ?_⟩
      have := hnear _ hmem
      omega
  · grind [UInt64.le_iff_toNat_le]

/-- **The window implements the set of the numbers accepted.** After any calls on a fresh window,
the next call returns true exactly when no earlier call accepted its number, and either none
accepted anything or the number is above `M - 1024`, for `M` the largest one accepted. No number is
accepted twice. -/
theorem accept_iff_new_and_recent (seqs : List UInt64) (seq : UInt64) :
    (((after seqs).accept seq).2 = true ↔ seq ∉ accepted seqs ∧
      (accepted seqs = [] ∨ ∃ M ∈ accepted seqs, (∀ s ∈ accepted seqs, s ≤ M) ∧
        (M.toNat : Int) - windowBits < seq.toNat)) ∧
      (accepted (seqs ++ [seq])).Nodup := by
  obtain ⟨hrem, -⟩ := remembers_after seqs
  refine ⟨?_, (remembers_after (seqs ++ [seq])).2⟩
  rw [hrem.accept_iff, ← hrem.recent_iff]
  exact Iff.rfl

/-! ## The width of `usize` -/

/-- How far the number is from the watermark. -/
def distance (w : ReplayWindow) (seq : UInt64) : Nat :=
  if w.highWatermark < seq then (seq - w.highWatermark).toNat else (w.highWatermark - seq).toNat

/-- A difference that a 32-bit `usize` does not hold is either reduced to one outside the window, or
to one at which the window already is as it should become: forward, nothing but the watermark is
marked and it is not moved; backward, the number in its place is marked. -/
def FitsUsize32 (w : ReplayWindow) (seq : UInt64) : Prop :=
  w.initialized = false ∨ w.distance seq < 2 ^ 32 ∨ windowBits ≤ w.distance seq % 2 ^ 32 ∨
    if w.highWatermark < seq then
      w.distance seq % 2 ^ 32 = 0 ∧ ∀ i < windowBits, i ≠ 0 → bit w.bitmap i = false
    else bit w.bitmap (w.distance seq % 2 ^ 32) = true

theorem bitmap_ext (h : ∀ i < windowBits, bit b i = bit b' i) : b = b' := by
  apply Vector.ext
  intro k hk
  apply UInt64.toNat_inj.1
  apply Nat.eq_of_testBit_eq
  intro j
  by_cases hj : j < 64
  · have hlt : 64 * k + j < windowBits := by
      unfold windowBits
      unfold windowWords at hk
      omega
    have hdiv : (64 * k + j) / 64 = k := by omega
    have hmod : (64 * k + j) % 64 = j := by omega
    have hbit := h _ hlt
    unfold bit word at hbit
    rw [hdiv, hmod] at hbit
    simpa [Vector.getElem?_eq_getElem hk] using hbit
  · rw [testBit_of_le _ (by omega), testBit_of_le _ (by omega)]

theorem acceptOn_of_uninitialized (h : w.initialized = false) :
    w.acceptOn usizeBits seq = w.accept seq := by
  simp [acceptOn, accept, h]

theorem acceptOn_of_lt (h : w.distance seq < 2 ^ usizeBits) :
    w.acceptOn usizeBits seq = w.accept seq := by
  unfold distance at h
  unfold accept acceptOn
  simp only [toNat_mod_usize]
  split
  · rfl
  · split
    all_goals simp_all [Nat.mod_eq_of_lt]

theorem Remembers.bit_zero (h : Remembers w seen) (hinit : w.initialized = true) :
    bit w.bitmap 0 = true :=
  (h.bits 0 (by decide)).2 ⟨_, (h.high hinit).1, rfl⟩

theorem shiftLeft_eq_clear_iff {shift : Nat} (hshift : shift < windowBits)
    (hzero : bit b 0 = true) :
    (shiftLeft b shift).setIfInBounds 0 (word (shiftLeft b shift) 0 ||| 1) =
        (Vector.replicate windowWords 0).setIfInBounds 0
          (word (Vector.replicate windowWords 0) 0 ||| 1) ↔
      shift = 0 ∧ ∀ i < windowBits, i ≠ 0 → bit b i = false := by
  constructor
  · intro heq
    have hbits : ∀ i < windowBits, i ≠ 0 → (decide (shift ≤ i) && bit b (i - shift)) = false := by
      intro i hi hne
      have hbit := congrArg (bit · i) heq
      simpa [bit_or_one, bit_replicate, hne, bit_shiftLeft _ hi] using hbit
    -- the bit of the old watermark is moved to `shift`
    have hshift0 : shift = 0 := by grind
    subst hshift0
    exact ⟨rfl, fun i hi hne => by simpa using hbits i hi hne⟩
  · rintro ⟨rfl, hclear⟩
    apply bitmap_ext
    grind [bit_or_one, bit_replicate, bit_shiftLeft]

theorem acceptOn_forward (hinit : w.initialized = true) (hgt : w.highWatermark < seq)
    (hzero : bit w.bitmap 0 = true) (hfar : windowBits ≤ w.distance seq) :
    w.acceptOn usizeBits seq = w.accept seq ↔ windowBits ≤ w.distance seq % 2 ^ usizeBits ∨
      w.distance seq % 2 ^ usizeBits = 0 ∧ ∀ i < windowBits, i ≠ 0 → bit w.bitmap i = false := by
  unfold distance at hfar ⊢
  rw [if_pos hgt] at hfar ⊢
  unfold accept acceptOn
  simp only [hinit, Bool.not_true, Bool.false_eq_true, if_false, if_pos hgt, toNat_mod_usize,
    if_pos hfar]
  by_cases hcut : windowBits ≤ (seq - w.highWatermark).toNat % 2 ^ usizeBits
  · simp [hcut]
  · rw [if_neg hcut, or_iff_right hcut, ← shiftLeft_eq_clear_iff (by omega) hzero]
    simp

theorem acceptOn_backward (hinit : w.initialized = true) (hle : ¬w.highWatermark < seq)
    (hfar : windowBits ≤ w.distance seq) :
    w.acceptOn usizeBits seq = w.accept seq ↔ windowBits ≤ w.distance seq % 2 ^ usizeBits ∨
      bit w.bitmap (w.distance seq % 2 ^ usizeBits) = true := by
  unfold distance at hfar ⊢
  rw [if_neg hle] at hfar ⊢
  unfold accept acceptOn
  simp only [hinit, Bool.not_true, Bool.false_eq_true, if_false, if_neg hle, toNat_mod_usize,
    if_pos hfar]
  by_cases hcut : windowBits ≤ (w.highWatermark - seq).toNat % 2 ^ usizeBits
  · simp [hcut]
  · rw [if_neg hcut, or_iff_right hcut, bit, ← and_mask_ne_zero _ (Nat.mod_lt _ (by decide))]
    split
    · rename_i hset
      exact iff_of_true rfl hset
    · rename_i hclear
      exact iff_of_false (by simp) hclear

/-- **When the width of `usize` does not matter.** In every window that calls of `accept` lead to, a
32-bit `usize` gives the answer and the window of a 64-bit one exactly under `FitsUsize32`. -/
theorem acceptOn_eq_iff (seqs : List UInt64) (seq : UInt64) :
    (after seqs).acceptOn 32 seq = (after seqs).acceptOn 64 seq ↔ FitsUsize32 (after seqs) seq := by
  obtain ⟨hrem, -⟩ := remembers_after seqs
  change (after seqs).acceptOn 32 seq = (after seqs).accept seq ↔ _
  generalize after seqs = w at hrem ⊢
  unfold FitsUsize32
  cases hinit : w.initialized with
  | false => exact iff_of_true (acceptOn_of_uninitialized hinit) (.inl rfl)
  | true =>
    rw [or_iff_right Bool.noConfusion]
    by_cases hlt : w.distance seq < 2 ^ 32
    · exact iff_of_true (acceptOn_of_lt hlt) (.inl hlt)
    · have hfar : windowBits ≤ w.distance seq := by
        unfold windowBits
        omega
      rw [or_iff_right hlt]
      by_cases hgt : w.highWatermark < seq
      · rw [if_pos hgt]
        exact acceptOn_forward hinit hgt (hrem.bit_zero hinit) hfar
      · rw [if_neg hgt]
        exact acceptOn_backward hinit hgt hfar

/-- After the numbers 0, 5000 and `2 ^ 32 + 100`, a 32-bit target accepts the number 0 a second
time: it lies `2 ^ 32 + 100` below the watermark, which is taken for 100. -/
theorem acceptOn_thirtyTwo_replays :
    0 ∈ accepted [0, 5000, 4294967396] ∧
      ((after [0, 5000, 4294967396]).acceptOn 32 0).2 = true ∧
      ((after [0, 5000, 4294967396]).acceptOn 64 0).2 = false := by
  decide +kernel

end PhantomProtocol.ReplayWindow
