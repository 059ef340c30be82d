import Mathlib.Data.Set.Card

/-!
# Sets of numbers as lists of ranges

Finite sets of natural numbers written as lists of inclusive ranges `(low, high)`, and the pass that
merges an ascending list of ranges in place (`coalesce`).
-/

namespace Ranges

open List

/-- `x` lies in one of the ranges. -/
def covers (rs : List (Nat × Nat)) (x : Nat) : Bool := rs.any fun r => r.1 ≤ x && x ≤ r.2

theorem covers_iff {rs : List (Nat × Nat)} {x : Nat} :
    covers rs x = true ↔ ∃ r ∈ rs, r.1 ≤ x ∧ x ≤ r.2 := by
  simp [covers]

theorem covers_cons {r : Nat × Nat} {rs : List (Nat × Nat)} {x : Nat} :
    covers (r :: rs) x = true ↔ (r.1 ≤ x ∧ x ≤ r.2) ∨ covers rs x = true := by
  simp [covers]

/-- Dropping ranges only removes numbers from it. -/
theorem covers_mono {rs rs' : List (Nat × Nat)} {x : Nat} (hsub : rs ⊆ rs')
    (h : covers rs x = true) : covers rs' x = true := by
  obtain ⟨r, hr, hx⟩ := covers_iff.1 h
  exact covers_iff.2 ⟨r, hsub hr, hx⟩

theorem covers_congr {rs rs' : List (Nat × Nat)} (hmem : ∀ r, r ∈ rs ↔ r ∈ rs') {x : Nat} :
    covers rs x = true ↔ covers rs' x = true :=
  ⟨covers_mono fun r hr => (hmem r).1 hr, covers_mono fun r hr => (hmem r).2 hr⟩

/-- One turn of the merging loop. The ranges built so far stand newest first; `r` extends the newest
one when it starts at most one past its end, where `+ 1` saturates at `top`. -/
def push (top : Nat) : List (Nat × Nat) → Nat × Nat → List (Nat × Nat)
  | [], r => [r]
  | last :: rest, r =>
    if r.1 ≤ min (last.2 + 1) top then (last.1, if last.2 < r.2 then r.2 else last.2) :: rest
    else r :: last :: rest

/-- Merge ranges that overlap or touch, front to back. -/
def coalesce (top : Nat) (rs : List (Nat × Nat)) : List (Nat × Nat) :=
  (rs.foldl (push top) []).reverse

variable {top x : Nat} {acc rs : List (Nat × Nat)} {r : Nat × Nat}

/-- Pushing a range that starts no earlier than the newest one adds exactly its numbers. -/
theorem covers_push (h : ∀ last ∈ acc.head?, last.1 ≤ r.1) :
    covers (push top acc r) x = true ↔ covers acc x = true ∨ (r.1 ≤ x ∧ x ≤ r.2) := by
  cases acc with
  | nil => simp [push, covers]
  | cons last rest =>
    have hle : last.1 ≤ r.1 := h last rfl
    rw [push]
    split
    · rename_i htouch
      have hnear : r.1 ≤ last.2 + 1 := Nat.le_trans htouch (Nat.min_le_left ..)
      have hunion : last.1 ≤ x ∧ x ≤ (if last.2 < r.2 then r.2 else last.2) ↔
          (last.1 ≤ x ∧ x ≤ last.2) ∨ (r.1 ≤ x ∧ x ≤ r.2) := by
        split <;> omega
      rw [covers_cons, covers_cons, hunion, or_right_comm]
    · rw [covers_cons, or_comm]

theorem head_push_le {b : Nat} (hacc : ∀ last ∈ acc.head?, last.1 ≤ b) (hr : r.1 ≤ b) :
    ∀ last ∈ (push top acc r).head?, last.1 ≤ b := by
  intro last hlast
  cases acc with
  | nil =>
    cases hlast
    exact hr
  | cons last' =>
    rw [push] at hlast
    split at hlast
    · cases hlast
      exact hacc last' rfl
    · cases hlast
      exact hr

theorem covers_foldl_push (hsorted : rs.Pairwise fun a b => a.1 ≤ b.1)
    (hacc : ∀ r ∈ rs, ∀ last ∈ acc.head?, last.1 ≤ r.1) :
    covers (rs.foldl (push top) acc) x = true ↔ covers acc x = true ∨ covers rs x = true := by
  induction rs generalizing acc with
  | nil => simp [covers]
  | cons r rs ih =>
    obtain ⟨hle, hsorted'⟩ := pairwise_cons.1 hsorted
    have hhead : ∀ r' ∈ rs, ∀ last ∈ (push top acc r).head?, last.1 ≤ r'.1 := fun r' hr' =>
      head_push_le (hacc r' (mem_cons_of_mem _ hr')) (hle r' hr')
    rw [foldl_cons, ih hsorted' hhead, covers_push (hacc r mem_cons_self), covers_cons, or_assoc]

/-- Merging does not change the set. -/
theorem covers_coalesce (hsorted : rs.Pairwise fun a b => a.1 ≤ b.1) :
    covers (coalesce top rs) x = true ↔ covers rs x = true := by
  have hrev : covers (coalesce top rs) x = true ↔ covers (rs.foldl (push top) []) x = true :=
    covers_congr fun r => mem_reverse
  rw [hrev, covers_foldl_push hsorted (by simp)]
  simp [covers]

theorem push_ne_nil : push top acc r ≠ [] := by
  cases acc with
  | nil => simp [push]
  | cons =>
    rw [push]
    split
    · simp
    · simp

theorem foldl_push_ne_nil (h : acc ≠ [] ∨ rs ≠ []) : rs.foldl (push top) acc ≠ [] := by
  induction rs generalizing acc with
  | nil => simpa using h
  | cons _ _ ih => exact ih (.inl push_ne_nil)

/-! ## Separated ranges -/

/-- A range with a number in it that starts at `top` at the latest. -/
def Proper (top : Nat) (r : Nat × Nat) : Prop := r.1 ≤ r.2 ∧ r.1 ≤ top

/-- Proper ranges, highest first, with a number missing between any two. -/
structure Separated (top : Nat) (rs : List (Nat × Nat)) : Prop where
  proper : ∀ r ∈ rs, Proper top r
  gaps : rs.Pairwise fun a b => b.2 + 1 < a.1

theorem separated_nil : Separated top [] := ⟨by simp, List.Pairwise.nil⟩

theorem separated_singleton (h : Proper top r) : Separated top [r] :=
  ⟨by simpa using h, pairwise_singleton _ _⟩

namespace Separated

variable {rs' : List (Nat × Nat)}

theorem push (h : Separated top acc) (hr : Proper top r) : Separated top (push top acc r) := by
  cases acc with
  | nil => exact separated_singleton hr
  | cons last rest =>
    obtain ⟨hbelow, hrest⟩ := pairwise_cons.1 h.gaps
    have hlast := h.proper last mem_cons_self
    have hproper : ∀ q ∈ rest, Proper top q := fun q hq => h.proper q (mem_cons_of_mem _ hq)
    unfold Proper at hr hlast
    rw [Ranges.push]
    split
    · refine ⟨forall_mem_cons.2 ⟨⟨?_, hlast.2⟩, hproper⟩, pairwise_cons.2 ⟨hbelow, hrest⟩⟩
      show last.1 ≤ if last.2 < r.2 then r.2 else last.2
      split <;> omega
    · refine ⟨forall_mem_cons.2 ⟨hr, h.proper⟩, pairwise_cons.2 ⟨fun b hb => ?_, h.gaps⟩⟩
      rcases mem_cons.1 hb with rfl | hb
      · omega
      · have hgap := hbelow b hb
        omega

theorem sublist (h : Separated top rs) (hsub : rs'.Sublist rs) : Separated top rs' :=
  ⟨fun r hr => h.proper r (hsub.subset hr), h.gaps.sublist hsub⟩

theorem foldl_push (h : Separated top acc) (hrs : ∀ r ∈ rs, Proper top r) :
    Separated top (rs.foldl (Ranges.push top) acc) := by
  induction rs generalizing acc with
  | nil => exact h
  | cons _ _ ih =>
    obtain ⟨hr, htail⟩ := forall_mem_cons.1 hrs
    exact ih (h.push hr) htail

theorem apart {a b : Nat × Nat} (h : Separated top rs) (ha : a ∈ rs) (hb : b ∈ rs) :
    a = b ∨ b.2 + 1 < a.1 ∨ a.2 + 1 < b.1 := by
  have hall := List.Pairwise.forall_of_forall_of_flip
    (R := fun a b : Nat × Nat => a = b ∨ b.2 + 1 < a.1 ∨ a.2 + 1 < b.1) (l := rs)
    (fun _ _ => .inl rfl) (h.gaps.imp fun hgap => .inr (.inl hgap))
    (h.gaps.imp fun hgap => .inr (.inr hgap))
  exact hall ha hb

theorem not_covers_succ (h : Separated top rs) (hr : r ∈ rs) : ¬covers rs (r.2 + 1) = true := by
  intro hcov
  obtain ⟨q, hq, hlow, hhigh⟩ := covers_iff.1 hcov
  have hproper := (h.proper r hr).1
  rcases h.apart hr hq with rfl | hgap | hgap
  · omega
  · omega
  · omega

/-- **Shortest cover.** Each of the ranges begins in a range of its own of any list with the same
numbers: two that began in one would have the missing number between them covered. -/
theorem length_le (h : Separated top rs)
    (hsame : ∀ x, covers rs x = true ↔ covers rs' x = true) : rs.length ≤ rs'.length := by
  have hstart : ∀ r ∈ rs, ∃ q ∈ rs', q.1 ≤ r.1 ∧ r.1 ≤ q.2 := by
    intro r hr
    exact covers_iff.1 ((hsame r.1).1 (covers_iff.2 ⟨r, hr, Nat.le_refl _, (h.proper r hr).1⟩))
  choose! f hmem hlow hhigh using hstart
  have hnodup : (rs.map f).Nodup := by
    refine pairwise_map.2 (h.gaps.imp_of_mem fun {a b} ha hb hgap heq => ?_)
    apply h.not_covers_succ hb
    rw [hsame]
    refine covers_iff.2 ⟨f b, hmem b hb, ?_, ?_⟩
    · have hb1 := hlow b hb
      have hb2 := (h.proper b hb).1
      omega
    · have ha1 := hhigh a ha
      rw [heq] at ha1
      omega
  have hsub : rs.map f ⊆ rs' := by grind
  have hle := (subperm_of_subset hnodup hsub).length_le
  rwa [length_map] at hle

theorem le_head {first : Nat × Nat} {rest : List (Nat × Nat)} (h : Separated top (first :: rest))
    (hx : covers (first :: rest) x = true) : x ≤ first.2 := by
  obtain ⟨hbelow, -⟩ := pairwise_cons.1 h.gaps
  have hfirst := (h.proper first mem_cons_self).1
  grind [covers_iff]

/-- A run of numbers from zero on lies in the lowest range. -/
theorem run_last {n : Nat} (h : Separated top rs) (hpos : 0 < n)
    (hrun : ∀ x < n, covers rs x = true) : ∃ r ∈ rs.getLast?, ∀ x < n, r.1 ≤ x ∧ x ≤ r.2 := by
  obtain ⟨r, hr, hlow, -⟩ := covers_iff.1 (hrun 0 hpos)
  have hend : n ≤ r.2 + 1 := by
    by_contra hlt
    exact h.not_covers_succ hr (hrun _ (by omega))
  refine ⟨r, ?_, fun x hx => by omega⟩
  obtain ⟨pre, post, rfl⟩ := append_of_mem hr
  cases post with
  | nil => simp
  | cons b =>
    have hgap := (pairwise_cons.1 (pairwise_append.1 h.gaps).2.1).1 b mem_cons_self
    omega

end Separated

/-! ## Maximal runs -/

/-- A longest run of consecutive numbers of `S`. -/
structure MaximalRun (S : Set Nat) (r : Nat × Nat) : Prop where
  proper : r.1 ≤ r.2
  inside : ∀ x, r.1 ≤ x → x ≤ r.2 → x ∈ S
  below : ∀ x, x + 1 = r.1 → x ∉ S
  above : r.2 + 1 ∉ S

theorem MaximalRun.eq_of_mem {S : Set Nat} {q : Nat × Nat} (hq : MaximalRun S q)
    (hr : MaximalRun S r) (hqx : q.1 ≤ x ∧ x ≤ q.2) (hrx : r.1 ≤ x ∧ x ≤ r.2) : q = r := by
  have hlow : ∀ {a b : Nat × Nat}, MaximalRun S a → MaximalRun S b → a.1 ≤ x ∧ x ≤ a.2 →
      b.1 ≤ x → a.1 < b.1 → False := by
    intro a b ha hb hax hbx hlt
    exact hb.below (b.1 - 1) (by omega) (ha.inside _ (by omega) (by omega))
  have hhigh : ∀ {a b : Nat × Nat}, MaximalRun S a → MaximalRun S b → a.1 ≤ x ∧ x ≤ a.2 →
      x ≤ b.2 → b.2 < a.2 → False := by
    intro a b ha hb hax hbx hlt
    exact hb.above (ha.inside _ (by omega) (by omega))
  grind

namespace Separated

section

variable (h : Separated top rs)
include h

/-- Separated ranges are the maximal runs of the numbers they cover. -/
theorem mem_iff_maximalRun : r ∈ rs ↔ MaximalRun {x | covers rs x = true} r := by
  have hrun : ∀ q ∈ rs, MaximalRun {x | covers rs x = true} q := by
    intro q hq
    refine ⟨(h.proper q hq).1, fun x hlow hhigh => covers_iff.2 ⟨q, hq, hlow, hhigh⟩, ?_,
      h.not_covers_succ hq⟩
    intro x hx hcov
    obtain ⟨p, hp, hlow, hhigh⟩ := covers_iff.1 hcov
    have hproper := (h.proper q hq).1
    rcases h.apart hq hp with rfl | hgap | hgap
    · omega
    · omega
    · omega
  refine ⟨hrun r, fun hr => ?_⟩
  obtain ⟨q, hq, hlow, hhigh⟩ := covers_iff.1 (hr.inside r.1 (Nat.le_refl _) hr.proper)
  rw [← (hrun q hq).eq_of_mem hr ⟨hlow, hhigh⟩ ⟨Nat.le_refl _, hr.proper⟩]
  exact hq

theorem descending : rs.Pairwise fun a b => b.1 < a.1 := by
  refine h.gaps.imp_of_mem fun {a b} _ hb hgap => ?_
  have hproper := (h.proper b hb).1
  omega

theorem nodup : rs.Nodup :=
  h.descending.imp fun hlt heq => by
    rw [heq] at hlt
    exact Nat.lt_irrefl _ hlt

theorem ncard_maximalRuns : {r | MaximalRun {x | covers rs x = true} r}.ncard = rs.length := by
  have hset : {r | MaximalRun {x | covers rs x = true} r} = (rs.toFinset : Set (Nat × Nat)) := by
    ext r
    simp [h.mem_iff_maximalRun]
  rw [hset, Set.ncard_coe_finset, toFinset_card_of_nodup h.nodup]

theorem ncard_above (b : Nat) :
    {q | MaximalRun {x | covers rs x = true} q ∧ b < q.1}.ncard = rs.countP fun q => b < q.1 := by
  have hset : {q | MaximalRun {x | covers rs x = true} q ∧ b < q.1} =
      ((rs.filter fun q => b < q.1).toFinset : Set (Nat × Nat)) := by
    ext q
    simp [h.mem_iff_maximalRun]
  rw [hset, Set.ncard_coe_finset, toFinset_card_of_nodup (h.nodup.filter _),
    countP_eq_length_filter]

end

end Separated

/-- In a descending list the first `n` are those with fewer than `n` above them. -/
theorem mem_take_iff_countP {n : Nat} (h : rs.Pairwise fun a b => b.1 < a.1) (hr : r ∈ rs) :
    r ∈ rs.take n ↔ (rs.countP fun q => r.1 < q.1) < n := by
  induction rs generalizing n with
  | nil => cases hr
  | cons _ rs =>
    obtain ⟨hbelow, hrest⟩ := pairwise_cons.1 h
    cases n with
    | zero => simp
    | succ =>
      rw [take_succ_cons, mem_cons, countP_cons]
      rcases mem_cons.1 hr with rfl | hr
      · have hnone : (rs.countP fun q => r.1 < q.1) = 0 := by
          rw [countP_eq_zero]
          intro q hq
          have hlt := hbelow q hq
          simp only [decide_eq_true_eq]
          omega
        simp [hnone]
      · grind

namespace Separated

/-- The first `n` ranges are the runs with fewer than `n` runs above them. -/
theorem mem_take_iff {n : Nat} (h : Separated top rs) (hr : r ∈ rs) :
    r ∈ rs.take n ↔ {q | MaximalRun {x | covers rs x = true} q ∧ r.1 < q.1}.ncard < n := by
  rw [mem_take_iff_countP h.descending hr, h.ncard_above]

theorem mem_getLast_iff (h : Separated top rs) (hr : r ∈ rs) :
    r ∈ rs.getLast? ↔ ∀ q, MaximalRun {x | covers rs x = true} q → r.1 ≤ q.1 := by
  obtain ⟨last, hlast, hmem, hleast⟩ : ∃ last, rs.getLast? = some last ∧ last ∈ rs ∧
      ∀ q ∈ rs, last.1 ≤ q.1 := by
    refine ⟨_, List.getLast?_eq_some_getLast (ne_nil_of_mem hr), getLast_mem _, ?_⟩
    intro q hq
    exact (h.descending.imp fun hlt => hlt.le).rel_getLast hq
  rw [hlast, Option.mem_some_iff]
  constructor
  · rintro rfl q hq
    exact hleast q (h.mem_iff_maximalRun.2 hq)
  · intro hlow
    have hle := hlow last (h.mem_iff_maximalRun.1 hmem)
    have hproper := (h.proper r hr).1
    have hproper' := (h.proper last hmem).1
    rcases h.apart hr hmem with heq | hgap | hgap
    · exact heq.symm
    · omega
    · have hge := hleast r hr
      omega

end Separated

theorem separated_coalesce (h : ∀ r ∈ rs, Proper top r) : Separated top (coalesce top rs).reverse := by
  rw [coalesce, reverse_reverse]
  exact separated_nil.foldl_push h

end Ranges
