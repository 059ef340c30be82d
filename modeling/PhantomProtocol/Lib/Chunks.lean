import Mathlib.Data.List.Basic
import Mathlib.Algebra.Order.Group.Nat

/-!
# Chunks of a list

`chunksOf n l` cuts `l` into pieces of `n`, the last one shorter where `n` does not divide the length.
-/

variable {α : Type*} {n : Nat} {l c : List α}

/-- `slice::chunks`. -/
def chunksOf (n : Nat) (l : List α) : List (List α) :=
  (List.range ((l.length + n - 1) / n)).map fun i => (l.drop (i * n)).take n

theorem length_chunksOf (n : Nat) (l : List α) :
    (chunksOf n l).length = (l.length + n - 1) / n := by
  simp [chunksOf]

theorem length_le_of_mem_chunksOf (h : c ∈ chunksOf n l) : c.length ≤ n := by
  obtain ⟨i, -, rfl⟩ := List.mem_map.1 h
  rw [List.length_take]
  omega

theorem ne_nil_of_mem_chunksOf (hn : 0 < n) (h : c ∈ chunksOf n l) : c ≠ [] := by
  obtain ⟨i, hi, rfl⟩ := List.mem_map.1 h
  have hlt : i * n < l.length := by
    have hmul := (Nat.le_div_iff_mul_le hn).1 (List.mem_range.1 hi)
    rw [Nat.succ_mul] at hmul
    omega
  intro hnil
  have hlen := congrArg List.length hnil
  rw [List.length_take, List.length_drop, List.length_nil] at hlen
  omega

theorem flatten_chunksOf (hn : 0 < n) (l : List α) : (chunksOf n l).flatten = l := by
  -- by the number of pieces, with any number that is enough
  have hpieces : ∀ (k : Nat) (l : List α), l.length ≤ k * n →
      ((List.range k).map fun i => (l.drop (i * n)).take n).flatten = l := by
    intro k
    induction k with
    | zero => simp
    | succ k ih =>
      intro l hlen
      rw [Nat.succ_mul] at hlen
      have hrest := ih (l.drop n) (by rw [List.length_drop]; omega)
      simp only [List.drop_drop] at hrest
      rw [List.range_succ_eq_map, List.map_cons, List.map_map, List.flatten_cons]
      simp only [Function.comp_def, Nat.succ_mul, Nat.zero_mul, List.drop_zero, Nat.add_comm _ n]
      rw [hrest, List.take_append_drop]
  apply hpieces
  have hdiv := Nat.div_add_mod' (l.length + n - 1) n
  have hmod := Nat.mod_lt (l.length + n - 1) hn
  omega
