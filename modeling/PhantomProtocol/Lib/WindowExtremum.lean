import Mathlib.Data.List.DropRight
import Mathlib.Data.List.Pairwise
import Mathlib.Tactic.Linarith

/-!
# A windowed extremum in bounded space

A queue of samples, oldest first, whose front is the greatest sample of a sliding window. A sample
leaves when it is too old or when a later one is at least as great; to bound the queue, a sample is
also not let in when it comes too soon after the newest one kept. The order is any total preorder,
so the same results serve a maximum and a minimum.
-/

namespace WindowExtremum

open List

variable {α : Type*} (le : α → α → Prop) [DecidableRel le]

/-- Drop what is older than the window. -/
def expire (window now : Nat) (q : List (Nat × α)) : List (Nat × α) :=
  q.dropWhile fun e => window < now - e.1

/-- Drop what the new value is at least as great as, from the newest on. -/
def prune (value : α) (q : List (Nat × α)) : List (Nat × α) := q.rdropWhile fun e => le e.2 value

/-- The newest entry is less than a separation old. -/
def tooSoon (sep now : Nat) (q : List (Nat × α)) : Bool := q.getLast?.any fun e => now - e.1 < sep

/-- Let the sample in, unless it is below the front and comes too soon. -/
def offer (sep now : Nat) (value : α) (q : List (Nat × α)) : List (Nat × α) :=
  if (q.head?.any fun e => !decide (le e.2 value)) && tooSoon sep now q then q
  else q ++ [(now, value)]

/-- What is left of the queue when a sample comes. -/
def kept (window now : Nat) (value : α) (q : List (Nat × α)) : List (Nat × α) :=
  prune le value (expire window now q)

def update (window sep now : Nat) (value : α) (q : List (Nat × α)) : List (Nat × α) :=
  offer le sep now value (kept le window now value q)

/-- Updates with samples in turn. -/
def updates (window sep : Nat) (samples q : List (Nat × α)) : List (Nat × α) :=
  samples.foldl (fun q e => update le window sep e.1 e.2 q) q

/-- The queue `q` against all samples `seen` until `now`. -/
structure Brackets (window sep now : Nat) (seen q : List (Nat × α)) : Prop where
  sub : ∀ e ∈ q, e ∈ seen
  past : ∀ e ∈ seen, e.1 ≤ now
  young : ∀ e ∈ q, now - e.1 ≤ window
  spaced : q.Pairwise fun a b => a.1 + sep ≤ b.1
  falling : q.Pairwise fun a b => ¬le a.2 b.2
  covered : ∀ e ∈ seen, now - e.1 + sep ≤ window → ∃ k ∈ q, le e.2 k.2 ∧ e.1 < k.1 + sep

/-! ## The two ends as filters -/

/-- Where what is dropped comes first, dropping from the front is filtering. -/
theorem dropWhile_eq_filter {β : Type*} {p : β → Bool} {l : List β}
    (h : l.Pairwise fun a b => p b = true → p a = true) :
    l.dropWhile p = l.filter fun a => !p a := by
  induction l with
  | nil => rfl
  | cons a l ih =>
    obtain ⟨ha, hl⟩ := pairwise_cons.1 h
    by_cases hpa : p a = true
    · rw [dropWhile_cons_of_pos hpa, filter_cons_of_neg (by simp [hpa])]
      exact ih hl
    · rw [dropWhile_cons_of_neg hpa, eq_comm, filter_eq_self]
      intro b hb
      rcases mem_cons.1 hb with rfl | hb
      · simpa using hpa
      · simpa using fun hpb => hpa (ha b hb hpb)

theorem rdropWhile_eq_filter {β : Type*} {p : β → Bool} {l : List β}
    (h : l.Pairwise fun a b => p a = true → p b = true) :
    l.rdropWhile p = l.filter fun a => !p a := by
  rw [List.rdropWhile, dropWhile_eq_filter (pairwise_reverse.2 h), filter_reverse, reverse_reverse]

section Ends

variable {le} {window sep now : Nat} {q : List (Nat × α)} {value : α} {e : Nat × α}

theorem mem_expire (h : q.Pairwise fun a b => a.1 + sep ≤ b.1) :
    e ∈ expire window now q ↔ e ∈ q ∧ now - e.1 ≤ window := by
  rw [expire, dropWhile_eq_filter (h.imp fun {a b} hab => ?_), mem_filter]
  · simp
  · simp only [decide_eq_true_eq]
    omega

theorem mem_prune [Std.Total le] [IsTrans α le] (h : q.Pairwise fun a b => ¬le a.2 b.2)
    : e ∈ prune le value q ↔ e ∈ q ∧ ¬le e.2 value := by
  rw [prune, rdropWhile_eq_filter (h.imp fun {a b} hab => ?_), mem_filter]
  · simp
  · simp only [decide_eq_true_eq]
    exact IsTrans.trans _ _ _ ((Std.Total.total a.2 b.2).resolve_left hab)

theorem kept_sublist : (kept le window now value q).Sublist q := by
  have hback := rdropWhile_prefix (fun e => decide (le e.2 value)) (expire window now q)
  exact hback.sublist.trans (dropWhile_sublist _)

theorem tooSoon_iff : tooSoon sep now q = true ↔ ∃ b ∈ q.getLast?, now - b.1 < sep := by
  simp [tooSoon, Option.any_eq_true]

/-- What is left after pruning is greater than the sample, so only the time decides. -/
theorem offer_eq (h : ∀ e ∈ q, ¬le e.2 value) :
    offer le sep now value q = if tooSoon sep now q then q else q ++ [(now, value)] := by
  cases q with
  | nil => rfl
  | cons => simp [*, offer]

theorem mem_update (he : e ∈ update le window sep now value q) :
    e ∈ kept le window now value q ∨ e = (now, value) := by
  rw [update, offer] at he
  split at he
  · exact .inl he
  · simpa using he

end Ends

namespace Brackets

variable {le} {window sep now now' : Nat} {seen q : List (Nat × α)} {value : α}

omit [DecidableRel le] in
theorem nil : Brackets le window sep now [] [] := by
  constructor <;> simp

variable [Std.Total le] [IsTrans α le]

section

variable (h : Brackets le window sep now seen q)
include h

theorem mem_kept {e : Nat × α} :
    e ∈ kept le window now' value q ↔ e ∈ q ∧ now' - e.1 ≤ window ∧ ¬le e.2 value := by
  have hfalling : (expire window now' q).Pairwise fun a b => ¬le a.2 b.2 :=
    h.falling.sublist (dropWhile_sublist _)
  rw [kept, mem_prune hfalling, mem_expire h.spaced, and_assoc]

/-- The new queue: what is kept and, unless it comes too soon after a greater one, the sample. -/
theorem update_eq : update le window sep now' value q =
      if tooSoon sep now' (kept le window now' value q) then kept le window now' value q
      else kept le window now' value q ++ [(now', value)] :=
  offer_eq fun _ he => (h.mem_kept.1 he).2.2

theorem kept_subset_update : kept le window now' value q ⊆ update le window sep now' value q := by
  rw [h.update_eq]
  split_ifs
  · exact List.Subset.refl _
  · exact subset_append_left ..

/-- Once offered, the sample is covered: by itself, or by the entry it came too soon after. -/
theorem sample_covered (hsep : 0 < sep) (now' : Nat) (value : α) :
    ∃ k ∈ update le window sep now' value q, le value k.2 ∧ now' < k.1 + sep := by
  rw [h.update_eq]
  split_ifs with hsoon
  · obtain ⟨b, hb, hgap⟩ := tooSoon_iff.1 hsoon
    have hmem := mem_of_mem_getLast? hb
    have hnot := (h.mem_kept.1 hmem).2.2
    exact ⟨b, hmem, (Std.Total.total _ _).resolve_right hnot, by omega⟩
  · refine ⟨(now', value), by simp, ?_, by omega⟩
    exact (Std.Total.total value value).elim id id

end

omit [Std.Total le] [IsTrans α le] in
theorem gap (h : Brackets le window sep now seen q) (hsep : 0 < sep)
    (hsoon : ¬tooSoon sep now' (kept le window now' value q) = true) {e : Nat × α}
    (he : e ∈ kept le window now' value q) : e.1 + sep ≤ now' := by
  obtain ⟨b, hb⟩ := Option.isSome_iff_exists.1
    (List.getLast?_isSome.2 (ne_nil_of_mem he))
  have hgap : ¬now' - b.1 < sep := fun hlt => hsoon (tooSoon_iff.2 ⟨b, hb, hlt⟩)
  have hspaced : (kept le window now' value q).Pairwise fun a b => a.1 + sep ≤ b.1 :=
    h.spaced.sublist kept_sublist
  obtain ⟨l, hl⟩ := List.getLast?_eq_some_iff.1 hb
  rw [hl] at hspaced he
  rcases mem_append.1 he with he | he
  · have := (pairwise_append.1 hspaced).2.2 e he b (mem_singleton_self b)
    omega
  · rw [mem_singleton.1 he]
    omega

theorem pairwise_update (h : Brackets le window sep now seen q) {R : Nat × α → Nat × α → Prop}
    (hq : q.Pairwise R)
    (hnew : ¬tooSoon sep now' (kept le window now' value q) = true →
      ∀ e ∈ kept le window now' value q, R e (now', value)) :
    (WindowExtremum.update le window sep now' value q).Pairwise R := by
  have hkept : (kept le window now' value q).Pairwise R := hq.sublist kept_sublist
  rw [h.update_eq]
  split_ifs with hsoon
  · exact hkept
  · grind

/-- **An update keeps the bracket**, at any later time and for any sample. -/
theorem update (h : Brackets le window sep now seen q) (hsep : 0 < sep) (hnow : now ≤ now') :
    Brackets le window sep now' (seen ++ [(now', value)])
      (WindowExtremum.update le window sep now' value q) := by
  refine ⟨?_, ?_, ?_, ?_, ?_, ?_⟩
  · intro e he
    rcases mem_update he with he | rfl
    · exact mem_append_left _ (h.sub e (h.mem_kept.1 he).1)
    · simp
  · intro e he
    rcases mem_append.1 he with he | he
    · exact (h.past e he).trans hnow
    · rw [mem_singleton.1 he]
  · intro e he
    rcases mem_update he with he | rfl
    · exact (h.mem_kept.1 he).2.1
    · simp
  · exact h.pairwise_update h.spaced fun hsoon e he => h.gap hsep hsoon he
  · exact h.pairwise_update h.falling fun _ e he => (h.mem_kept.1 he).2.2
  · obtain ⟨k, hk, hle, hgap⟩ := h.sample_covered hsep now' value
    intro e he hage
    rcases mem_append.1 he with he | he
    · have hpast := h.past e he
      obtain ⟨c, hc, hec, hnear⟩ := h.covered e he (by omega)
      by_cases hcv : le c.2 value
      · -- its cover gives way to the sample, and to what covers that
        exact ⟨k, hk, IsTrans.trans _ _ _ (IsTrans.trans _ _ _ hec hcv) hle, by omega⟩
      · have hkeep : c ∈ kept le window now' value q := h.mem_kept.2 ⟨hc, by omega, hcv⟩
        exact ⟨c, h.kept_subset_update hkeep, hec, hnear⟩
    · rw [mem_singleton.1 he]
      exact ⟨k, hk, hle, hgap⟩

theorem updates (h : Brackets le window sep now seen q) (hsep : 0 < sep)
    {samples : List (Nat × α)} (hsorted : samples.Pairwise fun a b => a.1 ≤ b.1)
    (hlater : ∀ e ∈ samples, now ≤ e.1) :
    ∃ now', (now' = now ∨ ∃ e ∈ samples, e.1 = now') ∧
      Brackets le window sep now' (seen ++ samples) (updates le window sep samples q) := by
  induction samples generalizing now seen q with
  | nil => exact ⟨now, .inl rfl, by rw [append_nil]; exact h⟩
  | cons a _ ih =>
    obtain ⟨ha, hrest⟩ := pairwise_cons.1 hsorted
    have hnext : Brackets le window sep a.1 (seen ++ [a])
        (WindowExtremum.update le window sep a.1 a.2 q) :=
      h.update hsep (hlater a mem_cons_self)
    obtain ⟨now', hnow', hb⟩ := ih hnext hrest ha
    rw [append_assoc] at hb
    refine ⟨now', .inr ?_, hb⟩
    grind

end Brackets

/-! ## The reading and the length -/

namespace Brackets

variable {le : α → α → Prop} {window sep now : Nat} {seen q : List (Nat × α)} {r e : Nat × α}

section

variable (h : Brackets le window sep now seen q)
include h

theorem reading_mem (hr : r ∈ q.head?) : r ∈ seen ∧ now - r.1 ≤ window :=
  have hmem := mem_of_mem_head? hr
  ⟨h.sub r hmem, h.young r hmem⟩

theorem le_head [Std.Total le] (hr : r ∈ q.head?) (he : e ∈ q) : le e.2 r.2 := by
  obtain ⟨q', rfl⟩ := List.head?_eq_some_iff.1 hr
  rcases mem_cons.1 he with rfl | he
  · exact (Std.Total.total e.2 e.2).elim id id
  · exact (Std.Total.total _ _).resolve_right ((pairwise_cons.1 h.falling).1 e he)

/-- The front is at least every sample of a window one separation shorter. -/
theorem le_reading [Std.Total le] [IsTrans α le]
    (hr : r ∈ q.head?) (he : e ∈ seen) (hage : now - e.1 + sep ≤ window) : le e.2 r.2 := by
  obtain ⟨k, hk, hle, -⟩ := h.covered e he hage
  exact IsTrans.trans _ _ _ hle (h.le_head hr hk)

end

theorem spaced_le {a : Nat × α} (hspaced : (a :: q).Pairwise fun a b => a.1 + sep ≤ b.1)
    (hpast : ∀ e ∈ a :: q, e.1 ≤ now) : a.1 + q.length * sep ≤ now := by
  induction q generalizing a with
  | nil => simpa using hpast a
  | cons b q ih =>
    obtain ⟨ha, hq⟩ := pairwise_cons.1 hspaced
    have hrest := ih hq fun e he => hpast e (mem_cons_of_mem _ he)
    have hgap := ha b mem_cons_self
    rw [length_cons, Nat.add_mul, Nat.one_mul]
    omega

/-- As many separations as entries after the first fit into the window. -/
theorem length_le (h : Brackets le window sep now seen q) : (q.length - 1) * sep ≤ window := by
  cases q with
  | nil => simp
  | cons a =>
    have hfit := spaced_le h.spaced fun e he => h.past e (h.sub e he)
    have hage := h.young a mem_cons_self
    rw [length_cons, Nat.add_sub_cancel]
    omega

end Brackets

end WindowExtremum
