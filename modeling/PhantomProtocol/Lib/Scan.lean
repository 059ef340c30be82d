import Mathlib.Data.List.Basic

/-!
# Rewriting the first match of a list

`for x in xs.iter_mut() { if p(x) { ..; return } }` as a function on lists, with its specification:
the list is cut at the first match, and only that element changes. `mem_eraseP_key` and
`find?_eraseP_key` are about removing it, `countP_set_add` is about counting after a rewrite. `before`
collects what stands in front of the first match.
-/

namespace Scan

open List Option

variable {α β : Type*} {p : α → Bool} {f : α → α} {l l' : List α} {a : α} {g : α → β}

/-- Rewrite the first element that satisfies `p`; returned with the list is the element as it
was. -/
def updateFirst (p : α → Bool) (f : α → α) : List α → Option (α × List α)
  | [] => none
  | a :: l => if p a then some (a, f a :: l) else (updateFirst p f l).map fun r => (r.1, a :: r.2)

section

variable (h : updateFirst p f l = some (a, l'))
include h

theorem updateFirst_some :
    ∃ pre post, l = pre ++ a :: post ∧ l' = pre ++ f a :: post ∧ p a = true := by
  induction l generalizing l' with
  | nil => cases h
  | cons _ l =>
    unfold updateFirst at h
    split at h
    · cases h
      exact ⟨[], l, rfl, rfl, ‹_›⟩
    · obtain ⟨⟨c, m⟩, hrec, heq⟩ := map_eq_some_iff.1 h
      grind

theorem find?_of_updateFirst : l.find? p = some a := by
  induction l generalizing l' with
  | nil => cases h
  | cons b l ih =>
    unfold updateFirst at h
    split at h
    · cases h
      exact List.find?_cons_of_pos ‹_›
    · obtain ⟨⟨c, m⟩, hrec, heq⟩ := map_eq_some_iff.1 h
      obtain ⟨rfl, rfl⟩ := Prod.mk.inj heq
      rw [List.find?_cons_of_neg ‹_›]
      exact ih hrec

theorem mem_updateFirst {b : α} (hb : b ∈ l') : b ∈ l ∨ a ∈ l ∧ p a = true ∧ b = f a := by
  obtain ⟨pre, post, rfl, rfl, hp⟩ := updateFirst_some h
  rcases mem_append.1 hb with hb | hb
  · exact .inl (mem_append_left _ hb)
  · grind

end

theorem updateFirst_none (h : updateFirst p f l = none) : ∀ a ∈ l, p a = false := by
  induction l with
  | nil => simp
  | cons =>
    unfold updateFirst at h
    split at h
    · cases h
    · simp_all

theorem updateFirst_append {m : List α} (h : ∀ b ∈ l, p b = false) :
    updateFirst p f (l ++ m) = (updateFirst p f m).map fun r => (r.1, l ++ r.2) := by
  induction l with
  | nil => simp
  | cons b l ih =>
    have hb : ¬p b = true := by simp [h b mem_cons_self]
    rw [cons_append, updateFirst, if_neg hb, ih fun c hc => h c (mem_cons_of_mem _ hc),
      Option.map_map]
    rfl

theorem updateFirst_map (hg : ∀ a, g (f a) = g a)
    (h : updateFirst p f l = some (a, l')) : l'.map g = l.map g := by
  obtain ⟨pre, post, rfl, rfl, -⟩ := updateFirst_some h
  simp [hg]

/-- Where keys are distinct, erasing the first match of a key erases the key. -/
theorem mem_eraseP_key [DecidableEq β] {b : β} (hnodup : (l.map g).Nodup) :
    a ∈ l.eraseP (fun x => g x == b) ↔ a ∈ l ∧ g a ≠ b := by
  induction l with
  | nil => simp
  | cons x =>
    obtain ⟨hx, hrest⟩ := nodup_cons.1 hnodup
    by_cases hkey : g x = b
    · grind
    · grind

theorem find?_eraseP_key [DecidableEq β] {b c : β} (hne : b ≠ c) (l : List α) :
    (l.eraseP fun x => g x == b).find? (fun x => g x == c) = l.find? fun x => g x == c := by
  induction l with
  | nil => rfl
  | cons => grind

theorem countP_set_add {i : Nat} {b : α} (h : l[i]? = some a) :
    (l.set i b).countP p + (if p a then 1 else 0) = l.countP p + if p b then 1 else 0 := by
  obtain ⟨hi, rfl⟩ := List.getElem?_eq_some_iff.1 h
  have hpos : (if p l[i] then 1 else 0) ≤ l.countP p := by grind
  rw [countP_set hi]
  omega

section Before

variable [DecidableEq α] {stop : α} {g : α → List β}

/-- What `g` gives for the elements in front of the first `stop`. -/
def before (stop : α) (g : α → List β) (l : List α) : List β := (l.takeWhile (· ≠ stop)).flatMap g

@[simp] theorem before_nil : before stop g [] = [] := rfl

@[simp] theorem before_cons_self : before stop g (stop :: l) = [] := by simp [before]

theorem before_cons_of_ne (h : a ≠ stop) : before stop g (a :: l) = g a ++ before stop g l := by
  simp [before, h]

theorem before_append (stop : α) (g : α → List β) (l m : List α) :
    before stop g (l ++ m) = before stop g l ++ if stop ∈ l then [] else before stop g m := by
  induction l with
  | nil => simp
  | cons x l ih =>
    by_cases hx : x = stop
    · subst hx
      simp
    · have hne : stop ≠ x := fun h => hx h.symm
      rw [cons_append, before_cons_of_ne hx, before_cons_of_ne hx, ih]
      simp [hne]

theorem before_eq_nil (h : ∀ x ∈ l, g x = []) : before stop g l = [] := by
  rw [before, flatMap_eq_nil_iff]
  intro x hx
  exact h x (takeWhile_subset _ hx)

end Before

end Scan
