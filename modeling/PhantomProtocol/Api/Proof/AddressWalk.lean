import Mathlib.Data.List.Basic
import PhantomProtocol.Api.AddressWalk
import PhantomProtocol.Lib.Run

/-!
# Whose answer the address walk returns

Over every schedule, what is returned and when a candidate is contacted (`verdicts_in_order`);
`contacted_while_answering` is the schedule in which a candidate answers while the next one's socket
is being opened.
-/

namespace PhantomProtocol

open List Option Function

namespace AddressWalk

open Lts

/-! ## The lowest verdict -/

/-- What is held is the lowest index, with its value, at which `P` holds. -/
structure Lowest {α : Type} (P : Nat → α → Prop) (held : Option (Nat × α)) : Prop where
  holds : ∀ {i a}, held = some (i, a) → P i a
  least : ∀ {j b}, P j b → ∃ i a, held = some (i, a) ∧ i ≤ j

namespace Lowest

variable {α : Type} {P Q : Nat → α → Prop} {held : Option (Nat × α)}

theorem empty (h : ∀ j b, ¬P j b) : Lowest P none :=
  ⟨fun hi => (nomatch hi), fun hj => absurd hj (h _ _)⟩

theorem congr (h : Lowest P held) (hiff : ∀ j b, Q j b ↔ P j b) : Lowest Q held :=
  ⟨fun hi => (hiff _ _).2 (h.holds hi), fun hj => h.least ((hiff _ _).1 hj)⟩

theorem none_iff (h : Lowest P held) : held = none ↔ ∀ j b, ¬P j b := by
  constructor
  · intro hnone j b hj
    obtain ⟨i, a, hi, -⟩ := h.least hj
    rw [hnone] at hi
    cases hi
  · intro hnot
    cases hheld : held with
    | none => rfl
    | some r => exact absurd (h.holds hheld) (hnot r.1 r.2)

/-- One more index is kept when it is lower. -/
theorem offer (h : Lowest P held) {i : Nat} {a : α}
    (hiff : ∀ j b, Q j b ↔ P j b ∨ (j = i ∧ b = a)) :
    Lowest Q (if held.all (fun r => i < r.1) then some (i, a) else held) := by
  split
  · rename_i hall
    refine ⟨fun {j b} hj => ?_, fun {j b} hj => ⟨i, a, rfl, ?_⟩⟩
    · cases hj
      exact (hiff i a).2 (.inr ⟨rfl, rfl⟩)
    · rcases (hiff j b).1 hj with hold | ⟨rfl, -⟩
      · obtain ⟨k, c, hk, hle⟩ := h.least hold
        rw [hk] at hall
        exact (Nat.le_of_lt (of_decide_eq_true hall)).trans hle
      · exact Nat.le_refl _
  · rename_i hall
    refine ⟨fun hj => (hiff _ _).2 (.inl (h.holds hj)), fun {j b} hj => ?_⟩
    rcases (hiff j b).1 hj with hold | ⟨rfl, -⟩
    · exact h.least hold
    · cases hheld : held with
      | none => simp [hheld] at hall
      | some r => exact ⟨r.1, r.2, rfl, by simpa [hheld] using hall⟩

end Lowest

/-! ## Fates -/

def Won (fate : Nat → Fate) (i session : Nat) : Prop := session = i ∧ fate i = .finished .ready

def Refused (fate : Nat → Fate) (i : Nat) (e : ConnectError) : Prop :=
  fate i = .finished (.failed e) ∧ refusalEndsTheWalk e = true

/-- Finished without completing its handshake. -/
def Fate.incomplete : Fate → Bool
  | .unopened | .finished .elapsed | .finished (.failed _) => true
  | .notContacted | .contacted _ | .finished .ready => false

/-- What the walk waits for of a candidate. -/
def Fate.attempt (i : Nat) : Fate → Option Attempt
  | .contacted answered => some ⟨i, answered⟩
  | _ => none

variable {Addr : Type} {w : Walk Addr} {fate : Nat → Fate} {i : Nat}
  {e : ConnectError} {f : Fate} {a : Attempt} {waiting : List (Option Attempt)}

theorem attempt_eq_some : f.attempt i = some a ↔ f = .contacted a.answered ∧ a.session = i := by
  obtain ⟨session, answered⟩ := a
  cases f <;> simp [Fate.attempt, eq_comm, and_comm]

theorem won_update (hold : fate i ≠ .finished .ready) (hnew : f ≠ .finished .ready)
    (j session : Nat) : Won (update fate i f) j session ↔ Won fate j session := by
  by_cases hj : j = i
  · subst hj
    simp [Won, hold, hnew]
  · simp [Won, update_of_ne hj]

theorem refused_update (hold : ∀ e, fate i ≠ .finished (.failed e))
    (hnew : ∀ e, f = .finished (.failed e) → refusalEndsTheWalk e = false) (j : Nat)
    (e : ConnectError) : Refused (update fate i f) j e ↔ Refused fate j e := by
  by_cases hj : j = i
  · simp_all [Refused, update_self]
  · rw [Refused, Refused, update_of_ne hj]

/-- A contacted candidate completes its handshake. -/
theorem won_ready {b : Bool} (hb : fate i = .contacted b) (j session : Nat) :
    Won (update fate i (.finished .ready)) j session ↔
      Won fate j session ∨ (j = i ∧ session = i) := by
  by_cases hj : j = i
  · subst hj
    simp [Won, hb]
  · simp [Won, hj]

/-- A contacted candidate refuses. -/
theorem refused_failed {b : Bool} (hb : fate i = .contacted b)
    (he : refusalEndsTheWalk e = true) (j : Nat) (e' : ConnectError) :
    Refused (update fate i (.finished (.failed e))) j e' ↔
      Refused fate j e' ∨ (j = i ∧ e' = e) := by
  by_cases hj : j = i
  · grind [Refused, update_self]
  · simp [Refused, hj]

/-! ## The attempts waited for -/

theorem mem_take_attempts {n : Nat} :
    a ∈ (waiting.take n).filterMap id ↔ ∃ i < n, waiting[i]?.join = some a := by
  constructor
  · intro ha
    obtain ⟨o, ho, rfl⟩ := mem_filterMap.1 ha
    obtain ⟨i, hi⟩ := mem_iff_getElem?.1 ho
    rw [List.getElem?_take] at hi
    split at hi
    · exact ⟨i, ‹_›, join_eq_some_iff.2 hi⟩
    · cases hi
  · rintro ⟨i, hlt, hi⟩
    refine mem_filterMap.2 ⟨some a, mem_iff_getElem?.2 ⟨i, ?_⟩, rfl⟩
    rw [List.getElem?_take, if_pos hlt]
    exact join_eq_some_iff.1 hi

theorem join_set {n : Nat} (hn : n < waiting.length) (a : Option Attempt) (i : Nat) :
    (waiting.set n a)[i]?.join = if n = i then a else waiting[i]?.join := by
  rw [List.getElem?_set, if_pos hn]
  split <;> rfl

/-- What `next`, `waiting` and `running` say of a candidate. -/
structure Shows (next : Nat) (waiting : List (Option Attempt)) (running : List Nat) (i : Nat)
    (f : Fate) : Prop where
  next : f = .notContacted ↔ next ≤ i
  waiting : waiting[i]?.join = f.attempt i
  running : i ∈ running ↔ ∃ b, f = .contacted b

theorem shows_update {next next' : Nat} {waiting waiting' : List (Option Attempt)}
    {running running' : List Nat} (h : ∀ j, Shows next waiting running j (fate j))
    (hself : Shows next' waiting' running' i f)
    (hothers : ∀ j, j ≠ i → (next' ≤ j ↔ next ≤ j) ∧ waiting'[j]?.join = waiting[j]?.join ∧
      (j ∈ running' ↔ j ∈ running)) (j : Nat) :
    Shows next' waiting' running' j (update fate i f j) := by
  by_cases hj : j = i
  · subst hj
    rw [update_self]
    exact hself
  · obtain ⟨hnext, hwaiting, hrunning⟩ := hothers j hj
    rw [update_of_ne hj]
    exact ⟨(h j).next.trans hnext.symm, hwaiting.trans (h j).waiting, hrunning.trans (h j).running⟩

/-- What the walk's variables say of the candidates' fates. -/
structure Linked (w : Walk Addr) (fate : Nat → Fate) : Prop where
  length : w.waiting.length = w.candidates.length
  next_le : w.next ≤ w.candidates.length
  shows : ∀ i, Shows w.next w.waiting w.running i (fate i)
  nodup : w.running.Nodup
  won : Lowest (Won fate) w.won
  refused : Lowest (Refused fate) w.refused

namespace Linked

section

variable (h : Linked w fate)
include h

theorem lt_length (hi : fate i ≠ .notContacted) : i < w.candidates.length := by
  have hlt : ¬w.next ≤ i := fun hle => hi ((h.shows i).next.2 hle)
  have hle := h.next_le
  omega

theorem attempt_iff {a : Attempt} :
    w.waiting[i]?.join = some a ↔ fate i = .contacted a.answered ∧ a.session = i := by
  rw [(h.shows i).waiting, attempt_eq_some]

theorem anEarlier_iff (n : Nat) :
    anEarlierAddressIsStillAnswering n w.waiting = true ↔ ∃ i < n, fate i = .contacted true := by
  rw [anEarlierAddressIsStillAnswering, List.any_eq_true]
  constructor
  · grind [h.attempt_iff, mem_take_attempts]
  · rintro ⟨i, hlt, hi⟩
    exact ⟨⟨i, true⟩, mem_take_attempts.2 ⟨i, hlt, h.attempt_iff.2 ⟨hi, rfl⟩⟩, rfl⟩

theorem answering_iff :
    (w.waiting.filterMap id).any (·.answered) = true ↔ ∃ i, fate i = .contacted true := by
  have hall := h.anEarlier_iff w.waiting.length
  rw [anEarlierAddressIsStillAnswering, take_length] at hall
  rw [hall]
  constructor
  · rintro ⟨i, -, hi⟩
    exact ⟨i, hi⟩
  · rintro ⟨i, hi⟩
    refine ⟨i, ?_, hi⟩
    rw [h.length]
    exact h.lt_length (by simp [hi])

theorem refusalIsTheAnswer_iff (n : Nat) :
    aRefusalIsTheAnswerNow n w.waiting = true ↔ ∀ i < n, ∀ b, fate i ≠ .contacted b := by
  rw [aRefusalIsTheAnswerNow, List.all_eq_true]
  constructor
  · intro hall i hlt b hi
    have hget := join_eq_some_iff.1 (h.attempt_iff.2 ⟨hi, rfl⟩ : _ = some ⟨i, b⟩)
    have hmem : some ⟨i, b⟩ ∈ w.waiting.take n := by
      rw [mem_iff_getElem?]
      refine ⟨i, ?_⟩
      rw [List.getElem?_take, if_pos hlt]
      exact hget
    cases hall _ hmem
  · intro hnone a ha
    cases a with
    | none => rfl
    | some a =>
      have hmem : a ∈ (w.waiting.take n).filterMap id := mem_filterMap.2 ⟨_, ha, rfl⟩
      obtain ⟨i, hlt, hi⟩ := mem_take_attempts.1 hmem
      exact absurd (h.attempt_iff.1 hi).1 (hnone i hlt _)

/-! ## What each operation keeps -/

theorem contact (hnext : w.next < w.candidates.length) (now : Nat) :
    Linked (w.contact now) (update fate w.next (.contacted false)) := by
  have hold : fate w.next = .notContacted := (h.shows w.next).next.2 (Nat.le_refl _)
  have hlt : w.next < w.waiting.length := h.length ▸ hnext
  refine ⟨(length_set ..).trans h.length, hnext, shows_update h.shows ⟨?_, ?_, ?_⟩ ?_, ?_,
    h.won.congr (won_update (by simp [hold]) (by simp)),
    h.refused.congr (refused_update (by simp [hold]) (by simp))⟩
  · show _ ↔ w.next + 1 ≤ w.next
    simp
  · exact (join_set hlt _ _).trans (if_pos rfl)
  · show w.next ∈ w.running ++ [w.next] ↔ _
    simp
  · intro j hj
    refine ⟨?_, (join_set hlt _ _).trans (if_neg (Ne.symm hj)), ?_⟩
    · show w.next + 1 ≤ j ↔ w.next ≤ j
      omega
    · show j ∈ w.running ++ [w.next] ↔ j ∈ w.running
      simp [hj]
  · refine nodup_append.2 ⟨h.nodup, by simp, ?_⟩
    intro i hi j hj heq
    obtain ⟨b, hb⟩ := (h.shows i).running.1 hi
    rw [heq, mem_singleton.1 hj, hold] at hb
    cases hb

theorem skip (hnext : w.next < w.candidates.length) (e : ConnectError)
    (now : Nat) : Linked (w.skip e now) (update fate w.next .unopened) := by
  have hold : fate w.next = .notContacted := (h.shows w.next).next.2 (Nat.le_refl _)
  refine ⟨h.length, hnext, shows_update h.shows ⟨?_, ?_, ?_⟩ ?_, h.nodup,
    h.won.congr (won_update (by simp [hold]) (by simp)),
    h.refused.congr (refused_update (by simp [hold]) (by simp))⟩
  · show _ ↔ w.next + 1 ≤ w.next
    simp
  · show w.waiting[w.next]?.join = _
    rw [(h.shows w.next).waiting, hold]
    rfl
  · show w.next ∈ w.running ↔ _
    rw [(h.shows w.next).running, hold]
    simp
  · intro j hj
    refine ⟨?_, rfl, Iff.rfl⟩
    show w.next + 1 ≤ j ↔ w.next ≤ j
    omega

theorem hear (i : Nat) : Linked (w.hear i) (update fate i (fate i).hear) := by
  have hi := h.shows i
  have hwaiting : ∀ j, (w.hear i).waiting[j]?.join =
      if i = j then w.waiting[j]?.join.map fun a => { a with answered := true }
      else w.waiting[j]?.join := by
    intro j
    show (w.waiting.modify i _)[j]?.join = _
    rw [List.getElem?_modify]
    by_cases hj : i = j <;> cases w.waiting[j]? <;> simp [hj]
  refine ⟨(length_modify ..).trans h.length, h.next_le,
    shows_update h.shows ⟨?_, ?_, ?_⟩ fun j hj => ⟨Iff.rfl, ?_, Iff.rfl⟩, h.nodup,
    h.won.congr ?_, h.refused.congr ?_⟩
  · refine Iff.trans ?_ hi.next
    cases fate i <;> simp [Fate.hear]
  · rw [hwaiting, if_pos rfl, hi.waiting]
    cases fate i <;> rfl
  · refine hi.running.trans ?_
    cases fate i <;> simp [Fate.hear]
  · rw [hwaiting, if_neg (Ne.symm hj)]
  · cases hf : fate i with
    | contacted => exact won_update (by simp [hf]) (by simp [Fate.hear])
    | _ => simp [Fate.hear, ← hf]
  · cases hf : fate i with
    | contacted => exact refused_update (by simp [hf]) (by simp [Fate.hear])
    | _ => simp [Fate.hear, ← hf]

end

end Linked

theorem finish_ready (ha : w.waiting[i]?.join = some a) (now : Nat) :
    w.finish i .ready now = { w.take i with
      won := if w.won.all (fun held => i < held.1) then some (i, a.session) else w.won } := by
  simp only [Walk.finish, ha]
  exact (apply_ite (fun o => { w.take i with won := o })
    (w.won.all (fun held => i < held.1) = true) _ _).symm

theorem finish_refused (he : refusalEndsTheWalk e = true) (now : Nat) :
    w.finish i (.failed e) now = { w.take i with
      refused := if w.refused.all (fun held => i < held.1) then some (i, e) else w.refused } := by
  simp only [Walk.finish, he, if_true]
  exact (apply_ite (fun o => { w.take i with refused := o })
    (w.refused.all (fun held => i < held.1) = true) _ _).symm

theorem finish_failed (he : refusalEndsTheWalk e = false) (now : Nat) :
    w.finish i (.failed e) now = (w.take i).setAside i e now := by
  simp [Walk.finish, he]

namespace Linked

theorem shows_take (h : Linked w fate) {b : Bool} (hb : fate i = .contacted b) (outcome : Outcome) :
    ∀ j, Shows w.next (w.waiting.set i none) (w.running.erase i) j
      (update fate i (.finished outcome) j) := by
  have hlt : i < w.waiting.length := by
    rw [h.length]
    exact h.lt_length (by simp [hb])
  refine shows_update h.shows ⟨?_, ?_, ?_⟩ fun j hj => ⟨Iff.rfl, ?_, ?_⟩
  · rw [← (h.shows i).next, hb]
    simp
  · rw [join_set hlt, if_pos rfl]
    rfl
  · simp [h.nodup.mem_erase_iff]
  · rw [join_set hlt, if_neg (Ne.symm hj)]
  · rw [h.nodup.mem_erase_iff, and_iff_right hj]

theorem finish (h : Linked w fate) (hi : i ∈ w.running) (outcome : Outcome) (now : Nat) :
    Linked (w.finish i outcome now) (update fate i (.finished outcome)) := by
  obtain ⟨b, hb⟩ := (h.shows i).running.1 hi
  have hshows := h.shows_take hb outcome
  have hlength : (w.waiting.set i none).length = w.candidates.length :=
    (length_set ..).trans h.length
  have hnodup : (w.running.erase i).Nodup := h.nodup.erase i
  -- an outcome that is no verdict leaves both as they are
  have hwon (ho : outcome ≠ .ready) :
      Lowest (Won (update fate i (.finished outcome))) w.won :=
    h.won.congr (won_update (by simp [hb]) (by simpa using ho))
  have hrefused (ho : ∀ e, outcome = .failed e → refusalEndsTheWalk e = false) :
      Lowest (Refused (update fate i (.finished outcome))) w.refused :=
    h.refused.congr (refused_update (by simp [hb]) (by simpa using ho))
  cases outcome with
  | ready =>
    have hattempt : w.waiting[i]?.join = some ⟨i, b⟩ := h.attempt_iff.2 ⟨hb, rfl⟩
    rw [finish_ready hattempt]
    exact ⟨hlength, h.next_le, hshows, hnodup, h.won.offer (won_ready hb), hrefused (by simp)⟩
  | failed e =>
    cases he : refusalEndsTheWalk e with
    | true =>
      rw [finish_refused he]
      exact ⟨hlength, h.next_le, hshows, hnodup, hwon (by simp),
        h.refused.offer (refused_failed hb he)⟩
    | false =>
      rw [finish_failed he]
      refine ⟨hlength, h.next_le, hshows, hnodup, hwon (by simp), hrefused fun e' he' => ?_⟩
      cases he'
      exact he
  | elapsed =>
    exact ⟨hlength, h.next_le, hshows, hnodup, hwon (by simp), hrefused (by simp)⟩

end Linked

/-! ## Where a pass of the loop stops -/

/-- Set aside: not opened, or finished with neither a completed handshake nor a refusal. -/
def SetAside (fate : Nat → Fate) (i : Nat) : Prop :=
  (fate i).incomplete = true ∧ ∀ e, ¬Refused fate i e

/-- What an answer of the walk says of the candidates. -/
def Stands (fate : Nat → Fate) (total : Nat) : Answer → Prop
  | .refusal r e => Refused fate r e ∧ ∀ i < r, (fate i).incomplete = true
  | .completed winner session => Won fate winner session ∧
      ∀ i < winner, (∀ e, ¬Refused fate i e) ∧ fate i ≠ .contacted true
  | .unawaited i => (∃ b, fate i = .contacted b) ∧ ∀ j < total, j ≠ i → SetAside fate j
  | .failed _ => ∀ i < total, SetAside fate i

/-- What holds where the walk waits for a socket, and where it has returned. -/
def Fits (w : Walk Addr) (fate : Nat → Fate) : Control → Prop
  | .opening => w.next < w.candidates.length ∧ w.won = none ∧ w.refused = none
  | .returned answer => Stands fate w.candidates.length answer
  | .selecting _ | .expired _ => True

namespace Linked

theorem verdict_win_iff (w : Walk Addr) : w.verdict = .win ↔
    ∃ i x, w.won = some (i, x) ∧ ∀ r e, w.refused = some (r, e) → i < r := by
  unfold Walk.verdict
  rcases w.won with _ | ⟨i, x⟩ <;> rcases w.refused with _ | ⟨r, e⟩ <;> simp [verdictToActOn]

section

variable (h : Linked w fate) {answer : Answer}
include h

theorem settle_stands (hs : w.settle = some answer) : Stands fate w.candidates.length answer := by
  unfold Walk.settle at hs
  split at hs
  · rename_i hwin
    obtain ⟨i, x, hwon, hbefore⟩ := (verdict_win_iff w).1 hwin
    simp only [hwon] at hs
    split at hs
    · cases hs
    · rename_i hearlier
      cases hs
      refine ⟨h.won.holds hwon, fun j hj => ⟨fun e he => ?_, fun hc => ?_⟩⟩
      · obtain ⟨r, e', hr, hle⟩ := h.refused.least he
        exact absurd (hbefore r e' hr) (by omega)
      · exact hearlier ((h.anEarlier_iff i).2 ⟨j, hj, hc⟩)
  · rename_i hwin
    cases hr : w.refused with
    | none => simp [hr] at hs
    | some held =>
      obtain ⟨r, e⟩ := held
      simp only [hr] at hs
      split at hs
      · rename_i hnow
        cases hs
        refine ⟨h.refused.holds hr, fun i hi => ?_⟩
        have hcontacted := (h.refusalIsTheAnswer_iff r).1 hnow i hi
        have hstarted : fate i ≠ .notContacted := by
          intro hnot
          have hrefuser : fate r ≠ .notContacted := by simp [(h.refused.holds hr).1]
          have hle := (h.shows i).next.1 hnot
          exact hrefuser ((h.shows r).next.2 (by omega))
        have hready : fate i ≠ .finished .ready := by
          intro hready
          obtain ⟨j, x, hwon, hle⟩ := h.won.least (j := i) (b := i) ⟨rfl, hready⟩
          grind [verdict_win_iff]
        match hf : fate i with
        | .notContacted => exact absurd hf hstarted
        | .contacted b => exact absurd hf (hcontacted b)
        | .finished .ready => exact absurd hf hready
        | .unopened | .finished .elapsed | .finished (.failed _) => rfl
      · cases hs

theorem setAside (hnext : w.candidates.length ≤ w.next) (hwon : w.won = none)
    (hrefused : w.refused = none) (hi : i < w.candidates.length) (hidle : i ∉ w.running) :
    SetAside fate i := by
  have hnot := h.won.none_iff.1 hwon i i
  have hrefusal := h.refused.none_iff.1 hrefused i
  refine ⟨?_, hrefusal⟩
  match hf : fate i with
  | .notContacted => exact absurd ((h.shows i).next.1 hf) (by omega)
  | .contacted b => exact absurd ((h.shows i).running.2 ⟨b, hf⟩) hidle
  | .finished .ready => exact absurd ⟨rfl, hf⟩ hnot
  | .unopened | .finished .elapsed | .finished (.failed _) => rfl

theorem lastLeft_stands (hs : w.lastLeft = some answer) :
    Stands fate w.candidates.length answer := by
  unfold Walk.lastLeft at hs
  split at hs
  · rename_i hlast
    obtain ⟨hnext, hwon, hrefused, hone⟩ := hlast
    obtain ⟨a, hhead, rfl⟩ := map_eq_some_iff.1 hs
    have hmem := mem_of_head? hhead
    rw [← take_length (l := w.waiting)] at hmem
    obtain ⟨i, -, hi⟩ := mem_take_attempts.1 hmem
    obtain ⟨hfate, rfl⟩ := h.attempt_iff.1 hi
    refine ⟨⟨_, hfate⟩, fun j hj hne => h.setAside hnext hwon hrefused hj fun hrun => hne ?_⟩
    obtain ⟨k, hk⟩ := length_eq_one_iff.1 hone
    have hself := (h.shows _).running.2 ⟨_, hfate⟩
    rw [hk, mem_singleton] at hrun hself
    rw [hrun, hself]
  · cases hs

theorem no_verdict (hidle : w.running = []) (hs : w.settle = none) :
    w.won = none ∧ w.refused = none := by
  have hwaiting : ∀ i b, fate i ≠ .contacted b := by
    intro i b hi
    have hmem := (h.shows i).running.2 ⟨b, hi⟩
    rw [hidle] at hmem
    cases hmem
  unfold Walk.settle at hs
  split at hs
  · rename_i hwin
    obtain ⟨i, x, hwon, -⟩ := (verdict_win_iff w).1 hwin
    simp_all [h.anEarlier_iff]
  · rename_i hwin
    have hrefused : w.refused = none := by
      cases hr : w.refused with
      | none => rfl
      | some held =>
        have hnow := (h.refusalIsTheAnswer_iff held.1).2 fun i _ => hwaiting i
        simp [hr, hnow] at hs
    refine ⟨?_, hrefused⟩
    cases hwon : w.won with
    | none => rfl
    | some => grind [verdict_win_iff]

theorem mayContact_iff : w.mayContact = true ↔
    w.next < w.candidates.length ∧ w.won = none ∧ w.refused = none ∧
      ∀ i, fate i ≠ .contacted true := by
  have hanswering := h.answering_iff
  rw [Walk.mayContact, mayContactTheNextAddress]
  cases hany : (w.waiting.filterMap id).any (·.answered) with
  | true => simp_all
  | false =>
    have hquiet : ∀ i, fate i ≠ .contacted true := by grind
    simp [hquiet]

end

variable [ToString Addr]

/-- What holds where a pass of the loop waits or returns. -/
theorem pass_fits (h : Linked w fate) (now : Nat) : Fits w fate (w.pass now) := by
  unfold Walk.pass
  split
  · rename_i hcontact
    obtain ⟨hnext, hwon, hrefused, -⟩ := h.mayContact_iff.1 hcontact.2
    exact ⟨hnext, hwon, hrefused⟩
  · cases hsettle : w.settle with
    | some => exact h.settle_stands hsettle
    | none =>
      cases hlast : w.lastLeft with
      | some => exact h.lastLeft_stands hlast
      | none =>
        simp only
        split
        · rename_i hdone
          obtain ⟨hwon, hrefused⟩ := h.no_verdict hdone.1 hsettle
          have hfailed : ∃ e, w.afterLoop = .failed e := by
            simp [Walk.afterLoop, hwon, hrefused]
          obtain ⟨e, he⟩ := hfailed
          rw [he]
          intro i hi
          exact h.setAside hdone.2 hwon hrefused hi (by simp [hdone.1])
        · trivial

theorem pass_quiet (h : Linked w fate) {now : Nat} (hp : w.pass now = .opening) (i : Nat) :
    fate i ≠ .contacted true := by
  unfold Walk.pass at hp
  split at hp
  · rename_i hcontact
    exact (h.mayContact_iff.1 hcontact.2).2.2.2 i
  · grind

end Linked

/-! ## Every schedule -/

structure Inv (s : State Addr) : Prop where
  linked : Linked s.walk s.fate
  fits : Fits s.walk s.fate s.control

variable [ToString Addr] {s s' : State Addr} {ev : Event}

theorem inv_start (addr : String) (candidates : List Addr) (budget now checkAt : Nat) :
    Inv (start addr candidates budget now checkAt) := by
  have hlinked : Linked (start addr candidates budget now checkAt).walk fun _ => .notContacted := by
    refine ⟨length_replicate, Nat.zero_le _, fun i => ⟨?_, ?_, ?_⟩, nodup_nil, ?_, ?_⟩
    · exact iff_of_true rfl (Nat.zero_le i)
    · show (List.replicate candidates.length none)[i]?.join = none
      rw [List.getElem?_replicate]
      split <;> rfl
    · exact iff_of_false not_mem_nil (by simp)
    · exact .empty fun j x h => by cases h.2
    · exact .empty fun j e h => by cases h.1
  refine ⟨hlinked, ?_⟩
  cases candidates with
  | nil => exact fun i hi => absurd hi (Nat.not_lt_zero i)
  | cons => exact hlinked.pass_fits checkAt

/-- What a step does: it ends where a pass of the loop ends, returns for the only candidate or at
the deadline, or a candidate is heard from. -/
inductive Stepped (s : State Addr) (ev : Event) (s' : State Addr) : Prop
  | passed (checkAt : Nat) (hlinked : Linked s'.walk s'.fate)
      (hcontrol : s'.control = s'.walk.pass checkAt)
  | left (answer : Answer) (hlinked : Linked s'.walk s'.fate)
      (hcontrol : s'.control = .returned answer)
      (hstands : Stands s'.fate s'.walk.candidates.length answer)
  | expired (answer : Answer) (hlinked : Linked s'.walk s'.fate)
      (hcontrol : s'.control = .expired answer)
  | heard (i : Nat) (hev : ev = .answers i)
      (hwaits : s.control = .opening ∨ ∃ timer, s.control = .selecting timer)
      (hs' : s' = ⟨s.walk.hear i, s.control, update s.fate i (s.fate i).hear⟩)

theorem opening_of_opened {setAt checkAt : Nat} (hs : step s (.opened setAt checkAt) = some s') :
    s.control = .opening := by
  simp only [step] at hs
  split at hs
  · assumption
  · cases hs

theorem Inv.stepped (h : Inv s) (hs : step s ev = some s') : Stepped s ev s' := by
  have hlinked := h.linked
  have hfits := h.fits
  cases ev with
  | opened setAt checkAt =>
    have hopening := opening_of_opened hs
    rw [hopening] at hfits
    have hcontact := hlinked.contact hfits.1 setAt
    simp only [step, hopening, if_true, Option.some.injEq] at hs
    subst hs
    by_cases hone : (s.walk.contact setAt).candidates.length = 1
    · refine .left (.unawaited s.walk.next) hcontact (if_pos hone) ⟨⟨false, ?_⟩, ?_⟩
      · exact update_self ..
      · intro j hj hne
        have hlen : s.walk.candidates.length = 1 := hone
        have hnext := hfits.1
        have hj' : j < s.walk.candidates.length := hj
        omega
    · exact .passed checkAt hcontact (if_neg hone)
  | openFailed e setAt checkAt =>
    simp only [step] at hs
    split at hs
    · rename_i hopening
      cases hs
      rw [hopening] at hfits
      exact .passed checkAt (hlinked.skip hfits.1 e setAt) rfl
    · cases hs
  | finished i outcome setAt checkAt =>
    simp only [step] at hs
    split at hs
    · split at hs
      · rename_i hi
        cases hs
        exact .passed checkAt (hlinked.finish hi outcome setAt) rfl
      · cases hs
    · cases hs
  | timer _ checkAt =>
    simp only [step] at hs
    split at hs
    · cases hs
      exact .passed checkAt hlinked rfl
    · cases hs
  | deadline =>
    simp only [step] at hs
    split at hs
    · split at hs
      · cases hs
        exact .expired _ hlinked rfl
      · cases hs
    · cases hs
  | answers i =>
    simp only [step] at hs
    split at hs
    · rename_i hopening
      cases hs
      exact .heard i rfl (.inl hopening) rfl
    · rename_i timer hselecting
      cases hs
      exact .heard i rfl (.inr ⟨timer, hselecting⟩) rfl
    · cases hs

theorem Inv.step (h : Inv s) (hs : step s ev = some s') : Inv s' := by
  cases h.stepped hs with
  | passed checkAt hlinked hcontrol =>
    refine ⟨hlinked, ?_⟩
    rw [hcontrol]
    exact hlinked.pass_fits checkAt
  | left _ hlinked hcontrol hstands =>
    refine ⟨hlinked, ?_⟩
    rw [hcontrol]
    exact hstands
  | expired _ hlinked hcontrol =>
    refine ⟨hlinked, ?_⟩
    rw [hcontrol]
    trivial
  | heard i _ hwaits hs' =>
    subst hs'
    refine ⟨h.linked.hear i, ?_⟩
    have hfits := h.fits
    show Fits _ _ s.control
    rcases hwaits with hopening | ⟨timer, hselecting⟩
    · rw [hopening] at hfits ⊢
      exact hfits
    · rw [hselecting]
      trivial

/-! ## When a candidate is contacted -/

/-- A candidate is contacted with no verdict in hand. -/
def NoVerdictInHand (s : State Addr) : Event → State Addr → Prop
  | .opened _ _, _ => ∀ i, s.fate i ≠ .finished .ready ∧ ∀ e, ¬Refused s.fate i e
  | _, _ => True

/-- A candidate is contacted while none that is waited for has answered. -/
def NobodyAnswering (s : State Addr) : Event → State Addr → Prop
  | .opened _ _, _ => ∀ i, s.fate i ≠ .contacted true
  | _, _ => True

/-- No candidate that is waited for is heard from while a socket is being opened. -/
def Undisturbed (s : State Addr) : Event → State Addr → Prop
  | .answers i, _ => s.control = .opening → ∀ b, s.fate i ≠ .contacted b
  | _, _ => True

theorem Inv.noVerdictInHand (h : Inv s) (hs : AddressWalk.step s ev = some s') :
    NoVerdictInHand s ev s' := by
  cases ev with
  | opened =>
    have hfits := h.fits
    rw [opening_of_opened hs] at hfits
    obtain ⟨-, hwon, hrefused⟩ := hfits
    intro i
    exact ⟨fun hready => h.linked.won.none_iff.1 hwon i i ⟨rfl, hready⟩,
      h.linked.refused.none_iff.1 hrefused i⟩
  | _ => trivial

/-- The invariant of the schedules in which no answer comes while a socket is being opened. -/
structure Quiet (s : State Addr) : Prop extends Inv s where
  quiet : s.control = .opening → ∀ i, s.fate i ≠ .contacted true

theorem Quiet.step (h : Quiet s) (hs : AddressWalk.step s ev = some s')
    (hu : Undisturbed s ev s') : Quiet s' := by
  refine ⟨h.toInv.step hs, fun hopening => ?_⟩
  cases h.toInv.stepped hs with
  | passed _ hlinked hcontrol => exact hlinked.pass_quiet (hcontrol.symm.trans hopening)
  | left | expired => simp_all
  | heard i hev _ hs' =>
    subst hev hs'
    intro j
    by_cases hj : j = i
    · subst hj
      show update s.fate j (s.fate j).hear j ≠ _
      rw [update_self]
      intro hheard
      cases hf : s.fate j with
      | contacted b => exact hu hopening b hf
      | _ => simp [hf, Fate.hear] at hheard
    · show update s.fate i (s.fate i).hear j ≠ _
      rw [update_of_ne hj]
      exact h.quiet hopening j

theorem quiet_start (addr : String) (candidates : List Addr) (budget now checkAt : Nat) :
    Quiet (start addr candidates budget now checkAt) :=
  ⟨inv_start addr candidates budget now checkAt, fun _ _ => by simp [start]⟩

/-- Over every schedule: a refusal is returned when every candidate before it has finished without
completing its handshake; a completed handshake when none before it has refused, or has answered and
is waited for; no candidate is contacted with a verdict in hand; and none is while one that is
waited for has answered, where none of these is heard from while a socket is being opened. -/
theorem verdicts_in_order {addr : String} {candidates : List Addr} {budget now checkAt : Nat}
    {events : List Event} {s : State Addr}
    (hrun : run step (start addr candidates budget now checkAt) events = some s) :
    (∀ r e, s.control = .returned (.refusal r e) →
      Refused s.fate r e ∧ ∀ i < r, (s.fate i).incomplete = true) ∧
    (∀ winner session, s.control = .returned (.completed winner session) →
      Won s.fate winner session ∧
        ∀ i < winner, (∀ e, ¬Refused s.fate i e) ∧ s.fate i ≠ .contacted true) ∧
    Along step NoVerdictInHand (start addr candidates budget now checkAt) events ∧
    (Along step Undisturbed (start addr candidates budget now checkAt) events →
      Along step NobodyAnswering (start addr candidates budget now checkAt) events) := by
  have hstart := inv_start addr candidates budget now checkAt
  have hfits := (run_inv (fun _ _ _ h hs => Inv.step h hs) events hstart hrun).fits
  refine ⟨fun r e hc => ?_, fun winner session hc => ?_, ?_, fun hundisturbed => ?_⟩
  · rw [hc] at hfits
    exact hfits
  · rw [hc] at hfits
    exact hfits
  · exact along_of_run_inv (fun _ _ _ h hs => Inv.step h hs)
      (fun _ _ _ h hs => Inv.noVerdictInHand h hs) events hstart
  · refine along_of_inv (fun _ _ _ h hs hu => Quiet.step h hs hu) (fun s ev s' h hs _ => ?_) events
      (quiet_start addr candidates budget now checkAt) hundisturbed
    cases ev with
    | opened setAt checkAt => exact h.quiet (opening_of_opened hs)
    | _ => trivial

/-- The second of three candidates refuses, and then the first one fails. -/
def heldRefusal : List Event :=
  [.opened 0 0, .timer (millis 250) (millis 250), .opened (millis 251) (millis 251),
    .finished 1 (.failed .serverIdentityMismatch) (millis 260) (millis 260),
    .finished 0 (.failed .connectionClosed) (millis 300) (millis 300)]

theorem verdicts_in_order_held : ∃ s,
    run step (start "host" [0, 1, 2] (millis 5000) 0 0) heldRefusal = some s ∧
    s.control = .returned (.refusal 1 .serverIdentityMismatch) ∧
    ∀ i < 1, (s.fate i).incomplete = true := by
  obtain ⟨s, hrun, hc⟩ : ∃ s,
      run step (start "host" [0, 1, 2] (millis 5000) 0 0) heldRefusal = some s ∧
      s.control = .returned (.refusal 1 .serverIdentityMismatch) := ⟨_, rfl, rfl⟩
  exact ⟨s, hrun, hc, ((verdicts_in_order hrun).1 _ _ hc).2⟩

/-- The first candidate answers while the second one's socket is being opened, and the second is
contacted. -/
theorem contacted_while_answering : ∃ s s',
    run step (start "host" [0, 1] (millis 5000) 0 0)
      [.opened 0 0, .timer (millis 250) (millis 250), .answers 0] = some s ∧
    s.fate 0 = .contacted true ∧ s.fate 1 = .notContacted ∧
    step s (.opened (millis 251) (millis 251)) = some s' ∧
    s'.fate 0 = .contacted true ∧ s'.fate 1 = .contacted false :=
  ⟨_, _, rfl, rfl, rfl, rfl, rfl, rfl⟩

end AddressWalk

end PhantomProtocol
