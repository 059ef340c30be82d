import PhantomProtocol.Lib.Run
import PhantomProtocol.Transport.RecvWindow

/-!
# Receive-window growth is conserved

Any number of streams over one `SharedRecvTuning`, with any number of `tune_recv_window` calls in
progress on each, whose steps interleave, and with streams that are opened and dropped.
-/

namespace PhantomProtocol.WindowGrowth

open Option Function Finset

open Lts
open PhantomProtocol.Stream (Tune tuneStep returnStep)

/-- A call in progress: `tune_recv_window(n)` on a stream, or the `return_growth` of a drop. -/
inductive Call where
  | tune (stream n : Nat) (phase : Tune)
  | drop (growth : Nat) (cur : Option Nat)
deriving DecidableEq

def Call.stream : Call → Option Nat
  | .tune stream _ _ => some stream
  | .drop _ _ => none

structure State where
  tuning : SharedRecvTuning
  live : Finset Nat
  stream : Nat → Stream
  active : Finset Nat
  call : Nat → Call

/-- Call `j` goes on as `c`, or is over. -/
def State.settle (x : State) (j : Nat) : Option Call → State
  | none => { x with active := x.active.erase j }
  | some c => { x with call := update x.call j c }

def unfinished (i n : Nat) : Tune → Option Call
  | .done _ => none
  | phase => some (.tune i n phase)

inductive Event where
  | openStream (i : Nat)
  /-- Any other method of the stream: none of them writes the advertised window. -/
  | other (i : Nat) (s : Stream)
  | tune (j i n : Nat)
  /-- The last reference to stream `i` goes; `j` is the `return_growth` of its drop. -/
  | drop (j i : Nat)
  /-- Call `j` takes its next step, at time `now`; a weak exchange may fail spuriously. -/
  | advance (j : Nat) (spurious : Bool) (now : Nat)

def init : State :=
  { tuning := ⟨sessionRecvWindowGrowthBudget⟩, live := ∅, stream := fun _ => .new
    active := ∅, call := fun _ => .drop 0 none }

def step (x : State) : Event → Option State
  | .openStream i =>
    if i ∈ x.live then none
    else some { x with live := insert i x.live, stream := update x.stream i .new }
  | .other i s =>
    if i ∈ x.live ∧ s.advertisedRecvWindow = (x.stream i).advertisedRecvWindow then
      some { x with stream := update x.stream i s }
    else none
  | .tune j i n =>
    if i ∈ x.live ∧ j ∉ x.active then
      some { x with
        active := insert j x.active
        call := update x.call j (.tune i n .loading) }
    else none
  | .drop j i =>
    -- the stream is dropped with its last reference: no call on it is in progress
    if i ∈ x.live ∧ j ∉ x.active ∧ ∀ k ∈ x.active, (x.call k).stream ≠ some i then
      let grown := (x.stream i).advertisedRecvWindow - initialStreamWindow
      if grown = 0 then some { x with live := x.live.erase i }
      else some { x with
        live := x.live.erase i
        active := insert j x.active
        call := update x.call j (.drop grown none) }
    else none
  | .advance j spurious now =>
    if j ∈ x.active then
      match x.call j with
      | .tune i n phase =>
        let out := tuneStep n now spurious (x.stream i) x.tuning phase
        some ({ x with tuning := out.2.1, stream := update x.stream i out.1 }.settle j
          (unfinished i n out.2.2))
      | .drop growth cur =>
        let out := returnStep spurious x.tuning growth cur
        some ({ x with tuning := out.1 }.settle j (out.2.map (.drop growth)))
    else none

/-! ## What is held where -/

/-- The growth of a stream. -/
def growth (s : Stream) : Nat := s.advertisedRecvWindow - initialStreamWindow

def inHand : Tune → Nat
  | .exchanging window next => next - window
  | .returning growth _ => growth
  | _ => 0

def held : Call → Nat
  | .tune _ _ phase => inHand phase
  | .drop growth _ => growth

/-- What a call knows of the window it has read. -/
def Sound : Tune → Prop
  | .measuring window => initialStreamWindow ≤ window ∧ window < maxRecvWindow
  | .taking window next _ | .exchanging window next =>
    initialStreamWindow ≤ window ∧ window ≤ next ∧ next ≤ maxRecvWindow
  | _ => True

def InRange (s : Stream) : Prop :=
  initialStreamWindow ≤ s.advertisedRecvWindow ∧ s.advertisedRecvWindow ≤ maxRecvWindow

variable {s : Stream} {tuning : SharedRecvTuning} {phase : Tune} {x x' : State} {ev : Event}
  {j : Nat}

theorem InRange.same {s' : Stream} (hs : InRange s)
    (h : s'.advertisedRecvWindow = s.advertisedRecvWindow) : growth s' = growth s ∧ InRange s' := by
  unfold growth InRange
  rw [h]
  exact ⟨rfl, hs⟩

theorem returnStep_conserves {amount : Nat} (spurious : Bool) (cur : Option Nat)
    (hle : tuning.growthBudget + amount ≤ sessionRecvWindowGrowthBudget) :
    (returnStep spurious tuning amount cur).1.growthBudget +
        ((returnStep spurious tuning amount cur).2.map fun _ => amount).getD 0 =
      tuning.growthBudget + amount := by
  have hmax : sessionRecvWindowGrowthBudget ≤ u32Max := by decide
  cases cur with
  | none => rfl
  | some cur =>
    simp only [returnStep]
    split
    · rename_i h
      obtain ⟨rfl, -⟩ := h
      simp only [map_none, getD_none]
      omega
    · rfl

theorem measuring_conserves {window : Nat} (n now : Nat) (spurious : Bool) (hs : InRange s)
    (hp : Sound (.measuring window)) :
    let out := tuneStep n now spurious s tuning (.measuring window)
    out.2.1.growthBudget + growth out.1 + inHand out.2.2 =
        tuning.growthBudget + growth s + inHand (.measuring window) ∧
      InRange out.1 ∧ Sound out.2.2 := by
  have hmax : maxRecvWindow ≤ u32Max := by decide
  obtain ⟨hlow, hhigh⟩ := hp
  have hkeep := s.measureRecvRate_window n
    (max (s.rto.minRtt.getD autotuneRttFallback * 2) autotuneMinInterval) now
  simp only [tuneStep]
  split
  · rename_i hm
    rw [hm] at hkeep
    obtain ⟨hg, hr⟩ := hs.same hkeep
    exact ⟨by simp only [inHand, hg], hr, trivial⟩
  · rename_i hm
    rw [hm] at hkeep
    obtain ⟨hg, hr⟩ := hs.same hkeep
    split
    · exact ⟨by simp only [inHand, hg], hr, trivial⟩
    · refine ⟨by simp only [inHand, hg], hr, hlow, ?_, ?_⟩
      · omega
      · omega

/-- **One step of a call** moves growth between the budget, the window and its own hands. -/
theorem tuneStep_conserves (n now : Nat) (spurious : Bool) (hs : InRange s) (hp : Sound phase)
    (hle : tuning.growthBudget + inHand phase ≤ sessionRecvWindowGrowthBudget) :
    let out := tuneStep n now spurious s tuning phase
    out.2.1.growthBudget + growth out.1 + inHand out.2.2 =
        tuning.growthBudget + growth s + inHand phase ∧
      InRange out.1 ∧ Sound out.2.2 := by
  cases phase with
  | loading =>
    simp only [tuneStep]
    split
    · exact ⟨rfl, hs, trivial⟩
    · exact ⟨rfl, hs, hs.1, by omega⟩
  | measuring => exact measuring_conserves n now spurious hs hp
  | taking window next cur =>
    cases cur with
    | none => exact ⟨rfl, hs, hp⟩
    | some cur =>
      simp only [tuneStep]
      split
      · exact ⟨rfl, hs, trivial⟩
      · rename_i hshort
        split
        · rename_i h
          obtain ⟨rfl, -⟩ := h
          refine ⟨?_, hs, hp⟩
          simp only [inHand]
          omega
        · exact ⟨rfl, hs, hp⟩
  | exchanging window next =>
    obtain ⟨hlow, hnext, hhigh⟩ := hp
    simp only [tuneStep]
    split
    · rename_i hwin
      refine ⟨?_, ⟨by dsimp only; omega, hhigh⟩, trivial⟩
      simp only [growth, inHand, hwin]
      omega
    · split
      · rename_i hzero
        refine ⟨?_, hs, trivial⟩
        simp only [inHand, hzero]
      · exact ⟨rfl, hs, trivial⟩
  | returning amount cur =>
    have hle' : tuning.growthBudget + amount ≤ sessionRecvWindowGrowthBudget := hle
    have hret := returnStep_conserves spurious cur hle'
    simp only [tuneStep]
    split
    · rename_i hr
      rw [hr] at hret
      refine ⟨?_, hs, trivial⟩
      simp only [inHand, map_none, getD_none] at hret ⊢
      omega
    · rename_i hr
      rw [hr] at hret
      refine ⟨?_, hs, trivial⟩
      simp only [inHand, map_some, getD_some] at hret ⊢
      omega
  | done => exact ⟨rfl, hs, trivial⟩

/-! ## Sums over streams and calls -/

theorem sum_update {ι α : Type*} [DecidableEq ι] {live : Finset ι} {i : ι} (hi : i ∈ live)
    (f : ι → α) (a : α) (g : α → Nat) :
    ∑ k ∈ live, g (update f i a k) + g (f i) = ∑ k ∈ live, g (f k) + g a := by
  rw [← add_sum_erase _ _ hi, ← add_sum_erase live (fun k => g (f k)) hi]
  have hrest : ∑ k ∈ live.erase i, g (update f i a k) = ∑ k ∈ live.erase i, g (f k) :=
    sum_congr rfl fun k hk => by rw [update_of_ne (ne_of_mem_erase hk)]
  rw [update_self, hrest]
  omega

/-- A summand that was not there yet. -/
theorem sum_insert_update {ι α : Type*} [DecidableEq ι] {live : Finset ι} {i : ι} (hi : i ∉ live)
    (f : ι → α) (a : α) (g : α → Nat) :
    ∑ k ∈ insert i live, g (update f i a k) = ∑ k ∈ live, g (f k) + g a := by
  have hrest : ∑ k ∈ live, g (update f i a k) = ∑ k ∈ live, g (f k) :=
    sum_congr rfl fun k hk => by
      rw [update_of_ne (ne_of_mem_of_not_mem hk hi)]
  rw [sum_insert hi, update_self, hrest]
  omega

def grown (x : State) : Nat := ∑ i ∈ x.live, growth (x.stream i)

def inHands (x : State) : Nat := ∑ j ∈ x.active, held (x.call j)

theorem inHands_settle (hj : j ∈ x.active) (c : Option Call) :
    inHands (x.settle j c) + held (x.call j) = inHands x + (c.map held).getD 0 := by
  unfold inHands
  cases c with
  | none =>
    have hsum := add_sum_erase x.active (fun k => held (x.call k)) hj
    simp only [State.settle, map_none, getD_none]
    omega
  | some c => exact sum_update hj x.call c held

/-! ## The invariant -/

/-- The session's allowance is spread over the budget, the live streams and the calls. -/
structure Conserved (x : State) : Prop where
  total : x.tuning.growthBudget + grown x + inHands x = sessionRecvWindowGrowthBudget
  inRange : ∀ i ∈ x.live, InRange (x.stream i)
  onLive : ∀ j ∈ x.active, ∀ i, (x.call j).stream = some i → i ∈ x.live
  sound : ∀ j ∈ x.active, ∀ i n phase, x.call j = .tune i n phase → Sound phase

theorem conserved_init : Conserved init :=
  ⟨by simp [grown, inHands, init], by simp [init], by simp [init], by simp [init]⟩

@[simp] theorem settle_live (x : State) (j : Nat) (c : Option Call) :
    (x.settle j c).live = x.live := by
  cases c <;> rfl

@[simp] theorem settle_tuning (x : State) (j : Nat) (c : Option Call) :
    (x.settle j c).tuning = x.tuning := by
  cases c <;> rfl

@[simp] theorem settle_stream (x : State) (j : Nat) (c : Option Call) :
    (x.settle j c).stream = x.stream := by
  cases c <;> rfl

/-- The calls that are left after a step of call `j`. -/
theorem mem_settle {j k : Nat} {c : Option Call} (hk : k ∈ (x.settle j c).active) :
    k ∈ x.active ∧ ((x.settle j c).call k = x.call k ∨ c = some ((x.settle j c).call k)) := by
  cases c with
  | none => exact ⟨mem_of_mem_erase hk, .inl rfl⟩
  | some =>
    refine ⟨hk, ?_⟩
    simp only [State.settle]
    grind

theorem inRange_update {live : Finset Nat} {f : Nat → Stream} {i : Nat}
    (h : ∀ k ∈ live, InRange (f k)) (hs : InRange s) :
    ∀ k ∈ live, InRange (update f i s k) := by
  intro k hk
  by_cases hki : k = i
  · subst hki
    rw [update_self]
    exact hs
  · rw [update_of_ne hki]
    exact h k hk

theorem Conserved.settle (h : Conserved x) {y : State} {c : Option Call}
    (hj : j ∈ x.active) (hlive : y.live = x.live) (hactive : y.active = x.active)
    (hcall : y.call = x.call) (hrange : ∀ i ∈ x.live, InRange (y.stream i))
    (htotal : y.tuning.growthBudget + grown y + (c.map held).getD 0 =
      x.tuning.growthBudget + grown x + held (x.call j))
    (hc : ∀ c', c = some c' → (∀ i, c'.stream = some i → i ∈ x.live) ∧
      ∀ i n phase, c' = .tune i n phase → Sound phase) :
    Conserved (y.settle j c) := by
  have hhands := inHands_settle (x := y) (hactive ▸ hj) c
  have hsame : inHands y = inHands x := by rw [inHands, inHands, hactive, hcall]
  refine ⟨?_, fun i hi => ?_, fun k hk i hi => ?_, fun k hk i n phase hp => ?_⟩
  · have hgrown : grown (y.settle j c) = grown y := by simp [grown]
    have hx := h.total
    rw [hcall] at hhands
    rw [settle_tuning, hgrown]
    omega
  · simp_all
  · obtain ⟨hmem, hold | hnew⟩ := mem_settle hk
    · rw [hold, hcall] at hi
      rw [settle_live, hlive]
      exact h.onLive k (hactive ▸ hmem) i hi
    · rw [settle_live, hlive]
      exact (hc _ hnew).1 i hi
  · obtain ⟨hmem, hold | hnew⟩ := mem_settle hk
    · rw [hold, hcall] at hp
      exact h.sound k (hactive ▸ hmem) i n phase hp
    · exact (hc _ hnew).2 i n phase hp

theorem held_unfinished (i n : Nat) (phase : Tune) :
    ((unfinished i n phase).map held).getD 0 = inHand phase := by
  cases phase <;> rfl

theorem unfinished_eq_some {i n : Nat} {phase : Tune} {c : Call}
    (h : unfinished i n phase = some c) : c = .tune i n phase := by
  cases phase <;> cases h <;> rfl

theorem held_le_inHands (hj : j ∈ x.active) : held (x.call j) ≤ inHands x := by
  have hsum := add_sum_erase x.active (fun k => held (x.call k)) hj
  unfold inHands
  omega

theorem Conserved.advance_tune (h : Conserved x) {j i n now : Nat} {phase : Tune} (spurious : Bool)
    (hj : j ∈ x.active) (hcall : x.call j = .tune i n phase) :
    Conserved ({ x with
      tuning := (tuneStep n now spurious (x.stream i) x.tuning phase).2.1
      stream := update x.stream i
        (tuneStep n now spurious (x.stream i) x.tuning phase).1 }.settle j
      (unfinished i n (tuneStep n now spurious (x.stream i) x.tuning phase).2.2)) := by
  have hi : i ∈ x.live := h.onLive j hj i (by rw [hcall]; rfl)
  have hheld : held (x.call j) = inHand phase := by rw [hcall]; rfl
  have hle : x.tuning.growthBudget + inHand phase ≤ sessionRecvWindowGrowthBudget := by
    have htotal := h.total
    have hhands := held_le_inHands hj
    omega
  obtain ⟨hstep, hrange, hsound⟩ :=
    tuneStep_conserves n now spurious (h.inRange i hi) (h.sound j hj i n phase hcall) hle
  refine h.settle hj rfl rfl rfl (inRange_update h.inRange hrange) ?_ fun c hc => ?_
  · have hgrown := sum_update hi x.stream
      (tuneStep n now spurious (x.stream i) x.tuning phase).1 growth
    rw [held_unfinished, hheld]
    simp only [grown]
    omega
  · cases unfinished_eq_some hc
    refine ⟨fun k hk => ?_, fun k m ph hp => ?_⟩
    · cases hk
      exact hi
    · cases hp
      exact hsound

theorem Conserved.advance_drop (h : Conserved x) {j amount : Nat} {cur : Option Nat}
    (spurious : Bool) (hj : j ∈ x.active) (hcall : x.call j = .drop amount cur) :
    Conserved ({ x with tuning := (returnStep spurious x.tuning amount cur).1 }.settle j
      ((returnStep spurious x.tuning amount cur).2.map (.drop amount))) := by
  have hheld : held (x.call j) = amount := by rw [hcall]; rfl
  have hle : x.tuning.growthBudget + amount ≤ sessionRecvWindowGrowthBudget := by
    have htotal := h.total
    have hhands := held_le_inHands hj
    omega
  have hret := returnStep_conserves spurious cur hle
  refine h.settle hj rfl rfl rfl h.inRange ?_ fun c hc => ?_
  · have hgrown : grown { x with tuning := (returnStep spurious x.tuning amount cur).1 } =
      grown x := rfl
    have hmap : (((returnStep spurious x.tuning amount cur).2.map (Call.drop amount)).map
        held).getD 0 = ((returnStep spurious x.tuning amount cur).2.map fun _ => amount).getD 0 := by
      rw [Option.map_map]
      rfl
    rw [hgrown, hheld, hmap]
    dsimp only
    omega
  · obtain ⟨cur', -, rfl⟩ := map_eq_some_iff.1 hc
    refine ⟨fun i hi => ?_, fun i n phase hp => ?_⟩
    · cases hi
    · cases hp

theorem inRange_new : InRange Stream.new := ⟨by decide, by decide⟩

theorem Conserved.begin (h : Conserved x) {c : Call} {y : State} (hj : j ∉ x.active)
    (hactive : y.active = insert j x.active) (hcall : y.call = update x.call j c)
    (htotal : y.tuning.growthBudget + grown y + held c = x.tuning.growthBudget + grown x)
    (hrange : ∀ i ∈ y.live, InRange (y.stream i))
    (hlive : ∀ k ∈ x.active, ∀ i, (x.call k).stream = some i → i ∈ y.live)
    (hc : ∀ i, c.stream = some i → i ∈ y.live)
    (hsound : ∀ i n phase, c = .tune i n phase → Sound phase) : Conserved y := by
  have hcases : ∀ k ∈ y.active, (k ∈ x.active ∧ y.call k = x.call k) ∨ y.call k = c := by
    intro k hk
    rw [hactive] at hk
    rw [hcall]
    grind
  have hhands : inHands y = inHands x + held c := by
    unfold inHands
    rw [hactive, hcall]
    exact sum_insert_update hj x.call c held
  refine ⟨?_, hrange, fun k hk i hi => ?_, fun k hk i n phase hp => ?_⟩
  · have hx := h.total
    omega
  · grind
  · rcases hcases k hk with ⟨hmem, heq⟩ | heq
    · exact h.sound k hmem i n phase (heq ▸ hp)
    · exact hsound i n phase (heq ▸ hp)

/-- A stream opens with the initial window. -/
theorem Conserved.openStream {i : Nat} (h : Conserved x) (hi : i ∉ x.live) :
    Conserved { x with live := insert i x.live, stream := update x.stream i .new } := by
  refine ⟨?_, fun k hk => ?_, fun k hk l hl => ?_, h.sound⟩
  · have hgrown := sum_insert_update hi x.stream .new growth
    have hnew : growth .new = 0 := by decide
    have hx := h.total
    simp only [grown, inHands] at hx ⊢
    omega
  · by_cases hki : k = i
    · subst hki
      dsimp only
      rw [update_self]
      exact inRange_new
    · dsimp only
      rw [update_of_ne hki]
      exact h.inRange k (mem_of_mem_insert_of_ne hk hki)
  · exact mem_insert_of_mem (h.onLive k hk l hl)

theorem Conserved.step (h : Conserved x) (hs : WindowGrowth.step x ev = some x') :
    Conserved x' := by
  cases ev with
  | openStream i =>
    simp only [WindowGrowth.step] at hs
    split at hs
    · cases hs
    · rename_i hi
      cases hs
      exact h.openStream hi
  | other i s =>
    simp only [WindowGrowth.step] at hs
    split at hs
    · rename_i hcond
      obtain ⟨hi, hwin⟩ := hcond
      cases hs
      obtain ⟨hg, hr⟩ := (h.inRange i hi).same hwin
      refine ⟨?_, inRange_update h.inRange hr, h.onLive, h.sound⟩
      have hgrown := sum_update hi x.stream s growth
      have hx := h.total
      simp only [grown, inHands] at hx ⊢
      omega
    · cases hs
  | tune j i n =>
    simp only [WindowGrowth.step] at hs
    split at hs
    · rename_i hcond
      obtain ⟨hi, hj⟩ := hcond
      cases hs
      refine h.begin hj rfl rfl rfl h.inRange h.onLive (fun k hk => ?_) fun k m phase hp => ?_
      · cases hk
        exact hi
      · cases hp
        trivial
    · cases hs
  | drop j i =>
    simp only [WindowGrowth.step] at hs
    split at hs
    · rename_i hcond
      obtain ⟨hi, hj, hfree⟩ := hcond
      have hsum := add_sum_erase x.live (fun k => growth (x.stream k)) hi
      have hlive : ∀ k ∈ x.active, ∀ l, (x.call k).stream = some l → l ∈ x.live.erase i := by
        intro k hk l hl
        refine mem_erase.2 ⟨fun heq => ?_, h.onLive k hk l hl⟩
        exact hfree k hk (heq ▸ hl)
      have hrange : ∀ k ∈ x.live.erase i, InRange (x.stream k) :=
        fun k hk => h.inRange k (mem_of_mem_erase hk)
      split at hs
      · rename_i hzero
        cases hs
        refine ⟨?_, hrange, hlive, h.sound⟩
        have hx := h.total
        simp only [grown, inHands, growth] at hx hsum ⊢
        omega
      · cases hs
        refine h.begin hj rfl rfl ?_ hrange hlive (fun k hk => ?_) fun k m phase hp => ?_
        · simp only [grown, growth, held] at hsum ⊢
          omega
        · cases hk
        · cases hp
    · cases hs
  | advance j spurious now =>
    simp only [WindowGrowth.step] at hs
    split at hs
    · rename_i hj
      split at hs
      · rename_i hcall
        cases hs
        exact h.advance_tune spurious hj hcall
      · rename_i hcall
        cases hs
        exact h.advance_drop spurious hj hcall
    · cases hs

/-- **Conservation.** In every interleaving, every live stream's window is in range, and the
remaining budget, the growth of the live streams and what the calls in progress have in hand add up
to the session's allowance; with no call in progress, the budget and the windows alone do. -/
theorem growth_conserved (es : List Event) (x : State) (hrun : run step init es = some x) :
    (∀ i ∈ x.live, initialStreamWindow ≤ (x.stream i).advertisedRecvWindow ∧
      (x.stream i).advertisedRecvWindow ≤ maxRecvWindow) ∧
    x.tuning.growthBudget +
        ∑ i ∈ x.live, ((x.stream i).advertisedRecvWindow - initialStreamWindow) +
        ∑ j ∈ x.active, held (x.call j) = sessionRecvWindowGrowthBudget ∧
    (x.active = ∅ → x.tuning.growthBudget +
      ∑ i ∈ x.live, ((x.stream i).advertisedRecvWindow - initialStreamWindow) =
        sessionRecvWindowGrowthBudget) := by
  have h : Conserved x := run_inv (fun _ _ _ h hs => h.step hs) es conserved_init hrun
  have htotal := h.total
  refine ⟨h.inRange, htotal, fun hidle => ?_⟩
  rw [inHands, hidle, sum_empty] at htotal
  exact htotal

/-- Two calls on one stream both see a rate that earns a larger window. The second draws its growth
after a spurious failure, loses the exchange, and returns what it drew. -/
def lostExchange : List Event :=
  [.openStream 0, .tune 0 0 60000, .advance 0 false 0, .advance 0 false 0, .tune 0 0 60000,
    .tune 1 0 60000, .advance 0 false 0, .advance 1 false 0, .advance 0 false (millis 400),
    .advance 1 false (millis 800), .advance 0 false 0, .advance 0 false 0, .advance 1 false 0,
    .advance 1 true 0, .advance 1 false 0, .advance 0 false 0, .advance 1 false 0,
    .advance 1 false 0, .advance 1 false 0]

theorem growth_conserved_lostExchange :
    ∃ x, run step init lostExchange = some x ∧ x.active = ∅ ∧
      (x.stream 0).advertisedRecvWindow = 2 * initialStreamWindow ∧
      x.tuning.growthBudget +
        ∑ i ∈ x.live, ((x.stream i).advertisedRecvWindow - initialStreamWindow) =
          sessionRecvWindowGrowthBudget := by
  refine ⟨_, rfl, by decide, by decide, ?_⟩
  exact (growth_conserved lostExchange _ rfl).2.2 (by decide)

end PhantomProtocol.WindowGrowth
