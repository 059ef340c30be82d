import PhantomProtocol.Api.DeliveryTasks

/-!
# The backlog counter under every interleaving

An item can be taken, and its charge subtracted, before the reader has added it, so that the counter
wraps for a while. What holds at every moment is that the counter, with what the reader has still to
add, is the charge of the items that have not been released.
-/

namespace PhantomProtocol.DeliveryTasks

open List Option

variable {s s' : State} {e : Event}

/-- What the reader has still to add. -/
def Reader.pending : Reader → Nat
  | .adding charge => charge
  | _ => 0

/-- A weight of the items that have not been released. -/
def State.weight (s : State) (f : Queued → Nat) : Nat := (s.owed.map f).sum

theorem weight_eq (s : State) (f : Queued → Nat) : s.weight f =
    (s.deliver.map f).sum + (s.router.toList.map f).sum + (s.raw.map f).sum +
      (s.streams.map f).sum + (s.taskA.toList.map f).sum + (s.taskB.toList.map f).sum := by
  simp [State.weight, State.owed, State.waiting, Nat.add_assoc]

/-- What a step can do to the counter and the items. -/
inductive Effect (s s' : State) : Prop where
  | move (hweight : ∀ f, s'.weight f = s.weight f) (hsent : s'.sent = s.sent)
      (hreleased : s'.released = s.released)
      (hcount : s'.undelivered + UInt64.ofNat s'.reader.pending =
        s.undelivered + UInt64.ofNat s.reader.pending)
  | send (q : Queued) (hserial : q.serial = s.sent) (hweight : ∀ f, s'.weight f = s.weight f + f q)
      (hsent : s'.sent = s.sent + 1) (hreleased : s'.released = s.released)
      (hcount : s'.undelivered + UInt64.ofNat s'.reader.pending =
        s.undelivered + UInt64.ofNat s.reader.pending + UInt64.ofNat q.charge)
  | release (q : Queued) (hweight : ∀ f, s.weight f = s'.weight f + f q) (hsent : s'.sent = s.sent)
      (hreleased : s'.released = s.released ++ [q.serial])
      (hcount : s'.undelivered + UInt64.ofNat s'.reader.pending + UInt64.ofNat q.charge =
        s.undelivered + UInt64.ofNat s.reader.pending)

theorem release_count (a b c : UInt64) : a - c + b + c = a + b := by grind

theorem step_effect (h : step s e = some s') : Effect s s' := by
  cases e with
  | gate =>
    simp only [step] at h
    split at h
    · rename_i hready
      cases h
      split
      · exact .move (fun _ => rfl) rfl rfl (by simp [hready, Reader.pending])
      · exact .move (fun _ => rfl) rfl rfl rfl
    · cases h
  | send id item =>
    simp only [step] at h
    split at h
    · rename_i hready
      cases h
      refine .send ⟨s.sent, id, item⟩ rfl (fun f => ?_) rfl rfl ?_
      · simp only [weight_eq, map_append, sum_append, map_cons, map_nil,
          sum_singleton]
        omega
      · cases item <;> simp [hready, Reader.pending, Queued.charge, DeliverItem.charge]
    · cases h
  | add =>
    simp only [step] at h
    split at h
    · rename_i hadding
      cases h
      exact .move (fun _ => rfl) rfl rfl (by simp [hadding, Reader.pending])
    · cases h
  | routerTakes =>
    simp only [step] at h
    split at h
    · rename_i hrouter hdeliver
      cases h
      refine .move (fun f => ?_) rfl rfl rfl
      simp [weight_eq, hrouter, hdeliver]
      omega
    · cases h
  | routerPasses =>
    obtain ⟨q, hq, rfl⟩ := map_eq_some_iff.1 h
    unfold State.dispatch
    split
    · refine .move (fun f => ?_) rfl rfl rfl
      simp [weight_eq, hq]
      omega
    · split
      · refine .move (fun f => ?_) rfl rfl rfl
        simp [weight_eq, hq]
        omega
      all_goals
        refine .release q (fun f => ?_) rfl rfl (release_count ..)
        simp [weight_eq, hq, State.release]
        omega
  | taskATakes =>
    simp only [step] at h
    split at h
    · rename_i htask hraw
      cases h
      refine .move (fun f => ?_) rfl rfl rfl
      simp [weight_eq, htask, hraw]
      omega
    · cases h
  | taskASubtracts =>
    obtain ⟨q, hq, rfl⟩ := map_eq_some_iff.1 h
    refine .release q (fun f => ?_) rfl rfl (release_count ..)
    simp [weight_eq, hq, State.release]
    omega
  | taskBTakes =>
    simp only [step] at h
    split at h
    · rename_i htask hstreams
      cases h
      refine .move (fun f => ?_) rfl rfl rfl
      simp [weight_eq, htask, hstreams]
      omega
    · cases h
  | taskBSubtracts =>
    obtain ⟨q, hq, rfl⟩ := map_eq_some_iff.1 h
    refine .release q (fun f => ?_) rfl rfl (release_count ..)
    simp [weight_eq, hq, State.release]

/-- The items with one serial. -/
def Queued.isNth (n : Nat) (q : Queued) : Nat := if q.serial = n then 1 else 0

structure Inv (s : State) : Prop where
  count : s.undelivered + UInt64.ofNat s.reader.pending = UInt64.ofNat (s.weight Queued.charge)
  once : ∀ n, s.weight (Queued.isNth n) + s.released.count n = if n < s.sent then 1 else 0

theorem Inv.init : Inv init := ⟨rfl, fun n => by simp [DeliveryTasks.init, weight_eq]⟩

theorem Inv.step (hinv : Inv s) (h : step s e = some s') : Inv s' := by
  cases step_effect h with
  | move hweight hsent hreleased hcount =>
    refine ⟨?_, fun n => ?_⟩
    · rw [hcount, hweight]
      exact hinv.count
    · rw [hweight, hsent, hreleased]
      exact hinv.once n
  | send q hserial hweight hsent hreleased hcount =>
    refine ⟨?_, fun n => ?_⟩
    · rw [hcount, hweight, hinv.count, UInt64.ofNat_add]
    · have honce := hinv.once n
      rw [hweight, hsent, hreleased, Queued.isNth, hserial]
      split at honce <;> split <;> split <;> omega
  | release q hweight hsent hreleased hcount =>
    refine ⟨?_, fun n => ?_⟩
    · have hold := hinv.count
      rw [hweight, UInt64.ofNat_add, ← hcount] at hold
      exact (UInt64.add_left_inj _).1 hold
    · have honce := hinv.once n
      rw [hweight, Queued.isNth] at honce
      rw [hsent, hreleased, count_append, count_singleton, ← honce]
      simp only [beq_iff_eq]
      omega

theorem count_serial (items : List Queued) (n : Nat) :
    (items.map Queued.serial).count n = (items.map (Queued.isNth n)).sum := by
  induction items with
  | nil => rfl
  | cons _ _ ih =>
    simp only [map_cons, count_cons, ih, sum_cons, Queued.isNth, beq_iff_eq]
    omega

/-- **The backlog counter.** At every check of the gate the counter is the charge of the items sent
whose charge has not been subtracted, in 64 bits; the gate trips only if that charge is above the cap;
and every item sent is either among them or has been released, once. -/
theorem undelivered_exact {es : List Event} {s s' : State} (hrun : Lts.run step init es = some s) :
    (step s .gate = some s' → s.undelivered.toNat = charges s.owed % 2 ^ 64 ∧
      (s'.reader = .ended → recvDeliveryHardCap < charges s.owed)) ∧
      ∀ n < s.sent, (s.owed.map Queued.serial).count n + s.released.count n = 1 := by
  have hinv : Inv s := Lts.run_inv (fun _ _ _ hi hs => Inv.step hi hs) es Inv.init hrun
  constructor
  · intro hgate
    simp only [step] at hgate
    split at hgate
    · rename_i hready
      have hcount : s.undelivered.toNat = charges s.owed % 2 ^ 64 := by
        have heq := congrArg UInt64.toNat hinv.count
        rw [hready] at heq
        simpa [Reader.pending, State.weight, charges] using heq
      refine ⟨hcount, fun hended => ?_⟩
      cases hgate
      split at hended
      · omega
      · rw [hready] at hended
        cases hended
    · cases hgate
  · intro n hn
    rw [count_serial]
    exact (hinv.once n).trans (if_pos hn)

/-- The reader hands on a payload of one byte, which Task B has taken and not yet subtracted when the
reader is at the gate again. -/
def takenAtGate : List Event :=
  [.send 2 (.data [7] true), .add, .routerTakes, .routerPasses, .taskBTakes]

theorem undelivered_exact_taken :
    ∃ s, Lts.run step init takenAtGate = some s ∧ step s .gate = some s ∧
      s.undelivered.toNat = charges s.owed % 2 ^ 64 := by
  obtain ⟨s, hs, hgate⟩ : ∃ s, Lts.run step init takenAtGate = some s ∧ step s .gate = some s :=
    ⟨_, rfl, rfl⟩
  exact ⟨s, hs, hgate, ((undelivered_exact hs).1 hgate).1⟩

/-- At that gate no item is left that no delivery task has taken, and the counter is not zero. -/
theorem undelivered_ne_waiting :
    ∃ s, Lts.run step init takenAtGate = some s ∧ step s .gate = some s ∧
      s.undelivered.toNat ≠ charges s.waiting % 2 ^ 64 :=
  ⟨_, rfl, rfl, by decide⟩

end PhantomProtocol.DeliveryTasks
