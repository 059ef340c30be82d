import PhantomProtocol.Lib.Run
import PhantomProtocol.Transport.Proof.SendBuffer

/-!
# Backpressure permits

An admitting call waits for a permit, is assigned an offset, and then waits for the lock of the send
buffer, under which it pushes its segment. Other calls run in between: acknowledgements, which return
permits, and other admitting calls. When no offset is left, the call fails and drops its permit.
Calls change places where they wait; `on_sack` returns its permits right after it has released the
lock, with no wait in between.
-/

namespace PhantomProtocol

open List Option

namespace SendPermits

/-- How far an admitting call has got. -/
inductive Admission where
  | waiting (data : Bytes) (fin : Bool)
  | holding (data : Bytes) (fin : Bool)
  /-- It has an offset and has forgotten its permit; the segment is not in the send buffer yet. -/
  | assigned (streamOffset : Nat) (data : Bytes) (fin : Bool)
deriving DecidableEq

namespace Admission

/-- The permits the call has taken. -/
def permits : Admission → Nat
  | waiting .. => 0
  | holding .. | assigned .. => 1

def streamOffset : Admission → Option Nat
  | waiting .. | holding .. => none
  | assigned o .. => some o

end Admission

structure State where
  tx : Stream
  admissions : List Admission
deriving DecidableEq

def init : State := ⟨.new, []⟩

inductive Event where
  | sendReliable (data : Bytes)
  | trySendReliable (data : Bytes)
  | queueFin
  | tryQueueFin
  /-- The `i`-th call under way gets its permit, … -/
  | acquire (i : Nat)
  | assign (i : Nat)
  | push (i : Nat)
  | ack (streamOffset now : Nat)
  | onSack (sack : Sack) (now : Nat)
  | pollSend (cwndBudget deliveredNow deliveredTimeNow : Nat) (appLimitedNow : Bool) (now : Nat)
  | markUnsent (streamOffset : Nat)

/-- `try_acquire`, by a call that does not wait: it returns when there is no permit. -/
def tryAcquire (s : State) (data : Bytes) (fin : Bool) : State :=
  if s.tx.sendSemaphore = 0 then s
  else ⟨{ s.tx with sendSemaphore := s.tx.sendSemaphore - 1 }, .holding data fin :: s.admissions⟩

/-- `a` goes on; the others are `rest`. `none`: it is not where the event has it. -/
def acquire (tx : Stream) (rest : List Admission) : Admission → Option State
  | .waiting data fin =>
    if tx.sendSemaphore = 0 then none
    else some ⟨{ tx with sendSemaphore := tx.sendSemaphore - 1 }, .holding data fin :: rest⟩
  | _ => none

/-- With the error, the permit is dropped and goes back to the semaphore. -/
def assign (tx : Stream) (rest : List Admission) : Admission → Option State
  | .holding data fin =>
    match tx.nextReliableOffset with
    | .error _ => some ⟨{ tx with sendSemaphore := tx.sendSemaphore + 1 }, rest⟩
    | .ok (offset, next) =>
      some ⟨{ tx with reliableOffset := next }, .assigned offset data fin :: rest⟩
  | _ => none

def push (tx : Stream) (rest : List Admission) : Admission → Option State
  | .assigned offset data fin =>
    some ⟨{ tx with
      sendBuffer := tx.sendBuffer ++ [Stream.pendingData offset data fin]
      localFinished := tx.localFinished || fin }, rest⟩
  | _ => none

def step (s : State) : Event → Option State
  | .sendReliable data => some { s with admissions := .waiting data false :: s.admissions }
  | .trySendReliable data => some (tryAcquire s data false)
  | .queueFin => some { s with admissions := .waiting [] true :: s.admissions }
  | .tryQueueFin => some (tryAcquire s [] true)
  | .acquire i => s.admissions[i]?.bind (acquire s.tx (s.admissions.eraseIdx i))
  | .assign i => s.admissions[i]?.bind (assign s.tx (s.admissions.eraseIdx i))
  | .push i => s.admissions[i]?.bind (push s.tx (s.admissions.eraseIdx i))
  | .ack o now => some { s with tx := (s.tx.ack o now).1 }
  | .onSack k now => some { s with tx := (s.tx.onSack k now).1 }
  | .pollSend budget dn dt limited now =>
    some { s with tx := (s.tx.pollSend budget dn dt limited now).1 }
  | .markUnsent o => some { s with tx := s.tx.markUnsent o }

/-! ## The balance -/

/-- The offsets that are buffered or about to be. -/
def offsets (tx : Stream) (admissions : List Admission) : List Nat :=
  tx.pending.map (·.1) ++ admissions.filterMap Admission.streamOffset

/-- The permits available, those of calls under way and those of buffered segments add up to
`MAX_PENDING_PACKETS`; the offsets assigned and not yet acknowledged are distinct. -/
structure Balanced (tx : Stream) (admissions : List Admission) : Prop where
  permits : tx.sendSemaphore + (admissions.map Admission.permits).sum + tx.pending.length =
    maxPendingPackets
  distinct : (offsets tx admissions).Nodup
  below : ∀ o ∈ offsets tx admissions, o < tx.reliableOffset

theorem balanced_init : Balanced .new [] where
  permits := rfl
  distinct := nodup_nil
  below o ho := by cases ho

theorem perm_eraseIdx {admissions : List Admission} {i : Nat} {a : Admission}
    (h : admissions[i]? = some a) : (a :: admissions.eraseIdx i).Perm admissions := by
  obtain ⟨hi, rfl⟩ := List.getElem?_eq_some_iff.1 h
  exact getElem_cons_eraseIdx_perm hi

namespace Balanced

variable {tx tx' : Stream} {admissions admissions' rest : List Admission} {a : Admission}
  {s' s : State} {data : Bytes} {fin : Bool}

section

variable (h : Balanced tx admissions)
include h

theorem perm (hp : admissions'.Perm admissions) : Balanced tx admissions' := by
  have hoffsets : (offsets tx admissions').Perm (offsets tx admissions) :=
    (hp.filterMap _).append_left _
  refine ⟨?_, hoffsets.nodup_iff.2 h.distinct, fun o ho => h.below o (hoffsets.mem_iff.1 ho)⟩
  rw [(hp.map Admission.permits).sum_eq]
  exact h.permits

theorem retires (hsub : tx'.pending.Sublist tx.pending)
    (hpermits : tx'.sendSemaphore + tx'.pending.length = tx.sendSemaphore + tx.pending.length)
    (hoff : tx'.reliableOffset = tx.reliableOffset) : Balanced tx' admissions := by
  have hoffsets : (offsets tx' admissions).Sublist (offsets tx admissions) :=
    (hsub.map _).append_right _
  refine ⟨?_, h.distinct.sublist hoffsets, fun o ho => hoff ▸ h.below o (hoffsets.subset ho)⟩
  have hbefore := h.permits
  omega

theorem keeps (hk : tx.Keeps tx') : Balanced tx' admissions := by
  refine h.retires (hk.pending ▸ List.Sublist.refl _) ?_ hk.reliableOffset
  rw [hk.permits, hk.pending]

theorem waits (data : Bytes) (fin : Bool) : Balanced tx (.waiting data fin :: admissions) where
  permits := by
    have hbefore := h.permits
    simp only [map_cons, sum_cons, Admission.permits]
    omega
  distinct := h.distinct
  below := h.below

end

theorem takes (h : Balanced tx rest) (hsome : tx.sendSemaphore ≠ 0) (data : Bytes) (fin : Bool) :
    Balanced { tx with sendSemaphore := tx.sendSemaphore - 1 } (.holding data fin :: rest) where
  permits := by
    have hbefore := h.permits
    simp only [map_cons, sum_cons, Admission.permits, Stream.pending] at hbefore ⊢
    omega
  distinct := h.distinct
  below := h.below

theorem tryAcquire (h : Balanced s.tx s.admissions) (data : Bytes) (fin : Bool) :
    Balanced (tryAcquire s data fin).tx (tryAcquire s data fin).admissions := by
  unfold SendPermits.tryAcquire
  split
  · exact h
  · exact h.takes ‹_› data fin

section

variable (h : Balanced tx (a :: rest))
include h

theorem acquire (hs : acquire tx rest a = some s') : Balanced s'.tx s'.admissions := by
  cases a with
  | waiting data fin =>
    obtain ⟨hsome, ⟨⟩⟩ := ite_none_left_eq_some.1 hs
    have hrest : Balanced tx rest :=
      ⟨by simpa [Admission.permits] using h.permits, h.distinct, h.below⟩
    exact hrest.takes hsome data fin
  | holding | assigned => cases hs

theorem assign (hs : assign tx rest a = some s') : Balanced s'.tx s'.admissions := by
  cases a with
  | waiting | assigned => cases hs
  | holding data fin =>
    have hbefore := h.permits
    simp only [map_cons, sum_cons, Admission.permits, Stream.pending] at hbefore
    unfold SendPermits.assign Stream.nextReliableOffset at hs
    dsimp only at hs
    by_cases hroom : tx.reliableOffset + 1 ≤ u32Max
    · rw [if_pos hroom] at hs
      cases hs
      have hoffsets : (offsets { tx with reliableOffset := tx.reliableOffset + 1 }
          (.assigned tx.reliableOffset data fin :: rest)).Perm (tx.reliableOffset :: offsets tx rest) :=
        perm_middle
      refine ⟨?_, hoffsets.nodup_iff.2 (nodup_cons.2 ⟨fun hmem => ?_, h.distinct⟩), fun o ho => ?_⟩
      · simp only [map_cons, sum_cons, Admission.permits, Stream.pending]
        omega
      · exact Nat.lt_irrefl _ (h.below _ hmem)
      · rcases mem_cons.1 (hoffsets.mem_iff.1 ho) with rfl | ho
        · exact Nat.lt_succ_self _
        · exact Nat.lt_succ_of_lt (h.below o ho)
    · -- the offset space is exhausted
      rw [if_neg hroom] at hs
      cases hs
      refine ⟨?_, h.distinct, h.below⟩
      simp only [Stream.pending]
      omega

theorem push (hs : push tx rest a = some s') : Balanced s'.tx s'.admissions := by
  cases a with
  | waiting | holding => cases hs
  | assigned o data fin =>
    cases hs
    have hbefore := h.permits
    have hoffsets : (tx.pending ++ [(o, data)]).map (·.1) ++ rest.filterMap Admission.streamOffset =
        offsets tx (.assigned o data fin :: rest) := by
      simp [offsets, Admission.streamOffset]
    have hpending : Stream.pending { tx with
        sendBuffer := tx.sendBuffer ++ [Stream.pendingData o data fin]
        localFinished := tx.localFinished || fin } = tx.pending ++ [(o, data)] := by
      simp [Stream.pending, Stream.pendingData]
    refine ⟨?_, ?_, fun q hq => h.below q ?_⟩
    · rw [hpending]
      simp only [map_cons, sum_cons, Admission.permits, length_append,
        length_singleton] at hbefore ⊢
      omega
    · unfold offsets
      rw [hpending, hoffsets]
      exact h.distinct
    · unfold offsets at hq
      rwa [hpending, hoffsets] at hq

end

theorem proceeds {i : Nat} {go : Stream → List Admission → Admission → Option State}
    (h : Balanced s.tx s.admissions)
    (hgo : ∀ {a : Admission}, Balanced s.tx (a :: s.admissions.eraseIdx i) →
      go s.tx (s.admissions.eraseIdx i) a = some s' → Balanced s'.tx s'.admissions)
    (hs : s.admissions[i]?.bind (go s.tx (s.admissions.eraseIdx i)) = some s') :
    Balanced s'.tx s'.admissions := by
  obtain ⟨a, ha, hnext⟩ := bind_eq_some_iff.1 hs
  exact hgo (h.perm (perm_eraseIdx ha)) hnext

theorem step {e : Event} (h : Balanced s.tx s.admissions) (hs : step s e = some s') :
    Balanced s'.tx s'.admissions := by
  cases e with
  | sendReliable data =>
    cases hs
    exact h.waits data false
  | trySendReliable data =>
    cases hs
    exact h.tryAcquire data false
  | queueFin =>
    cases hs
    exact h.waits [] true
  | tryQueueFin =>
    cases hs
    exact h.tryAcquire [] true
  | acquire => exact h.proceeds acquire hs
  | assign => exact h.proceeds assign hs
  | push => exact h.proceeds push hs
  | ack o now =>
    cases hs
    exact h.retires (s.tx.ack_sublist o now) (s.tx.ack_permits o now) (s.tx.ack_totals o now).1
  | onSack k now =>
    cases hs
    refine h.retires ?_ (s.tx.onSack_permits k now) (s.tx.onSack_reliableOffset k now)
    rw [Stream.onSack_pending]
    exact filter_sublist
  | pollSend budget dn dt limited now =>
    cases hs
    exact h.keeps (s.tx.pollSend_emitted budget dn dt limited now).keeps
  | markUnsent o =>
    cases hs
    exact h.keeps (s.tx.markUnsent_keeps o)

end Balanced

/-- **Permits are conserved.** In every interleaving, also of calls that fail for want of an offset,
whenever no admission is under way the available permits and the buffered segments add up to
`MAX_PENDING_PACKETS`, and the buffered offsets are distinct and below the cursor. -/
theorem permits_conserved {events : List Event} {s : State} (h : Lts.run step init events = some s)
    (hidle : s.admissions = []) :
    s.tx.sendSemaphore + s.tx.sendBuffer.length = maxPendingPackets ∧
      (s.tx.sendBuffer.map (·.streamOffset)).Nodup ∧
      ∀ p ∈ s.tx.sendBuffer, p.streamOffset < s.tx.reliableOffset := by
  have hreaches : Lts.Reaches step init s := ⟨events, h⟩
  have hbal : Balanced s.tx s.admissions := hreaches.inv (fun s => Balanced s.tx s.admissions)
    (fun _ _ _ hi hs => hi.step hs) balanced_init
  rw [hidle] at hbal
  have hoffsets : offsets s.tx [] = s.tx.sendBuffer.map (·.streamOffset) := by
    simp [offsets, Stream.pending, Function.comp_def]
  have hpermits := hbal.permits
  have hdistinct := hbal.distinct
  have hbelow := hbal.below
  rw [hoffsets] at hdistinct hbelow
  refine ⟨?_, hdistinct, fun p hp => hbelow _ (mem_map_of_mem hp)⟩
  simpa [Stream.pending] using hpermits

/-- Three calls change places: the second to begin is the first to push, the FIN overtakes a chunk,
and the chunk at offset 1 is acknowledged while the one at offset 0 is not in the buffer yet. -/
def overtaking : List Event :=
  [.sendReliable [1], .acquire 0, .assign 0, .trySendReliable [2], .assign 0, .queueFin, .push 1,
    .pollSend 9 0 0 false 0, .acquire 0, .onSack ⟨1, 0, [(1, 1)]⟩ 5, .assign 0, .push 0, .push 0]

theorem permits_conserved_overtaking :
    ∃ s, Lts.run step init overtaking = some s ∧
      s.tx.sendBuffer.map (·.streamOffset) = [2, 0] ∧ s.tx.localFinished = true ∧
      s.tx.sendSemaphore + s.tx.sendBuffer.length = maxPendingPackets := by
  obtain ⟨s, hrun, hidle, hbuf, hfin⟩ : ∃ s, Lts.run step init overtaking = some s ∧
      s.admissions = [] ∧ s.tx.sendBuffer.map (·.streamOffset) = [2, 0] ∧
      s.tx.localFinished = true := ⟨_, rfl, rfl, rfl, rfl⟩
  exact ⟨s, hrun, hbuf, hfin, (permits_conserved hrun hidle).1⟩

/-! ## Calls that nothing interrupts -/

theorem run_holding (tx : Stream) (hsome : tx.sendSemaphore ≠ 0) (data : Bytes) (fin : Bool) :
    Lts.Reaches step
      ⟨{ tx with sendSemaphore := tx.sendSemaphore - 1 }, [.holding data fin]⟩
      ⟨(tx.enqueue data fin).1, []⟩ := by
  unfold Stream.enqueue Stream.nextReliableOffset
  by_cases hroom : tx.reliableOffset + 1 ≤ u32Max
  · refine ⟨[.assign 0, .push 0], ?_⟩
    simp [Lts.run, step, assign, push, Stream.nextReliableOffset, hroom]
  · refine ⟨[.assign 0], ?_⟩
    have hback : tx.sendSemaphore - 1 + 1 = tx.sendSemaphore := by omega
    simp [Lts.run, step, assign, Stream.nextReliableOffset, hroom, hback]

/-- A call that nothing interrupts is `send_reliable` of the stream's model. -/
theorem run_sendReliable {tx tx' : Stream} {data : Bytes} {r : Except CoreError Nat}
    (h : tx.sendReliable data = some (tx', r)) : Lts.Reaches step ⟨tx, []⟩ ⟨tx', []⟩ := by
  obtain ⟨hsome, heq⟩ := ite_none_left_eq_some.1 h
  have htx : (tx.enqueue data false).1 = tx' := congrArg Prod.fst (Option.some.inj heq)
  have hacquire : Lts.Reaches step ⟨tx, []⟩
      ⟨{ tx with sendSemaphore := tx.sendSemaphore - 1 }, [.holding data false]⟩ := by
    refine ⟨[.sendReliable data, .acquire 0], ?_⟩
    simp [Lts.run, step, acquire, hsome]
  rw [← htx]
  exact hacquire.trans (run_holding tx hsome data false)

end SendPermits

end PhantomProtocol
