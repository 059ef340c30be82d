import PhantomProtocol.Transport.Proof.Stream
import PhantomProtocol.Transport.RecvWindow

/-!
# The receiver's half of the flow-control ledger

What the receiver's operations do to the consumed total, to the window it advertises and to the
count of bytes it has not reported.
-/

namespace PhantomProtocol.Stream

variable {s : Stream}

/-- `n` bytes have been credited, and `limit` is to be advertised. Without one, the unreported bytes
stay below half the initial window. -/
structure Credits (s s' : Stream) (n : Nat) (limit : Option Nat) : Prop where
  consumed : s'.bytesConsumed = s.bytesConsumed + n
  grows : s.advertisedRecvWindow ≤ s'.advertisedRecvWindow
  window : s'.advertisedRecvWindow ≤ maxRecvWindow
  unreported : s'.bytesSinceLastUpdate < initialStreamWindow / 2
  stated : ∀ l ∈ limit, l = s'.recvLimit
  silent : limit = none → s'.advertisedRecvWindow = s.advertisedRecvWindow ∧
    s'.bytesSinceLastUpdate = s.bytesSinceLastUpdate + n

/-- The parts of the receiver's ledger. -/
def ledger (s : Stream) : Nat × Nat × Nat :=
  (s.bytesConsumed, s.advertisedRecvWindow, s.bytesSinceLastUpdate)

theorem measureRecvRate_ledger (s : Stream) (n interval now : Nat) :
    (s.measureRecvRate n interval now).1.ledger = s.ledger := by
  unfold measureRecvRate
  dsimp only
  split
  · rfl
  · split
    · rfl
    · rfl

theorem tuneRecvWindow_ledger (s : Stream) (tuning : SharedRecvTuning) (n now : Nat) :
    ((s.tuneRecvWindow tuning n now).2.2 = false ∧
        (s.tuneRecvWindow tuning n now).1.ledger = s.ledger) ∨
      (s.tuneRecvWindow tuning n now).2.2 = true ∧
        (s.tuneRecvWindow tuning n now).1.ledger =
          (s.bytesConsumed, min (min (s.advertisedRecvWindow * 2) u32Max) maxRecvWindow,
            s.bytesSinceLastUpdate) := by
  unfold tuneRecvWindow
  dsimp only
  split
  · exact .inl ⟨rfl, rfl⟩
  · have hmeasure := s.measureRecvRate_ledger n
      (max (s.rto.minRtt.getD autotuneRttFallback * 2) autotuneMinInterval) now
    split
    · simp_all
    · rename_i heq
      rw [heq] at hmeasure
      split
      · exact .inl ⟨rfl, hmeasure⟩
      · simp only [ledger, Prod.mk.injEq] at hmeasure
        obtain ⟨hcons, hwin, hsince⟩ := hmeasure
        unfold growRecvWindow
        dsimp only
        split
        · exact .inl ⟨rfl, by simp only [ledger, hcons, hwin, hsince]⟩
        · exact .inr ⟨rfl, by simp only [ledger, hcons, hwin, hsince]⟩

theorem tuneRecvWindow_grows (hmax : s.advertisedRecvWindow ≤ maxRecvWindow)
    (tuning : SharedRecvTuning) (n now : Nat) :
    (s.tuneRecvWindow tuning n now).1.bytesConsumed = s.bytesConsumed ∧
      (s.tuneRecvWindow tuning n now).1.bytesSinceLastUpdate = s.bytesSinceLastUpdate ∧
      s.advertisedRecvWindow ≤ (s.tuneRecvWindow tuning n now).1.advertisedRecvWindow ∧
      (s.tuneRecvWindow tuning n now).1.advertisedRecvWindow ≤ maxRecvWindow ∧
      ((s.tuneRecvWindow tuning n now).2.2 = false →
        (s.tuneRecvWindow tuning n now).1.advertisedRecvWindow = s.advertisedRecvWindow) := by
  have htuned := s.tuneRecvWindow_ledger tuning n now
  simp only [ledger, Prod.mk.injEq] at htuned
  have hlimits : maxRecvWindow ≤ u32Max := by decide
  grind

/-- Crediting what the application has consumed. -/
theorem recordAppConsumed_credits {n : Nat} (tuning : SharedRecvTuning) (now : Nat)
    (hwrap : s.bytesConsumed + n ≤ u64Max) (hmax : s.advertisedRecvWindow ≤ maxRecvWindow) :
    s.Credits (s.recordAppConsumed tuning n true now).1 n
      (s.recordAppConsumed tuning n true now).2.2 := by
  have hhalf : initialStreamWindow / 2 ≤ u32Max ∧ 0 < initialStreamWindow / 2 := by decide
  obtain ⟨hcons, hun, hgrows, hwindow, hsame⟩ := tuneRecvWindow_grows
    (s := { s with bytesConsumed := s.bytesConsumed + n }) hmax tuning n now
  simp only [recordAppConsumed, Bool.not_true, Bool.false_eq_true, if_false,
    Nat.mod_eq_of_lt (Nat.lt_succ_of_le hwrap)]
  rw [hun]
  by_cases hcross : initialStreamWindow / 2 ≤ min (s.bytesSinceLastUpdate + n) u32Max
  · simp only [hcross, decide_true, if_true, Bool.true_or]
    refine ⟨hcons, hgrows, hwindow, hhalf.2, ?_, nofun⟩
    rintro _ ⟨⟩
    rfl
  · have hmin : min (s.bytesSinceLastUpdate + n) u32Max = s.bytesSinceLastUpdate + n := by omega
    have hbelow : ¬initialStreamWindow / 2 ≤ s.bytesSinceLastUpdate + n := by omega
    simp only [hmin, hbelow, decide_false, Bool.false_eq_true, if_false, Bool.false_or]
    refine ⟨hcons, hgrows, hwindow, Nat.not_le.1 hbelow, ?_, fun hnone => ?_⟩
    · simp
    · simp_all

theorem recordAppConsumed_window (hmax : s.advertisedRecvWindow ≤ maxRecvWindow)
    (tuning : SharedRecvTuning) (n : Nat) (reliable : Bool) (now : Nat) :
    s.advertisedRecvWindow ≤ (s.recordAppConsumed tuning n reliable now).1.advertisedRecvWindow ∧
      (s.recordAppConsumed tuning n reliable now).1.advertisedRecvWindow ≤ maxRecvWindow := by
  unfold recordAppConsumed
  split
  · exact ⟨Nat.le_refl _, hmax⟩
  · grind [tuneRecvWindow_grows]

theorem drain_ledger (fuel : Nat) (s : Stream) (out : List Bytes) :
    (drain fuel s out).1.ledger = s.ledger :=
  drain_inv (P := fun s' _ => s'.ledger = s.ledger) (fun _ _ _ _ h => h) fuel rfl

/-- What arrives changes nothing. -/
theorem acceptInOrder_ledger (s : Stream) (o : Nat) (payloads : List Bytes) (now : Nat) :
    (s.acceptInOrder o payloads now).1.ledger = s.ledger := by
  unfold acceptInOrder
  dsimp only
  split
  · rfl
  · split
    · split
      · rfl
      · rfl
    · exact drain_ledger ..

end PhantomProtocol.Stream
