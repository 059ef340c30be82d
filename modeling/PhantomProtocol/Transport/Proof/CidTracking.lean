import PhantomProtocol.Lib.Run
import PhantomProtocol.Transport.Migration

/-!
# Tracking the peer's connection-ID index

A client migrates any number of times; the server hears of a migration whenever one of the client's
data frames reaches `note_migration_path`. Fewer than `CID_WINDOW_LEADING` consecutive migrations go
unobserved.
-/

namespace PhantomProtocol.CidTracking

variable {a b : Nat}

open Lts

structure State where
  client : Migration
  server : Migration
  unobserved : Nat

inductive Event where
  | migrate
  /-- A data frame stamped with the client's current path id is processed by the server. -/
  | observe
deriving DecidableEq, Repr

def init (kdf : Kdf) (secret : Bytes) : State :=
  { client := Migration.new kdf secret false, server := Migration.new kdf secret true
    unobserved := 0 }

def step (kdf : Kdf) (s : State) : Event → Option State
  | .migrate =>
    if s.unobserved < cidWindowLeading then
      some { s with client := s.client.migrate, unobserved := s.unobserved + 1 }
    else none
  | .observe =>
    some { s with
      server := (s.server.noteMigrationPath kdf s.client.sendPathId).1, unobserved := 0 }

/-- The server's estimate is the client's index, and the client's CID is routed. -/
def Tracks (kdf : Kdf) (s : State) : Prop :=
  s.server.inboundCidHighestSeen = s.client.outboundCidIndex ∧
    s.client.currentOutboundCid kdf ∈ s.server.inboundWindowCids kdf

/-! ## Path ids as a function of the migration index -/

/-- The path id after `n` migrations. -/
def pathIdAt (n : Nat) : Nat := if n = 0 then 0 else (n - 1) % 254 + 1

/-- The estimate of a receiver that saw index `n`. -/
def trackedIndex (n : Nat) : Nat := n + 2 * ((n - 1) / 254)

theorem pathIdAt_lt (n : Nat) : pathIdAt n < 255 := by
  unfold pathIdAt
  split <;> omega

theorem migrate_sendPathId {m : Migration} {n : Nat} (h : m.sendPathId.toNat = pathIdAt n) :
    m.migrate.sendPathId.toNat = pathIdAt (n + 1) := by
  have hlt := pathIdAt_lt n
  have hnext : (m.sendPathId + 1).toNat = pathIdAt n + 1 := by
    rw [UInt8.toNat_add, h]
    exact Nat.mod_eq_of_lt (by simp; omega)
  have hzero : m.sendPathId + 1 ≠ 0 := by
    intro h0
    rw [h0] at hnext
    simp at hnext
  simp only [Migration.migrate, Migration.advanceOutboundCid, Migration.nextMigrationPathId, hzero,
    false_or]
  split
  · -- the id after 254 would be the reserved one
    have h254 : pathIdAt n = 254 := by simp_all [rebindValidationPathId]
    unfold pathIdAt at h254 ⊢
    split at h254
    · cases h254
    · simp
      omega
  · rename_i hres
    have h254 : pathIdAt n + 1 ≠ 255 := by
      rw [← hnext]
      exact fun h => hres (UInt8.toNat_inj.1 h)
    rw [hnext]
    unfold pathIdAt at h254 ⊢
    by_cases hn : n = 0
    · simp [hn]
    · simp only [hn, if_false, Nat.succ_ne_zero] at h254 ⊢
      omega

theorem forward_distance (hab : a ≤ b) (hd : b ≤ a + cidWindowLeading) :
    trackedIndex a + (256 + pathIdAt b - pathIdAt a) % 256 = trackedIndex b := by
  unfold trackedIndex pathIdAt cidWindowLeading at *
  split <;> split <;> omega

theorem forward_distance_le (hab : a ≤ b) (hd : b ≤ a + cidWindowLeading) :
    (256 + pathIdAt b - pathIdAt a) % 256 ≤ 128 := by
  have hfwd := forward_distance hab hd
  -- at most one wrap falls inside a window
  have hstep : trackedIndex b ≤ trackedIndex a + cidWindowLeading + 2 := by
    unfold trackedIndex cidWindowLeading at *
    omega
  unfold cidWindowLeading at hstep
  omega

/-! ## The invariant -/

structure Inv (kdf : Kdf) (secret : Bytes) (s : State) : Prop where
  clientRole : s.client.isServer = false
  clientChain : s.client.cidChain = CidChain.derive kdf secret false
  serverChain : s.server.cidChain = CidChain.derive kdf secret true
  clientPath : s.client.sendPathId.toNat = pathIdAt s.client.outboundCidIndex
  bounded : s.unobserved ≤ cidWindowLeading
  behind : s.unobserved ≤ s.client.outboundCidIndex
  lastSeen : s.server.lastSeenPathId.toNat = pathIdAt (s.client.outboundCidIndex - s.unobserved)
  highest : s.server.inboundCidHighestSeen = trackedIndex (s.client.outboundCidIndex - s.unobserved)

variable {kdf : Kdf} {secret : Bytes} {s s' : State} {e : Event}

theorem inv_init : Inv kdf secret (init kdf secret) where
  clientRole := rfl
  clientChain := rfl
  serverChain := rfl
  clientPath := rfl
  bounded := Nat.zero_le _
  behind := Nat.zero_le _
  lastSeen := rfl
  highest := by simp [init, Migration.new, trackedIndex]

theorem inv_observe (h : Inv kdf secret s) (hs : step kdf s .observe = some s') :
    Inv kdf secret s' := by
  cases hs
  have hab : s.client.outboundCidIndex - s.unobserved ≤ s.client.outboundCidIndex := Nat.sub_le _ _
  have hd : s.client.outboundCidIndex ≤
      s.client.outboundCidIndex - s.unobserved + cidWindowLeading := by
    have := h.bounded
    omega
  have hdist := Migration.toNat_sub_path s.client.sendPathId s.server.lastSeenPathId
  rw [h.clientPath, h.lastSeen] at hdist
  have hfwd := forward_distance hab hd
  have hle := forward_distance_le hab hd
  by_cases hnew : s.server.Newer s.client.sendPathId
  · refine ⟨h.clientRole, h.clientChain, ?_, h.clientPath, Nat.zero_le _, Nat.zero_le _, ?_, ?_⟩
    all_goals simp only [Migration.noteMigrationPath_newer hnew, Nat.sub_zero]
    · exact h.serverChain
    · exact h.clientPath
    · rw [h.highest, hdist, hfwd]
  · -- not newer within the bound: the distance is zero, so nothing was missed
    have h0 : (256 + pathIdAt s.client.outboundCidIndex -
        pathIdAt (s.client.outboundCidIndex - s.unobserved)) % 256 = 0 := by
      rw [Migration.newer_iff, hdist] at hnew
      omega
    refine ⟨h.clientRole, h.clientChain, ?_, h.clientPath, Nat.zero_le _, Nat.zero_le _, ?_, ?_⟩
    all_goals simp only [Migration.noteMigrationPath_not_newer hnew, Nat.sub_zero]
    · exact h.serverChain
    · have hb := pathIdAt_lt s.client.outboundCidIndex
      have ha := pathIdAt_lt (s.client.outboundCidIndex - s.unobserved)
      rw [h.lastSeen]
      omega
    · rw [h.highest]
      omega

theorem inv_step (h : Inv kdf secret s) (hs : step kdf s e = some s') : Inv kdf secret s' := by
  cases e with
  | observe => exact inv_observe h hs
  | migrate =>
    simp only [step] at hs
    split at hs
    · rename_i hlt
      cases hs
      have hsub : s.client.outboundCidIndex + 1 - (s.unobserved + 1) =
          s.client.outboundCidIndex - s.unobserved := by omega
      exact ⟨h.clientRole, h.clientChain, h.serverChain, migrate_sendPathId h.clientPath, hlt,
        Nat.succ_le_succ h.behind, hsub ▸ h.lastSeen, hsub ▸ h.highest⟩
    · cases hs

/-- **The estimate after an observed frame**, over any number of wraps. -/
theorem observed_highest (h : Inv kdf secret s) (hs : step kdf s .observe = some s') :
    s'.client.outboundCidIndex = s.client.outboundCidIndex ∧
      s'.server.inboundCidHighestSeen = trackedIndex s.client.outboundCidIndex := by
  have h' := (inv_observe h hs).highest
  cases hs
  exact ⟨rfl, h'⟩

theorem trackedIndex_eq_self_iff (n : Nat) : trackedIndex n = n ↔ n ≤ 254 := by
  unfold trackedIndex
  omega

theorem tracks_iff (h : Inv kdf secret s) (hs : step kdf s .observe = some s') :
    Tracks kdf s' ↔ s.client.outboundCidIndex ≤ 254 := by
  obtain ⟨hidx, hhigh⟩ := observed_highest h hs
  have h' := inv_observe h hs
  rw [← trackedIndex_eq_self_iff, ← hhigh, ← hidx]
  refine ⟨And.left, fun heq => ⟨heq, ?_⟩⟩
  refine Migration.currentOutboundCid_mem secret ?_ ?_ (by omega) (by omega)
  · rw [h'.clientRole]
    exact h'.clientChain
  · rw [h'.clientRole]
    exact h'.serverChain

/-- **The window tracks the client exactly up to the first wrap.** Along every run, the estimate
equals the client's index after every observed frame if and only if every observed frame was
stamped at an index of at most 254, the last one before the path id wraps. -/
theorem tracks_iff_before_wrap (kdf : Kdf) (secret : Bytes) (es : List Event) :
    Along (step kdf) (fun _ e s' => e = .observe → Tracks kdf s') (init kdf secret) es ↔
      Along (step kdf) (fun s e _ => e = .observe → s.client.outboundCidIndex ≤ 254)
        (init kdf secret) es := by
  refine along_iff (Inv kdf secret) (fun s e s' h hs _ => inv_step h hs) (fun s e s' h hs => ?_) es
    inv_init
  constructor
  · rintro ht rfl
    exact (tracks_iff h hs).1 (ht rfl)
  · rintro hle rfl
    exact (tracks_iff h hs).2 (hle rfl)

/-- `n` migrations, each followed by an observed frame. -/
def observedMigrations : Nat → List Event
  | 0 => []
  | n + 1 => observedMigrations n ++ [.migrate, .observe]

theorem run_observedMigrations (kdf : Kdf) (secret : Bytes) (n : Nat) :
    ∃ s, run (step kdf) (init kdf secret) (observedMigrations n) = some s ∧ Inv kdf secret s ∧
      s.client.outboundCidIndex = n ∧ s.unobserved = 0 := by
  induction n with
  | zero => exact ⟨_, rfl, inv_init, rfl, rfl⟩
  | succ n ih =>
    obtain ⟨s, hrun, hinv, hidx, hun⟩ := ih
    obtain ⟨m, hm⟩ : ∃ m, step kdf s .migrate = some m := by simp [step, hun, cidWindowLeading]
    have hm' : m.client.outboundCidIndex = n + 1 := by
      simp only [step, hun] at hm
      cases hm
      rw [← hidx]
      rfl
    obtain ⟨t, ht⟩ : ∃ t, step kdf m .observe = some t := ⟨_, rfl⟩
    have ht' : t.client = m.client ∧ t.unobserved = 0 := by
      cases ht
      exact ⟨rfl, rfl⟩
    refine ⟨t, ?_, inv_step (inv_step hinv hm) ht, by rw [ht'.1, hm'], ht'.2⟩
    rw [observedMigrations, run_append, hrun, Option.bind_some, run_cons_some hm, run_cons_some ht,
      run_nil]

/-- After 509 migrations, all observed, the estimate is off by four and the CID the client stamps
is no longer routed. -/
theorem second_wrap_strands :
    ∃ s, run (step Kdf.plain) (init Kdf.plain []) (observedMigrations 509) = some s ∧
      s.client.outboundCidIndex = 509 ∧ s.server.inboundCidHighestSeen = 513 ∧
      s.client.currentOutboundCid Kdf.plain ∉ s.server.inboundWindowCids Kdf.plain := by
  obtain ⟨s, hrun, hinv, hidx, hun⟩ := run_observedMigrations Kdf.plain [] 509
  have hhigh : s.server.inboundCidHighestSeen = 513 := by rw [hinv.highest, hidx, hun]; rfl
  refine ⟨s, hrun, hidx, hhigh, ?_⟩
  rw [Migration.currentOutboundCid, Migration.inboundWindowCids, hinv.clientChain,
    hinv.serverChain, hidx, hhigh]
  decide

end PhantomProtocol.CidTracking
