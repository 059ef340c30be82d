import PhantomProtocol.Api.PathExchange

/-!
# Failed paths

A response that does not match the outstanding challenge fails the path for good. Honest endpoints
only produce one when a frame that belongs to another challenge meets a fresh one: the peer's own
challenge on the same path, or a copy left over from an earlier validation.
-/

namespace PhantomProtocol

open Multiset

namespace Exchange

open PathRegistry

variable {x x' : Exchange} {a : Act} {d : Side} {p : UInt8} {c : Challenge}

/-- A fresh challenge is minted only while the peer is not validating the same path, and while no
frame on that path is in flight that could come back to the challenger. -/
def MintsSafely (x : Exchange) : Act → Prop
  | .issue d p =>
    (x.registry d).Echoes p →
      (x.registry d.other).state p ≠ some .validating ∧
        ∀ m ∈ x.net, m.2.1 = p → m.1 = d.other ∧ ¬(x.registry d.other).Echoes p
  | _ => True

instance (x : Exchange) : (a : Act) → Decidable (x.MintsSafely a)
  | .issue d p =>
    inferInstanceAs (Decidable ((x.registry d).Echoes p →
      (x.registry d.other).state p ≠ some .validating ∧
        ∀ m ∈ x.net, m.2.1 = p → m.1 = d.other ∧ ¬(x.registry d.other).Echoes p))
  | .receive .. | .quiet | .lose => .isTrue trivial

/-- The challenge outstanding on `p` at `d` is the only one under way there. -/
structure Alone (x : Exchange) (d : Side) (p : UInt8) (c : Challenge) : Prop where
  peer : (x.registry d.other).state p ≠ some .validating
  toward : ∀ m ∈ x.net, m.2.1 = p → m.1 = d → m.2.2 = c
  away : ∀ m ∈ x.net, m.2.1 = p → m.1 = d.other → m.2.2 = c ∨ ¬(x.registry d.other).Echoes p

structure Consistent (x : Exchange) : Prop where
  alone : ∀ d p c, (x.registry d).Outstanding p c → x.Alone d p c
  noneFailed : ∀ d p, (x.registry d).state p ≠ some .failed

section

variable (h : x.Consistent)
include h

theorem Consistent.setNet {net : Multiset PathMsg}
    (hnet : ∀ m ∈ net, m ∈ x.net ∨ ∀ d c, (x.registry d).Outstanding m.2.1 c → m.2.2 = c) :
    Consistent ⟨x.registry, net⟩ := by
  refine ⟨fun d p c ho => ?_, h.noneFailed⟩
  obtain ⟨hpeer, htoward, haway⟩ := h.alone d p c ho
  refine ⟨hpeer, fun m hm hp hd => ?_, fun m hm hp hd => ?_⟩
  · grind
  · grind

theorem Consistent.onPath (p : UInt8) (hreg : ∀ e q, q ≠ p → x'.registry e q = x.registry e q)
    (hnet : ∀ m ∈ x'.net, m.2.1 ≠ p → m ∈ x.net)
    (halone : ∀ e c, (x'.registry e).Outstanding p c → x'.Alone e p c)
    (hfail : ∀ e, (x'.registry e).state p ≠ some .failed) : x'.Consistent := by
  have hstate : ∀ e q, q ≠ p → (x'.registry e).state q = (x.registry e).state q := by
    simp_all [PathRegistry.state]
  refine ⟨fun e q c ho => ?_, fun e q => ?_⟩
  · by_cases hq : q = p
    · subst hq
      exact halone e c ho
    · obtain ⟨hpeer, htoward, haway⟩ := h.alone e q c ((hreg e q hq).symm.trans ho)
      refine ⟨hstate e.other q hq ▸ hpeer, fun m hm hmq => ?_, fun m hm hmq hd => ?_⟩
      · exact htoward m (hnet m hm (hmq ▸ hq)) hmq
      · unfold PathRegistry.Echoes
        rw [hstate e.other q hq]
        exact haway m (hnet m hm (hmq ▸ hq)) hmq hd
  · by_cases hq : q = p
    · exact hq ▸ hfail e
    · rw [hstate e q hq]
      exact h.noneFailed e q

theorem Consistent.register (d : Side) (p : UInt8) :
    (x.setRegistry d ((x.registry d).register p)).Consistent := by
  have hout : ∀ e q c, ((x.setRegistry d ((x.registry d).register p)).registry e).Outstanding q c ↔
      (x.registry e).Outstanding q c := by
    intro e q c
    rw [setRegistry_apply]
    split
    · rename_i he
      rw [he, outstanding_register]
    · rfl
  have hstate : ∀ e q k, k ≠ .unvalidated →
      (((x.setRegistry d ((x.registry d).register p)).registry e).state q = some k ↔
        (x.registry e).state q = some k) := by
    intro e q k hk
    rw [setRegistry_apply]
    split
    · rename_i he
      rw [he, state_register k hk]
    · rfl
  have hecho : ∀ e q, ((x.setRegistry d ((x.registry d).register p)).registry e).Echoes q ↔
      (x.registry e).Echoes q := by
    intro e q
    rw [setRegistry_apply]
    split
    · rename_i he
      rw [he, echoes_register]
    · rfl
  refine ⟨fun e q c ho => ?_, fun e q => ?_⟩
  · obtain ⟨hpeer, htoward, haway⟩ := h.alone e q c ((hout e q c).1 ho)
    refine ⟨?_, htoward, fun m hm hq hd => ?_⟩
    · rwa [Ne, hstate e.other q _ (by simp)]
    · rw [hecho]
      exact haway m hm hq hd
  · rw [Ne, hstate e q _ (by simp)]
    exact h.noneFailed e q

theorem Consistent.mint {fresh : Challenge} {sent : Bool}
    (he : (x.registry d).Echoes p) (hsafe : x.MintsSafely (.issue d p)) :
    Consistent ⟨(x.setRegistry d ((x.registry d).insert p ⟨.validating, some fresh⟩)).registry,
      if sent then (d.other, p, fresh) ::ₘ x.net else x.net⟩ := by
  obtain ⟨hpeer, hnet⟩ := hsafe he
  refine h.onPath p (fun e q hq => ?_) (fun m hm hq => ?_) (fun e c ho => ?_) fun e => ?_
  · exact setRegistry_of_ne fun hed => hed ▸ insert_of_ne hq
  · rcases mem_sent hm with rfl | hm
    · exact absurd rfl hq
    · exact hm
  · rcases Side.eq_or_eq_other d e with rfl | rfl
    · have hc : fresh = c := by
        rw [setRegistry_self, Outstanding, insert_self] at ho
        simpa using ho
      subst hc
      refine ⟨by rwa [setRegistry_other], fun m hm hq hd => ?_, fun m hm hq hd => ?_⟩
      · rcases mem_sent hm with rfl | hm
        · rfl
        · exact absurd (hd.symm.trans (hnet m hm hq).1) (Side.other_ne e).symm
      · rcases mem_sent hm with rfl | hm
        · exact .inl rfl
        · rw [setRegistry_other]
          exact .inr (hnet m hm hq).2
    · rw [setRegistry_other] at ho
      exact absurd ho.state_eq hpeer
  · rcases Side.eq_or_eq_other d e with rfl | rfl
    · rw [setRegistry_self, state_insert, if_pos rfl]
      simp
    · rw [setRegistry_other]
      exact h.noneFailed d.other p

theorem Consistent.verify {expected : Challenge} {cand : Bool}
    {rest : Multiset PathMsg} (hnet : x.net = (d, p, c) ::ₘ rest)
    (ho : (x.registry d).Outstanding p expected) :
    Consistent ⟨(x.setRegistry d (resolve (x.registry d) p expected c cand)).registry, rest⟩ := by
  obtain ⟨hpeer, htoward, -⟩ := h.alone d p expected ho
  have hc : c = expected := htoward (d, p, c) (hnet ▸ mem_cons_self ..) rfl rfl
  have hself : (resolve (x.registry d) p expected c cand).state p ≠ some .validating ∧
      (resolve (x.registry d) p expected c cand).state p ≠ some .failed := by
    unfold resolve
    rw [if_pos hc]
    split
    · simp [state_retire]
    · simp [state_insert]
  have hothers : ∀ q, q ≠ p → resolve (x.registry d) p expected c cand q = x.registry d q := by
    intro q hq
    unfold resolve
    rw [if_pos hc]
    split
    · rw [retire_of_ne hq, insert_of_ne hq]
    · rw [insert_of_ne hq]
  refine h.onPath p (fun e q hq => ?_) (fun m hm hq => ?_) (fun e c' ho' => ?_) fun e => ?_
  · exact setRegistry_of_ne fun hed => hed ▸ hothers q hq
  · exact hnet ▸ mem_cons_of_mem hm
  · rcases Side.eq_or_eq_other d e with rfl | rfl
    · rw [setRegistry_self] at ho'
      exact absurd ho'.state_eq hself.1
    · rw [setRegistry_other] at ho'
      exact absurd ho'.state_eq hpeer
  · rcases Side.eq_or_eq_other d e with rfl | rfl
    · rw [setRegistry_self]
      exact hself.2
    · rw [setRegistry_other]
      exact h.noneFailed d.other p

theorem Consistent.step (hs : Step x a x') (hsafe : x.MintsSafely a) : x'.Consistent := by
  cases hs with
  | quiet | refuse => exact h
  | register d p => exact h.register d p
  | lose _ _ hnet =>
    exact h.setNet fun m' hm' => .inl (hnet ▸ mem_cons_of_mem hm')
  | ignore _ _ _ _ _ hnet =>
    exact h.setNet fun m' hm' => .inl (hnet ▸ mem_cons_of_mem hm')
  | mint _ _ _ _ he => exact h.mint he hsafe
  | verify _ _ _ _ _ _ hnet ho => exact h.verify hnet ho
  | reissue d p c _ ho =>
    refine h.setNet fun m hm => ?_
    rcases mem_sent hm with rfl | hm
    · refine .inr fun e c' ho' => ?_
      rcases Side.eq_or_eq_other d e with rfl | rfl
      · exact ho.unique ho'
      · exact absurd ho'.state_eq (h.alone d p c ho).peer
    · exact .inl hm
  | echo d p c _ _ hnet he =>
    refine h.setNet fun m hm => ?_
    rcases mem_cons.1 hm with rfl | hm
    · refine .inr fun e c' ho' => ?_
      rcases Side.eq_or_eq_other d e with rfl | rfl
      · exact absurd he ho'.not_echoes
      · -- the frame came from the challenger, and `d` would not echo anything else
        have haway := (h.alone d.other p c' ho').away (d, p, c)
          (hnet ▸ mem_cons_self ..) rfl (Side.other_other d).symm
        rw [Side.other_other] at haway
        exact haway.resolve_right (not_not_intro he)
    · exact .inl (hnet ▸ mem_cons_of_mem hm)

end

end Exchange

namespace Link

open Lts

variable {Addr : Type} [DecidableEq Addr]

structure Unfailed (s : Link Addr) : Prop where
  sound : s.Sound
  consistent : s.exchange.Consistent

omit [DecidableEq Addr] in
theorem unfailed_init (kdf : Kdf) (secret : Bytes) (a b : Addr) :
    (init kdf secret a b).Unfailed := by
  have hreg : ∀ d, (init kdf secret a b).exchange.registry d = PathRegistry.new := by
    intro d
    cases d <;> rfl
  have hstate : ∀ d p, ((init kdf secret a b).exchange.registry d).state p = none ∨
      ((init kdf secret a b).exchange.registry d).state p = some .validated := by
    intro d p
    rw [hreg, PathRegistry.new, PathRegistry.registerValidated, PathRegistry.state_insert]
    split
    · exact .inr rfl
    · exact .inl rfl
  refine ⟨sound_init secret a b, fun d p c ho => ?_, fun d p => ?_⟩
  · rcases hstate d p with h | h <;> rw [ho.state_eq] at h <;> cases h
  · rcases hstate d p with h | h <;> simp [h]

theorem Unfailed.step {kdf : Kdf} {s s' : Link Addr} {ev : Event Addr} (h : s.Unfailed)
    (hs : step kdf s ev = some s') (hsafe : s.exchange.MintsSafely (s.act ev)) : s'.Unfailed :=
  ⟨h.sound.step hs, h.consistent.step (step_refines h.sound hs) hsafe⟩

/-- **Honest endpoints do not fail a path**, in every run whose challenges are minted safely. -/
theorem no_path_fails (kdf : Kdf) (secret : Bytes) (clientAddr serverAddr : Addr)
    (es : List (Event Addr)) (t : Link Addr)
    (hsafe : Along (step kdf) (fun s ev _ => s.exchange.MintsSafely (s.act ev))
      (init kdf secret clientAddr serverAddr) es)
    (hrun : run (step kdf) (init kdf secret clientAddr serverAddr) es = some t) (d : Side)
    (p : UInt8) : (t.endpoint d).paths.state p ≠ some .failed := by
  have h : t.Unfailed := run_inv_along (fun _ _ _ h hs hp => h.step hs hp) es
    (unfailed_init kdf secret clientAddr serverAddr) hsafe hrun
  exact h.consistent.noneFailed d p

/-- The client's address turns from 1 to 3, and it answers the challenge. -/
def oneRebind : List (Event Nat) :=
  [.sendData .client .unreliable [], .sendData .server .unreliable [],
    .deliver 0 3 100 { Env.silent with challengeWire := 100 }, .deliver 1 2 100 .silent,
    .deliver 1 3 100 .silent]

theorem no_path_fails_oneRebind :
    ∃ t, run (step Kdf.plain) (init Kdf.plain [] 1 2) oneRebind = some t ∧
      (t.endpoint .server).transport.peer = 3 ∧
      ∀ d p, (t.endpoint d).paths.state p ≠ some .failed :=
  ⟨_, rfl, by decide, no_path_fails Kdf.plain [] 1 2 oneRebind _ (by decide) rfl⟩

/-- Both addresses change at once: the server's challenge reaches the client while its own is
outstanding on the same reserved id. -/
def crossingRebinds : List (Event Nat) :=
  [.sendData .client .unreliable [], .sendData .server .unreliable [],
    .deliver 0 3 100 { Env.silent with challengeWire := 100 },
    .deliver 0 4 100 { Env.silent with
      challengeWire := 100, fresh := ⟨List.replicate pathChallengeLen 1, rfl⟩ },
    .deliver 0 2 100 .silent]

/-- Two rebinds at once. -/
theorem crossing_challenges_fail :
    ∃ t, run (step Kdf.plain) (init Kdf.plain [] 1 2) crossingRebinds = some t ∧
      (t.endpoint .client).paths.state rebindValidationPathId = some .failed :=
  ⟨_, rfl, by decide⟩

end Link

end PhantomProtocol
