import Mathlib.Algebra.Order.BigOperators.Group.Multiset
import Mathlib.Algebra.BigOperators.Group.Finset.Basic
import Mathlib.Tactic.Ring
import PhantomProtocol.Api.PathExchange

/-!
# Termination of path validation

A frame bounces between the two sides for as long as both of them echo on its path, which neither
does while the challenge is outstanding. Retiring the reserved id after a rebind makes the
challenger forget that it ever asked, and a second copy of the challenge still under way then never
comes to rest.
-/

namespace PhantomProtocol

namespace Exchange

variable {x x' : Exchange} {a : Act} {d : Side} {p : UInt8}
  {r : PathRegistry} {rest : Multiset PathMsg} {c : Challenge} {s : PathState}

/-- Frames a step takes out of flight. -/
def Act.taken : Act → Nat
  | .lose | .receive .. => 1
  | _ => 0

def Act.issues : Act → Nat
  | .issue .. => 1
  | _ => 0

theorem Act.issues_eq (a : Act) : a.issues = 0 ∨ a.issues = 1 := by
  cases a <;> simp [issues]

/-- When a response retires the reserved id, it is the last frame on that id in flight, or the other
side does not echo there. -/
def RetiresSafely (x : Exchange) : Act → Prop
  | .receive d p c true =>
    p = rebindValidationPathId → (x.registry d).Outstanding p c →
      x.net.countP (·.2.1 = p) ≤ 1 ∨ ¬(x.registry d.other).Echoes p
  | _ => True

instance (x : Exchange) : (a : Act) → Decidable (x.RetiresSafely a)
  | .receive d p c true =>
    inferInstanceAs (Decidable (p = rebindValidationPathId → (x.registry d).Outstanding p c →
      x.net.countP (·.2.1 = p) ≤ 1 ∨ ¬(x.registry d.other).Echoes p))
  | .receive _ _ _ false | .quiet | .lose | .issue .. => .isTrue trivial

/-- No frame in flight would be echoed by both sides. -/
def NoPingPong (x : Exchange) : Prop :=
  ∀ m ∈ x.net, ∀ d, (x.registry d).Echoes m.2.1 → ¬(x.registry d.other).Echoes m.2.1

/-- How many hops a frame has left at most. -/
def hops (x : Exchange) (m : PathMsg) : Nat := if (x.registry m.1).Echoes m.2.1 then 2 else 1

def work (x : Exchange) : Nat := (x.net.map x.hops).sum

/-- Whether the reserved id is `Validating`, as a number. -/
def rebinding (r : PathRegistry) : Nat :=
  if r.state rebindValidationPathId = some .validating then 1 else 0

/-- The hops left, and one more for every frame and every validation that may still retire the
reserved id. -/
def potential (x : Exchange) : Nat :=
  x.work + (rebinding (x.registry .client) + rebinding (x.registry .server)) * x.net.card

/-! ## What a response does to the registry -/

theorem resolve_cases (r : PathRegistry) (p : UInt8) (expected c : Challenge) (cand : Bool) :
    (∃ k, (k = PathStateKind.validated ∨ k = .failed) ∧
      resolve r p expected c cand = r.insert p ⟨k, none⟩) ∨
    (c = expected ∧ cand = true ∧ p = rebindValidationPathId ∧
      resolve r p expected c cand = r.retire p) := by
  unfold resolve
  by_cases hc : c = expected
  · rw [if_pos hc]
    by_cases hp : cand = true ∧ p = rebindValidationPathId
    · refine .inr ⟨hc, hp.1, hp.2, ?_⟩
      rw [if_pos hp]
      exact Function.update_idem ..
    · exact .inl ⟨_, .inl rfl, if_neg hp⟩
  · exact .inl ⟨_, .inr rfl, if_neg hc⟩

theorem echoes_insert {q : UInt8}
    (hs : s.state ≠ .unvalidated) (h : (r.insert p s).Echoes q) : q ≠ p ∧ r.Echoes q := by
  unfold PathRegistry.Echoes at h ⊢
  rw [PathRegistry.state_insert] at h
  by_cases hq : q = p
  · simp [hq, hs] at h
  · rw [if_neg hq] at h
    exact ⟨hq, h⟩

theorem rebinding_insert_le (hs : s.state ≠ .validating) :
    rebinding (r.insert p s) ≤ rebinding r := by
  unfold rebinding
  rw [PathRegistry.state_insert]
  by_cases hp : rebindValidationPathId = p <;> simp [hp, hs]

theorem rebinding_le_one (r : PathRegistry) : rebinding r ≤ 1 := by
  unfold rebinding
  split <;> omega

/-! ## The invariant -/

theorem NoPingPong.setRegistry (h : x.NoPingPong)
    (hr : ∀ q, r.Echoes q → (x.registry d).Echoes q) : (x.setRegistry d r).NoPingPong := by
  have hle : ∀ e q, ((x.setRegistry d r).registry e).Echoes q → (x.registry e).Echoes q := by
    grind [setRegistry_apply]
  intro m hm e he he'
  exact h m hm e (hle e _ he) (hle e.other _ he')

theorem NoPingPong.mono (h : x.NoPingPong) (hr : x'.registry = x.registry)
    (hnet : ∀ m ∈ x'.net, (∃ m' ∈ x.net, m'.2.1 = m.2.1) ∨
      ∃ d, ¬(x.registry d).Echoes m.2.1) : x'.NoPingPong := by
  intro m hm e
  rw [hr]
  rcases hnet m hm with ⟨m', hm', hp⟩ | ⟨d, hd⟩
  · rw [← hp]
    exact h m' hm' e
  · intro he he'
    rcases Side.eq_or_eq_other e d with rfl | rfl
    · exact hd he
    · exact hd he'

/-- A response that retires the reserved id. -/
theorem NoPingPong.retire (h : x.NoPingPong) (hnet : x.net = (d, p, c) ::ₘ rest)
    (hsafe : x.net.countP (·.2.1 = p) ≤ 1 ∨ ¬(x.registry d.other).Echoes p) :
    NoPingPong { x.setRegistry d ((x.registry d).retire p) with net := rest } := by
  have hother : ∀ q, q ≠ p → (((x.registry d).retire p).Echoes q ↔ (x.registry d).Echoes q) := by
    intro q hq
    unfold PathRegistry.Echoes
    rw [PathRegistry.state_retire, if_neg hq]
  have hreg : ∀ e q, q ≠ p →
      (((x.setRegistry d ((x.registry d).retire p)).registry e).Echoes q ↔
        (x.registry e).Echoes q) := by
    intro e q hq
    rw [setRegistry_apply]
    split
    · rename_i he
      rw [he, hother q hq]
    · rfl
  intro m hm e he he'
  by_cases hmp : m.2.1 = p
  · rcases hsafe with hcount | hno
    · -- the response itself is the one frame on `p`
      rw [hnet, Multiset.countP_cons, if_pos rfl] at hcount
      have : 0 < rest.countP (·.2.1 = p) := Multiset.countP_pos.2 ⟨m, hm, hmp⟩
      omega
    · rw [hmp] at he he'
      rcases Side.eq_or_eq_other d e with rfl | rfl
      · exact hno (setRegistry_other x e _ ▸ he')
      · exact hno (setRegistry_other x d _ ▸ he)
  · have hm' : m ∈ x.net := hnet ▸ Multiset.mem_cons_of_mem hm
    exact h m hm' e ((hreg e _ hmp).1 he) ((hreg e.other _ hmp).1 he')

theorem NoPingPong.step (h : x.NoPingPong) (hs : Step x a x') (hsafe : x.RetiresSafely a) :
    x'.NoPingPong := by
  cases hs with
  | quiet | refuse => exact h
  | register => exact h.setRegistry fun q => PathRegistry.echoes_register.1
  | lose _ _ hnet =>
    exact h.mono rfl fun m' hm' => .inl ⟨m', hnet ▸ Multiset.mem_cons_of_mem hm', rfl⟩
  | ignore _ _ _ _ _ hnet =>
    exact h.mono rfl fun m' hm' => .inl ⟨m', hnet ▸ Multiset.mem_cons_of_mem hm', rfl⟩
  | echo d p c _ _ hnet =>
    refine h.mono rfl fun m' hm' => .inl ?_
    rcases Multiset.mem_cons.1 hm' with rfl | hm'
    · exact ⟨(d, p, c), hnet ▸ Multiset.mem_cons_self .., rfl⟩
    · exact ⟨m', hnet ▸ Multiset.mem_cons_of_mem hm', rfl⟩
  | reissue d _ _ _ ho =>
    refine h.mono rfl fun m' hm' => ?_
    rcases mem_sent hm' with rfl | hm'
    · exact .inr ⟨d, ho.not_echoes⟩
    · exact .inl ⟨m', hm', rfl⟩
  | mint d p fresh _ he =>
    have hset : (x.setRegistry d ((x.registry d).insert p ⟨.validating, some fresh⟩)).NoPingPong :=
      h.setRegistry fun q hq => (echoes_insert (by simp) hq).2
    refine hset.mono rfl fun m' hm' => ?_
    rcases mem_sent hm' with rfl | hm'
    · refine .inr ⟨d, fun he => ?_⟩
      rw [setRegistry_self] at he
      exact (echoes_insert (by simp) he).1 rfl
    · exact .inl ⟨m', hm', rfl⟩
  | verify d p c expected cand _ hnet ho =>
    obtain ⟨k, hk, heq⟩ | ⟨rfl, rfl, hp, heq⟩ := resolve_cases (x.registry d) p expected c cand
    · rw [heq]
      have hset : (x.setRegistry d ((x.registry d).insert p ⟨k, none⟩)).NoPingPong :=
        h.setRegistry fun q hq => (echoes_insert (by rcases hk with rfl | rfl <;> simp) hq).2
      exact hset.mono rfl fun m' hm' =>
        .inl ⟨m', hnet.symm ▸ Multiset.mem_cons_of_mem hm', rfl⟩
    · rw [heq]
      exact h.retire hnet (hsafe hp ho)

/-! ## The potential -/

theorem hops_mem (x : Exchange) (m : PathMsg) : 1 ≤ x.hops m ∧ x.hops m ≤ 2 := by
  unfold hops
  split <;> omega

theorem hops_of_echoes (h : (x.registry d).Echoes p) : x.hops (d, p, c) = 2 :=
  if_pos h

theorem hops_of_not_echoes (h : ¬(x.registry d).Echoes p) : x.hops (d, p, c) = 1 :=
  if_neg h

theorem hops_setRegistry_le (hr : ∀ q, r.Echoes q → (x.registry d).Echoes q)
    (m : PathMsg) : (x.setRegistry d r).hops m ≤ x.hops m := by
  unfold hops
  by_cases h : ((x.setRegistry d r).registry m.1).Echoes m.2.1
  · have h' := h
    rw [setRegistry_apply] at h'
    have hx : (x.registry m.1).Echoes m.2.1 := by grind
    rw [if_pos h, if_pos hx]
  · rw [if_neg h]
    exact (hops_mem x m).1

theorem rebinding_add (x : Exchange) (d : Side) :
    rebinding (x.registry .client) + rebinding (x.registry .server) =
      rebinding (x.registry d) + rebinding (x.registry d.other) := by
  cases d
  · rfl
  · exact Nat.add_comm ..

theorem potential_eq (x : Exchange) (d : Side) : x.potential = (x.net.map x.hops).sum +
      (rebinding (x.registry d) + rebinding (x.registry d.other)) * x.net.card := by
  rw [← rebinding_add]
  rfl

theorem potential_setRegistry (x : Exchange) (d : Side) (r : PathRegistry)
    (net : Multiset PathMsg) :
    potential ⟨(x.setRegistry d r).registry, net⟩ =
      (net.map (x.setRegistry d r).hops).sum +
        (rebinding r + rebinding (x.registry d.other)) * net.card := by
  rw [potential_eq _ d]
  simp only [setRegistry_self, setRegistry_other]
  rfl

theorem potential_setRegistry_le {net : Multiset PathMsg}
    (hr : ∀ q, r.Echoes q → (x.registry d).Echoes q) (hb : rebinding r ≤ rebinding (x.registry d)) :
    potential ⟨(x.setRegistry d r).registry, net⟩ ≤ potential ⟨x.registry, net⟩ := by
  rw [potential_setRegistry, potential_eq _ d]
  refine Nat.add_le_add ?_ (Nat.mul_le_mul_right _ (Nat.add_le_add_right hb _))
  exact Multiset.sum_map_le_sum_map _ _ fun m _ => hops_setRegistry_le hr m

theorem potential_cons (x : Exchange) (m : PathMsg) (rest : Multiset PathMsg) :
    potential ⟨x.registry, m ::ₘ rest⟩ =
      potential ⟨x.registry, rest⟩ + x.hops m +
        (rebinding (x.registry .client) + rebinding (x.registry .server)) := by
  have hh : (⟨x.registry, m ::ₘ rest⟩ : Exchange).hops = x.hops := rfl
  have hh' : (⟨x.registry, rest⟩ : Exchange).hops = x.hops := rfl
  simp only [potential, work, hh, hh', Multiset.map_cons, Multiset.sum_cons, Multiset.card_cons]
  ring

/-- The potential when `d` begins to validate a path. -/
theorem potential_mint_le (hr : ∀ q, r.Echoes q → (x.registry d).Echoes q) :
    potential (x.setRegistry d r) ≤ x.potential + x.net.card := by
  have heq := potential_setRegistry x d r x.net
  have hsum : (x.net.map (x.setRegistry d r).hops).sum ≤ (x.net.map x.hops).sum :=
    Multiset.sum_map_le_sum_map _ _ fun m _ => hops_setRegistry_le hr m
  have hmul : (rebinding r + rebinding (x.registry d.other)) * x.net.card ≤
      (rebinding (x.registry d) + rebinding (x.registry d.other) + 1) * x.net.card :=
    Nat.mul_le_mul_right _ (by have := rebinding_le_one r; omega)
  rw [Nat.add_mul _ 1, Nat.one_mul] at hmul
  calc potential (x.setRegistry d r)
      = (x.net.map (x.setRegistry d r).hops).sum +
          (rebinding r + rebinding (x.registry d.other)) * x.net.card := heq
    _ ≤ x.potential + x.net.card := by rw [potential_eq x d]; omega

theorem card_sent_le (net : Multiset PathMsg) (m : PathMsg) (sent : Bool) :
    (if sent then m ::ₘ net else net).card ≤ net.card + 1 := by
  cases sent <;> simp

/-- A frame on top costs at most four. -/
theorem potential_sent_le (x : Exchange) (m : PathMsg) (sent : Bool) :
    potential ⟨x.registry, if sent then m ::ₘ x.net else x.net⟩ ≤ x.potential + 4 := by
  cases sent with
  | false => exact Nat.le_add_right ..
  | true =>
    have hc := rebinding_le_one (x.registry .client)
    have hs := rebinding_le_one (x.registry .server)
    have hm := (hops_mem x m).2
    calc potential ⟨x.registry, m ::ₘ x.net⟩ = _ := potential_cons x m x.net
      _ ≤ x.potential + 4 := by
        show x.potential + x.hops m + _ ≤ _
        omega

theorem sum_hops_le (x y : Exchange) (net : Multiset PathMsg) :
    (net.map y.hops).sum ≤ (net.map x.hops).sum + net.card := by
  induction net using Multiset.induction_on with
  | empty => simp
  | cons => grind [Multiset.map_cons, Multiset.sum_cons, Multiset.card_cons, hops_mem]

theorem potential_retire_lt (rest : Multiset PathMsg)
    (ho : (x.registry d).Outstanding rebindValidationPathId c) :
    potential ⟨(x.setRegistry d ((x.registry d).retire rebindValidationPathId)).registry, rest⟩ <
      potential ⟨x.registry, (d, rebindValidationPathId, c) ::ₘ rest⟩ := by
  have hbefore : rebinding (x.registry d) = 1 := by
    unfold rebinding PathRegistry.state
    rw [ho]
    rfl
  have hafter : rebinding ((x.registry d).retire rebindValidationPathId) = 0 := by
    unfold rebinding
    rw [PathRegistry.state_retire, if_pos rfl]
    rfl
  have hsum := sum_hops_le x
    (x.setRegistry d ((x.registry d).retire rebindValidationPathId)) rest
  rw [potential_cons, potential_setRegistry, rebinding_add x d, potential_eq _ d, hbefore, hafter,
    hops_of_not_echoes ho.not_echoes]
  simp only [Nat.add_mul, Nat.zero_mul, Nat.one_mul]
  have hh : (⟨x.registry, rest⟩ : Exchange).hops = x.hops := rfl
  rw [hh]
  omega

/-- Taking a frame out of flight. -/
theorem potential_of_net {m : PathMsg} (hnet : x.net = m ::ₘ rest) : x.net.card = rest.card + 1 ∧
      x.potential = potential ⟨x.registry, rest⟩ + x.hops m +
        (rebinding (x.registry .client) + rebinding (x.registry .server)) := by
  have h := potential_cons x m rest
  rw [← hnet] at h
  exact ⟨by rw [hnet, Multiset.card_cons], h⟩

theorem potential_resolve_lt {p : UInt8} {c expected : Challenge}
    (cand : Bool) (hnet : x.net = (d, p, c) ::ₘ rest) (ho : (x.registry d).Outstanding p expected) :
    potential ⟨(x.setRegistry d (resolve (x.registry d) p expected c cand)).registry, rest⟩ <
      x.potential := by
  obtain ⟨hcard, hpot⟩ := potential_of_net hnet
  obtain ⟨k, hk, heq⟩ | ⟨rfl, rfl, rfl, heq⟩ := resolve_cases (x.registry d) p expected c cand
  · have hk' : k ≠ .unvalidated ∧ k ≠ .validating := by rcases hk with rfl | rfl <;> simp
    have hle : potential ⟨(x.setRegistry d ((x.registry d).insert p ⟨k, none⟩)).registry, rest⟩ ≤
        potential ⟨x.registry, rest⟩ :=
      potential_setRegistry_le (fun q hq => (echoes_insert hk'.1 hq).2) (rebinding_insert_le hk'.2)
    have := (hops_mem x (d, p, c)).1
    rw [heq]
    omega
  · have hret := potential_retire_lt rest ho
    rw [← hnet] at hret
    rw [heq]
    exact hret

/-- **The exchange runs down.** A step that takes a frame out of flight lowers the potential, by
more than it sends; beginning a validation raises it by a bounded amount. -/
theorem Step.potential (hs : Step x a x') (h : x.NoPingPong) :
    x'.net.card + a.taken + x'.potential ≤
        x.net.card + x.potential + a.issues * (x.net.card + 5) ∧
      x'.potential + a.taken ≤ x.potential + a.issues * (x.net.card + 5) := by
  cases hs with
  | quiet | refuse => simp [Act.taken, Act.issues]
  | register d p =>
    have hle : Exchange.potential (x.setRegistry d ((x.registry d).register p)) ≤ x.potential :=
      potential_setRegistry_le (fun q => PathRegistry.echoes_register.1) (by
        unfold rebinding
        rw [if_congr (PathRegistry.state_register _ (by simp)) rfl rfl])
    have hcard : (x.setRegistry d ((x.registry d).register p)).net.card = x.net.card := rfl
    simp only [Act.taken, Act.issues]
    omega
  | lose m _ hnet =>
    obtain ⟨hcard, hpot⟩ := potential_of_net hnet
    have := (hops_mem x m).1
    simp only [Act.taken, Act.issues]
    omega
  | ignore d p c _ _ hnet =>
    obtain ⟨hcard, hpot⟩ := potential_of_net hnet
    have := (hops_mem x (d, p, c)).1
    simp only [Act.taken, Act.issues]
    omega
  | echo d p c _ rest hnet he =>
    obtain ⟨hcard, hpot⟩ := potential_of_net hnet
    have hno : ¬(x.registry d.other).Echoes p := h (d, p, c) (hnet ▸ Multiset.mem_cons_self ..) d he
    have hsent := potential_cons x (d.other, p, c) rest
    have hcard' : ((d.other, p, c) ::ₘ rest).card = rest.card + 1 := Multiset.card_cons ..
    rw [hops_of_echoes he] at hpot
    rw [hops_of_not_echoes hno] at hsent
    simp only [Act.taken, Act.issues]
    omega
  | reissue d p c sent =>
    have hle := potential_sent_le x (d.other, p, c) sent
    have hcard := card_sent_le x.net (d.other, p, c) sent
    simp only [Act.taken, Act.issues]
    omega
  | mint d p fresh sent =>
    have hmint : Exchange.potential
        (x.setRegistry d ((x.registry d).insert p ⟨.validating, some fresh⟩)) ≤
        x.potential + x.net.card :=
      potential_mint_le fun q hq => (echoes_insert (by simp) hq).2
    have hle := potential_sent_le
      (x.setRegistry d ((x.registry d).insert p ⟨.validating, some fresh⟩)) (d.other, p, fresh) sent
    have hcard := card_sent_le x.net (d.other, p, fresh) sent
    have hcard' : (x.setRegistry d ((x.registry d).insert p ⟨.validating, some fresh⟩)).net =
      x.net := rfl
    rw [hcard'] at hle
    simp only [Act.taken, Act.issues]
    omega
  | verify _ _ _ _ cand _ hnet ho =>
    obtain ⟨hcard, hpot⟩ := potential_of_net hnet
    have hlt := potential_resolve_lt cand hnet ho
    simp only [Act.taken, Act.issues]
    omega

theorem Step.card_le (hs : Step x a x') : x'.net.card ≤ x.net.card + a.issues := by
  cases hs with
  | quiet | register | refuse => exact Nat.le_add_right ..
  | mint | reissue => exact card_sent_le ..
  | lose m rest h | echo d p c cand rest h he | ignore d p c cand rest h ht
  | verify _ _ _ _ _ _ h =>
    simp only [h, Multiset.card_cons]
    omega

end Exchange

namespace Link

variable {Addr : Type} [DecidableEq Addr] {kdf : Kdf} {s s' : Link Addr} {ev : Event Addr}

def pathFramesSent (kdf : Kdf) (s : Link Addr) : Event Addr → Nat
  | .deliver i src len env =>
    match s.inFlight[i]? with
    | some (d, f) =>
      ((s.endpoint d).handlePacket kdf src len f env).2.frames.countP fun g =>
        g.flags.contains PacketFlags.pathValidation
    | none => 0
  | _ => 0

def PathInFlight (s : Link Addr) : Prop :=
  ∃ x ∈ s.inFlight, x.2.flags.contains PacketFlags.pathValidation

/-! ## The exchange counts the frames -/

omit [DecidableEq Addr] in
theorem isSome_pathMsg {d : Side} {f : Frame} (h : f.Built) :
    (pathMsg (d, f)).isSome = f.flags.contains PacketFlags.pathValidation := by
  rcases h with h | ⟨p, c, rfl⟩
  · rw [pathMsg_ordinary h, Bool.eq_false_iff.2 h.2]
    rfl
  · rw [pathMsg_pathValidationFrame, Option.isSome_some]
    show true = PacketFlags.contains (PacketFlags.pathValidation ||| PacketFlags.encrypted) _
    decide

omit [DecidableEq Addr] in
theorem Sound.pathInFlight_iff (h : s.Sound) : s.PathInFlight ↔ s.exchange.net ≠ 0 := by
  have hnet : s.exchange.net ≠ 0 ↔ ∃ x ∈ s.inFlight, (pathMsg x).isSome := by
    rw [exchange, Ne, Multiset.coe_eq_zero, List.filterMap_eq_nil_iff]
    simp [Option.isSome_iff_ne_none]
  rw [hnet]
  refine exists_congr fun x => and_congr_right fun hx => ?_
  rw [← isSome_pathMsg (h.built x hx).1]

theorem length_filterMap_frames {fs : List Frame} (d : Side) (h : ∀ g ∈ fs, g.Built) :
    ((fs.map (d.other, ·)).filterMap pathMsg).length =
      fs.countP fun g => g.flags.contains PacketFlags.pathValidation := by
  induction fs with
  | nil => rfl
  | cons g =>
    have hg := isSome_pathMsg (d := d.other) (h g (List.mem_cons_self ..))
    grind

theorem card_exchange (hsound : s.Sound) (hs : step kdf s ev = some s') :
    s'.exchange.net.card + (s.act ev).taken =
      s.exchange.net.card + pathFramesSent kdf s ev := by
  obtain ⟨d, rfl, rfl⟩ | ⟨d, f, hsend, rfl, hord, -⟩ | ⟨i, src, len, env, d, f, rfl, hi, rfl⟩ |
    ⟨i, rfl, hi, rfl⟩ := step_cases hs
  · rfl
  · have hact : (s.act ev).taken = 0 ∧ pathFramesSent kdf s ev = 0 := by
      cases ev <;> first | exact ⟨rfl, rfl⟩ | exact hsend.elim
    have hnone : (([f].map (d.other, ·)).filterMap pathMsg) = [] :=
      filterMap_ordinary (by simpa using hord)
    rw [hact.1, hact.2, exchange_send, hnone, Multiset.coe_nil, Multiset.zero_add]
  · have hb := (hsound.built _ (List.mem_of_getElem? hi)).1
    have hout : ∀ g ∈ ((s.endpoint d).handlePacket kdf src len f env).2.frames, g.Built :=
      fun g hg => (Endpoint.handlePacket_frames hb hg).1
    have hnet := congrArg Multiset.card (filterMap_eraseIdx hi)
    have htaken : (s.act (.deliver i src len env)).taken = (pathMsg (d, f)).toList.length := by
      simp only [act, hi]
      cases pathMsg (d, f) with
      | some => rfl
      | none => cases (s.endpoint d).challengedPath src f <;> rfl
    rw [Multiset.card_add, Multiset.coe_card, Multiset.coe_card] at hnet
    rw [exchange_handled, htaken, Multiset.card_add, Multiset.coe_card,
      length_filterMap_frames d hout]
    simp only [pathFramesSent, hi, exchange, Multiset.coe_card] at hnet ⊢
    omega
  · have hnet := congrArg Multiset.card (exchange_lose hi)
    have htaken : (s.act (.lose i)).taken = (pathMsg s.inFlight[i]).toList.length := by
      simp only [act, List.getElem?_eq_getElem hi, Option.bind_some]
      cases pathMsg s.inFlight[i] <;> rfl
    rw [Multiset.card_add, Multiset.coe_card] at hnet
    rw [htaken]
    simp only [pathFramesSent]
    omega

/-! ## Whole executions -/

open Lts Finset

abbrev Execution (Addr : Type) [DecidableEq Addr] (kdf : Kdf) : Type :=
  Exec (step kdf : Link Addr → Event Addr → Option (Link Addr))

/-- PATH_VALIDATION frames sent in the first `n` steps. -/
def totalSent (x : Execution Addr kdf) (n : Nat) : Nat :=
  ∑ i ∈ range n, pathFramesSent kdf (x.state i) (x.event i)

def issued (x : Execution Addr kdf) (n : Nat) : Nat :=
  ∑ i ∈ range n, ((x.state i).act (x.event i)).issues

/-- What every state of an execution with safe retirements satisfies. -/
structure Settling (s : Link Addr) : Prop where
  sound : s.Sound
  noPingPong : s.exchange.NoPingPong

omit [DecidableEq Addr] in
theorem settling_init (secret : Bytes) (a b : Addr) : (init kdf secret a b).Settling :=
  ⟨sound_init secret a b, by simp [Exchange.NoPingPong, exchange, init]⟩

theorem Settling.step (h : s.Settling) (hs : step kdf s ev = some s')
    (hsafe : s.exchange.RetiresSafely (s.act ev)) : s'.Settling :=
  ⟨h.sound.step hs, h.noPingPong.step (step_refines h.sound hs) hsafe⟩

theorem Settling.potential (h : s.Settling) (hs : Link.step kdf s ev = some s') :
    pathFramesSent kdf s ev + s'.exchange.potential ≤
        s.exchange.potential + (s.act ev).issues * (s.exchange.net.card + 5) ∧
      s'.exchange.potential + (s.act ev).taken ≤
        s.exchange.potential + (s.act ev).issues * (s.exchange.net.card + 5) := by
  have hcard := card_exchange h.sound hs
  obtain ⟨hsum, hdec⟩ := (step_refines h.sound hs).potential h.noPingPong
  exact ⟨by omega, hdec⟩

variable {x : Execution Addr kdf}

theorem totalSent_le (h : ∀ n, (x.state n).Settling) (h0 : (x.state 0).exchange.net = 0) (n : Nat) :
    totalSent x n + (x.state n).exchange.potential ≤ issued x n * (issued x n + 5) ∧
      (x.state n).exchange.net.card ≤ issued x n := by
  induction n with
  | zero =>
    simp [totalSent, issued, Exchange.potential, Exchange.work, h0]
  | succ n ih =>
    obtain ⟨ihsum, ihcard⟩ := ih
    have hcard := (step_refines (h n).sound (x.ok n)).card_le
    obtain ⟨hsum, -⟩ := (h n).potential (x.ok n)
    have hT : totalSent x (n + 1) = totalSent x n + pathFramesSent kdf (x.state n) (x.event n) :=
      sum_range_succ ..
    have hI : issued x (n + 1) = issued x n + ((x.state n).act (x.event n)).issues :=
      sum_range_succ ..
    refine ⟨?_, by omega⟩
    rw [hT, hI]
    rcases ((x.state n).act (x.event n)).issues_eq with hone | hone <;> rw [hone] at hsum ⊢
    · simp only [Nat.add_zero]
      omega
    · grind

theorem quiet_of_quiet (h : ∀ n, (x.state n).Settling) {N : Nat}
    (hissue : ∀ n, N ≤ n → ((x.state n).act (x.event n)).issues = 0)
    (hN : (x.state N).exchange.net = 0) (n : Nat) (hn : N ≤ n) :
    (x.state n).exchange.net = 0 := by
  induction n, hn using Nat.le_induction with
  | base => exact hN
  | succ n hn ih =>
    have hle := (step_refines (h n).sound (x.ok n)).card_le
    rw [hissue n hn, ih] at hle
    exact Multiset.card_eq_zero.1 (Nat.le_zero.1 hle)

/-- **Termination.** In an execution whose retirements are all safe, the number of PATH_VALIDATION
frames is bounded in the number of challenges. When no more challenges are issued and the network
keeps delivering or losing what is in flight, there comes a time from which none is in flight. -/
theorem pathValidation_terminates (kdf : Kdf) (secret : Bytes) (clientAddr serverAddr : Addr)
    (x : Execution Addr kdf) (h0 : x.state 0 = init kdf secret clientAddr serverAddr)
    (hsafe : x.Always fun s ev _ => s.exchange.RetiresSafely (s.act ev)) :
    (∀ n, totalSent x n ≤ issued x n * (issued x n + 5)) ∧
    ∀ N, (∀ n, N ≤ n → ((x.state n).act (x.event n)).issues = 0) →
      (∀ n, (x.state n).PathInFlight →
        ∃ m, n ≤ m ∧ ((x.state m).act (x.event m)).taken = 1) →
      ∃ M, ∀ m, M ≤ m → ¬(x.state m).PathInFlight := by
  have h : ∀ n, (x.state n).Settling :=
    x.inv (fun _ _ _ h hs hp => h.step hs hp) hsafe (h0 ▸ settling_init secret _ _)
  refine ⟨fun n => ?_, fun N hissue hfair => ?_⟩
  · have hnet : (x.state 0).exchange.net = 0 := by
      rw [h0]
      rfl
    have := (totalSent_le h hnet n).1
    omega
  · have hdec : ∀ n, N ≤ n → (x.state (n + 1)).exchange.potential +
        ((x.state n).act (x.event n)).taken ≤ (x.state n).exchange.potential := by
      intro n hn
      have hpot := ((h n).potential (x.ok n)).2
      rwa [hissue n hn, Nat.zero_mul, Nat.add_zero] at hpot
    obtain ⟨M, hM, hquiet⟩ := x.quiesces (fun s => s.exchange.potential) PathInFlight N
      (fun n hn => by have := hdec n hn; omega)
      (fun n hn hb => by
        obtain ⟨m, hm, htaken⟩ := hfair n hb
        have := hdec m (by omega)
        exact ⟨m, hm, by omega⟩)
    refine ⟨M, fun m hm => ?_⟩
    rw [(h M).sound.pathInFlight_iff, not_not] at hquiet
    rw [(h m).sound.pathInFlight_iff, not_not]
    exact quiet_of_quiet h (fun n hn => hissue n (by omega)) hquiet m hm

omit [DecidableEq Addr] in
theorem keepalive_not_pathInFlight (h : ¬s.PathInFlight) (d : Side) :
    ¬(s.send d [(s.endpoint d).keepaliveFrame false]).PathInFlight := by
  rintro ⟨x, hx, hflag⟩
  rcases List.mem_append.1 hx with hx | hx
  · exact h ⟨x, hx, hflag⟩
  · cases List.mem_singleton.1 hx
    exact (Endpoint.keepaliveFrame_ordinary (s.endpoint d) false).2 hflag

/-- A rebind, and a challenge that the client answers before it sends again. -/
def answeredChallenge : List (Event Nat) :=
  [.sendData .client .unreliable [],
    .deliver 0 3 100 { Env.silent with challengeWire := 100 }, .deliver 0 2 100 .silent]

/-- The answer arrives, and from then on the client sends keepalives. -/
theorem pathValidation_terminates_rebind :
    ∃ x : Execution Nat Kdf.plain, x.state 0 = init Kdf.plain [] 1 2 ∧
      (x.Always fun s ev _ => s.exchange.RetiresSafely (s.act ev)) ∧ (x.state 3).PathInFlight ∧
      ((x.state 4).endpoint .server).transport.peer = 3 ∧
      (∀ n, totalSent x n ≤ issued x n * (issued x n + 5)) ∧
      ∃ M, ∀ m, M ≤ m → ¬(x.state m).PathInFlight := by
  obtain ⟨t, t', hrun, hbusy, hstep, hquiet, hpeer, htaken, hsafe⟩ : ∃ t t',
      run (step Kdf.plain) (init Kdf.plain [] 1 2) answeredChallenge = some t ∧ t.PathInFlight ∧
      step Kdf.plain t (.deliver 0 3 100 .silent) = some t' ∧ t'.inFlight = [] ∧
      (t'.endpoint .server).transport.peer = 3 ∧
      (t.act (.deliver 0 3 100 .silent)).taken = 1 ∧
      t.exchange.RetiresSafely (t.act (.deliver 0 3 100 .silent)) :=
    ⟨_, _, rfl, ⟨_, List.mem_singleton_self _, by decide⟩, rfl, rfl, by decide, by decide, by decide⟩
  obtain ⟨x, hx0, hx, hidle⟩ := Exec.exists_of_inv (¬PathInFlight ·)
    (fun (s : Link Nat) ev _ => s.exchange.RetiresSafely (s.act ev) ∧ (s.act ev).issues = 0)
    (fun s h => ⟨.sendKeepalive .client, _, (rfl : step Kdf.plain s _ = some _),
      keepalive_not_pathInFlight h _, trivial, rfl⟩) (s := t') (by simp [PathInFlight, hquiet])
  obtain ⟨y, hy0, hy, hshift⟩ := Exec.exists_prepend answeredChallenge
    (x.cons t (.deliver 0 3 100 .silent) (hx0 ▸ hstep)) rfl
    (P := fun s ev _ => s.exchange.RetiresSafely (s.act ev))
    (Nat.rec hsafe fun n _ => (hx n).1) hrun (by decide)
  obtain ⟨hthree, hecho⟩ : y.state 3 = t ∧ y.event 3 = .deliver 0 3 100 .silent := hshift 0
  have hlater : ∀ n, y.state (4 + n) = x.state n ∧ y.event (4 + n) = x.event n := fun n => by
    have := hshift (n + 1)
    rwa [← Nat.add_assoc, Nat.add_right_comm] at this
  obtain ⟨hbound, hends⟩ := pathValidation_terminates Kdf.plain [] 1 2 y hy0 hy
  refine ⟨y, hy0, hy, hthree ▸ hbusy, ?_, hbound, hends 4 (fun n hn => ?_) fun n hn => ?_⟩
  · rwa [(hlater 0).1, hx0]
  · obtain ⟨k, rfl⟩ := Nat.exists_eq_add_of_le hn
    rw [(hlater k).1, (hlater k).2]
    exact (hx k).2
  · by_cases hlt : n < 4
    · exact ⟨3, by omega, by rw [hthree, hecho, htaken]⟩
    · obtain ⟨k, rfl⟩ := Nat.exists_eq_add_of_le (not_lt.1 hlt)
      exact absurd ((hlater k).1 ▸ hn) (hidle k)

/-! ## The rebind that does not settle -/

/-- One frame in flight, on a path where both sides echo. -/
def Bouncing (s : Link Addr) : Prop :=
  ∃ d p c, s.inFlight = [(d, pathValidationFrame p c)] ∧ ∀ e, (s.endpoint e).paths.Echoes p

def bounce (s : Link Addr) (d : Side) : Event Addr :=
  .deliver 0 (s.endpoint d).transport.peer 0 .silent

theorem Bouncing.deliver (h : s.Bouncing) :
    ∃ d s', step kdf s (s.bounce d) = some s' ∧ s'.Bouncing ∧
      (s.act (s.bounce d)).issues = 0 ∧ (s.act (s.bounce d)).taken = 1 ∧
      pathFramesSent kdf s (s.bounce d) = 1 := by
  obtain ⟨d, p, c, hnet, hecho⟩ := h
  have hi : s.inFlight[0]? = some (d, pathValidationFrame p c) := by rw [hnet]; rfl
  have hact : s.act (s.bounce d) = .receive d p c
      ((s.endpoint d).transport.candidateAfter (s.endpoint d).transport.peer).isSome := by
    simp only [bounce, act, hi, pathMsg_pathValidationFrame]
  have hout := dispatchPathValidation_echoes
    ((s.endpoint d).opened kdf (s.endpoint d).transport.peer 0 p) (hecho d)
    ((s.endpoint d).migration.followPeer kdf p).2 c
  have hpv : (s.endpoint d).handlePacket kdf (s.endpoint d).transport.peer 0
      (pathValidationFrame p c) .silent = _ := Endpoint.handlePacket_pathValidation c
  rw [← hpv, Endpoint.opened_paths] at hout
  rcases hh : (s.endpoint d).handlePacket kdf (s.endpoint d).transport.peer 0
    (pathValidationFrame p c) .silent with ⟨ep, out⟩
  rw [hh] at hout
  obtain ⟨hpaths, hframes⟩ := hout
  have hstep : step kdf s (s.bounce d) = some (({ s with
      inFlight := s.inFlight.eraseIdx 0 }.setEndpoint d ep).send d out.frames) := by
    simp only [bounce, step, hi, hh]
  refine ⟨d, _, hstep, ⟨d.other, p, c, ?_, fun e => ?_⟩, by rw [hact]; rfl, by rw [hact]; rfl, ?_⟩
  · rw [send_inFlight, hframes, setEndpoint_inFlight, hnet]
    rfl
  · rw [send_endpoint]
    rcases Side.eq_or_eq_other d e with rfl | rfl
    · rw [setEndpoint_self, hpaths]
      exact hecho e
    · rw [setEndpoint_other]
      exact hecho d.other
  · simp only [bounce, pathFramesSent, hi, hh, hframes]
    rw [List.countP_singleton, if_pos]
    show PacketFlags.contains (PacketFlags.pathValidation ||| PacketFlags.encrypted) _ = true
    decide

/-- The client's address turns from 1 to 3 and two of its frames arrive before the challenge that
the first one provoked is answered: the second frame sends the same challenge again. The first echo
ends the validation. -/
def resentChallenge : List (Event Nat) :=
  [.sendData .client .unreliable [], .sendData .client .unreliable [],
    .deliver 0 3 100 { Env.silent with challengeWire := 100 },
    .deliver 0 3 100 { Env.silent with challengeWire := 100 },
    .deliver 0 2 100 .silent, .deliver 1 3 100 .silent]

/-- After this rebind one frame goes back and forth forever. -/
theorem resent_challenge_never_settles :
    ∃ x : Execution Nat Kdf.plain, x.state 0 = init Kdf.plain [] 1 2 ∧
      ∀ n, 6 ≤ n → (x.state n).PathInFlight ∧
        ((x.state n).act (x.event n)).issues = 0 ∧ ((x.state n).act (x.event n)).taken = 1 ∧
        pathFramesSent Kdf.plain (x.state n) (x.event n) = 1 := by
  obtain ⟨t, hrun, hb⟩ : ∃ t, run (step Kdf.plain) (init Kdf.plain [] 1 2) resentChallenge =
      some t ∧ t.Bouncing := by
    refine ⟨_, rfl, .client, rebindValidationPathId, Env.silent.fresh, rfl, fun e => ?_⟩
    cases e <;> decide
  obtain ⟨x, hx0, hx, hinv⟩ := Exec.exists_of_inv Bouncing
    (fun s ev _ => (s.act ev).issues = 0 ∧ (s.act ev).taken = 1 ∧
      pathFramesSent Kdf.plain s ev = 1)
    (fun s h => by
      obtain ⟨d, s', hs, hb, hp⟩ := h.deliver
      exact ⟨_, s', hs, hb, hp⟩) hb
  obtain ⟨y, hy0, -, hy⟩ := Exec.exists_prepend (P := fun _ _ _ => True) resentChallenge x hx0
    (fun _ => trivial) hrun (along_of_forall (fun _ _ _ _ => trivial) _ _)
  refine ⟨y, hy0, fun n hn => ?_⟩
  obtain ⟨k, rfl⟩ := Nat.exists_eq_add_of_le hn
  obtain ⟨hstate, hevent⟩ := hy k
  have hlen : resentChallenge.length = 6 := rfl
  rw [hlen] at hstate hevent
  rw [hstate, hevent]
  obtain ⟨d, p, c, hnet, -⟩ := hinv k
  refine ⟨⟨_, hnet ▸ List.mem_singleton_self _, ?_⟩, hx k⟩
  show PacketFlags.contains (PacketFlags.pathValidation ||| PacketFlags.encrypted) _ = true
  decide

end Link

end PhantomProtocol
