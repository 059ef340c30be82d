import Mathlib.Data.Multiset.AddSub
import PhantomProtocol.Api.Proof.Link

/-!
# The path-validation exchange

What is left of a session when only path validation is looked at: two registries and the bag of
PATH_VALIDATION frames in flight. One frame type is both challenge and response; the registry of the
side that receives it decides which.
-/

namespace PhantomProtocol

open List Option Function

/-- A PATH_VALIDATION frame on its way: the side it is for, its path, its payload. -/
abbrev PathMsg := Side × UInt8 × Challenge

structure Exchange where
  registry : Side → PathRegistry
  net : Multiset PathMsg

namespace Exchange

variable {r : PathRegistry} {x : Exchange}

inductive Act where
  | quiet
  | lose
  /-- `d` begins to validate `p`. -/
  | issue (d : Side) (p : UInt8)
  /-- `d` handles a frame; `candidate`: there is an address to promote. -/
  | receive (d : Side) (p : UInt8) (c : Challenge) (candidate : Bool)

def setRegistry (x : Exchange) (d : Side) (r : PathRegistry) : Exchange :=
  { x with registry := update x.registry d r }

/-- The registry after the response `c` to the challenge `expected`. -/
def resolve (r : PathRegistry) (p : UInt8) (expected c : Challenge) (candidate : Bool) :
    PathRegistry :=
  if c = expected then
    if candidate ∧ p = rebindValidationPathId then (r.insert p ⟨.validated, none⟩).retire p
    else r.insert p ⟨.validated, none⟩
  else r.insert p ⟨.failed, none⟩

/-- Everything that can happen. -/
inductive Step : Exchange → Act → Exchange → Prop
  | quiet (x : Exchange) : Step x .quiet x
  | register (x : Exchange) (d : Side) (p : UInt8) :
      Step x .quiet (x.setRegistry d ((x.registry d).register p))
  | lose (x : Exchange) (m : PathMsg) (rest : Multiset PathMsg) (h : x.net = m ::ₘ rest) :
      Step x .lose { x with net := rest }
  | refuse (x : Exchange) (d : Side) (p : UInt8)
      (h : (x.registry d).state p = some .validated ∨ (x.registry d).state p = some .failed) :
      Step x (.issue d p) x
  | mint (x : Exchange) (d : Side) (p : UInt8) (fresh : Challenge) (sent : Bool)
      (h : (x.registry d).Echoes p) :
      Step x (.issue d p)
        { x.setRegistry d ((x.registry d).insert p ⟨.validating, some fresh⟩) with
          net := if sent then (d.other, p, fresh) ::ₘ x.net else x.net }
  | reissue (x : Exchange) (d : Side) (p : UInt8) (c : Challenge) (sent : Bool)
      (h : (x.registry d).Outstanding p c) :
      Step x (.issue d p) { x with net := if sent then (d.other, p, c) ::ₘ x.net else x.net }
  | echo (x : Exchange) (d : Side) (p : UInt8) (c : Challenge) (cand : Bool)
      (rest : Multiset PathMsg) (h : x.net = (d, p, c) ::ₘ rest)
      (he : (x.registry d).Echoes p) :
      Step x (.receive d p c cand) { x with net := (d.other, p, c) ::ₘ rest }
  | ignore (x : Exchange) (d : Side) (p : UInt8) (c : Challenge) (cand : Bool)
      (rest : Multiset PathMsg) (h : x.net = (d, p, c) ::ₘ rest)
      (ht : (x.registry d).state p = some .validated ∨ (x.registry d).state p = some .failed) :
      Step x (.receive d p c cand) { x with net := rest }
  | verify (x : Exchange) (d : Side) (p : UInt8) (c expected : Challenge) (cand : Bool)
      (rest : Multiset PathMsg) (h : x.net = (d, p, c) ::ₘ rest)
      (ho : (x.registry d).Outstanding p expected) :
      Step x (.receive d p c cand)
        { x.setRegistry d (resolve (x.registry d) p expected c cand) with net := rest }

theorem setRegistry_same (x : Exchange) (d : Side) : x.setRegistry d (x.registry d) = x := by
  unfold setRegistry
  rw [update_eq_self]

def WellFormed (x : Exchange) : Prop := ∀ d, (x.registry d).WellFormed

theorem setRegistry_apply (x : Exchange) (d e : Side) (r : PathRegistry) :
    (x.setRegistry d r).registry e = if e = d then r else x.registry e :=
  update_apply ..

@[simp] theorem setRegistry_self (x : Exchange) (d : Side) (r : PathRegistry) :
    (x.setRegistry d r).registry d = r :=
  update_self ..

@[simp] theorem setRegistry_other (x : Exchange) (d : Side) (r : PathRegistry) :
    (x.setRegistry d r).registry d.other = x.registry d.other :=
  update_of_ne (Side.other_ne d) ..

theorem setRegistry_of_ne {d e : Side} {q : UInt8}
    (h : e = d → r q = x.registry e q) : (x.setRegistry d r).registry e q = x.registry e q := by
  rw [setRegistry_apply]
  split
  · rename_i he
    exact h he
  · rfl

theorem mem_sent {net : Multiset PathMsg} {m m' : PathMsg} {sent : Bool}
    (h : m ∈ (if sent then m' ::ₘ net else net)) : m = m' ∨ m ∈ net := by
  cases sent with
  | false => exact .inr h
  | true => exact Multiset.mem_cons.1 h

theorem WellFormed.setRegistry (h : x.WellFormed) {d : Side}
    (hr : r.WellFormed) : (x.setRegistry d r).WellFormed := by
  intro e
  rw [setRegistry_apply]
  split
  · exact hr
  · exact h e

theorem wellFormed_resolve (h : r.WellFormed) (p : UInt8)
    (expected c : Challenge) (cand : Bool) : (resolve r p expected c cand).WellFormed := by
  unfold resolve
  split
  · split
    · exact (h.insert (by simp)).retire
    · exact h.insert (by simp)
  · exact h.insert (by simp)

theorem WellFormed.step {x x' : Exchange} {a : Act} (h : x.WellFormed) (hs : Step x a x') :
    x'.WellFormed := by
  cases hs with
  | quiet | lose | refuse | reissue | echo | ignore => exact h
  | register d => exact h.setRegistry (h d).register
  | mint d => exact h.setRegistry ((h d).insert (by simp))
  | verify d p c expected cand =>
    exact h.setRegistry (wellFormed_resolve (h d) p expected c cand)

open PathRegistry in
/-- `begin_path_validation`, and the challenge on the wire unless the transport refused it. -/
theorem Step.begin {d : Side} {p : UInt8} {fresh : Challenge}
    (hwf : (x.registry d).WellFormed) (sent : List PathMsg)
    (h : sent = [] ∨ ∃ c, ((x.registry d).beginPathValidation p fresh).2 = some c ∧
      sent = [(d.other, p, c)]) :
    Step x (.issue d p)
      { x.setRegistry d ((x.registry d).beginPathValidation p fresh).1 with
        net := sent + x.net } := by
  obtain he | ⟨c, hc⟩ | ht := hwf.cases p
  · rw [hwf.beginPathValidation_echoes he] at h ⊢
    rcases h with rfl | ⟨c, hc, rfl⟩
    · simpa using Step.mint x d p fresh false he
    · cases hc
      simpa using Step.mint x d p fresh true he
  · rw [beginPathValidation_outstanding hc] at h ⊢
    rw [setRegistry_same]
    rcases h with rfl | ⟨c', hc', rfl⟩
    · simpa using Step.reissue x d p c false hc
    · cases hc'
      simpa using Step.reissue x d p c true hc
  · rw [beginPathValidation_terminal ht] at h ⊢
    rw [setRegistry_same]
    rcases h with rfl | ⟨c, hc, -⟩
    · simpa using Step.refuse x d p ht
    · cases hc

end Exchange

namespace Link

open Exchange (Act setRegistry_same)

variable {Addr : Type}

/-- The PATH_VALIDATION frame as the exchange sees it. -/
def pathMsg (x : Side × Frame) : Option PathMsg :=
  if h : x.2.flags.contains PacketFlags.pathValidation ∧ x.2.plaintext.length = pathChallengeLen
  then some (x.1, x.2.pathId, ⟨x.2.plaintext, h.2⟩)
  else none

def exchange (s : Link Addr) : Exchange :=
  { registry := fun d => (s.endpoint d).paths
    net := (s.inFlight.filterMap pathMsg : List PathMsg) }

/-- What a step is to the exchange. -/
def act [DecidableEq Addr] (s : Link Addr) : Event Addr → Act
  | .lose i =>
    match s.inFlight[i]?.bind pathMsg with
    | some _ => .lose
    | none => .quiet
  | .deliver i src _ _ =>
    match s.inFlight[i]? with
    | none => .quiet
    | some (d, f) =>
      match pathMsg (d, f) with
      | some (_, p, c) => .receive d p c ((s.endpoint d).transport.candidateAfter src).isSome
      | none =>
        match (s.endpoint d).challengedPath src f with
        | some p => .issue d p
        | none => .quiet
  | _ => .quiet

/-! ## The exchange of a changed link -/

variable {s s' : Link Addr} {d : Side} {ep : Endpoint Addr} {f : Frame} {i len : Nat} {src : Addr}
  {p : UInt8} {env : Env}

theorem exchange_setEndpoint :
    (s.setEndpoint d ep).exchange = s.exchange.setRegistry d ep.paths := by
  unfold exchange Exchange.setRegistry setEndpoint
  congr 1
  funext e
  by_cases h : e = d
  · subst h
    simp
  · simp [update_of_ne h]

theorem exchange_send (fs : List Frame) : (s.send d fs).exchange =
      { s.exchange with
        net := ((fs.map (d.other, ·)).filterMap pathMsg : List PathMsg) + s.exchange.net } := by
  simp [exchange, send, filterMap_append, ← Multiset.coe_add, Multiset.add_comm]

theorem pathMsg_ordinary (h : f.flags.Ordinary) : pathMsg (d, f) = none :=
  dif_neg fun h' => h.2 h'.1

theorem pathMsg_pathValidationFrame (p : UInt8) (c : Challenge) :
    pathMsg (d, pathValidationFrame p c) = some (d, p, c) := by
  refine dif_pos ⟨?_, c.2⟩
  show PacketFlags.contains (PacketFlags.pathValidation ||| PacketFlags.encrypted) _ = true
  decide

theorem filterMap_eraseIdx {l : List (Side × Frame)} {x : Side × Frame} (h : l[i]? = some x) :
    ((l.filterMap pathMsg : List PathMsg) : Multiset PathMsg) =
      (pathMsg x).toList + ((l.eraseIdx i).filterMap pathMsg : List PathMsg) := by
  obtain ⟨hi, rfl⟩ := List.getElem?_eq_some_iff.1 h
  rw [Multiset.coe_add, Multiset.coe_eq_coe]
  have hperm := ((List.getElem_cons_eraseIdx_perm hi).filterMap pathMsg).symm
  rw [filterMap_cons] at hperm
  cases hm : pathMsg l[i] with
  | none | some => simpa [hm] using hperm

/-! ## Refinement -/

open PathRegistry

theorem dispatchPathValidation_echoes (ep : Endpoint Addr) (he : ep.paths.Echoes p)
    (sl : Option CidSlide) (c : Challenge) :
    (ep.dispatchPathValidation sl p c).1.paths = ep.paths ∧
      (ep.dispatchPathValidation sl p c).2.frames = [pathValidationFrame p c] := by
  rcases he with he | he <;> simp [Endpoint.dispatchPathValidation, he, Output.frames]

theorem dispatchPathValidation_cases (ep : Endpoint Addr) (hwf : ep.paths.WellFormed)
    (sl : Option CidSlide) (p : UInt8) (c : Challenge) :
    (ep.paths.Echoes p ∧ (ep.dispatchPathValidation sl p c).1.paths = ep.paths ∧
      (ep.dispatchPathValidation sl p c).2.frames = [pathValidationFrame p c]) ∨
    ((ep.paths.state p = some .validated ∨ ep.paths.state p = some .failed) ∧
      (ep.dispatchPathValidation sl p c).1.paths = ep.paths ∧
      (ep.dispatchPathValidation sl p c).2.frames = []) ∨
    (∃ x, ep.paths.Outstanding p x ∧
      (ep.dispatchPathValidation sl p c).1.paths =
        Exchange.resolve ep.paths p x c ep.transport.candidate.isSome ∧
      (ep.dispatchPathValidation sl p c).2.frames = []) := by
  obtain he | ⟨x, hx⟩ | ht := hwf.cases p
  · exact .inl ⟨he, dispatchPathValidation_echoes ep he sl c⟩
  · right; right
    have hs : ep.paths.state p = some .validating := hwf.outstanding_iff.1 ⟨x, hx⟩
    refine ⟨x, hx, ?_⟩
    unfold Endpoint.dispatchPathValidation Exchange.resolve
    rw [hs]
    by_cases hcx : c = x
    · subst hcx
      simp only [verifyResponse_match hx, if_true]
      cases hcand : ep.transport.candidate with
      | none => simp [UdpTransport.promoteCandidate_none hcand, Output.frames]
      | some =>
        by_cases hp : p = rebindValidationPathId <;>
          simp [UdpTransport.promoteCandidate_some hcand, hp, Output.frames]
    · simp [verifyResponse_mismatch hx hcx, hcx, Output.frames]
  · right; left
    rcases ht with ht | ht <;>
      exact ⟨by simp [ht], by simp [Endpoint.dispatchPathValidation, ht],
        by simp [Endpoint.dispatchPathValidation, ht, Output.frames]⟩

theorem exchange_handled (i : Nat) (fs : List Frame) :
    (({ s with inFlight := s.inFlight.eraseIdx i }.setEndpoint d ep).send d fs).exchange =
      { s.exchange.setRegistry d ep.paths with
        net := ((fs.map (d.other, ·)).filterMap pathMsg : List PathMsg) +
          ((s.inFlight.eraseIdx i).filterMap pathMsg : List PathMsg) } := by
  rw [exchange_send, exchange_setEndpoint]
  rfl

theorem filterMap_ordinary {fs : List Frame} (h : ∀ g ∈ fs, g.flags.Ordinary) :
    (fs.map (d.other, ·)).filterMap pathMsg = [] := by
  rw [filterMap_eq_nil_iff]
  intro x hx
  obtain ⟨g, hg, rfl⟩ := mem_map.1 hx
  exact pathMsg_ordinary (h g hg)

variable [DecidableEq Addr] {kdf : Kdf}

theorem refines_pathValidation {c : Challenge} (hwf : (s.endpoint d).paths.WellFormed)
    (hi : s.inFlight[i]? = some (d, pathValidationFrame p c)) :
    Exchange.Step s.exchange (s.act (.deliver i src len env))
      (({ s with inFlight := s.inFlight.eraseIdx i }.setEndpoint d
        ((s.endpoint d).handlePacket kdf src len (pathValidationFrame p c) env).1).send d
          ((s.endpoint d).handlePacket kdf src len (pathValidationFrame p c) env).2.frames).exchange := by
  have hnet : s.exchange.net = (d, p, c) ::ₘ
      ((s.inFlight.eraseIdx i).filterMap pathMsg : List PathMsg) := by
    have h := filterMap_eraseIdx hi
    rw [pathMsg_pathValidationFrame] at h
    exact h
  have hact : s.act (.deliver i src len env) =
      .receive d p c ((s.endpoint d).transport.candidateAfter src).isSome := by
    simp only [act, hi, pathMsg_pathValidationFrame]
  rw [hact, exchange_handled, Endpoint.handlePacket_pathValidation]
  obtain ⟨he, hpaths, hfs⟩ | ⟨ht, hpaths, hfs⟩ | ⟨x, hx, hpaths, hfs⟩ :=
    dispatchPathValidation_cases ((s.endpoint d).opened kdf src len p) hwf
      ((s.endpoint d).migration.followPeer kdf p).2 p c
  · have hstep := Exchange.Step.echo s.exchange d p c
      ((s.endpoint d).transport.candidateAfter src).isSome _ hnet he
    rw [hpaths, hfs]
    convert hstep using 2
    · exact congrArg Exchange.registry (setRegistry_same s.exchange d)
    · simp [pathMsg_pathValidationFrame]
  · have hstep := Exchange.Step.ignore s.exchange d p c
      ((s.endpoint d).transport.candidateAfter src).isSome _ hnet ht
    rw [hpaths, hfs]
    convert hstep using 2
    · exact congrArg Exchange.registry (setRegistry_same s.exchange d)
    · simp
  · have hstep := Exchange.Step.verify s.exchange d p c x
      ((s.endpoint d).transport.candidateAfter src).isSome _ hnet hx
    rw [hpaths, hfs, Endpoint.opened_candidate]
    convert hstep using 2
    rfl

theorem challengedPath_eq_none {ep : Endpoint Addr}
    (h : ¬Endpoint.ReachesData f) : ep.challengedPath src f = none :=
  if_neg fun h' => h h'.1

theorem refines_ordinary (hwf : (s.endpoint d).paths.WellFormed) (hf : f.flags.Ordinary)
    (hi : s.inFlight[i]? = some (d, f)) :
    Exchange.Step s.exchange (s.act (.deliver i src len env))
      (({ s with inFlight := s.inFlight.eraseIdx i }.setEndpoint d
        ((s.endpoint d).handlePacket kdf src len f env).1).send d
          ((s.endpoint d).handlePacket kdf src len f env).2.frames).exchange := by
  have hnet : s.exchange.net = ((s.inFlight.eraseIdx i).filterMap pathMsg : List PathMsg) := by
    have h := filterMap_eraseIdx hi
    rw [pathMsg_ordinary hf] at h
    exact h.trans (by simp)
  have hact : s.act (.deliver i src len env) =
      match (s.endpoint d).challengedPath src f with
      | some p => .issue d p
      | none => .quiet := by
    simp only [act, hi, pathMsg_ordinary hf]
  obtain ⟨replies, hrep, heq⟩ := Endpoint.handlePacket_ordinary kdf (s.endpoint d) src len env hf
  have hnone := filterMap_ordinary (d := d) fun g hg => (hrep g hg).1
  rw [hact, exchange_handled, heq]
  by_cases hd : Endpoint.ReachesData f
  · rw [if_pos hd]
    obtain ⟨q, hq, hgate⟩ | ⟨hq, hch, hpaths⟩ :=
      Endpoint.gatePath_cases kdf (s.endpoint d) src len env hd
    · rw [hq, hgate]
      obtain ⟨hpaths, hsent⟩ :=
        Endpoint.challengeCandidate_cases ((s.endpoint d).opened kdf src len f.pathId) q env
      rw [hpaths, hnet.symm]
      refine Exchange.Step.begin hwf _ ?_
      rcases hsent with hsent | ⟨a, c, hsent, -, hc⟩
      · exact .inl (by simp [Output.frames, hsent, hnone])
      · refine .inr ⟨c, hc, ?_⟩
        simp [Output.frames, hsent, hnone, pathMsg_pathValidationFrame]
    · rw [hq]
      simp only [Output.frames, hch, map_none, toList_none, nil_append, hnone,
        Multiset.coe_nil, Multiset.zero_add, ← hnet]
      rcases hpaths with hpaths | hpaths <;> rw [hpaths]
      · exact (setRegistry_same s.exchange d).symm ▸ .quiet s.exchange
      · exact .register s.exchange d f.pathId
  · rw [if_neg hd, challengedPath_eq_none hd]
    simp only [Output.frames, map_none, toList_none, nil_append, hnone,
      Multiset.coe_nil, Multiset.zero_add, ← hnet]
    exact (setRegistry_same s.exchange d).symm ▸ .quiet s.exchange

omit [DecidableEq Addr] in
theorem exchange_lose (hi : i < s.inFlight.length) :
    s.exchange.net = (pathMsg s.inFlight[i]).toList +
      ({ s with inFlight := s.inFlight.eraseIdx i } : Link Addr).exchange.net :=
  filterMap_eraseIdx (List.getElem?_eq_getElem hi)

/-- The registries are well formed and every frame in flight was made by a builder. -/
structure Sound (s : Link Addr) : Prop where
  wellFormed : s.exchange.WellFormed
  built : s.Stamped fun _ => True

variable {ev : Event Addr}

/-- Every step of the two endpoints is a step of the exchange, under the label `Link.act` read off from
the state before. -/
theorem step_refines (hsound : s.Sound) (h : step kdf s ev = some s') :
    Exchange.Step s.exchange (s.act ev) s'.exchange := by
  have hwf := hsound.wellFormed
  obtain ⟨d, rfl, rfl⟩ | ⟨d, f, hsend, rfl, hord, -⟩ | ⟨i, src, len, env, d, f, rfl, hi, rfl⟩ |
    ⟨i, rfl, hi, rfl⟩ := step_cases h
  · rw [exchange_setEndpoint]
    exact (setRegistry_same s.exchange d).symm ▸ .quiet s.exchange
  · have hact : s.act ev = .quiet := by cases ev <;> first | rfl | exact hsend.elim
    have hnone : (([f].map (d.other, ·)).filterMap pathMsg) = [] :=
      filterMap_ordinary (by simpa using hord)
    rw [hact, exchange_send, hnone, Multiset.coe_nil, Multiset.zero_add]
    exact .quiet _
  · rcases (hsound.built _ (mem_of_getElem? hi)).1 with hord | ⟨p, c, rfl⟩
    · exact refines_ordinary (hwf d) hord hi
    · exact refines_pathValidation (hwf d) hi
  · have hnet := exchange_lose hi
    simp only [act, List.getElem?_eq_getElem hi, bind_some]
    cases hm : pathMsg s.inFlight[i] with
    | some m =>
      rw [hm] at hnet
      exact .lose s.exchange m _ hnet
    | none =>
      rw [hm] at hnet
      have heq : ({ s with inFlight := s.inFlight.eraseIdx i } : Link Addr).exchange =
          s.exchange := by
        rw [toList_none, Multiset.coe_nil, Multiset.zero_add] at hnet
        simp only [exchange, Exchange.mk.injEq, true_and]
        exact hnet.symm
      rw [heq]
      exact .quiet _

omit [DecidableEq Addr] in
theorem sound_init (secret : Bytes) (a b : Addr) : (init kdf secret a b).Sound :=
  ⟨fun d => by cases d <;> exact wellFormed_new, by simp [Stamped, init]⟩

theorem Sound.step (h : s.Sound) (hs : step kdf s ev = some s') : s'.Sound :=
  ⟨h.wellFormed.step (step_refines h hs),
    h.built.step hs trivial trivial (fun _ => trivial) fun _ => trivial⟩

end Link

end PhantomProtocol
