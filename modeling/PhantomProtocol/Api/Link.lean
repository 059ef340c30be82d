import PhantomProtocol.Lib.Run
import PhantomProtocol.Api.HandlePacket

/-!
# Two endpoints over a network

A client and a server that exchange frames through `handle_packet`. The network delivers the frames
in flight in any order, from any source address, or loses them; a frame is handled at most once,
since the replay window refuses a second copy. The application sends whenever it likes and either
side may migrate.
-/

namespace PhantomProtocol

structure Link (Addr : Type) where
  endpoint : Side → Endpoint Addr
  /-- Frames on their way, with the side they are for. -/
  inFlight : List (Side × Frame)

namespace Link

variable {Addr : Type}

inductive Event (Addr : Type) where
  | migrate (d : Side)
  | sendData (d : Side) (kind : DataKind) (plaintext : Bytes)
  | sendWindowUpdate (d : Side) (limit : Bytes)
  | sendKeepalive (d : Side)
  | sendCover (d : Side)
  | sendClose (d : Side)
  | deliver (i : Nat) (src : Addr) (len : Nat) (env : Env)
  | lose (i : Nat)

/-- The application, or the pump on its own account, puts a frame on the wire. -/
def Event.Sends : Event Addr → Prop
  | .migrate _ | .deliver .. | .lose _ => False
  | _ => True

def init (kdf : Kdf) (secret : Bytes) (clientAddr serverAddr : Addr) : Link Addr :=
  { endpoint := fun
      | .client => ⟨.new kdf secret false, .new, .new serverAddr⟩
      | .server => ⟨.new kdf secret true, .new, .new clientAddr⟩
    inFlight := [] }

def setEndpoint (s : Link Addr) (d : Side) (ep : Endpoint Addr) : Link Addr :=
  { s with endpoint := Function.update s.endpoint d ep }

def send (s : Link Addr) (d : Side) (fs : List Frame) : Link Addr :=
  { s with inFlight := s.inFlight ++ fs.map (d.other, ·) }

def step [DecidableEq Addr] (kdf : Kdf) (s : Link Addr) : Event Addr → Option (Link Addr)
  | .migrate d =>
    let ep := s.endpoint d
    some (s.setEndpoint d { ep with migration := ep.migration.migrate })
  | .sendData d kind plaintext => some (s.send d [(s.endpoint d).appData kind plaintext])
  | .sendWindowUpdate d limit => some (s.send d [windowUpdateFrame limit])
  | .sendKeepalive d => some (s.send d [(s.endpoint d).keepaliveFrame false])
  | .sendCover d => some (s.send d [(s.endpoint d).coverFrame])
  | .sendClose d => some (s.send d [(s.endpoint d).controlClose])
  | .deliver i src len env =>
    match s.inFlight[i]? with
    | none => none
    | some (d, f) =>
      let handled := (s.endpoint d).handlePacket kdf src len f env
      some (({ s with inFlight := s.inFlight.eraseIdx i }.setEndpoint d handled.1).send d
        handled.2.frames)
  | .lose i =>
    if i < s.inFlight.length then some { s with inFlight := s.inFlight.eraseIdx i } else none

/-! ## Projections -/

variable {s : Link Addr} {d e : Side} {ep : Endpoint Addr} {fs : List Frame}

@[simp] theorem setEndpoint_self : (s.setEndpoint d ep).endpoint d = ep := Function.update_self ..

theorem setEndpoint_of_ne (h : e ≠ d) : (s.setEndpoint d ep).endpoint e = s.endpoint e :=
  Function.update_of_ne h ..

@[simp] theorem setEndpoint_other : (s.setEndpoint d ep).endpoint d.other = s.endpoint d.other :=
  setEndpoint_of_ne (Side.other_ne d)

@[simp] theorem setEndpoint_inFlight : (s.setEndpoint d ep).inFlight = s.inFlight := rfl

@[simp] theorem send_endpoint : (s.send d fs).endpoint = s.endpoint := rfl

@[simp] theorem send_inFlight : (s.send d fs).inFlight = s.inFlight ++ fs.map (d.other, ·) := rfl

/-- What a step can do: a migration; one frame that is not a PATH_VALIDATION frame put on the wire;
a frame handled; a frame lost. -/
theorem step_cases [DecidableEq Addr] {kdf : Kdf} {s' : Link Addr} {ev : Event Addr}
    (h : step kdf s ev = some s') :
    (∃ d, ev = .migrate d ∧ s' = s.setEndpoint d
      { s.endpoint d with migration := (s.endpoint d).migration.migrate }) ∨
    (∃ d f, ev.Sends ∧ s' = s.send d [f] ∧ f.flags.Ordinary ∧
      (f.pathId = (s.endpoint d).migration.sendPathId ∨ f.pathId = 0)) ∨
    (∃ i src len env d f, ev = .deliver i src len env ∧ s.inFlight[i]? = some (d, f) ∧
      s' = ({ s with inFlight := s.inFlight.eraseIdx i }.setEndpoint d
        ((s.endpoint d).handlePacket kdf src len f env).1).send d
          ((s.endpoint d).handlePacket kdf src len f env).2.frames) ∨
    (∃ i, ev = .lose i ∧ i < s.inFlight.length ∧
      s' = { s with inFlight := s.inFlight.eraseIdx i }) := by
  cases ev with
  | migrate d =>
    cases h
    exact .inl ⟨d, rfl, rfl⟩
  | deliver i src len env =>
    simp only [step] at h
    split at h
    · cases h
    · rename_i d f hi
      cases h
      exact .inr (.inr (.inl ⟨i, src, len, env, d, f, rfl, hi, rfl⟩))
  | lose i =>
    simp only [step] at h
    split at h
    · rename_i hi
      cases h
      exact .inr (.inr (.inr ⟨i, rfl, hi, rfl⟩))
    · cases h
  | sendData d =>
    cases h
    exact .inr (.inl ⟨d, _, trivial, rfl, Endpoint.appData_ordinary .., .inl rfl⟩)
  | sendWindowUpdate d =>
    cases h
    exact .inr (.inl ⟨d, _, trivial, rfl, windowUpdateFrame_ordinary _, .inr rfl⟩)
  | sendKeepalive d =>
    cases h
    exact .inr (.inl ⟨d, _, trivial, rfl, Endpoint.keepaliveFrame_ordinary .., .inl rfl⟩)
  | sendCover d =>
    cases h
    exact .inr (.inl ⟨d, _, trivial, rfl, Endpoint.coverFrame_ordinary _, .inl rfl⟩)
  | sendClose d =>
    cases h
    exact .inr (.inl ⟨d, _, trivial, rfl, Endpoint.controlClose_ordinary _, .inl rfl⟩)

end Link

end PhantomProtocol
