import PhantomProtocol.Api.Link
import PhantomProtocol.Api.Proof.HandlePacket

/-!
# Steps of two endpoints

Which frames are in flight (`Stamped`), and what a step does to the migration state and to the path
registry of each side.
-/

namespace PhantomProtocol.Link

open List

variable {Addr : Type} [DecidableEq Addr] {kdf : Kdf} {s s' : Link Addr} {ev : Event Addr}
  {P : UInt8 → Prop}

/-- The frame a step hands to an endpoint. -/
def delivered (s : Link Addr) : Event Addr → Option (Side × Frame)
  | .deliver i _ _ _ => s.inFlight[i]?
  | _ => none

/-- The frames in flight were made by the builders and carry path ids in `P`. -/
def Stamped (s : Link Addr) (P : UInt8 → Prop) : Prop := ∀ x ∈ s.inFlight, x.2.Built ∧ P x.2.pathId

omit [DecidableEq Addr] in
theorem Stamped.delivered (h : s.Stamped P) {d : Side} {f : Frame}
    (hd : s.delivered ev = some (d, f)) : f.Built ∧ P f.pathId := by
  cases ev with
  | deliver => exact h _ (mem_of_getElem? hd)
  | _ => cases hd

theorem step_migration (hs : step kdf s ev = some s') (hm : ∀ d, ev ≠ .migrate d)
    (h : s.Stamped P) (d : Side) :
    (∃ f, s.delivered ev = some (d, f) ∧
      (s'.endpoint d).migration = ((s.endpoint d).migration.followPeer kdf f.pathId).1) ∨
    ((∀ f, s.delivered ev ≠ some (d, f)) ∧
      (s'.endpoint d).migration = (s.endpoint d).migration) := by
  obtain ⟨d', rfl, -⟩ | ⟨d', f, hsend, rfl, -⟩ | ⟨i, src, len, env, d', f, rfl, hi, rfl⟩ |
    ⟨i, rfl, -, rfl⟩ := step_cases hs
  · exact absurd rfl (hm d')
  · refine .inr ⟨fun g hg => ?_, rfl⟩
    cases ev <;> first | cases hg | exact hsend.elim
  · by_cases hd : d = d'
    · subst hd
      refine .inl ⟨f, hi, ?_⟩
      rw [send_endpoint, setEndpoint_self]
      exact Endpoint.handlePacket_migration (h _ (mem_of_getElem? hi)).1.encrypted
    · refine .inr ⟨fun g hg => hd ?_, ?_⟩
      · rw [delivered, hi] at hg
        cases hg
        rfl
      · rw [send_endpoint, setEndpoint_of_ne hd]
  · exact .inr ⟨by simp [delivered], rfl⟩

theorem Stamped.step (h : s.Stamped P) (hs : step kdf s ev = some s') (h0 : P 0)
    (h255 : P rebindValidationPathId) (hown : ∀ d, P (s.endpoint d).migration.sendPathId)
    (hown' : ∀ d, P (s'.endpoint d).migration.sendPathId) : s'.Stamped P := by
  obtain ⟨d, rfl, rfl⟩ | ⟨d, f, -, rfl, hord, hpath⟩ | ⟨i, src, len, env, d, f, rfl, hi, rfl⟩ |
    ⟨i, rfl, -, rfl⟩ := step_cases hs
  · exact h
  · intro x hx
    rcases mem_append.1 hx with hx | hx
    · exact h x hx
    · cases mem_singleton.1 hx
      refine ⟨.inl hord, ?_⟩
      rcases hpath with hp | hp <;> rw [hp]
      · exact hown d
      · exact h0
  · obtain ⟨hbuilt, hp⟩ := h _ (mem_of_getElem? hi)
    intro x hx
    rcases mem_append.1 hx with hx | hx
    · exact h x (mem_of_mem_eraseIdx hx)
    · obtain ⟨g, hg, rfl⟩ := mem_map.1 hx
      obtain ⟨hgb, hgp⟩ := Endpoint.handlePacket_frames hbuilt hg
      refine ⟨hgb, ?_⟩
      have hd := hown' d
      rw [send_endpoint, setEndpoint_self, Endpoint.handlePacket_migration hbuilt.encrypted] at hd
      rcases hgp with hg | hg | hg | hg <;> rw [hg]
      exacts [hd, hp, h0, h255]
  · exact fun x hx => h x (mem_of_mem_eraseIdx hx)

end PhantomProtocol.Link
