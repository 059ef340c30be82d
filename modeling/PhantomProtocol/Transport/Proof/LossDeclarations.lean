import PhantomProtocol.Transport.Proof.LossFlags

/-!
# How often a segment is declared lost

The packet threshold of `on_sack` stays passed once it has been, and Pass 0 of `poll_send` clears the
flag with every copy it hands out. What keeps a segment from being declared lost by every
acknowledgement is its count of retransmissions, a `u32` that wraps.
-/

namespace PhantomProtocol

open List Option Bool

namespace Stream

variable {s : Stream} {k : Sack} {now largest : Nat} {p q : PendingData} {threshold : Option Nat}
  {cause : LossCause}

/-! ## The detector -/

/-- On a segment that counts a copy only the time threshold fires. -/
theorem lossOf_retried (h : lossOf largest threshold now p = some cause) (hre : p.retries ≠ 0) :
    ∃ sentAt t, p.sentAt = some sentAt ∧ threshold = some t ∧ t ≤ now - sentAt := by
  have hnot : (p.retries == 0) = false := beq_false_of_ne hre
  unfold lossOf at h
  split at h
  · rename_i sentAt _ hsent
    split at h
    · cases h
    · simp only [hnot, Bool.false_and] at h
      cases htime : threshold.any (· ≤ now - sentAt) with
      | true =>
        obtain ⟨t, ht, hle⟩ := (any_eq_true _ _).1 htime
        exact ⟨sentAt, t, hsent, ht, of_decide_eq_true hle⟩
      | false =>
        rw [htime] at h
        cases h
  · cases h

/-- What an acknowledgement reports lost, with the arm of the detector that fired. -/
def declarations (s : Stream) (k : Sack) (now : Nat) : List (Nat × LossCause) :=
  (s.sendBuffer.filter fun p => !k.acks p.streamOffset).filterMap fun p =>
    (s.detector k now p).map fun cause => (p.streamOffset, cause)

theorem declarations_offsets (s : Stream) (k : Sack) (now : Nat) :
    (s.declarations k now).map (·.1) = s.declaredLost k now := by
  have hone : ∀ l : List PendingData,
      (l.filterMap fun p => (s.detector k now p).map fun cause => (p.streamOffset, cause)).map (·.1)
        = (l.filter fun p => (s.detector k now p).isSome).map (·.streamOffset) := by
    intro l
    induction l with
    | nil => rfl
    | cons p l ih =>
      cases hp : s.detector k now p with
      | none => simp only [filterMap_cons, filter_cons, hp, map_none,
          isSome_none, false_eq_true, if_false, ih]
      | some => simp only [filterMap_cons, filter_cons, hp, map_some,
          isSome_some, if_true, map_cons, ih]
  unfold declarations declaredLost onSack flag kept
  dsimp only
  rw [hone, List.map_map]
  rfl

theorem mem_declarations {d : Nat × LossCause} (h : d ∈ s.declarations k now) :
    ∃ p ∈ s.sendBuffer, k.acks p.streamOffset = false ∧ p.streamOffset = d.1 ∧
      s.detector k now p = some d.2 := by
  obtain ⟨p, hp, hcause⟩ := mem_filterMap.1 h
  obtain ⟨cause, hloss, rfl⟩ := map_eq_some_iff.1 hcause
  obtain ⟨hmem, hkept⟩ := mem_filter.1 hp
  exact ⟨p, hmem, by simpa using hkept, rfl, hloss⟩

/-! ## The count of copies -/

/-- Pass 0 or Pass 1 of `poll_send` would retransmit the segment, if it came to it. -/
def Due (s : Stream) (now : Nat) (p : PendingData) : Prop :=
  (p.lost.isSome && p.sentAt.isSome) = true ∨ p.sentAt.any (s.rto.rto ≤ now - ·) = true

instance (s : Stream) (now : Nat) (p : PendingData) : Decidable (s.Due now p) :=
  inferInstanceAs (Decidable (_ ∨ _))

theorem retransmit_recounts {due : PendingData → Bool} {copy : PendingData → PendingData}
    {buffer : List PendingData}
    (hscan : Scan.updateFirst due copy s.sendBuffer = some (p, buffer)) (hq : q ∈ buffer)
    (hdue : ∀ p, due p = true → s.Due now p)
    (hcopy : ∀ p, (copy p).streamOffset = p.streamOffset ∧ (copy p).retries = p.retries + 1) :
    ∃ p ∈ s.sendBuffer, q.streamOffset = p.streamOffset ∧
      (q.lost = p.lost ∧ q.retries = p.retries ∨ s.Due now p ∧ q.retries = p.retries + 1) := by
  rcases Scan.mem_updateFirst hscan hq with hold | ⟨hp, hfound, rfl⟩
  · exact ⟨q, hold, rfl, .inl ⟨rfl, rfl⟩⟩
  · exact ⟨p, hp, (hcopy p).1, .inr ⟨hdue p hfound, (hcopy p).2⟩⟩

theorem pollSend_recounts {budget dn dt : Nat} {limited : Bool}
    (h : q ∈ (s.pollSend budget dn dt limited now).1.sendBuffer) :
    ∃ p ∈ s.sendBuffer, q.streamOffset = p.streamOffset ∧
      (q.lost = p.lost ∧ q.retries = p.retries ∨ s.Due now p ∧ q.retries = p.retries + 1) := by
  have hpasses := s.pollSend_passes budget dn dt limited now
  generalize s.pollSend budget dn dt limited now = result at h hpasses
  obtain ⟨tx, r⟩ := result
  cases hpasses with
  | fast hscan => exact retransmit_recounts hscan h (fun _ => .inl) fun _ => ⟨rfl, rfl⟩
  | timeout _ hscan => exact retransmit_recounts hscan h (fun _ => .inr) fun _ => ⟨rfl, rfl⟩
  | first hscan =>
    rcases Scan.mem_updateFirst hscan h with hq | ⟨hp, -, rfl⟩
    · exact ⟨q, hq, rfl, .inl ⟨rfl, rfl⟩⟩
    · exact ⟨_, hp, rfl, .inl ⟨rfl, rfl⟩⟩
  | unreliable | probe | blocked => exact ⟨q, h, rfl, .inl ⟨rfl, rfl⟩⟩

end Stream

namespace LossDeclarations

variable {r : UInt32} {s : State}

/-! ## The calls on a stream -/

structure State where
  tx : Stream
  /-- The time of the last call that reads the clock. -/
  clock : Nat
  /-- Every declaration so far, with the arm of the detector that fired. -/
  declared : List (Nat × LossCause)
deriving DecidableEq

/-- The calls, in any order. `mark_unsent` may be about any offset, and an acknowledgement may state
anything. -/
inductive Event where
  | offer (o : Stream.Offer)
  | sendUnreliable (data : Bytes)
  | pollSend (cwndBudget deliveredNow deliveredTimeNow : Nat) (appLimitedNow : Bool) (now : Nat)
  | markUnsent (streamOffset : Nat)
  | ack (streamOffset now : Nat)
  | onSack (sack : Sack) (now : Nat)
  | windowUpdate (limit : Nat)
  | resetRto

def init : State := ⟨.new, 0, []⟩

/-- The clock does not run backwards. -/
def step (s : State) : Event → Option State
  | .offer o => (s.tx.offer o).map fun r => { s with tx := r.1 }
  | .sendUnreliable data => some { s with tx := s.tx.sendUnreliable data }
  | .pollSend budget dn dt limited now =>
    if now < s.clock then none
    else some { s with tx := (s.tx.pollSend budget dn dt limited now).1, clock := now }
  | .markUnsent o => some { s with tx := s.tx.markUnsent o }
  | .ack o now =>
    if now < s.clock then none else some { s with tx := (s.tx.ack o now).1, clock := now }
  | .onSack k now =>
    if now < s.clock then none
    else some ⟨(s.tx.onSack k now).1, now, s.declared ++ s.tx.declarations k now⟩
  | .windowUpdate limit => some { s with tx := s.tx.applyPeerWindowLimit limit }
  | .resetRto => some { s with tx := s.tx.resetRto }

/-- `poll_send` is not called while the count of a segment it may retransmit is at its top. -/
def Counted (s : State) (e : Event) (_ : State) : Prop :=
  match e with
  | .pollSend _ _ _ _ now =>
    ∀ p ∈ s.tx.sendBuffer, s.tx.Due now p → p.retries ≠ UInt32.ofNat u32Max
  | _ => True

instance (s : State) (e : Event) (s' : State) : Decidable (Counted s e s') :=
  match e with
  | .pollSend _ _ _ _ now => inferInstanceAs (Decidable (∀ p ∈ s.tx.sendBuffer, s.tx.Due now p →
      p.retries ≠ UInt32.ofNat u32Max))
  | .offer _ | .sendUnreliable _
  | .markUnsent _ | .ack .. | .onSack .. | .windowUpdate _ | .resetRto => .isTrue trivial

/-- The offsets the packet threshold has declared lost. -/
def byPacket (declared : List (Nat × LossCause)) : List Nat :=
  (declared.filter (·.2.byPacket)).map (·.1)

structure Bounded (s : State) (e : Event) (s' : State) : Prop where
  once : (byPacket s'.declared).Nodup
  /-- An offset is declared again when its segment has been out for the time threshold. -/
  later : ∀ k now, e = .onSack k now → ∀ o ∈ s.tx.declaredLost k now, o ∈ s.declared.map (·.1) →
    ∃ p ∈ s.tx.sendBuffer, p.streamOffset = o ∧ ∃ sentAt srtt, p.sentAt = some sentAt ∧
      s'.tx.rto.srtt = some srtt ∧ sentAt + max (millis 1) (srtt * 9 / 8) ≤ now

/-! ## The invariant -/

/-- The segment is flagged, or counts a copy: the packet threshold does not fire on it. -/
def Spent (p : PendingData) : Prop := p.lost ≠ none ∨ p.retries ≠ 0

/-- A segment that has been declared lost is flagged, or counts a copy. -/
structure Inv (s : State) : Prop where
  wellFormed : s.tx.WellFormed
  assigned : ∀ d ∈ s.declared, d.1 < s.tx.reliableOffset
  spent : ∀ d ∈ s.declared, ∀ p ∈ s.tx.sendBuffer, p.streamOffset = d.1 → Spent p
  once : (byPacket s.declared).Nodup

theorem inv_init : Inv init where
  wellFormed := Stream.wellFormed_new
  assigned d hd := by cases hd
  spent d hd := by cases hd
  once := nodup_nil

theorem succ_ne_zero (h : r ≠ UInt32.ofNat u32Max) : r + 1 ≠ 0 := by
  intro hzero
  apply h
  have hnat := congrArg UInt32.toNat hzero
  have hlt := r.toNat_lt
  rw [UInt32.toNat_add, UInt32.toNat_zero, UInt32.toNat_one] at hnat
  apply UInt32.toNat_inj.1
  rw [show (UInt32.ofNat u32Max).toNat = 4294967295 from rfl]
  omega

namespace Inv

variable {s s' : State} {tx : Stream} {e : Event} {k : Sack} {now clock : Nat}

section

variable (h : Inv s)
include h

theorem keeps (hwf : tx.WellFormed) (hoff : s.tx.reliableOffset ≤ tx.reliableOffset)
    (hbuf : ∀ p' ∈ tx.sendBuffer, s.tx.reliableOffset ≤ p'.streamOffset ∨
      ∃ p ∈ s.tx.sendBuffer, p'.streamOffset = p.streamOffset ∧ (Spent p → Spent p')) :
    Inv ⟨tx, clock, s.declared⟩ where
  wellFormed := hwf
  assigned d hd := (h.assigned d hd).trans_le hoff
  spent d hd p' hp' heq := by
    rcases hbuf p' hp' with hnew | ⟨p, hp, hsame, hspent⟩
    · have hlt := h.assigned d hd
      omega
    · exact hspent (h.spent d hd p hp (hsame.symm.trans heq))
  once := h.once

theorem relays (hkeeps : s.tx.Keeps tx)
    (hbuf : ∀ p' ∈ tx.sendBuffer, ∃ p ∈ s.tx.sendBuffer, p'.streamOffset = p.streamOffset ∧
      (Spent p → Spent p')) : Inv ⟨tx, clock, s.declared⟩ :=
  h.keeps (h.wellFormed.keeps hkeeps) hkeeps.reliableOffset.ge fun p' hp' => .inr (hbuf p' hp')

theorem rests (hkeeps : s.tx.Keeps tx) (hbuf : tx.sendBuffer = s.tx.sendBuffer) :
    Inv { s with tx } :=
  h.relays hkeeps fun p hp => ⟨p, hbuf ▸ hp, rfl, id⟩

theorem admits {taken fin : Bool} {data : Bytes}
    (hspec : (taken = true ∧ s.tx.Appends tx data) ∨ (taken = false ∧ tx = s.tx))
    (hadmits : s.tx.Admits tx data fin) : Inv { s with tx } := by
  obtain ⟨-, happ⟩ | ⟨-, rfl⟩ := hspec
  · refine h.keeps (h.wellFormed.appends happ) (happ.assigned ▸ Nat.le_succ _) fun p hp => ?_
    rcases hadmits.buffer p hp with hp | rfl
    · exact .inr ⟨p, hp, rfl, id⟩
    · exact .inl (Nat.le_refl _)
  · exact h

theorem polls {budget dn dt : Nat} {limited : Bool}
    (hc : ∀ p ∈ s.tx.sendBuffer, s.tx.Due now p → p.retries ≠ UInt32.ofNat u32Max) :
    Inv { s with tx := (s.tx.pollSend budget dn dt limited now).1, clock := now } := by
  refine h.relays (s.tx.pollSend_emitted budget dn dt limited now).keeps fun q hq => ?_
  grind [Spent, Stream.pollSend_recounts, succ_ne_zero]

theorem unsends (o : Nat) : Inv { s with tx := s.tx.markUnsent o } := by
  refine h.relays (s.tx.markUnsent_keeps o) fun q hq => ?_
  obtain ⟨heq, -⟩ | ⟨pre, p, post, hbuf, -, heq⟩ := s.tx.markUnsent_cases o
  · rw [heq] at hq
    exact ⟨q, hq, rfl, id⟩
  · rw [heq] at hq
    rcases h.wellFormed.mem_replace hbuf hq with rfl | ⟨hold, -⟩
    · exact ⟨p, by simp [hbuf], rfl, id⟩
    · exact ⟨q, hold, rfl, id⟩

theorem declared_again {d : Nat × LossCause} (hd : d ∈ s.tx.declarations k now)
    (hold : d.1 ∈ s.declared.map (·.1)) :
    d.2.byPacket = false ∧ ∃ p ∈ s.tx.sendBuffer, p.streamOffset = d.1 ∧
      ∃ sentAt srtt, p.sentAt = some sentAt ∧ (s.tx.onSack k now).1.rto.srtt = some srtt ∧
        sentAt + max (millis 1) (srtt * 9 / 8) ≤ now := by
  obtain ⟨p, hp, -, hoff, hloss⟩ := Stream.mem_declarations hd
  obtain ⟨d', hd', heq⟩ := mem_map.1 hold
  have hre : p.retries ≠ 0 := by
    rcases h.spent d' hd' p hp (hoff.trans heq.symm) with hflag | hre
    · exact absurd (Stream.lossOf_some hloss).1 hflag
    · exact hre
  constructor
  · cases hpacket : d.2.byPacket with
    | false => rfl
    | true => exact absurd (Stream.lossOf_byPacket hloss hpacket).1 hre
  · obtain ⟨sentAt, t, hsent, ht, hle⟩ := Stream.lossOf_retried hloss hre
    obtain ⟨srtt, hsrtt, rfl⟩ := map_eq_some_iff.1 ht
    refine ⟨p, hp, hoff, sentAt, srtt, hsent, hsrtt, ?_⟩
    have hpos : 0 < max (millis 1) (srtt * 9 / 8) := lt_max_of_lt_left (by decide)
    omega

theorem nodup_byPacket (k : Sack) (now : Nat) :
    (byPacket (s.declared ++ s.tx.declarations k now)).Nodup := by
  unfold byPacket
  rw [filter_append, map_append, nodup_append]
  refine ⟨h.once, ?_, fun o ho o' ho' heq => ?_⟩
  · have hnodup := Stream.nodup_declaredLost h.wellFormed k now
    rw [← Stream.declarations_offsets] at hnodup
    exact hnodup.sublist (filter_sublist.map _)
  · subst heq
    obtain ⟨d, hd, hoff⟩ := mem_map.1 ho
    obtain ⟨d', hd', rfl⟩ := mem_map.1 ho'
    obtain ⟨hnew, hpacket⟩ := mem_filter.1 hd'
    have hold : d'.1 ∈ s.declared.map (·.1) := mem_map.2 ⟨d, (mem_filter.1 hd).1, hoff⟩
    rw [(h.declared_again hnew hold).1] at hpacket
    cases hpacket

theorem declares (k : Sack) (now : Nat) :
    Inv ⟨(s.tx.onSack k now).1, now, s.declared ++ s.tx.declarations k now⟩ where
  wellFormed := h.wellFormed.onSack k now
  assigned d hd := by
    rw [Stream.onSack_reliableOffset]
    rcases mem_append.1 hd with hd | hd
    · exact h.assigned d hd
    · obtain ⟨p, hp, -, hoff, -⟩ := Stream.mem_declarations hd
      rw [← hoff]
      exact h.wellFormed.below _ (mem_map_of_mem hp)
  spent d hd p' hp' heq := by
    obtain ⟨p, hp, rfl⟩ := mem_map.1 hp'
    have hmem := (mem_filter.1 hp).1
    show p.lost.or (s.tx.detector k now p) ≠ none ∨ p.retries ≠ 0
    rcases mem_append.1 hd with hd | hd
    · rcases h.spent d hd p hmem heq with hflag | hre
      · exact .inl fun hnone => hflag (or_eq_none_iff.1 hnone).1
      · exact .inr hre
    · obtain ⟨q, hq, -, hoff, hloss⟩ := Stream.mem_declarations hd
      cases h.wellFormed.eq_of_streamOffset hmem hq (heq.trans hoff.symm)
      refine .inl fun hnone => ?_
      rw [(or_eq_none_iff.1 hnone).2] at hloss
      cases hloss
  once := h.nodup_byPacket k now

theorem step (hs : step s e = some s') (hc : Counted s e s') : Inv s' := by
  cases e with
  | offer =>
    obtain ⟨r, hr, rfl⟩ := map_eq_some_iff.1 hs
    exact h.admits (Stream.offer_spec hr) (Stream.offer_admits hr)
  | pollSend =>
    obtain ⟨-, ⟨⟩⟩ := ite_none_left_eq_some.1 hs
    exact h.polls hc
  | markUnsent o =>
    cases hs
    exact h.unsends o
  | ack o now =>
    obtain ⟨-, ⟨⟩⟩ := ite_none_left_eq_some.1 hs
    exact h.keeps (h.wellFormed.ack o now) (s.tx.ack_totals o now).1.ge
      fun p hp => .inr ⟨p, Stream.mem_ack hp, rfl, id⟩
  | onSack k now =>
    obtain ⟨-, ⟨⟩⟩ := ite_none_left_eq_some.1 hs
    exact h.declares k now
  | sendUnreliable | windowUpdate | resetRto =>
    cases hs
    exact h.rests ⟨rfl, rfl, rfl, rfl⟩ rfl

theorem bounded (hs : LossDeclarations.step s e = some s') (hc : Counted s e s') :
    Bounded s e s' where
  once := (h.step hs hc).once
  later k now he o ho hold := by
    subst he
    obtain ⟨-, ⟨⟩⟩ := ite_none_left_eq_some.1 hs
    rw [← Stream.declarations_offsets] at ho
    obtain ⟨d, hd, rfl⟩ := mem_map.1 ho
    exact (h.declared_again hd hold).2

end

end Inv

/-- **Declarations are bounded.** In every run, whatever is acknowledged and whichever writes are
taken back: as long as no segment is retransmitted while its count is at `u32::MAX`, each offset is
declared lost by the packet threshold at most once, and declared again only when its segment has been
out, since its last transmission, for as long as the time threshold. -/
theorem declarations_bounded (events : List Event) (hc : Lts.Along step Counted init events) :
    Lts.Along step Bounded init events := by
  refine Lts.along_of_inv (fun s e s' h hs hcount => ?_) (fun s e s' h hs hcount => ?_) events
    inv_init hc
  · exact h.step hs hcount
  · exact h.bounded hs hcount

/-- Four chunks are written. The last three are acknowledged after 10 ms, so that the first is
declared lost and copied; another 20 ms later the copy is declared lost. -/
def lostTwice : List Event :=
  [.offer (.sendReliable [0]), .offer (.sendReliable [1]), .offer (.sendReliable [2]),
    .offer (.sendReliable [3]), .pollSend 9 0 0 false 0, .pollSend 9 0 0 false 0,
    .pollSend 9 0 0 false 0, .pollSend 9 0 0 false 0, .onSack ⟨3, 0, [(1, 3)]⟩ 10000000,
    .pollSend 9 0 0 false 10000000, .onSack ⟨3, 0, [(1, 3)]⟩ 20000000,
    .onSack ⟨3, 0, [(1, 3)]⟩ 30000000]

theorem declarations_bounded_lostTwice :
    (Lts.run step init lostTwice).map (·.declared) =
        some [(0, .packetThreshold), (0, .timeThreshold)] ∧
      Lts.Along step Bounded init lostTwice := by
  refine ⟨by decide +kernel, declarations_bounded lostTwice ?_⟩
  decide +kernel

/-! ## A count that wraps -/

/-- Of four chunks the first is out, in a copy that answered its loss or a later one; the other three
have been acknowledged, at no measurable round-trip time. -/
structure Waiting (s : State) (r : UInt32) (t : Nat) : Prop where
  unreliable : s.tx.unreliableBuffer = []
  buffer : s.tx.sendBuffer = [Stream.flying 0 [0] r t]
  assigned : s.tx.reliableOffset = 4
  srtt : s.tx.rto.srtt = some 0
  clock : s.clock = t
  declared : s.declared = [(0, .packetThreshold)]

theorem waiting_first : Lts.Can step (Waiting · 1 0) init := by
  refine ⟨_, ⟨[.offer (.sendReliable [0]), .offer (.sendReliable [1]), .offer (.sendReliable [2]),
    .offer (.sendReliable [3]), .pollSend 9 0 0 false 0, .pollSend 9 0 0 false 0, .pollSend 9 0 0 false 0,
    .pollSend 9 0 0 false 0, .onSack ⟨3, 0, [(1, 3)]⟩ 0, .pollSend 9 0 0 false 0], rfl⟩, ?_⟩
  constructor <;> decide +kernel

theorem Waiting.again {t : Nat} (h : Waiting s r t) :
    Lts.Can step (Waiting · (r + 1) (t + RtoEstimator.maxRto)) s := by
  have hpoll := Stream.pollSend_flying h.unreliable h.buffer 9
  have hstep : step s (.pollSend 9 0 0 false (t + RtoEstimator.maxRto)) = some { s with
      tx := { s.tx with
        sendBuffer := [Stream.flying 0 [0] (r + 1) (t + RtoEstimator.maxRto)]
        rto := s.tx.rto.onTimeout }
      clock := t + RtoEstimator.maxRto } := by
    simp only [step, h.clock, hpoll]
    exact if_neg (Nat.not_lt.2 (Nat.le_add_right ..))
  exact .next hstep (.here ⟨h.unreliable, rfl, h.assigned, h.srtt, rfl, h.declared⟩)

theorem Waiting.twice {t : Nat} (h : Waiting s 0 t) :
    Lts.Can step (fun s => s.declared = [(0, .packetThreshold), (0, .packetThreshold)]) s := by
  have hnew : s.tx.declarations ⟨3, 0, [(1, 3)]⟩ t = [(0, .packetThreshold)] := by
    have hacks : Sack.acks ⟨3, 0, [(1, 3)]⟩ (Stream.flying 0 [0] 0 t).streamOffset = false := by
      show Sack.acks ⟨3, 0, [(1, 3)]⟩ 0 = false
      decide
    have hbuf := h.buffer
    have hloss :
        s.tx.detector ⟨3, 0, [(1, 3)]⟩ t (Stream.flying 0 [0] 0 t) = some .packetThreshold := by
      have hnone :
          (s.tx.sendBuffer.filter fun p => Sack.acks ⟨3, 0, [(1, 3)]⟩ p.streamOffset) = [] := by
        rw [hbuf, filter_cons, if_neg (eq_false_iff.1 hacks), filter_nil]
      rw [Stream.detector, Stream.timeThreshold, hnone, foldl_nil, h.srtt, h.assigned]
      simp [Stream.lossOf, Stream.flying, Stream.pendingData, packetThreshold, u32Max, millis]
    simp only [Stream.declarations, hbuf, List.filter_cons, hacks, Bool.not_false, if_true,
      List.filter_nil, List.filterMap_cons, hloss, Option.map_some, List.filterMap_nil]
    rfl
  refine .next (e := .onSack ⟨3, 0, [(1, 3)]⟩ t) (if_neg (by rw [h.clock]; exact Nat.lt_irrefl t))
    (.here ?_)
  rw [h.declared, hnew]
  rfl

/-- One chunk is copied 2^32 times, and the acknowledgement that had it declared lost at first
arrives again: the packet threshold declares it lost a second time, at the very moment at which the
last copy is sent. -/
theorem declared_by_packet_twice :
    ∃ s, Lts.Reaches step init s ∧
      s.declared = [(0, .packetThreshold), (0, .packetThreshold)] ∧
      ¬(byPacket s.declared).Nodup := by
  have hwrapped : Lts.Can step (fun s => ∃ t, Waiting s (UInt32.ofNat (2 ^ 32 - 1 + 1)) t) init := by
    refine waiting_first.bind fun s hs => Lts.Can.iterate
      (Q := fun k u => ∃ t, Waiting u (UInt32.ofNat (k + 1)) t) (fun k _ u hu => ?_) ⟨0, hs⟩
    obtain ⟨t, hw⟩ := hu
    refine hw.again.bind fun v hv => .here ⟨t + RtoEstimator.maxRto, ?_⟩
    rw [UInt32.ofNat_add (k + 1)]
    exact hv
  have hzero : UInt32.ofNat (2 ^ 32 - 1 + 1) = 0 := by decide
  rw [hzero] at hwrapped
  obtain ⟨s, hs, htwice⟩ := hwrapped.bind fun s ⟨t, hw⟩ => hw.twice
  refine ⟨s, hs, htwice, ?_⟩
  rw [htwice]
  decide

end LossDeclarations

end PhantomProtocol
