import Mathlib.Algebra.BigOperators.Ring.List
import Mathlib.Algebra.Order.BigOperators.Group.List
import PhantomProtocol.Api.FlightTable
import PhantomProtocol.Transport.Proof.Datagram

/-!
# What is kept of handshake replies, and repeated

Over any calls and any latches: the charges of the table, the repeats of each flight kept and the
bytes they put on the path.
-/

namespace PhantomProtocol

open List AList Function

/-- What the transport records of a reply it has sent. -/
theorem ServerHandshake.sendBytes_flight {Addr Digest : Type} {sha256 : Bytes → Digest}
    {t t' : ServerHandshake Addr sha256} {question data : Bytes} (hphase : t.inHandshake = true)
    (hasked : t.lastHandshakeQuestion = some question)
    (hsend : t.sendBytes data none = (t', .ok ())) :
    ∃ flight, t'.takeHandshakeFlight.2 = some flight ∧ flight.peer = t.peer ∧
      flight.questionFrame = question ∧ flight.wireBytes = wireLen data.length := by
  rw [sendBytes, hphase] at hsend
  cases hencode : encodeDatagrams .initial (t.establishedCid.getD t.cid) t.nextPacketId data with
  | error =>
    simp [hencode] at hsend
  | ok =>
    simp only [hencode, if_true, record, hasked] at hsend
    cases hsend
    exact ⟨_, rfl, rfl, rfl, wireBytes_encodeDatagrams hencode⟩

namespace FlightTable

variable {Addr Digest : Type} {sha256 : Bytes → Digest} {t t' t'' : FlightTable Addr sha256}
  {cid : ConnId} {delivered : Latch → Bool} {iter : IterOrder (Entry Addr sha256)} {cost now : Nat}
  {e : RetainedFlight Addr sha256}

/-! ## Charges -/

/-- The total of `f` over the entries. -/
def total (f : RetainedFlight Addr sha256 → Nat) (entries : List (Entry Addr sha256)) : Nat :=
  (entries.map fun r => f r.2).sum

/-- The sum of `charged_bytes`. -/
def charged (t : FlightTable Addr sha256) : Nat := total (·.chargedBytes) t.flights.entries

/-- `retained_bytes` is the sum of the entries' charges. -/
def Balanced (t : FlightTable Addr sha256) : Prop := t.retainedBytes = t.charged

theorem Balanced.retainedBytes_le (h : t.Balanced) (h' : t'.Balanced)
    (hle : t'.charged ≤ t.charged) : t'.retainedBytes ≤ t.retainedBytes := by
  rw [show t.retainedBytes = _ from h, show t'.retainedBytes = _ from h']
  exact hle

theorem total_cons (f : RetainedFlight Addr sha256 → Nat) (r : Entry Addr sha256)
    (entries : List (Entry Addr sha256)) : total f (r :: entries) = f r.2 + total f entries := by
  simp [total]

theorem total_kerase (f : RetainedFlight Addr sha256 → Nat) {entries : List (Entry Addr sha256)}
    (h : entries.dlookup cid = some e) :
    total f (entries.kerase cid) + f e = total f entries := by
  induction entries with
  | nil => cases h
  | cons r =>
    by_cases hc : cid = r.1
    · subst hc
      rw [dlookup_cons_eq] at h
      cases h
      rw [kerase_cons_eq rfl, total_cons, Nat.add_comm]
    · simp_all [dlookup_cons_ne, kerase_cons_ne, total_cons, Nat.add_assoc]

/-- The table `t'` is `t` without some of its entries, and with the charges of the rest. -/
structure Drops (t t' : FlightTable Addr sha256) : Prop where
  lookup : ∀ {cid e}, t'.flights.lookup cid = some e → t.flights.lookup cid = some e
  balanced : t.Balanced → t'.Balanced
  charged : t'.charged ≤ t.charged

namespace Drops

theorem refl (t : FlightTable Addr sha256) : Drops t t := ⟨id, id, Nat.le_refl _⟩

theorem trans (h : Drops t t') (h' : Drops t' t'') : Drops t t'' :=
  ⟨fun hl => h.lookup (h'.lookup hl), fun hb => h'.balanced (h.balanced hb),
    h'.charged.trans h.charged⟩

theorem sync (h : Drops t t') : Drops t t'.sync := ⟨h.lookup, h.balanced, h.charged⟩

theorem forget (t : FlightTable Addr sha256) (cid : ConnId) : Drops t (t.forget cid) := by
  unfold FlightTable.forget
  split
  · exact .refl t
  · rename_i e he
    have hsum := total_kerase (·.chargedBytes) he
    refine ⟨fun {c e'} hl => ?_, fun hb => ?_, ?_⟩
    · grind [lookup_erase, lookup_erase_ne]
    · unfold Balanced FlightTable.charged at hb ⊢
      show t.retainedBytes - e.chargedBytes = total _ (t.flights.entries.kerase cid)
      omega
    · unfold FlightTable.charged
      show total _ (t.flights.entries.kerase cid) ≤ _
      omega

theorem sweep (t : FlightTable Addr sha256) (delivered : Latch → Bool) (now : Nat) :
    Drops t (t.sweep delivered now) := by
  refine ⟨fun {c e} hl => ?_, fun _ => rfl, ?_⟩
  · have hmem : ⟨c, e⟩ ∈ (t.sweep delivered now).flights.entries := mem_lookup_iff.1 hl
    exact mem_lookup_iff.2 (mem_of_mem_filter hmem)
  · exact (filter_sublist.map _).sum_le_sum (fun _ _ => Nat.zero_le _)

theorem evict (fuel : Nat) : Drops t (FlightTable.evict iter cost fuel t) := by
  induction fuel generalizing t with
  | zero => exact .refl t
  | succ fuel ih =>
    unfold FlightTable.evict
    split
    · split
      · exact .refl t
      · rename_i c _
        exact (Drops.forget t c).trans ih
    · exact .refl t

theorem makeRoom (t : FlightTable Addr sha256) (delivered : Latch → Bool)
    (iter : IterOrder (Entry Addr sha256)) (cid : ConnId) (cost now : Nat) :
    Drops t (t.makeRoom delivered iter cid cost now) := by
  unfold FlightTable.makeRoom
  dsimp only
  split
  · exact ((Drops.forget t cid).trans (.sweep _ delivered now)).trans (.evict _)
  · exact (Drops.forget t cid).trans (.evict _)

end Drops

/-! ## Room for a flight -/

theorem lookup_forget (t : FlightTable Addr sha256) (cid : ConnId) :
    (t.forget cid).flights.lookup cid = none := by
  unfold forget
  split
  · assumption
  · exact lookup_erase ..

theorem len_forget (h : t.flights.lookup cid = some e) : (t.forget cid).len + 1 = t.len := by
  have hlen : ∀ entries : List (Entry Addr sha256), total (fun _ => 1) entries = entries.length :=
    fun entries => by simp [total]
  have hsum := total_kerase (fun _ => 1) h
  rw [hlen, hlen] at hsum
  unfold forget
  rw [h]
  exact hsum

theorem oldest_some (iter : IterOrder (Entry Addr sha256)) (h : t.len ≠ 0) :
    ∃ cid e, t.oldest iter = some cid ∧ t.flights.lookup cid = some e := by
  have hperm := iter.perm t.flights.entries
  cases hmin : List.argmin (fun r : Entry Addr sha256 => r.2.expiresAt)
      (iter.order t.flights.entries) with
  | none =>
    rw [argmin_eq_none] at hmin
    rw [hmin] at hperm
    exact absurd (congrArg List.length hperm.nil_eq.symm) h
  | some r =>
    have hmem : r ∈ t.flights.entries := hperm.mem_iff.1 (argmin_mem hmin)
    exact ⟨r.1, r.2, by rw [oldest, hmin]; rfl, mem_lookup_iff.2 hmem⟩

theorem evict_room (fuel : Nat) (h : t.len ≤ fuel) : (evict iter cost fuel t).len = 0 ∨
      (evict iter cost fuel t).retainedBytes + cost ≤ retainedFlightBudget := by
  induction fuel generalizing t with
  | zero => exact .inl (Nat.le_zero.1 h)
  | succ _ ih =>
    unfold evict
    by_cases hover : t.len ≠ 0 ∧ retainedFlightBudget < t.retainedBytes + cost
    · rw [if_pos hover]
      obtain ⟨c, e, hold, hlook⟩ := oldest_some iter hover.1
      rw [hold]
      have hlen := len_forget hlook
      exact ih (by omega)
    · rw [if_neg hover]
      omega

/-- After the loop a flight that fits the budget fits what is left of it. -/
theorem makeRoom_room (hb : t.Balanced) :
    (t.makeRoom delivered iter cid cost now).retainedBytes = 0 ∨
      (t.makeRoom delivered iter cid cost now).retainedBytes + cost ≤ retainedFlightBudget := by
  have hbal : (t.makeRoom delivered iter cid cost now).Balanced :=
    (Drops.makeRoom t delivered iter cid cost now).balanced hb
  have hroom : (t.makeRoom delivered iter cid cost now).len = 0 ∨
      (t.makeRoom delivered iter cid cost now).retainedBytes + cost ≤ retainedFlightBudget :=
    evict_room _ (Nat.le_refl _)
  refine hroom.imp_left fun hempty => ?_
  rw [show _ = _ from hbal, charged, eq_nil_of_length_eq_zero hempty]
  rfl

/-! ## Keeping a flight, and repeating it -/

theorem charged_insert_new (h : t.flights.lookup cid = none) :
    total (·.chargedBytes) (t.flights.insert cid e).entries = e.chargedBytes + t.charged := by
  rw [entries_insert, total_cons]
  have hkeys : cid ∉ t.flights.entries.keys := dlookup_eq_none.1 h
  rw [kerase_of_notMem_keys hkeys]
  rfl

theorem charged_insert {e e' : RetainedFlight Addr sha256} (h : t.flights.lookup cid = some e)
    (hsame : e'.chargedBytes = e.chargedBytes) :
    total (·.chargedBytes) (t.flights.insert cid e').entries = t.charged := by
  have hsum := total_kerase (·.chargedBytes) h
  rw [entries_insert, total_cons, charged, ← hsum, Nat.add_comm]
  exact congrArg _ hsame

theorem lookup_makeRoom (t : FlightTable Addr sha256) :
    (t.makeRoom delivered iter cid cost now).flights.lookup cid = none := by
  have hdrops : Drops (t.forget cid) (t.makeRoom delivered iter cid cost now) := by
    unfold makeRoom
    dsimp only
    split
    · exact (Drops.sweep _ delivered now).trans (.evict _)
    · exact .evict _
  cases hl : (t.makeRoom delivered iter cid cost now).flights.lookup cid with
  | none => rfl
  | some =>
    have hkept := hdrops.lookup hl
    rw [lookup_forget] at hkept
    cases hkept

/-- What `retain` leaves when it keeps the flight. -/
structure Retained (t t' : FlightTable Addr sha256) (cid : ConnId)
    (flight : HandshakeFlight Addr sha256) (now : Nat) : Prop where
  self : t'.flights.lookup cid =
    some ⟨flight, maxFlightRepeats, now + handshakeFlightRetention, retainedCost flight⟩
  others : ∀ {c e}, c ≠ cid → t'.flights.lookup c = some e → t.flights.lookup c = some e
  balanced : t.Balanced → t'.Balanced
  budget : t.Balanced → retainedCost flight ≤ retainedFlightBudget →
    t'.retainedBytes ≤ retainedFlightBudget
  gauge : t'.occupancy = t'.len

theorem retained_of_room {room : FlightTable Addr sha256} {flight : HandshakeFlight Addr sha256}
    (hdrops : Drops t room) (hfree : room.flights.lookup cid = none)
    (hroom : t.Balanced → room.retainedBytes = 0 ∨
      room.retainedBytes + retainedCost flight ≤ retainedFlightBudget) :
    Retained t
      { room with
        retainedBytes := room.retainedBytes + retainedCost flight
        flights := room.flights.insert cid
          ⟨flight, maxFlightRepeats, now + handshakeFlightRetention, retainedCost flight⟩ }.sync
      cid flight now where
  self := lookup_insert _
  others hne hl := hdrops.lookup ((lookup_insert_ne hne).symm.trans hl)
  balanced hb := by
    have hbal := hdrops.balanced hb
    unfold Balanced at hbal
    show room.retainedBytes + retainedCost flight = total _ (room.flights.insert cid _).entries
    rw [charged_insert_new hfree, hbal, Nat.add_comm]
  budget hb hcost := by
    have hleft := hroom hb
    show room.retainedBytes + retainedCost flight ≤ retainedFlightBudget
    omega
  gauge := rfl

theorem retain_cases (t : FlightTable Addr sha256) (delivered : Latch → Bool)
    (iter : IterOrder (Entry Addr sha256)) (cid : ConnId) (flight : HandshakeFlight Addr sha256)
    (now : Nat) :
    t.retain delivered iter cid flight now = (t, false) ∨
      flight.wireBytes ≤ flightAmplificationLimit * flight.questionWireBytes ∧
      (t.retain delivered iter cid flight now).2 = true ∧
      Retained t (t.retain delivered iter cid flight now).1 cid flight now := by
  unfold retain
  split
  · exact .inl rfl
  · rename_i hlimit
    refine .inr ⟨?_, rfl, ?_⟩
    · rw [Nat.mul_comm]
      omega
    · apply retained_of_room (.makeRoom ..) t.lookup_makeRoom
      exact makeRoom_room

/-- What `repeat` leaves when it answers from the entry `e`. -/
structure Repeated (t t' : FlightTable Addr sha256) (cid : ConnId)
    (e : RetainedFlight Addr sha256) : Prop where
  self : ∀ {e'}, t'.flights.lookup cid = some e' →
    e' = { e with repeatsLeft := e.repeatsLeft - 1 } ∧ e.repeatsLeft - 1 ≠ 0
  others : ∀ {c e'}, c ≠ cid → t'.flights.lookup c = some e' → t.flights.lookup c = some e'
  balanced : t.Balanced → t'.Balanced
  charged : t'.charged ≤ t.charged
  gauge : t'.occupancy = t'.len

theorem repeated_of_lookup (h : t.flights.lookup cid = some e) : Repeated t
      (if e.repeatsLeft - 1 = 0 then
        { t with
          flights := t.flights.insert cid { e with repeatsLeft := e.repeatsLeft - 1 } }.forget cid
      else
        { t with
          flights := t.flights.insert cid { e with repeatsLeft := e.repeatsLeft - 1 } }).sync
      cid e := by
  have hcharged : total (·.chargedBytes)
      (t.flights.insert cid { e with repeatsLeft := e.repeatsLeft - 1 }).entries = t.charged :=
    charged_insert h rfl
  split
  · have hdrops := Drops.forget
      { t with flights := t.flights.insert cid { e with repeatsLeft := e.repeatsLeft - 1 } } cid
    refine ⟨fun hl => ?_, fun hne hl => ?_, fun hb => ?_, ?_, rfl⟩
    · cases (lookup_forget _ cid).symm.trans hl
    · exact (lookup_insert_ne hne).symm.trans (hdrops.lookup hl)
    · exact hdrops.balanced (hb.trans hcharged.symm)
    · exact hdrops.charged.trans hcharged.le
  · rename_i hleft
    refine ⟨fun hl => ?_, fun hne hl => ?_, fun hb => ?_, ?_, rfl⟩
    · exact ⟨Option.some.inj (hl.symm.trans (lookup_insert _)), hleft⟩
    · exact (lookup_insert_ne hne).symm.trans hl
    · exact hb.trans hcharged.symm
    · exact hcharged.le

/-- No answer drops one entry at most. An answer is given from an entry that is neither delivered
nor expired, to the question it was kept for. -/
theorem repeatFlight_cases [DecidableEq Digest] (t : FlightTable Addr sha256)
    (delivered : Latch → Bool) (cid : ConnId) (question : Bytes) (now : Nat) :
    ((t.repeatFlight delivered cid question now).2 = none ∧
        Drops t (t.repeatFlight delivered cid question now).1 ∧
        (t.occupancy = t.len → (t.repeatFlight delivered cid question now).1.occupancy =
          (t.repeatFlight delivered cid question now).1.len)) ∨
      ∃ e, t.flights.lookup cid = some e ∧ delivered e.flight.delivered = false ∧
        now < e.expiresAt ∧ sha256 question = e.flight.question ∧
        (t.repeatFlight delivered cid question now).2 = some (e.flight.datagrams, e.flight.peer) ∧
        Repeated t (t.repeatFlight delivered cid question now).1 cid e := by
  unfold repeatFlight
  cases hl : t.flights.lookup cid with
  | none => exact .inl ⟨rfl, .refl t, id⟩
  | some e =>
    dsimp only
    split
    · exact .inl ⟨rfl, (Drops.forget t cid).sync, fun _ => rfl⟩
    · rename_i hlive
      rw [Bool.or_eq_true, decide_eq_true_eq, not_or, Bool.not_eq_true, Nat.not_le] at hlive
      split
      · exact .inl ⟨rfl, .refl t, id⟩
      · rename_i hasked
        exact .inr ⟨e, rfl, hlive.1, hlive.2, not_not.1 hasked, rfl, repeated_of_lookup hl⟩

end FlightTable

/-! ## The replies over a whole run -/

namespace FlightReplies

open FlightTable (Drops Retained Repeated retain_cases repeatFlight_cases)

variable {Addr Digest : Type} {sha256 : Bytes → Digest}

/-- A flight that `retain` has kept. -/
structure Retention (Addr : Type) {Digest : Type} (sha256 : Bytes → Digest) where
  cid : ConnId
  flight : HandshakeFlight Addr sha256
  time : Nat

/-- An answer of `repeat`. -/
structure Reply (Addr : Type) where
  /-- Which of the flights kept so far it repeats. -/
  of : Nat
  datagrams : List Datagram
  dst : Addr
  question : Bytes
  time : Nat
  delivered : Bool

structure State (Addr : Type) {Digest : Type} (sha256 : Bytes → Digest) where
  table : FlightTable Addr sha256
  delivered : Latch → Bool
  kept : List (Retention Addr sha256)
  /-- The last flight kept under a connection ID. -/
  current : ConnId → Nat
  replies : List (Reply Addr)

inductive Event (Addr : Type) {Digest : Type} (sha256 : Bytes → Digest) where
  | retain (iter : IterOrder (FlightTable.Entry Addr sha256)) (cid : ConnId)
      (flight : HandshakeFlight Addr sha256) (now : Nat)
  | repeatFlight (cid : ConnId) (question : Bytes) (now : Nat)
  | sweep (now : Nat)
  | latch (name : Latch) (value : Bool)

def init : State Addr sha256 := ⟨.new, fun _ => false, [], fun _ => 0, []⟩

variable [DecidableEq Digest]

def apply (s : State Addr sha256) : Event Addr sha256 → State Addr sha256
  | .retain iter cid flight now =>
    let r := s.table.retain s.delivered iter cid flight now
    if r.2 then
      { s with
        table := r.1
        kept := s.kept ++ [⟨cid, flight, now⟩]
        current := update s.current cid s.kept.length }
    else { s with table := r.1 }
  | .repeatFlight cid question now =>
    let r := s.table.repeatFlight s.delivered cid question now
    match r.2 with
    | none => { s with table := r.1 }
    | some (datagrams, dst) =>
      let delivered := (s.table.flights.lookup cid).any fun e => s.delivered e.flight.delivered
      { s with
        table := r.1
        replies := s.replies ++ [⟨s.current cid, datagrams, dst, question, now, delivered⟩] }
  | .sweep now => { s with table := s.table.sweep s.delivered now }
  | .latch name value => { s with delivered := update s.delivered name value }

/-- The state after any calls on a new table. -/
def after (events : List (Event Addr sha256)) : State Addr sha256 := events.foldl apply init

omit [DecidableEq Digest]

/-- The replies that repeat flight `i`. -/
def repliesOf (i : Nat) (replies : List (Reply Addr)) : List (Reply Addr) :=
  replies.filter (·.of = i)

/-- The bytes they put on the path. -/
def bytesRepeated (i : Nat) (replies : List (Reply Addr)) : Nat :=
  ((repliesOf i replies).map fun p => wireBytes p.datagrams).sum

/-- The wire bytes of the questions they answer. -/
def bytesAsked (i : Nat) (replies : List (Reply Addr)) : Nat :=
  ((repliesOf i replies).map fun p => wireLen p.question.length).sum

/-- The reply is the flight, to its peer, in answer to its question, in time and not delivered. -/
structure Genuine (r : Retention Addr sha256) (p : Reply Addr) : Prop where
  datagrams : p.datagrams = r.flight.datagrams
  dst : p.dst = r.flight.peer
  question : sha256 p.question = r.flight.question
  time : p.time < r.time + handshakeFlightRetention
  delivered : p.delivered = false

/-- No question answered has the digest of another frame that a flight kept answers. -/
def NoCollision (s : State Addr sha256) : Prop :=
  ∀ p ∈ s.replies, ∀ r ∈ s.kept,
    sha256 p.question = sha256 r.flight.questionFrame → p.question = r.flight.questionFrame

/-- What the table holds under `cid` is the last flight kept there, with the repeats it has left. -/
def Backed (s : State Addr sha256) (cid : ConnId) (e : RetainedFlight Addr sha256) : Prop :=
  ∃ r, s.kept[s.current cid]? = some r ∧ r.cid = cid ∧ r.flight = e.flight ∧
    e.expiresAt = r.time + handshakeFlightRetention ∧ 0 < e.repeatsLeft ∧
    e.repeatsLeft + (repliesOf (s.current cid) s.replies).length = maxFlightRepeats

structure Inv (s : State Addr sha256) : Prop where
  balanced : s.table.Balanced
  gauge : s.table.occupancy = s.table.len
  budget : (∀ r ∈ s.kept, retainedCost r.flight ≤ retainedFlightBudget) →
    s.table.retainedBytes ≤ retainedFlightBudget
  backed : ∀ {cid e}, s.table.flights.lookup cid = some e → Backed s cid e
  limited : ∀ r ∈ s.kept, r.flight.wireBytes ≤ flightAmplificationLimit * r.flight.questionWireBytes
  atMost : ∀ i, (repliesOf i s.replies).length ≤ maxFlightRepeats
  genuine : ∀ p ∈ s.replies, ∃ r, s.kept[p.of]? = some r ∧ Genuine r p

variable {s : State Addr sha256} {cid : ConnId} {table : FlightTable Addr sha256}

theorem inv_init : Inv (init : State Addr sha256) where
  balanced := rfl
  gauge := rfl
  budget _ := Nat.zero_le _
  backed h := by cases h
  limited r hr := by cases hr
  atMost i := Nat.zero_le _
  genuine p hp := by cases hp

theorem repliesOf_append_self (replies : List (Reply Addr)) (p : Reply Addr) :
    repliesOf p.of (replies ++ [p]) = repliesOf p.of replies ++ [p] := by
  simp [repliesOf]

theorem repliesOf_append_ne (replies : List (Reply Addr)) {p : Reply Addr} {i : Nat}
    (h : p.of ≠ i) : repliesOf i (replies ++ [p]) = repliesOf i replies := by
  simp [repliesOf, h]

namespace Inv

section

variable (h : Inv s) {p : Reply Addr}
include h

theorem drops (hd : Drops s.table table) (hgauge : table.occupancy = table.len) :
    Inv { s with table } where
  balanced := hd.balanced h.balanced
  gauge := hgauge
  budget hcost :=
    (h.balanced.retainedBytes_le (hd.balanced h.balanced) hd.charged).trans (h.budget hcost)
  backed hl := h.backed (hd.lookup hl)
  limited := h.limited
  atMost := h.atMost
  genuine := h.genuine

theorem unrepeated {i : Nat} (hi : s.kept[i]? = none) : repliesOf i s.replies = [] := by
  apply filter_eq_nil_iff.2
  intro p hp hof
  obtain ⟨r, hr, -⟩ := h.genuine p hp
  rw [of_decide_eq_true hof, hi] at hr
  cases hr

theorem retained {flight : HandshakeFlight Addr sha256} {now : Nat}
    (hr : Retained s.table table cid flight now)
    (hlimit : flight.wireBytes ≤ flightAmplificationLimit * flight.questionWireBytes) :
    Inv { s with
      table
      kept := s.kept ++ [⟨cid, flight, now⟩]
      current := update s.current cid s.kept.length } where
  balanced := hr.balanced h.balanced
  gauge := hr.gauge
  budget hcost := hr.budget h.balanced (hcost ⟨cid, flight, now⟩ (by simp))
  backed := by
    intro c e hl
    by_cases hc : c = cid
    · subst hc
      cases hr.self.symm.trans hl
      refine ⟨⟨c, flight, now⟩, ?_, rfl, rfl, rfl, Nat.succ_pos 2, ?_⟩
      · simp
      · simp [update_self, h.unrepeated]
    · obtain ⟨r, hget, hcid, hflight, hexp, hpos, hcount⟩ := h.backed (hr.others hc hl)
      have hsame : update s.current cid s.kept.length c = s.current c :=
        update_of_ne hc _ _
      refine ⟨r, ?_, hcid, hflight, hexp, hpos, ?_⟩
      · grind
      · simp [*]
  limited r hr' := by
    rcases mem_append.1 hr' with hold | hnew
    · exact h.limited r hold
    · cases mem_singleton.1 hnew
      exact hlimit
  atMost := h.atMost
  genuine p hp := by
    obtain ⟨r, hget, hgen⟩ := h.genuine p hp
    refine ⟨r, ?_, hgen⟩
    rw [List.getElem?_append_left (List.getElem?_eq_some_iff.1 hget).1]
    exact hget

theorem backed_reply {e e' : RetainedFlight Addr sha256} {c : ConnId}
    (hlook : s.table.flights.lookup cid = some e) (hr : Repeated s.table table cid e)
    (hof : p.of = s.current cid) (hl : table.flights.lookup c = some e') :
    Backed { s with table, replies := s.replies ++ [p] } c e' := by
  obtain ⟨r, hget, hcid, hflight, hexp, hpos, hcount⟩ := h.backed hlook
  by_cases hc : c = cid
  · subst hc
    obtain ⟨rfl, hleft⟩ := hr.self hl
    refine ⟨r, hget, hcid, hflight, hexp, Nat.pos_of_ne_zero hleft, ?_⟩
    show e.repeatsLeft - 1 + (repliesOf (s.current c) (s.replies ++ [p])).length = _
    rw [← hof, repliesOf_append_self, length_append, length_singleton, hof]
    omega
  · obtain ⟨r', hget', hcid', hrest⟩ := h.backed (hr.others hc hl)
    -- another connection ID has another flight
    have hne : p.of ≠ s.current c := by grind
    refine ⟨r', hget', hcid', ?_⟩
    simp_all [repliesOf_append_ne]

theorem repeated {e : RetainedFlight Addr sha256}
    (hlook : s.table.flights.lookup cid = some e) (hr : Repeated s.table table cid e)
    (hof : p.of = s.current cid) (hdata : p.datagrams = e.flight.datagrams)
    (hdst : p.dst = e.flight.peer) (hasked : sha256 p.question = e.flight.question)
    (htime : p.time < e.expiresAt) (hlatch : p.delivered = false) :
    Inv { s with table, replies := s.replies ++ [p] } := by
  obtain ⟨r, hget, -, hflight, hexp, hpos, hcount⟩ := h.backed hlook
  refine ⟨hr.balanced h.balanced, hr.gauge, fun hcost => ?_, h.backed_reply hlook hr hof,
    h.limited, fun i => ?_, fun q hq => ?_⟩
  · exact (h.balanced.retainedBytes_le (hr.balanced h.balanced) hr.charged).trans (h.budget hcost)
  · show (repliesOf i (s.replies ++ [p])).length ≤ maxFlightRepeats
    by_cases hi : p.of = i
    · subst hi
      rw [repliesOf_append_self, length_append, length_singleton, hof]
      omega
    · rw [repliesOf_append_ne s.replies hi]
      exact h.atMost i
  · rcases mem_append.1 hq with hold | hnew
    · exact h.genuine q hold
    · cases mem_singleton.1 hnew
      refine ⟨r, hof ▸ hget, ?_, ?_, ?_, hexp ▸ htime, hlatch⟩
      · rw [hflight]
        exact hdata
      · rw [hflight]
        exact hdst
      · rw [hflight]
        exact hasked

theorem apply [DecidableEq Digest] (ev : Event Addr sha256) : Inv (FlightReplies.apply s ev) := by
  cases ev with
  | retain iter cid flight now =>
    simp only [FlightReplies.apply]
    obtain heq | ⟨hlimit, hkept, hr⟩ := s.table.retain_cases s.delivered iter cid flight now
    · rw [heq]
      exact h
    · rw [if_pos hkept]
      exact h.retained hr hlimit
  | repeatFlight cid question now =>
    simp only [FlightReplies.apply]
    obtain ⟨hnone, hd, hgauge⟩ | ⟨e, hlook, hlatch, htime, hasked, hsome, hr⟩ :=
      s.table.repeatFlight_cases s.delivered cid question now
    · rw [hnone]
      exact h.drops hd (hgauge h.gauge)
    · rw [hsome]
      refine h.repeated hlook hr rfl rfl rfl hasked htime ?_
      rw [hlook]
      exact hlatch
  | sweep now => exact h.drops (.sweep s.table s.delivered now) rfl
  | latch =>
    exact ⟨h.balanced, h.gauge, h.budget, h.backed, h.limited, h.atMost, h.genuine⟩

theorem bytesRepeated_le {i : Nat} {r : Retention Addr sha256}
    (hr : s.kept[i]? = some r) {size : Reply Addr → Nat}
    (hsize : ∀ p ∈ s.replies, Genuine r p → r.flight.questionWireBytes ≤ size p) :
    bytesRepeated i s.replies ≤
      flightAmplificationLimit * ((repliesOf i s.replies).map size).sum := by
  rw [← sum_map_mul_left]
  apply sum_le_sum
  intro p hp
  obtain ⟨hmem, hof⟩ := mem_filter.1 hp
  obtain ⟨r', hr', hgen⟩ := h.genuine p hmem
  rw [of_decide_eq_true hof, hr] at hr'
  cases hr'
  calc wireBytes p.datagrams = r.flight.wireBytes := by
        rw [hgen.datagrams, r.flight.wireBytes_eq]
    _ ≤ flightAmplificationLimit * r.flight.questionWireBytes := h.limited r (mem_of_getElem? hr)
    _ ≤ flightAmplificationLimit * size p := Nat.mul_le_mul_left _ (hsize p hmem hgen)

theorem bytesRepeated_le_asked (hcollide : NoCollision s) (i : Nat) :
    bytesRepeated i s.replies ≤ flightAmplificationLimit * bytesAsked i s.replies := by
  cases hr : s.kept[i]? with
  | some r =>
    apply h.bytesRepeated_le hr
    intro p hp hgen
    have hquestion := hgen.question
    rw [r.flight.question_eq] at hquestion
    rw [r.flight.questionWireBytes_eq, hcollide p hp r (mem_of_getElem? hr) hquestion]
  | none =>
    rw [bytesRepeated, h.unrepeated hr]
    exact Nat.zero_le _

end

theorem after [DecidableEq Digest] (events : List (Event Addr sha256)) :
    Inv (FlightReplies.after events) := by
  refine List.foldlRecOn events FlightReplies.apply inv_init ?_
  intro s h ev _
  exact h.apply ev

end Inv

/-- Over any calls and any settings of the latches: `retained_bytes` is the sum of the charges, and
within the budget where each flight's cost is; each flight kept is repeated at most
`MAX_FLIGHT_REPEATS` times, to its peer, in answer to its question, before it expires and while its
latch is not set; and what is repeated of it is at most `FLIGHT_AMPLIFICATION_LIMIT` times its
question's wire bytes for each reply, which are the bytes of the frames answered where SHA-256 does
not collide. -/
theorem replies_bounded [DecidableEq Digest] (events : List (Event Addr sha256)) :
    let s := after events
    s.table.retainedBytes =
      (s.table.flights.entries.map fun r : FlightTable.Entry Addr sha256 =>
        r.2.chargedBytes).sum ∧
    ((∀ r ∈ s.kept, retainedCost r.flight ≤ retainedFlightBudget) →
      s.table.retainedBytes ≤ retainedFlightBudget) ∧
    (∀ i, (repliesOf i s.replies).length ≤ maxFlightRepeats) ∧
    (∀ p ∈ s.replies, ∃ r, s.kept[p.of]? = some r ∧ Genuine r p) ∧
    (∀ i r, s.kept[i]? = some r → bytesRepeated i s.replies ≤
      flightAmplificationLimit *
        ((repliesOf i s.replies).length * r.flight.questionWireBytes)) ∧
    (NoCollision s → ∀ i,
      bytesRepeated i s.replies ≤ flightAmplificationLimit * bytesAsked i s.replies) := by
  have h := Inv.after events
  refine ⟨h.balanced, h.budget, h.atMost, h.genuine, fun i r hr => ?_,
    h.bytesRepeated_le_asked⟩
  have hbytes := h.bytesRepeated_le hr (fun _ _ _ => Nat.le_refl r.flight.questionWireBytes)
  rwa [map_const', sum_const_nat] at hbytes

/-- A transport that has read an empty question, and answered it with ten bytes. -/
def answered : ServerHandshake Nat (id : Bytes → Bytes) :=
  let t : ServerHandshake Nat id := ⟨1, Vector.replicate cidLen 0, none, true, 0, none, none, 0⟩
  ((t.recvBytes []).sendBytes (List.replicate 10 0) none).1

/-- The reply goes out for the first three copies of its question. -/
example :
    let ask := Event.repeatFlight answered.cid [] 1
    answered.takeHandshakeFlight.2.map (fun flight =>
      (after [.retain ⟨id, fun _ => .rfl⟩ answered.cid flight 0, ask, ask, ask, ask]).replies.map
        fun p => (p.dst, wireBytes p.datagrams)) = some [(1, 19), (1, 19), (1, 19)] := by
  decide +kernel

end FlightReplies

end PhantomProtocol
