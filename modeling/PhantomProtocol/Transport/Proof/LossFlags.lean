import PhantomProtocol.Transport.Proof.SendLedger

/-!
# Loss flags

`on_sack` flags a segment lost, and Pass 0 of `poll_send` clears the flag when it hands out the copy.
The receive task and the pump share the send buffer, so a segment may be flagged while its write is
under way; `mark_unsent` leaves the flag where it is.
-/

namespace PhantomProtocol

open List Option

/-! ## What an acknowledgement flags -/

namespace Stream

variable {s : Stream} {k : Sack} {now : Nat}

theorem lossOf_some {largest : Nat} {threshold : Option Nat} {p : PendingData} {cause : LossCause}
    (h : lossOf largest threshold now p = some cause) :
    p.lost = none ∧ p.sentAt.isSome = true ∧ cause ≠ .rto := by
  unfold lossOf at h
  split at h
  · grind
  · cases h

/-- The offsets the acknowledgement reports lost. -/
def declaredLost (s : Stream) (k : Sack) (now : Nat) : List Nat :=
  (s.onSack k now).2.lost.map (·.streamOffset)

theorem nodup_declaredLost (h : s.WellFormed) (k : Sack) (now : Nat) :
    (s.declaredLost k now).Nodup := by
  refine h.nodup_offsets.sublist ?_
  unfold declaredLost onSack flag kept
  dsimp only
  rw [List.map_map]
  exact (filter_sublist.trans filter_sublist).map _

theorem mem_declaredLost {o : Nat} : o ∈ s.declaredLost k now ↔
    ∃ p ∈ s.sendBuffer, k.acks p.streamOffset = false ∧ (s.detector k now p).isSome = true ∧
      p.streamOffset = o := by
  constructor
  · intro h
    obtain ⟨l, hl, rfl⟩ := mem_map.1 h
    obtain ⟨p, hp, rfl⟩ := mem_map.1 hl
    obtain ⟨hkept, hloss⟩ := mem_filter.1 hp
    obtain ⟨hmem, hacks⟩ := mem_filter.1 hkept
    exact ⟨p, hmem, by simpa using hacks, hloss, rfl⟩
  · rintro ⟨p, hmem, hacks, hloss, rfl⟩
    have hkept : p ∈ s.sendBuffer.filter fun p => !k.acks p.streamOffset :=
      mem_filter.2 ⟨hmem, by simpa using hacks⟩
    exact mem_map.2 ⟨⟨p.streamOffset, p.data.length⟩,
      mem_map.2 ⟨p, mem_filter.2 ⟨hkept, hloss⟩, rfl⟩, rfl⟩

theorem onSack_flags (hwf : s.WellFormed) {p' : PendingData}
    (h : p' ∈ (s.onSack k now).1.sendBuffer) :
    ∃ p ∈ s.sendBuffer, p'.streamOffset = p.streamOffset ∧ p'.sentAt = p.sentAt ∧
      (p'.lost = p.lost ∧ p.streamOffset ∉ s.declaredLost k now ∨
        p.lost = none ∧ p.sentAt.isSome = true ∧ p.streamOffset ∈ s.declaredLost k now ∧
          ∃ cause, p'.lost = some cause ∧ cause ≠ .rto) := by
  obtain ⟨p, hp, rfl⟩ := mem_map.1 h
  obtain ⟨hmem, hacks⟩ := mem_filter.1 hp
  refine ⟨p, hmem, rfl, rfl, ?_⟩
  show p.lost.or (s.detector k now p) = p.lost ∧ _ ∨
    _ ∧ _ ∧ _ ∧ ∃ cause, p.lost.or (s.detector k now p) = some cause ∧ _
  cases hloss : s.detector k now p with
  | none => grind [hwf.eq_of_streamOffset, mem_declaredLost]
  | some =>
    obtain ⟨hlost, hsent, hcause⟩ := lossOf_some hloss
    grind [mem_declaredLost]

end Stream

namespace LossFlags

variable {seg : OutboundSegment} {o : Nat} {log : List Mark}

open SendLedger (Event Effect step_effect refuse)

/-- What happens to an offset on account of the loss detector. -/
inductive Mark where
  | declared (streamOffset : Nat)
  /-- `poll_send` hands out a copy that answers such a report. -/
  | copied (streamOffset : Nat)
deriving DecidableEq, Repr

/-- The segment is handed out because an acknowledgement declared it lost. -/
def onAccount (seg : OutboundSegment) : Bool := seg.lossCause.any fun cause => cause != .rto

/-- One more mark against an offset for which a copy is owed or not. `none`: a second declaration
before the copy, or a copy for nothing. -/
def settle (o : Nat) (owes : Option Bool) (m : Mark) : Option Bool :=
  match m with
  | .declared o' => if o' = o then (if owes = some false then some true else none) else owes
  | .copied o' => if o' = o then (if owes = some true then some false else none) else owes

/-- Whether a copy of the segment at `o` is owed; `none` when declarations and copies of it do not
alternate. -/
def owed (o : Nat) (log : List Mark) : Option Bool := log.foldl (settle o) (some false)

structure State where
  sender : SendLedger.State
  log : List Mark
deriving DecidableEq

def init : State := ⟨SendLedger.init, []⟩

/-- What is logged when `poll_send` answers. -/
def copies (polled : Option OutboundSegment) : List Mark :=
  (polled.toList.filter onAccount).map fun seg => .copied seg.streamOffset

/-- What an event adds to the log, given the sender before and after it. -/
def marks (s : SendLedger.State) (e : Event) (s' : SendLedger.State) : List Mark :=
  match e with
  | .onSack sack now => (s.tx.declaredLost sack now).map .declared
  | .pollSend .. => copies s'.polled
  | _ => []

def step (s : State) (e : Event) : Option State :=
  (SendLedger.step s.sender e).map fun s' => ⟨s', s.log ++ marks s.sender e s'⟩

/-- The segment whose write is refused is not flagged. -/
def RefusesUnflagged (s : State) (e : Event) (_ : State) : Prop :=
  e = .refused → ∀ seg ∈ s.sender.polled, seg.reliable = true → ∀ p ∈ s.sender.tx.sendBuffer,
    p.streamOffset = seg.streamOffset → p.lost = none

instance (s : State) (e : Event) (s' : State) : Decidable (RefusesUnflagged s e s') :=
  inferInstanceAs (Decidable (_ → ∀ seg ∈ s.sender.polled, _ → _))

def OnWire (tx : Stream) : Prop :=
  ∀ p ∈ tx.sendBuffer, p.lost.isSome = true → p.sentAt.isSome = true

/-- A loss flag belongs to a segment on the wire and costs one copy. -/
structure Repairs (s : State) (e : Event) (s' : State) : Prop where
  onWire : OnWire s'.sender.tx
  alternate : ∀ o, owed o s'.log ≠ none
  /-- While it is flagged, a segment is handed out on account of its flag only: not by the timer, and
  not as one that has never been sent. -/
  account : s.sender.polled = none → ∀ seg ∈ s'.sender.polled, seg.reliable = true →
    ∀ p ∈ s.sender.tx.sendBuffer, p.streamOffset = seg.streamOffset → p.lost.isSome = true →
      onAccount seg = true

theorem marks_quiet {s s' : SendLedger.State} {e : Event} (h : e.Quiet) : marks s e s' = [] := by
  cases e with
  | pollSend | onSack => cases h
  | _ => rfl

/-! ## What is owed -/

theorem copies_onAccount (h : onAccount seg = true) :
    copies (some seg) = [.copied seg.streamOffset] := by
  simp [copies, h]

theorem copies_other (h : onAccount seg = false) : copies (some seg) = [] := by
  simp [copies, h]

theorem onAccount_none (h : seg.lossCause = none) : onAccount seg = false := by
  rw [onAccount, h]
  rfl

theorem owed_append (o : Nat) (log more : List Mark) :
    owed o (log ++ more) = more.foldl (settle o) (owed o log) := by
  rw [owed, foldl_append]
  rfl

theorem owed_copied (h : owed o log = some true) : owed o (log ++ [.copied o]) = some false := by
  rw [owed_append, foldl_cons, foldl_nil, settle, if_pos rfl, if_pos h]

theorem owed_copied_ne {o o' : Nat} (hne : o' ≠ o) : owed o (log ++ [.copied o']) = owed o log := by
  rw [owed_append, foldl_cons, foldl_nil, settle, if_neg hne]

theorem foldl_declared_ne (lost : List Nat) (owes : Option Bool) (h : o ∉ lost) :
    (lost.map Mark.declared).foldl (settle o) owes = owes := by
  induction lost generalizing owes with
  | nil => rfl
  | cons _ _ ih =>
    obtain ⟨hne, htail⟩ := not_or.1 (mt mem_cons.2 h)
    rw [map_cons, foldl_cons, settle, if_neg (Ne.symm hne)]
    exact ih owes htail

theorem foldl_declared {lost : List Nat} (hnodup : lost.Nodup) (h : o ∈ lost) :
    (lost.map Mark.declared).foldl (settle o) (some false) = some true := by
  induction lost with
  | nil => cases h
  | cons o' lost =>
    obtain ⟨hhead, htail⟩ := nodup_cons.1 hnodup
    rw [map_cons, foldl_cons, settle]
    by_cases heq : o' = o
    · rw [if_pos heq, if_pos rfl]
      exact foldl_declared_ne lost _ (heq ▸ hhead)
    · grind

/-! ## The invariant -/

/-- The flag of a buffered segment says whether a copy is owed for its offset. -/
structure Inv (s : State) : Prop where
  wellFormed : s.sender.tx.WellFormed
  onWire : OnWire s.sender.tx
  flagged : ∀ p ∈ s.sender.tx.sendBuffer, owed p.streamOffset s.log = some p.lost.isSome
  cause : ∀ p ∈ s.sender.tx.sendBuffer, p.lost ≠ some .rto
  unassigned : ∀ o, s.sender.tx.reliableOffset ≤ o → owed o s.log = some false
  alternate : ∀ o, owed o s.log ≠ none

theorem inv_init : Inv init where
  wellFormed := Stream.wellFormed_new
  onWire p hp := by cases hp
  flagged p hp := by cases hp
  cause p hp := by cases hp
  unassigned _ _ := rfl
  alternate _ := by simp [owed, init]

namespace Inv

variable {s s' : State} {sender : SendLedger.State} {tx : Stream} {e : Event}
  {seg : OutboundSegment}

section

variable (h : Inv s) {pre post : List PendingData} {p p' : PendingData}
include h

theorem keeps (hwf : sender.tx.WellFormed)
    (hoff : s.sender.tx.reliableOffset ≤ sender.tx.reliableOffset)
    (hbuf : ∀ p' ∈ sender.tx.sendBuffer,
      (∃ p ∈ s.sender.tx.sendBuffer, p'.streamOffset = p.streamOffset ∧ p'.lost = p.lost ∧
        (p.lost.isSome = true → p.sentAt.isSome = true → p'.sentAt.isSome = true)) ∨
      s.sender.tx.reliableOffset ≤ p'.streamOffset ∧ p'.lost = none) :
    Inv ⟨sender, s.log⟩ where
  wellFormed := hwf
  onWire p' hp' hlost := by
    rcases hbuf p' hp' with ⟨p, hp, -, hsame, hsent⟩ | ⟨-, hnone⟩
    · rw [hsame] at hlost
      exact hsent hlost (h.onWire p hp hlost)
    · rw [hnone] at hlost
      cases hlost
  flagged p' hp' := by
    rcases hbuf p' hp' with ⟨p, hp, hoffset, hsame, -⟩ | ⟨hnew, hnone⟩
    · rw [hoffset, hsame]
      exact h.flagged p hp
    · rw [hnone]
      exact h.unassigned _ hnew
  cause p' hp' := by
    rcases hbuf p' hp' with ⟨p, hp, -, hsame, -⟩ | ⟨-, hnone⟩
    · rw [hsame]
      exact h.cause p hp
    · rw [hnone]
      nofun
  unassigned o ho := h.unassigned o (hoff.trans ho)
  alternate := h.alternate

theorem answers (hkeeps : s.sender.tx.Keeps tx) (hbuf : s.sender.tx.sendBuffer = pre ++ p :: post)
    (hbuf' : tx.sendBuffer = pre ++ p' :: post) (hlost : p.lost.isSome = true)
    (hoff : p'.streamOffset = p.streamOffset) (hlost' : p'.lost = none) :
    Inv ⟨{ s.sender with tx, polled := some seg }, s.log ++ [.copied p.streamOffset]⟩ := by
  have hp : p ∈ s.sender.tx.sendBuffer := by simp [hbuf]
  have howed : owed p.streamOffset s.log = some true := by
    rw [h.flagged p hp, hlost]
  have hlt : p.streamOffset < s.sender.tx.reliableOffset := h.wellFormed.below _ (mem_map_of_mem hp)
  refine ⟨h.wellFormed.keeps hkeeps, fun q hq hflag => ?_, fun q hq => ?_, fun q hq => ?_,
    fun o ho => ?_, fun o => ?_⟩
  · rcases h.wellFormed.mem_replace hbuf (hbuf' ▸ hq) with rfl | ⟨hold, -⟩
    · rw [hlost'] at hflag
      cases hflag
    · exact h.onWire q hold hflag
  · rcases h.wellFormed.mem_replace hbuf (hbuf' ▸ hq) with rfl | ⟨hold, hne⟩
    · rw [hoff, hlost']
      exact owed_copied howed
    · rw [owed_copied_ne hne.symm]
      exact h.flagged q hold
  · rcases h.wellFormed.mem_replace hbuf (hbuf' ▸ hq) with rfl | ⟨hold, -⟩
    · rw [hlost']
      nofun
    · exact h.cause q hold
  · have ho' : s.sender.tx.reliableOffset ≤ o := hkeeps.reliableOffset ▸ ho
    rw [owed_copied_ne (Nat.ne_of_lt (hlt.trans_le ho'))]
    exact h.unassigned o ho'
  · by_cases heq : p.streamOffset = o
    · subst heq
      rw [owed_copied howed]
      nofun
    · rw [owed_copied_ne heq]
      exact h.alternate o

theorem unaccounted
    (hkeeps : s.sender.tx.Keeps tx) (hbuf : s.sender.tx.sendBuffer = pre ++ p :: post)
    (hbuf' : tx.sendBuffer = pre ++ p' :: post) (hoff : p'.streamOffset = p.streamOffset)
    (hlost : p'.lost = p.lost) (hsent : p'.sentAt.isSome = true) :
    Inv ⟨{ s.sender with tx, polled := some seg }, s.log⟩ := by
  refine h.keeps (h.wellFormed.keeps hkeeps) hkeeps.reliableOffset.ge fun q hq => .inl ?_
  grind

theorem emitted {r : Except SendBlocked OutboundSegment} (hemitted : s.sender.tx.Emitted tx r) :
    Inv ⟨{ s.sender with tx, polled := r.toOption }, s.log ++ copies r.toOption⟩ := by
  have haside : ∀ {seg : OutboundSegment} {tx : Stream}, s.sender.tx.Idles tx →
      onAccount seg = false →
      Inv ⟨{ s.sender with tx, polled := some seg }, s.log ++ copies (some seg)⟩ := by
    intro seg tx hidles hacc
    rw [copies_other hacc, append_nil]
    exact h.keeps (h.wellFormed.keeps hidles.keeps) hidles.keeps.reliableOffset.ge
      fun p hp => .inl ⟨p, hidles.buffer ▸ hp, rfl, rfl, fun _ => id⟩
  cases hemitted with
  | blocked =>
    show Inv ⟨{ s.sender with polled := none }, s.log ++ []⟩
    rw [append_nil]
    exact h.keeps h.wellFormed (Nat.le_refl _) fun p hp => .inl ⟨p, hp, rfl, rfl, fun _ => id⟩
  | unreliable hidles _ _ hcause => exact haside hidles (onAccount_none hcause)
  | probe hidles _ _ _ _ _ hcause => exact haside hidles (onAccount_none hcause)
  | @copied _ seg pre post p p' hkeeps hbuf hbuf' _ hcopied _ =>
    have htx := hcopied.bills.transmits
    have hp : p ∈ s.sender.tx.sendBuffer := by simp [hbuf]
    show Inv ⟨{ s.sender with tx, polled := some seg }, s.log ++ copies (some seg)⟩
    cases hcopied with
    | @fast cause _ hlost _ hp' hseg _ =>
      have hacc : onAccount seg = true := by
        have hrto : cause ≠ .rto := fun heq => h.cause p hp (heq ▸ hlost)
        simp [hseg, onAccount, Stream.retransmission, hrto]
      rw [copies_onAccount hacc, htx.streamOffset]
      exact h.answers hkeeps hbuf hbuf' (by rw [hlost]; rfl) htx.sameOffset (by rw [hp'])
    | timeout _ _ hp' hseg =>
      rw [copies_other (by rw [hseg]; rfl), append_nil]
      exact h.unaccounted hkeeps hbuf hbuf' htx.sameOffset (by rw [hp']) htx.stamped
    | first _ hp' hseg =>
      rw [copies_other (by rw [hseg]; rfl), append_nil]
      exact h.unaccounted hkeeps hbuf hbuf' htx.sameOffset (by rw [hp']) htx.stamped

theorem declares (k : Sack) (now : Nat) : Inv ⟨{ s.sender with tx := (s.sender.tx.onSack k now).1 },
      s.log ++ (s.sender.tx.declaredLost k now).map .declared⟩ := by
  have hnodup := Stream.nodup_declaredLost h.wellFormed k now
  have hbefore : ∀ o ∈ s.sender.tx.declaredLost k now, owed o s.log = some false := by
    intro o ho
    obtain ⟨p, hp, -, hloss, rfl⟩ := Stream.mem_declaredLost.1 ho
    obtain ⟨cause, hcause⟩ := isSome_iff_exists.1 hloss
    rw [h.flagged p hp, (Stream.lossOf_some hcause).1]
    rfl
  have hin : ∀ o ∈ s.sender.tx.declaredLost k now,
      owed o (s.log ++ (s.sender.tx.declaredLost k now).map .declared) = some true := by
    intro o ho
    rw [owed_append, hbefore o ho]
    exact foldl_declared hnodup ho
  have hout : ∀ o ∉ s.sender.tx.declaredLost k now,
      owed o (s.log ++ (s.sender.tx.declaredLost k now).map .declared) = owed o s.log := by
    intro o ho
    rw [owed_append]
    exact foldl_declared_ne _ _ ho
  refine ⟨h.wellFormed.onSack k now, fun p' hp' hlost => ?_, fun p' hp' => ?_, fun p' hp' => ?_,
    fun o ho => ?_, fun o => ?_⟩
  · obtain ⟨p, hp, -, hsent, ⟨hsame, -⟩ | ⟨-, hstamped, -⟩⟩ :=
      Stream.onSack_flags h.wellFormed hp'
    · rw [hsent]
      exact h.onWire p hp (hsame ▸ hlost)
    · rw [hsent]
      exact hstamped
  · obtain ⟨p, hp, hoff, -, ⟨hsame, hnot⟩ | ⟨-, -, hdecl, cause, hcause, -⟩⟩ :=
      Stream.onSack_flags h.wellFormed hp'
    · rw [hoff, hsame, hout _ hnot]
      exact h.flagged p hp
    · rw [hoff, hcause, hin _ hdecl]
      rfl
  · obtain ⟨p, hp, -, -, ⟨hsame, -⟩ | ⟨-, -, -, cause, hcause, hrto⟩⟩ :=
      Stream.onSack_flags h.wellFormed hp'
    · rw [hsame]
      exact h.cause p hp
    · rw [hcause]
      exact fun heq => hrto (Option.some.inj heq)
  · have ho' : s.sender.tx.reliableOffset ≤ o := s.sender.tx.onSack_reliableOffset k now ▸ ho
    rw [hout]
    · exact h.unassigned o ho'
    · intro hdecl
      obtain ⟨p, hp, -, -, rfl⟩ := Stream.mem_declaredLost.1 hdecl
      exact absurd (h.wellFormed.below _ (mem_map_of_mem hp)) (Nat.not_lt.2 ho')
  · by_cases ho : o ∈ s.sender.tx.declaredLost k now
    · rw [hin o ho]
      nofun
    · rw [hout o ho]
      exact h.alternate o

theorem refused
    (hc : seg.reliable = true → ∀ p ∈ s.sender.tx.sendBuffer, p.streamOffset = seg.streamOffset →
      p.lost = none) : Inv ⟨refuse s.sender seg, s.log⟩ := by
  unfold refuse
  by_cases hrel : seg.reliable = true
  · rw [if_pos hrel]
    have hkeeps := s.sender.tx.markUnsent_keeps seg.streamOffset
    refine h.keeps (h.wellFormed.keeps hkeeps) hkeeps.reliableOffset.ge fun q hq => .inl ?_
    obtain ⟨heq, -⟩ | ⟨pre, p, post, hbuf, hoff, heq⟩ :=
      s.sender.tx.markUnsent_cases seg.streamOffset
    · rw [heq] at hq
      exact ⟨q, hq, rfl, rfl, fun _ => id⟩
    · grind
  · rw [if_neg hrel]
    exact h.keeps h.wellFormed (Nat.le_refl _) fun p hp => .inl ⟨p, hp, rfl, rfl, fun _ => id⟩

theorem step (hs : step s e = some s') (hc : RefusesUnflagged s e s') : Inv s' := by
  obtain ⟨sender, hsender, rfl⟩ := map_eq_some_iff.1 hs
  cases step_effect hsender with
  | offered _ hspec hadmits =>
    show Inv ⟨_, s.log ++ []⟩
    rw [append_nil]
    rcases hspec with ⟨rfl, happ⟩ | ⟨rfl, rfl⟩
    · refine h.keeps (h.wellFormed.appends happ) (happ.assigned ▸ Nat.le_succ _) fun p hp => ?_
      rcases hadmits.buffer p hp with hp | rfl
      · exact .inl ⟨p, hp, rfl, rfl, fun _ => id⟩
      · exact .inr ⟨Nat.le_refl _, rfl⟩
    · exact h
  | kept hquiet hk hbuf _ _ =>
    rw [marks_quiet hquiet, append_nil]
    exact h.keeps (h.wellFormed.keeps hk) hk.reliableOffset.ge
      fun p hp => .inl ⟨p, hbuf ▸ hp, rfl, rfl, fun _ => id⟩
  | polled _ hemitted => exact h.emitted hemitted
  | written _ =>
    show Inv ⟨_, s.log ++ []⟩
    rw [append_nil]
    exact h.keeps h.wellFormed (Nat.le_refl _) fun p hp => .inl ⟨p, hp, rfl, rfl, fun _ => id⟩
  | refused hseg =>
    show Inv ⟨_, s.log ++ []⟩
    rw [append_nil]
    exact h.refused (hc rfl _ hseg)
  | ack o now =>
    show Inv ⟨_, s.log ++ []⟩
    rw [append_nil]
    exact h.keeps (h.wellFormed.ack o now) (s.sender.tx.ack_totals o now).1.ge
      fun p hp => .inl ⟨p, Stream.mem_ack hp, rfl, rfl, fun _ => id⟩
  | onSack k now => exact h.declares k now

theorem account (hs : LossFlags.step s e = some s') (hidle : s.sender.polled = none)
    (hseg : seg ∈ s'.sender.polled) (hrel : seg.reliable = true)
    {p : PendingData} (hp : p ∈ s.sender.tx.sendBuffer) (hoff : p.streamOffset = seg.streamOffset)
    (hlost : p.lost.isSome = true) : onAccount seg = true := by
  obtain ⟨sender, hsender, rfl⟩ := map_eq_some_iff.1 hs
  -- only `poll_send` puts a segment into the pump's hand
  have hstays : ∀ {polled : Option OutboundSegment}, polled = s.sender.polled → seg ∉ polled := by
    simp [*]
  cases step_effect hsender with
  | offered | kept | ack | onSack => exact absurd hseg (hstays rfl)
  | written => cases hseg
  | refused hpolled =>
    rw [hidle] at hpolled
    cases hpolled
  | polled _ hemitted =>
    cases hemitted with
    | blocked => cases hseg
    | unreliable _ hrel' =>
      cases hseg
      exact absurd (hrel'.symm.trans hrel) Bool.false_ne_true
    | probe _ hacked _ _ _ _ _ =>
      cases hseg
      exact absurd hoff ((h.wellFormed.acked _ hacked).2 _ (mem_map_of_mem hp))
    | @copied _ _ _ _ q _ _ hbuf _ _ hcopied _ =>
      cases hseg
      have hq : q ∈ s.sender.tx.sendBuffer := by simp [hbuf]
      have heq := hoff.trans hcopied.bills.transmits.streamOffset
      cases h.wellFormed.eq_of_streamOffset hp hq heq
      cases hcopied with
      | @fast cause _ hcause _ _ hseg _ =>
        have hrto : cause ≠ .rto := fun heq => h.cause p hp (heq ▸ hcause)
        simp [hseg, onAccount, Stream.retransmission, hrto]
      | timeout => simp_all
      | first hsent =>
        have hstamped := h.onWire p hp hlost
        rw [hsent] at hstamped
        cases hstamped

theorem repairs_iff (hs : LossFlags.step s e = some s') :
    RefusesUnflagged s e s' ↔ Repairs s e s' := by
  constructor
  · intro hc
    have h' := h.step hs hc
    exact ⟨h'.onWire, h'.alternate, fun hidle _ hseg hrel _ hp => h.account hs hidle hseg hrel hp⟩
  · intro hr
    cases e with
    | refused =>
      intro _ seg hseg hrel p hp hoff
      obtain ⟨sender, hsender, rfl⟩ := map_eq_some_iff.1 hs
      obtain ⟨seg', hseg', rfl⟩ := map_eq_some_iff.1 hsender
      cases hseg'.symm.trans hseg
      have hwire := hr.onWire
      unfold refuse at hwire
      rw [if_pos hrel] at hwire
      by_contra hlost
      obtain ⟨-, hgone⟩ | ⟨pre, q, post, hbuf, hqoff, heq⟩ :=
        s.sender.tx.markUnsent_cases seg.streamOffset
      · exact hgone p hp hoff
      · -- `mark_unsent` takes the stamp and leaves the flag
        have hq : q ∈ s.sender.tx.sendBuffer := by simp [hbuf]
        cases h.wellFormed.eq_of_streamOffset hp hq (hoff.trans hqoff.symm)
        have hunsent := hwire
          { p with sentAt := none, charged := p.charged && !(p.charged && p.retries == 0) }
          (by simp [heq]) (isSome_iff_ne_none.2 hlost)
        cases hunsent
    | _ => exact nofun

end

end Inv

/-- **A loss flag belongs to a segment on the wire and costs one copy.** In exactly the runs in which
no refused write is of a segment that is flagged at that moment: every flagged segment is on the
wire, it is handed out on account of its flag only, and for each offset the declarations and the
copies that answer them alternate. -/
theorem flags_on_wire_iff (events : List Event) :
    Lts.Along step RefusesUnflagged init events ↔ Lts.Along step Repairs init events := by
  refine Lts.along_iff Inv ?_ ?_ events inv_init
  · intro s e s' h hs hc
    exact h.step hs hc
  · intro s e s' h hs
    exact h.repairs_iff hs

/-- Four chunks are written at once. The last three arrive after 10 ms: the first is declared lost
and repeated, and while the write of the copy waits, another acknowledgement comes in, 20 ms later.
Then the write is refused. -/
def flaggedInHand : List Event :=
  [.offer (.sendReliable [0]), .offer (.sendReliable [1]), .offer (.sendReliable [2]),
    .offer (.sendReliable [3]), .pollSend 9 0 0 false 0, .written, .pollSend 9 0 0 false 0,
    .written, .pollSend 9 0 0 false 0, .written, .pollSend 9 0 0 false 0, .written,
    .onSack ⟨3, 0, [(1, 3)]⟩ 10000000, .pollSend 9 0 0 false 10000000,
    .onSack ⟨3, 0, [(1, 3)]⟩ 30000000, .refused]

/-- The segment is flagged and not on the wire. Pass 2 hands it out as one that has never been sent,
and Pass 0 once more. -/
theorem flag_without_stamp :
    ∃ s p, Lts.run step init flaggedInHand = some s ∧ s.sender.tx.sendBuffer = [p] ∧
      p.lost = some .timeThreshold ∧ p.sentAt = none ∧
      ((Lts.run step s [.pollSend 9 0 0 false 30000000]).bind (·.sender.polled)).map
        (fun seg => (seg.streamOffset, seg.retransmit, seg.lossCause)) = some (0, false, none) ∧
      ((Lts.run step s [.pollSend 9 0 0 false 30000000, .written,
          .pollSend 9 0 0 false 30000000]).bind (·.sender.polled)).map
        (fun seg => (seg.streamOffset, seg.retransmit, seg.lossCause)) =
          some (0, true, some .timeThreshold) := by
  have hrun : (Lts.run step init flaggedInHand).any (fun s =>
      decide (s.sender.tx.sendBuffer.map (fun p => (p.lost, p.sentAt)) =
        [(some .timeThreshold, none)]) &&
      decide (((Lts.run step s [.pollSend 9 0 0 false 30000000]).bind (·.sender.polled)).map
        (fun seg => (seg.streamOffset, seg.retransmit, seg.lossCause)) = some (0, false, none)) &&
      decide (((Lts.run step s [.pollSend 9 0 0 false 30000000, .written,
          .pollSend 9 0 0 false 30000000]).bind (·.sender.polled)).map
        (fun seg => (seg.streamOffset, seg.retransmit, seg.lossCause)) =
          some (0, true, some .timeThreshold))) = true := by
    decide +kernel
  obtain ⟨s, hs, hprop⟩ := (any_eq_true _ _).1 hrun
  simp only [Bool.and_eq_true, decide_eq_true_eq] at hprop
  obtain ⟨⟨hbuf, hfirst⟩, hsecond⟩ := hprop
  obtain ⟨p, hp, hflag⟩ := map_eq_singleton_iff.1 hbuf
  obtain ⟨hlost, hsent⟩ := Prod.mk.inj hflag
  exact ⟨s, p, hs, hp, hlost, hsent, hfirst, hsecond⟩

end LossFlags

end PhantomProtocol
