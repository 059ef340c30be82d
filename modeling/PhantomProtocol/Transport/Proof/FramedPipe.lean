import PhantomProtocol.Transport.FramedPipe

/-!
# What a reader of a framed pipe gets

A send that fails leaves part of a frame on the pipe. The leg refuses what comes after a stall, and
only after a stall: after any other error the next frame goes where the rest of the last one belongs.
-/

namespace PhantomProtocol

open List

namespace FramedPipe

variable {whole : List Bytes} {torn : Bool} {cap : Nat} {data cut : Bytes}

/-! ## Writing -/

namespace Leg

variable {leg : Leg}

theorem header_eq {len : Nat} {header : Bytes} (h : leg.header len = some header) :
    header = beBytes 4 len ∧ len < 2 ^ 32 := by
  have hcap : steadyStateFrameCap < 2 ^ 32 := by decide
  cases leg with
  | embedded => simp_all [Leg.header]
  | tcp => grind [Leg.header]

/-- A loop ends well only when nothing is left. -/
theorem onWrite_ne_done (reply : Reply) : leg.onWrite reply ≠ .stop .done := by
  cases leg <;> cases reply with
  | accepts n => cases n <;> simp [onWrite]
  | fails kind => cases kind <;> simp [onWrite]
  | elapsed => simp [onWrite]

theorem writeAll_spec (rest : Bytes) (replies : List Reply) :
    (leg.writeAll rest replies).1 <+: rest ∧
      ((leg.writeAll rest replies).2.1 = .done → (leg.writeAll rest replies).1 = rest) := by
  induction replies generalizing rest with
  | nil => cases rest <;> simp [writeAll]
  | cons =>
    cases rest with
    | nil => simp [writeAll]
    | cons =>
      simp only [writeAll]
      grind [take_append_drop, onWrite_ne_done, prefix_append_right_inj]

theorem writeFrame_part (header data : Bytes) (replies : List Reply) :
    (leg.writeFrame header data replies).1 <+: header ++ data := by
  obtain ⟨hle, hall⟩ := leg.writeAll_spec header replies
  grind [writeFrame, leg.writeAll_spec, prefix_append_right_inj]

/-- These answers of the writer put no byte of a call on the pipe. -/
def takesNone (leg : Leg) : List Reply → Bool
  | [] => true
  | reply :: replies =>
    match leg.onWrite reply with
    | .advance _ => false
    | .again => takesNone leg replies
    | .stop _ => true

theorem writeAll_of_takesNone {rest : Bytes} {replies : List Reply} (hrest : rest ≠ [])
    (h : leg.takesNone replies = true) :
    (leg.writeAll rest replies).1 = [] ∧ (leg.writeAll rest replies).2.1 ≠ .done := by
  induction replies with
  | nil => cases rest <;> simp_all [writeAll]
  | cons reply replies ih =>
    cases rest with
    | nil => contradiction
    | cons =>
      simp only [takesNone, writeAll] at h ⊢
      grind [onWrite_ne_done]

theorem writeFrame_of_takesNone {header : Bytes} {replies : List Reply} (hheader : header ≠ [])
    (h : leg.takesNone replies = true) (data : Bytes) :
    (leg.writeFrame header data replies).1 = [] := by
  have := writeAll_of_takesNone hheader h
  grind [writeFrame]

end Leg

/-! ## Reading -/

theorem take_frame {data : Bytes} (hlen : data.length < 2 ^ 32) (rest : Bytes) :
    beNat ((frame data ++ rest).take 4) = data.length := by
  rw [frame, append_assoc, take_left' (beBytes_length _ _), beNat_beBytes,
    Nat.mod_eq_of_lt (by omega)]

theorem drop_frame (data rest : Bytes) : (frame data ++ rest).drop 4 = data ++ rest := by
  rw [frame, append_assoc, drop_left' (beBytes_length _ _)]

theorem length_frame (data : Bytes) : (frame data).length = 4 + data.length := by
  simp [frame]

theorem take_cut (hlen : data.length < 2 ^ 32) (hcut : cut <+: frame data)
    (hfour : 4 ≤ cut.length) : beNat (cut.take 4) = data.length := by
  obtain ⟨rest, hrest⟩ := hcut
  rw [← take_frame hlen [], append_nil, ← hrest, take_append_of_le_length hfour]

theorem recvFrame_frame {data : Bytes} (hlen : data.length < 2 ^ 32) (rest : Bytes) :
    recvFrame cap (frame data ++ rest) = if cap < data.length then none else some (data, rest) := by
  unfold recvFrame
  rw [if_neg (by rw [length_append, length_frame]; omega)]
  simp only [take_frame hlen, drop_frame, take_left, drop_left]
  split
  · rfl
  · rw [if_neg (by simp)]

/-- A reader that gets to the end of a cut frame fails. -/
theorem recvFrame_cut (hlen : data.length < 2 ^ 32)
    (hcut : cut <+: frame data) (hshort : cut.length < (frame data).length) :
    recvFrame cap cut = none := by
  rw [length_frame] at hshort
  unfold recvFrame
  split
  · rfl
  · simp only [take_cut hlen hcut (by omega), length_drop]
    split
    · rfl
    · rw [if_pos (by omega)]

/-- The pipe is these frames, and a cut one behind them unless `torn` is false. -/
structure Holds (pipe : Bytes) (torn : Bool) (whole : List Bytes) (cut : Bytes) : Prop where
  pipe : pipe = whole.flatMap frame ++ cut
  short : ∀ d ∈ whole, d.length < 2 ^ 32
  cut : if torn then ∃ data : Bytes, data.length < 2 ^ 32 ∧ cut <+: frame data ∧
    cut.length < (frame data).length else cut = []

theorem Holds.recvFrame_cut {pipe cut : Bytes}
    (h : Holds pipe torn whole cut) : recvFrame cap cut = none := by
  have hcut := h.cut
  split at hcut
  · grind [FramedPipe.recvFrame_cut]
  · rw [hcut]
    rfl

theorem Holds.received {pipe cut : Bytes} {caps : List Nat}
    (h : Holds pipe torn whole cut) : received caps pipe <+: whole := by
  induction caps generalizing pipe whole with
  | nil => exact nil_prefix
  | cons cap _ ih =>
    rw [FramedPipe.received, h.pipe]
    cases whole with
    | nil =>
      simp [h.recvFrame_cut]
    | cons data =>
      rw [flatMap_cons, append_assoc, recvFrame_frame (h.short data mem_cons_self)]
      by_cases hcap : cap < data.length
      · rw [if_pos hcap]
        exact nil_prefix
      · rw [if_neg hcap]
        apply (prefix_cons_inj data).2
        exact ih ⟨rfl, fun d hd => h.short d (mem_cons_of_mem data hd), h.cut⟩

theorem Holds.append {pipe cut data w : Bytes}
    (h : Holds pipe torn whole cut) (hlen : data.length < 2 ^ 32) (hle : w <+: frame data)
    (hnone : torn = true → w = []) :
    ∃ whole' cut', Holds (pipe ++ w)
        (torn || decide (0 < w.length ∧ w.length < (frame data).length)) whole' cut' ∧
      whole'.Sublist (whole ++ [data]) := by
  by_cases hempty : w = []
  · subst hempty
    refine ⟨whole, cut, ?_, sublist_append_left _ _⟩
    simpa using h
  · have hsound : torn = false := by
      cases torn with
      | false => rfl
      | true => exact absurd (hnone rfl) hempty
    subst hsound
    have hcut : cut = [] := h.cut
    have hpos := length_pos_iff.2 hempty
    have hpipe := h.pipe
    rw [hcut, append_nil] at hpipe
    rcases Nat.eq_or_lt_of_le hle.length_le with heq | hlt
    · refine ⟨whole ++ [data], [], ⟨?_, ?_, ?_⟩, .refl _⟩
      · simp [hpipe, hle.eq_of_length heq]
      · simpa [or_imp, forall_and] using ⟨h.short, hlen⟩
      · simp [heq]
    · refine ⟨whole, w, ⟨by rw [hpipe], h.short, ?_⟩, sublist_append_left _ _⟩
      rw [if_pos (by simp [hpos, hlt])]
      exact ⟨data, hlen, hle, hlt⟩

/-! ## Runs of sends -/

/-- After a frame was torn by a failure that the leg does not remember, the writer takes nothing of
the next one. -/
def NothingAfterTear (leg : Leg) (s : State) (e : Bytes × List Reply) (_ : State) : Prop :=
  s.torn = true → s.gaveUp = false → (leg.header e.1.length).isSome → leg.takesNone e.2 = true

instance (leg : Leg) (s : State) (e : Bytes × List Reply) (s' : State) :
    Decidable (NothingAfterTear leg s e s') :=
  inferInstanceAs (Decidable (_ → _))

def Inv (s : State) : Prop := ∃ whole cut, Holds s.pipe s.torn whole cut ∧ whole.Sublist s.sent

theorem Inv.init : Inv init := ⟨[], [], ⟨rfl, by simp, rfl⟩, nil_sublist _⟩

theorem Inv.step {leg : Leg} {s s' : State} {e : Bytes × List Reply} (hinv : Inv s)
    (h : step leg s e = some s') (hclean : NothingAfterTear leg s e s') : Inv s' := by
  obtain ⟨whole, cut, hholds, hsub⟩ := hinv
  unfold FramedPipe.step send at h
  split at h
  · cases h
  · simp only [Option.some.injEq] at h
    split at h
    · subst h
      exact ⟨whole, cut, hholds, hsub.trans (sublist_append_left _ _)⟩
    · rename_i header hheader
      obtain ⟨rfl, hlen⟩ := Leg.header_eq hheader
      split at h
      · subst h
        exact ⟨whole, cut, hholds, hsub.trans (sublist_append_left _ _)⟩
      · rename_i hopen
        have hle := leg.writeFrame_part (beBytes 4 e.1.length) e.1 e.2
        have hnone (htorn : s.torn = true) :
            (leg.writeFrame (beBytes 4 e.1.length) e.1 e.2).1 = [] :=
          Leg.writeFrame_of_takesNone (ne_nil_of_length_pos (by simp))
            (hclean htorn (by simpa using hopen) (by simp [hheader])) e.1
        subst h
        obtain ⟨whole', cut', hholds', hsub'⟩ := hholds.append hlen hle hnone
        exact ⟨whole', cut', hholds', hsub'.trans (hsub.append_right _)⟩

/-- **A reader gets what was sent.** Whatever the writer accepts and however its calls end, as long
as it takes nothing behind a frame that was torn by a failure the leg does not remember, the
messages read up to the first error are messages sent, in order. -/
theorem received_sublist_sent {leg : Leg} {es : List (Bytes × List Reply)} {s : State}
    {caps : List Nat} (hrun : Lts.run (step leg) init es = some s)
    (hclean : Lts.Along (step leg) (NothingAfterTear leg) init es) :
    (received caps s.pipe).Sublist s.sent := by
  obtain ⟨whole, cut, hholds, hsub⟩ : Inv s :=
    Lts.run_inv_along (fun _ _ _ hi hs hp => Inv.step hi hs hp) es Inv.init hclean hrun
  exact hholds.received.sublist.trans hsub

/-- A message that the writer takes in three pieces, and one that times out after five bytes. -/
def timesOut : List (Bytes × List Reply) :=
  [([1, 2], [.accepts 4, .accepts 1, .accepts 1, .accepts 0]),
    ([3, 4], [.accepts 4, .accepts 1, .fails .timedOut]), ([5], [])]

theorem received_sublist_sent_timesOut :
    ∃ s, Lts.run (step (.embedded 8)) init timesOut = some s ∧ received [8, 8] s.pipe = [[1, 2]] ∧
      (received [8, 8] s.pipe).Sublist s.sent := by
  have hclean : Lts.Along (step (.embedded 8)) (NothingAfterTear (.embedded 8)) init timesOut := by
    decide
  exact ⟨_, rfl, by decide, received_sublist_sent rfl hclean⟩

/-- An error of another kind after five bytes of a frame, then a frame that is accepted. -/
def fails : List (Bytes × List Reply) :=
  [([1, 1, 1, 1, 1, 1], [.accepts 4, .accepts 1, .fails (.other 0)]),
    ([2], [.accepts 4, .accepts 1, .accepts 0])]

/-- The reader gets a message that was not sent, with bytes of both that were. -/
def Mixes (leg : Leg) : Prop :=
  ∃ s, Lts.run (step leg) init fails = some s ∧ received [8] s.pipe = [[1, 0, 0, 0, 1, 2]] ∧
    ¬(received [8] s.pipe).Sublist s.sent

theorem received_mixed : Mixes (.embedded 8) ∧ Mixes .tcp :=
  ⟨⟨_, rfl, by decide, by decide⟩, ⟨_, rfl, by decide, by decide⟩⟩

end FramedPipe

end PhantomProtocol
