import Mathlib.Control.Monad.Basic
import Mathlib.Data.Nat.Digits.Lemmas

/-!
# Borsh decoding, and cursors that follow it

Borsh writes the fields of a struct one after the other: a fixed array as its bytes, an integer in
little endian, a vector of bytes with its length as a `u32` before it, an option with a tag of zero or
one before it. A decoder takes a value from the front of a byte string and leaves the rest;
`fromSlice` demands that nothing is left.

A cursor walks over the same bytes and builds no value. `Follows` relates the two, and `Follows.bind`
is the rule for one field after another: what a cursor has checked on the way is collected in the
condition, to be compared at the end (`Follows.pure`) with what is asked of the whole value.
-/

namespace Borsh

open List

variable {α β γ : Type} {bytes : List UInt8}

def fromLeBytes (bytes : List UInt8) : Nat := Nat.ofDigits 256 (bytes.map UInt8.toNat)

theorem fromLeBytes_lt (bytes : List UInt8) : fromLeBytes bytes < 256 ^ bytes.length := by
  have hlt := Nat.ofDigits_lt_base_pow_length (b := 256) (l := bytes.map UInt8.toNat) (by decide) ?_
  · rwa [length_map] at hlt
  · intro digit hmem
    obtain ⟨byte, -, rfl⟩ := mem_map.1 hmem
    exact byte.toNat_lt

/-! ## Decoders -/

/-- A decoder takes a value from the front of a byte string and leaves the rest. -/
abbrev Decoder := StateT (List UInt8) Option

/-- `[u8; n]`. -/
def fixed (n : Nat) : Decoder { b : List UInt8 // b.length = n } := fun input =>
  if h : n ≤ input.length then some (⟨input.take n, length_take_of_le h⟩, input.drop n) else none

def u8 : Decoder UInt8 := do
  let b ← fixed 1
  pure (UInt8.ofNat (fromLeBytes b))

def u32 : Decoder UInt32 := do
  let b ← fixed 4
  pure (UInt32.ofNat (fromLeBytes b))

def u64 : Decoder UInt64 := do
  let b ← fixed 8
  pure (UInt64.ofNat (fromLeBytes b))

/-- `Vec<u8>`. -/
def vec : Decoder (List UInt8) := do
  let len ← u32
  let b ← fixed len.toNat
  pure b

/-- `Option<T>`. -/
def option (d : Decoder α) : Decoder (Option α) := do
  let tag ← u8
  if tag = 0 then pure none
  else if tag = 1 then do
    let a ← d
    pure (some a)
  else failure

def fromSlice (d : Decoder α) (input : List UInt8) : Option α :=
  match d input with
  | some (a, []) => some a
  | _ => none

theorem fromSlice_eq_some {d : Decoder α} {input : List UInt8} {a : α} :
    fromSlice d input = some a ↔ d input = some (a, []) := by
  unfold fromSlice
  split <;> simp_all

theorem fixed_eq_some {n : Nat} {input rest : List UInt8} {b : { b : List UInt8 // b.length = n }} :
    fixed n input = some (b, rest) ↔ n ≤ input.length ∧ b.1 = input.take n ∧ rest = input.drop n := by
  unfold fixed
  split
  · grind
  · rename_i h
    simp [h]

/-! ## Cursors -/

/-- A cursor moves a position; it fails where a decoder would, and may fail earlier. -/
abbrev Cursor := StateT Nat Option

/-- The cursor follows the decoder over `bytes`. Wherever it starts, and if `c` holds, it succeeds when
the decoder reads an `a` with `P a` there; it then returns `g a`, and stands where the decoder
stopped. -/
structure Follows (bytes : List UInt8) (c : Prop) (w : Cursor β) (d : Decoder α) (P : α → Prop)
    (g : α → β) : Prop where
  rest : ∀ {pos a rest}, d (bytes.drop pos) = some (a, rest) → pos ≤ bytes.length →
    ∃ pos' ≤ bytes.length, rest = bytes.drop pos'
  iff : ∀ {pos b pos'}, pos ≤ bytes.length → ((c ∧ w pos = some (b, pos')) ↔
    pos' ≤ bytes.length ∧ ∃ a, P a ∧ g a = b ∧ d (bytes.drop pos) = some (a, bytes.drop pos'))

namespace Follows

variable {c : Prop} {w : Cursor β} {d : Decoder α} {P : α → Prop} {g : α → β} {P' : γ → Prop}

theorem drop_injective {m n : Nat} (hm : m ≤ bytes.length) (hn : n ≤ bytes.length)
    (h : bytes.drop m = bytes.drop n) : m = n := by
  have hlen : (bytes.drop m).length = (bytes.drop n).length := by rw [h]
  rw [length_drop, length_drop] at hlen
  omega

theorem bind_eq_some {σ : Type} {x : StateT σ Option α} {f : α → StateT σ Option β} {s : σ}
    {r : β × σ} : (x >>= f) s = some r ↔ ∃ a s', x s = some (a, s') ∧ f a s' = some r := by
  show (x s).bind (fun p => f p.1 p.2) = some r ↔ _
  simp [Option.bind_eq_some_iff]

theorem bind {f : α → Decoder γ} {w' : β → Cursor Unit} (h : Follows bytes True w d P g)
    (h' : ∀ a, Follows bytes (c ∧ P a) (w' (g a)) (f a) P' fun _ => ()) :
    Follows bytes c (w >>= w') (d >>= f) P' fun _ => () where
  rest := by
    intro pos x rest hx hpos
    obtain ⟨a, mid, ha, hf⟩ := bind_eq_some.1 hx
    obtain ⟨pos', hpos', rfl⟩ := h.rest ha hpos
    exact (h' a).rest hf hpos'
  iff := by
    intro pos b pos'' hpos
    constructor
    · intro hwalk
      obtain ⟨hc, hwalk⟩ := hwalk
      obtain ⟨r, pos', hw, hw'⟩ := bind_eq_some.1 hwalk
      obtain ⟨hpos', a, hP, rfl, ha⟩ := (h.iff hpos).1 ⟨trivial, hw⟩
      obtain ⟨hpos'', x, hx, -, hf⟩ := ((h' a).iff hpos').1 ⟨⟨hc, hP⟩, hw'⟩
      exact ⟨hpos'', x, hx, rfl, bind_eq_some.2 ⟨a, _, ha, hf⟩⟩
    · intro hread
      obtain ⟨hpos'', x, hx, -, hread⟩ := hread
      obtain ⟨a, mid, ha, hf⟩ := bind_eq_some.1 hread
      obtain ⟨pos', hpos', rfl⟩ := h.rest ha hpos
      -- what is asked of the whole value decides what the cursor checks here
      obtain ⟨⟨hc, hP⟩, hw'⟩ := ((h' a).iff hpos').2 ⟨hpos'', x, hx, rfl, hf⟩
      obtain ⟨-, hw⟩ := (h.iff hpos).2 ⟨hpos', a, hP, rfl, ha⟩
      exact ⟨hc, bind_eq_some.2 ⟨_, pos', hw, hw'⟩⟩

/-- The end of a value, which the decoder builds from what it has read. -/
theorem pure {a : α} (h : P a ↔ c) :
    Follows bytes c (Pure.pure () : Cursor Unit) (Pure.pure a : Decoder α) P fun _ => () where
  rest := by
    intro pos x rest hx hpos
    cases hx
    exact ⟨pos, hpos, rfl⟩
  iff := by
    intro pos b pos' hpos
    constructor
    · intro hwalk
      obtain ⟨hc, hwalk⟩ := hwalk
      cases hwalk
      exact ⟨hpos, a, h.2 hc, rfl, rfl⟩
    · intro hread
      obtain ⟨hpos', x, hx, -, hread⟩ := hread
      have hpair := Option.some.inj hread
      obtain rfl : a = x := congrArg Prod.fst hpair
      obtain rfl : pos = pos' := drop_injective hpos hpos' (congrArg Prod.snd hpair)
      exact ⟨h.1 hx, rfl⟩

theorem last {w : Cursor Unit} {k : α → γ} (h : Follows bytes True w d P fun _ => ())
    (h' : ∀ a, P' (k a) ↔ c ∧ P a) :
    Follows bytes c w (d >>= fun a => Pure.pure (k a)) P' fun _ => () := by
  have hbind := h.bind fun a => Follows.pure (h' a)
  simpa using hbind

/-- A field of fixed size, of which the decoder keeps `k` and the cursor checks `P`. -/
theorem of_fixed {n : Nat} {k : { b : List UInt8 // b.length = n } → α}
    (hshort : ∀ pos, bytes.length < pos + n → w pos = none)
    (hw : ∀ pos b pos' x, x.1 = (bytes.drop pos).take n → pos + n ≤ bytes.length →
      (w pos = some (b, pos') ↔ P (k x) ∧ g (k x) = b ∧ pos' = pos + n)) :
    Follows bytes True w (fixed n >>= fun b => Pure.pure (k b)) P g where
  rest := by
    intro pos a rest hread hpos
    obtain ⟨x, mid, hx, hk⟩ := bind_eq_some.1 hread
    cases hk
    obtain ⟨hlen, -, rfl⟩ := fixed_eq_some.1 hx
    rw [length_drop] at hlen
    exact ⟨pos + n, by omega, drop_drop⟩
  iff := by
    intro pos b pos' hpos
    constructor
    · intro hwalk
      obtain ⟨-, hwalk⟩ := hwalk
      have hle : pos + n ≤ bytes.length := by grind
      have htake : ((bytes.drop pos).take n).length = n := by
        rw [length_take, length_drop]
        omega
      obtain ⟨hP, hg, rfl⟩ := (hw pos b pos' ⟨_, htake⟩ rfl hle).1 hwalk
      refine ⟨hle, _, hP, hg, bind_eq_some.2 ⟨⟨_, htake⟩, _, fixed_eq_some.2 ⟨?_, rfl, rfl⟩, ?_⟩⟩
      · rw [length_drop]
        omega
      · rw [drop_drop]
        rfl
    · intro hread
      obtain ⟨hpos', a, hP, hg, hread⟩ := hread
      obtain ⟨x, mid, hx, hk⟩ := bind_eq_some.1 hread
      obtain ⟨hlen, htake, hmid⟩ := fixed_eq_some.1 hx
      rw [length_drop] at hlen
      rw [drop_drop] at hmid
      have hpair := Option.some.inj hk
      obtain rfl : k x = a := congrArg Prod.fst hpair
      have hdrop : bytes.drop (pos + n) = bytes.drop pos' := hmid ▸ congrArg Prod.snd hpair
      have heq := drop_injective (by omega) hpos' hdrop
      exact ⟨trivial, (hw pos b pos' x htake (by omega)).2 ⟨hP, hg, heq.symm⟩⟩

/-- Both fail: the cursor, where the condition holds, and the decoder on values that are asked for. -/
theorem never (hrest : ∀ {pos a rest}, d (bytes.drop pos) = some (a, rest) → pos ≤ bytes.length →
      ∃ pos' ≤ bytes.length, rest = bytes.drop pos')
    (hw : c → ∀ pos, w pos = none) (hd : ∀ {input a rest}, d input = some (a, rest) → ¬P a) :
    Follows bytes c w d P g where
  rest := hrest
  iff := by
    intro pos b pos' hpos
    constructor
    · simp_all
    · grind


end Follows

end Borsh
