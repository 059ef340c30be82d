import Mathlib.Algebra.Order.Ring.Nat

/-!
# Replay window

`security::replay_window`: the sliding window of the 1024 packet numbers up to the highest one
accepted, one bit each. Bit `i` of word `w` stands for the packet number `64 * w + i` below the
highest.
-/

namespace PhantomProtocol

def windowBits : Nat := 1024
def windowWords : Nat := 16

structure ReplayWindow where
  bitmap : Vector UInt64 windowWords
  highWatermark : UInt64
  initialized : Bool
deriving DecidableEq

namespace ReplayWindow

def new : ReplayWindow := ⟨Vector.replicate windowWords 0, 0, false⟩

/-- The word at `i`, and 0 outside the bitmap. -/
def word (bitmap : Vector UInt64 windowWords) (i : Nat) : UInt64 := bitmap[i]?.getD 0

/-- `shift_left`. Both loops of the source run from the high words down, so each word is computed
from words that have not been written yet. -/
def shiftLeft (bitmap : Vector UInt64 windowWords) (shift : Nat) : Vector UInt64 windowWords :=
  let wordShift := shift / 64
  let bitShift := shift % 64
  let moved : Vector UInt64 windowWords :=
    if wordShift > 0 then
      Vector.ofFn fun i => if i.1 < wordShift then 0 else word bitmap (i.1 - wordShift)
    else bitmap
  if bitShift > 0 then
    Vector.ofFn fun i =>
      if i.1 = 0 then word moved 0 <<< UInt64.ofNat bitShift
      else word moved i.1 <<< UInt64.ofNat bitShift |||
        word moved (i.1 - 1) >>> UInt64.ofNat (64 - bitShift)
  else moved

/-- `accept`: whether the packet number is new, and the window that remembers it. The two casts
`as usize` keep the low bits of the difference. -/
def acceptOn (w : ReplayWindow) (usizeBits : Nat) (seq : UInt64) : ReplayWindow × Bool :=
  if !w.initialized then
    ({ bitmap := w.bitmap.setIfInBounds 0 1, highWatermark := seq, initialized := true }, true)
  else if seq > w.highWatermark then
    let shift := (seq - w.highWatermark).toNat % 2 ^ usizeBits
    let bitmap :=
      if shift ≥ windowBits then Vector.replicate windowWords 0 else shiftLeft w.bitmap shift
    ({ w with bitmap := bitmap.setIfInBounds 0 (word bitmap 0 ||| 1), highWatermark := seq }, true)
  else
    let offset := (w.highWatermark - seq).toNat % 2 ^ usizeBits
    if offset ≥ windowBits then (w, false)
    else
      let mask : UInt64 := 1 <<< UInt64.ofNat (offset % 64)
      if word w.bitmap (offset / 64) &&& mask ≠ 0 then (w, false)
      else
        ({ w with
            bitmap := w.bitmap.setIfInBounds (offset / 64) (word w.bitmap (offset / 64) ||| mask) },
          true)

/-- `accept` on a 64-bit target. -/
def accept (w : ReplayWindow) (seq : UInt64) : ReplayWindow × Bool := w.acceptOn 64 seq

theorem toNat_mod_usize (x : UInt64) : x.toNat % 2 ^ 64 = x.toNat :=
  Nat.mod_eq_of_lt x.toNat_lt

end ReplayWindow

end PhantomProtocol
