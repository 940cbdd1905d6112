/-
**Bytes packed in a 64-bit word.**

`shiftIn` makes room for a byte at the low end of a word and puts it there; `byteAt w k` is the
byte `k` positions above the low end. A byte just shifted in is at position 0 and every other byte
moved up by one (`byteAt_shiftIn_zero`, `byteAt_shiftIn_succ`), and shifting the word down by a byte
moves them back (`byteAt_shiftRight`).
-/

import Mathlib.Data.Nat.Basic

namespace Bytes

/-- Shift a word up by one byte and put `b` at its low end. -/
def shiftIn (w : BitVec 64) (b : BitVec 8) : BitVec 64 := w <<< 8 ||| b.setWidth 64

/-- The byte at position `k`, counted from the low end. -/
def byteAt (w : BitVec 64) (k : Nat) : BitVec 8 := (w >>> (8 * k)).setWidth 8

theorem byteAt_shiftIn_zero (w : BitVec 64) (b : BitVec 8) : byteAt (shiftIn w b) 0 = b := by
  ext i below
  simp [byteAt, shiftIn]

theorem byteAt_shiftIn_succ (w : BitVec 64) (b : BitVec 8) {k : Nat} (inside : k < 7) :
    byteAt (shiftIn w b) (k + 1) = byteAt w k := by
  ext i below
  have high : ¬ 8 * (k + 1) + i < 8 := by omega
  have fits : 8 * (k + 1) + i < 64 := by omega
  have beyond : b.getLsbD (8 * (k + 1) + i) = false := BitVec.getLsbD_of_ge b _ (by omega)
  have back : 8 * (k + 1) + i - 8 = 8 * k + i := by omega
  have inWord : w.getLsbD (8 * k + i) = w[8 * k + i] := BitVec.getLsbD_eq_getElem (by omega)
  simp [byteAt, shiftIn, high, fits, back, beyond, inWord]

theorem byteAt_shiftRight (w : BitVec 64) (k : Nat) : byteAt (w >>> 8) k = byteAt w (k + 1) := by
  unfold byteAt
  rw [← BitVec.shiftRight_add, show 8 + 8 * k = 8 * (k + 1) by omega]

/-- The first byte placed in an empty word. -/
theorem byteAt_or_zero (b : BitVec 8) : byteAt (0 ||| b.setWidth 64) 0 = b := by
  ext i below
  simp [byteAt]

/-- Masking with `0xff` reads the low byte. -/
theorem toNat_and_mask (w : BitVec 64) : (w &&& 0xff).toNat = (byteAt w 0).toNat := by
  have mask : (0xff : BitVec 64).toNat = 2 ^ 8 - 1 := by decide
  rw [BitVec.toNat_and, mask, Nat.and_two_pow_sub_one_eq_mod]
  simp [byteAt]

end Bytes
