/-
**The temperature word** (`temp_restart`, and `temp_scnprintf` with `TEMP_DETAIL`).

Three temperatures go into one word, packed in `int` and then widened: from `tjmax` 128 on with its sign.
With `TEMP_DETAIL` the formatter takes all three out again.

* `toNat_packed`: three numbers below 256 side by side.
* `temp_word_decodes`: the formatter prints the temperatures that were packed.
-/

import Xstats.Lib.BitFields
import Xstats.Xstat.Restart

namespace Xstats.Xstat

open BitFields BoundedText

/-! ### The registers -/

/-- `tjmax` in the temperature target register. -/
def targetTjmax : Field := ⟨16, 8⟩

/-- The offset in the temperature target register. -/
def targetOffset : Field := ⟨8, 8⟩

/-- The readout in the thermal status register. -/
def statusReadout : Field := ⟨16, 7⟩

/-! ### The formatter -/

/-- What `temp_scnprintf` takes out of a word, with `TEMP_DETAIL`. -/
structure TempDetail where
  tjmax : BitVec 32
  max : BitVec 32
  tpkg : BitVec 32
  deriving DecidableEq, Repr

/-- The masks and shifts of `temp_scnprintf`, with `TEMP_DETAIL`. -/
def tempDetail (data : Word) : TempDetail where
  tjmax := ((data >>> 24) &&& 0xff).setWidth 32
  max := ((data >>> 16) &&& 0xff).setWidth 32
  tpkg := (data &&& 0xff).setWidth 32

/-- `temp_scnprintf`, with `TEMP_DETAIL`. -/
def tempScnprintfDetail (limit : Int) (data : Word) : List Char :=
  let detail := tempDetail data
  scnprintf limit ("\"tjmax\":".toList ++ Decimal.signed detail.tjmax.toInt ++
    ",\"tmax\":".toList ++ Decimal.signed detail.max.toInt ++
    ",\"tpkg\":".toList ++ Decimal.signed detail.tpkg.toInt)

/-- A shift and a mask, narrowed to an `int`. -/
theorem toNat_narrowed (f : Field) (narrow : f.width < 32) (word : Word) :
    (((word >>> f.offset) &&& BitVec.ofNat 64 (2 ^ f.width - 1)).setWidth 32).toNat = f.get word := by
  have small : f.get word < 2 ^ 32 :=
    (f.get_lt word).trans (Nat.pow_lt_pow_right (by decide) narrow)
  rw [BitVec.toNat_setWidth, f.toNat_shiftRight_and word (by omega)]
  exact Nat.mod_eq_of_lt small

/-- A small number is the same with its sign and without. -/
theorem toInt_narrowed (f : Field) (narrow : f.width < 31) (word : Word) :
    (((word >>> f.offset) &&& BitVec.ofNat 64 (2 ^ f.width - 1)).setWidth 32).toInt = f.get word := by
  have small : f.get word < 2 ^ 30 :=
    (f.get_lt word).trans_le (Nat.pow_le_pow_right (by decide) (by omega))
  rw [BitVec.toInt_eq_toNat_cond, toNat_narrowed f (by omega), if_pos (by omega)]

/-! ### The word -/

/-- Three bytes side by side. -/
theorem toNat_packed {high middle low : BitVec 32} (highSmall : high.toNat < 2 ^ 8)
    (middleSmall : middle.toNat < 2 ^ 8) (lowSmall : low.toNat < 2 ^ 8) :
    (high <<< 24 ||| middle <<< 16 ||| low).toNat =
      high.toNat * 2 ^ 24 + middle.toNat * 2 ^ 16 + low.toNat := by
  have shiftHigh : high.toNat <<< 24 % 2 ^ 32 = high.toNat <<< 24 := by
    rw [Nat.shiftLeft_eq]
    omega
  have shiftMiddle : middle.toNat <<< 16 % 2 ^ 32 = middle.toNat <<< 16 := by
    rw [Nat.shiftLeft_eq]
    omega
  have inner : middle.toNat <<< 16 ||| low.toNat = middle.toNat <<< 16 + low.toNat :=
    (Nat.shiftLeft_add_eq_or_of_lt (by omega) _).symm
  have outer : high.toNat <<< 24 ||| (middle.toNat <<< 16 + low.toNat) =
      high.toNat <<< 24 + (middle.toNat <<< 16 + low.toNat) :=
    (Nat.shiftLeft_add_eq_or_of_lt (by rw [Nat.shiftLeft_eq]; omega) _).symm
  rw [BitVec.toNat_or, BitVec.toNat_or, BitVec.toNat_shiftLeft, BitVec.toNat_shiftLeft, shiftHigh,
    shiftMiddle, Nat.or_assoc, inner, outer, Nat.shiftLeft_eq, Nat.shiftLeft_eq, Nat.add_assoc]

/-- **The word**: the three temperatures, side by side in its low half. -/
theorem toNat_tempRestart {status target : Word}
    (offset_le : targetOffset.get target ≤ targetTjmax.get target)
    (readout_le : statusReadout.get status ≤ targetTjmax.get target) :
    ∃ packed : BitVec 32, tempRestart status target = packed.signExtend 64 ∧
      packed.toNat = targetTjmax.get target * 2 ^ 24 +
        (targetTjmax.get target - targetOffset.get target) * 2 ^ 16 +
        (targetTjmax.get target - statusReadout.get status) := by
  have tjmaxSmall : targetTjmax.get target < 2 ^ 8 := targetTjmax.get_lt target
  have tjmax : (((target >>> 16) &&& 0xff).setWidth 32 : BitVec 32).toNat = targetTjmax.get target :=
    toNat_narrowed targetTjmax (by decide) target
  have offset : (((target >>> 8) &&& 0xff).setWidth 32 : BitVec 32).toNat = targetOffset.get target :=
    toNat_narrowed targetOffset (by decide) target
  have readout : (((status >>> 16) &&& 0x7f).setWidth 32 : BitVec 32).toNat =
      statusReadout.get status :=
    toNat_narrowed statusReadout (by decide) status
  refine ⟨_, rfl, ?_⟩
  have middle := BitVec.toNat_sub_of_le (BitVec.le_def.mpr (offset.trans_le (offset_le.trans tjmax.ge)))
  have low := BitVec.toNat_sub_of_le (BitVec.le_def.mpr (readout.trans_le (readout_le.trans tjmax.ge)))
  rw [tjmax, offset] at middle
  rw [tjmax, readout] at low
  rw [toNat_packed (by omega) (by omega) (by omega), tjmax, middle, low]

/-! ### Unpacking -/

/-- What the formatter prints of three temperatures. -/
def tempText (tjmax max tpkg : Int) : List Char :=
  "\"tjmax\":".toList ++ Decimal.signed tjmax ++ ",\"tmax\":".toList ++ Decimal.signed max ++
    ",\"tpkg\":".toList ++ Decimal.signed tpkg

theorem bytes_of_packed {high middle low : Nat} (highSmall : high < 2 ^ 8) (middleSmall : middle < 2 ^ 8)
    (lowSmall : low < 2 ^ 8) :
    (high * 2 ^ 24 + middle * 2 ^ 16 + low) >>> 24 % 2 ^ 8 = high ∧
      (high * 2 ^ 24 + middle * 2 ^ 16 + low) >>> 16 % 2 ^ 8 = middle ∧
      (high * 2 ^ 24 + middle * 2 ^ 16 + low) >>> 0 % 2 ^ 8 = low := by
  simp only [Nat.shiftRight_eq_div_pow]
  omega

/-- **The temperatures come back.** Where neither of the two differences is negative, the formatter with
`TEMP_DETAIL` takes `tjmax` and both of them out of the word, and prints them. -/
theorem temp_word_decodes {status target : Word}
    (offset_le : targetOffset.get target ≤ targetTjmax.get target)
    (readout_le : statusReadout.get status ≤ targetTjmax.get target) :
    let tjmax : Int := targetTjmax.get target
    let max : Int := tjmax - targetOffset.get target
    let tpkg : Int := tjmax - statusReadout.get status
    let detail := tempDetail (tempRestart status target)
    (detail.tjmax.toInt = tjmax ∧ detail.max.toInt = max ∧ detail.tpkg.toInt = tpkg) ∧
      ∀ limit, tempScnprintfDetail limit (tempRestart status target) =
        scnprintf limit (tempText tjmax max tpkg) := by
  intro tjmax max tpkg detail
  have tjmaxSmall : targetTjmax.get target < 2 ^ 8 := targetTjmax.get_lt target
  obtain ⟨packed, word, toNat⟩ := toNat_tempRestart offset_le readout_le
  obtain ⟨high, middle, low⟩ := bytes_of_packed tjmaxSmall
    (show targetTjmax.get target - targetOffset.get target < 2 ^ 8 by omega)
    (show targetTjmax.get target - statusReadout.get status < 2 ^ 8 by omega)
  -- The three fields lie below the sign.
  have field : ∀ offset, offset + 8 ≤ 32 →
      (⟨offset, 8⟩ : Field).get (tempRestart status target) = packed.toNat >>> offset % 2 ^ 8 := by
    intro offset fits
    rw [word]
    exact Field.get_signExtend fits (by decide) packed
  have first : detail.tjmax.toInt = tjmax := by
    have read := toInt_narrowed ⟨24, 8⟩ (by decide) (tempRestart status target)
    rw [field 24 (by decide), toNat, high] at read
    exact read
  have second : detail.max.toInt = max := by
    have read := toInt_narrowed ⟨16, 8⟩ (by decide) (tempRestart status target)
    rw [field 16 (by decide), toNat, middle, Nat.cast_sub offset_le] at read
    exact read
  have third : detail.tpkg.toInt = tpkg := by
    have read := toInt_narrowed ⟨0, 8⟩ (by decide) (tempRestart status target)
    rw [field 0 (by decide), toNat, low, Nat.cast_sub readout_le] at read
    exact read
  refine ⟨⟨first, second, third⟩, fun limit => ?_⟩
  rw [← first, ← second, ← third]
  rfl

/-- A `tjmax` of 130 degrees, with which the packed `int` is negative. -/
theorem temp_word_decodes_negative :
    tempRestart 0x200000 0x820a00 = 0xffffffff82780062 ∧
      tempScnprintfDetail 4096 0xffffffff82780062 = scnprintf 4096 (tempText 130 120 98) := by
  have packed : tempRestart 0x200000 0x820a00 = 0xffffffff82780062 := by decide
  obtain ⟨_, printed⟩ := @temp_word_decodes 0x200000 0x820a00 (by decide) (by decide)
  exact ⟨packed, packed ▸ printed 4096⟩

end Xstats.Xstat
