/-
**Writing the sampling period** (`store_period_attr`, `micstat_store_period`).

All four modules take a new period from text and keep the old one unless the number is in range. They
differ in the least number that they take.

* `accepted_storePeriod`: the period stays in range.
-/

import Xstats.Lib.Decimal

namespace Xstats

/-- What becomes of the period when `buf` is written, where the numbers above `low` and below ten
thousand are taken. `kstrtoul` is the kernel's, `none` for an error. -/
def storePeriod (low : BitVec 64) (kstrtoul : List Char → Option (BitVec 64)) (buf : List Char)
    (period : BitVec 32) : BitVec 32 :=
  match kstrtoul buf with
  | some tmp => if tmp > low ∧ tmp < 10000 then tmp.setWidth 32 else period
  | none => period

theorem accepted_storePeriod (low : BitVec 64) (kstrtoul : List Char → Option (BitVec 64))
    (buf : List Char) (period : BitVec 32)
    (accepted : low.toNat < period.toNat ∧ period.toNat ≤ 9999) :
    low.toNat < (storePeriod low kstrtoul buf period).toNat ∧
      (storePeriod low kstrtoul buf period).toNat ≤ 9999 := by
  unfold storePeriod
  split
  · rename_i tmp _
    split
    · rename_i inside
      have above : low.toNat < tmp.toNat := BitVec.lt_def.mp inside.1
      have below : tmp.toNat < 10000 := BitVec.lt_def.mp inside.2
      have small : (tmp.setWidth 32).toNat = tmp.toNat := by
        rw [BitVec.toNat_setWidth]
        omega
      constructor <;> omega
    · exact accepted
  · exact accepted

/-- `kstrtoul` as far as it reads decimal numbers. -/
def decimalUlong (text : List Char) : Option (BitVec 64) :=
  match Decimal.readNatural text with
  | some (n, []) | some (n, ['\n']) => if n < 2 ^ 64 then some (BitVec.ofNat 64 n) else none
  | _ => none

end Xstats
