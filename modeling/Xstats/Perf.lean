/-
**Reading a hardware event** (`hpc_cnt.c`, `stat.c`, `sbstat.c`, `micstat.c`).

All four modules keep, for each event of a counter, what they read of it last, and form the same sum in
`perf_restart`: of every event the count since the last reading, scaled up by the share of the time that
it was running, in floating point. A count that went back is left out, and so is one above a threshold;
in either case the new reading is kept.

* `PerfEventValue.scaled_of_steady`: of an event that ran all the time, what is added is the count.
-/

import Xstats.Lib.Rounding

namespace Xstats

/-- What a read of an event returned: the count, and for how long it was enabled and running. It is the
`struct perf_event_value` of haswellstat, sbstat and micstat, and all of xstat's
`struct perf_counter_per_cpu` but the event. -/
structure PerfEventValue where
  total : BitVec 64
  enabled : BitVec 64
  running : BitVec 64
  deriving DecidableEq, Repr

namespace PerfEventValue

/-- The value before the first read. -/
def zero : PerfEventValue := ⟨0, 0, 0⟩

/-- `perf_overflow_threshold`. -/
def perfOverflowThreshold : Nat := 2000000000000

/-- `(uint64_t) ((double) count * enabled / running + 0.5)`, in the arithmetic the code was compiled to.
A number that does not fit into 64 bits, which C does not convert, stays above the threshold here. -/
def scaledCount (ρ : Rounding) (count enabled running : BitVec 64) : Nat :=
  ⌊ρ.round (ρ.round (ρ.round (ρ.round count.toNat * ρ.round enabled.toNat) /
    ρ.round running.toNat) + 1 / 2)⌋₊

/-- What an iteration of `perf_restart` adds to its total for an event that it read as `ret`. -/
def scaled (ρ : Rounding) (last ret : PerfEventValue) : BitVec 64 :=
  if ret.total < last.total ∨ ret.enabled < last.enabled ∨ ret.running ≤ last.running then 0
  else
    let tmp := scaledCount ρ (ret.total - last.total) (ret.enabled - last.enabled)
      (ret.running - last.running)
    if tmp > perfOverflowThreshold then 0 else BitVec.ofNat 64 tmp

/-- The event ran whenever it was enabled, and counted no more than the threshold from one reading to
the other, nothing at all if there was no time between them. -/
structure Steady (last ret : PerfEventValue) : Prop where
  total_le : last.total ≤ ret.total
  running_le : last.running ≤ ret.running
  enabled_eq : last.enabled = last.running ∧ ret.enabled = ret.running
  idle : ret.running = last.running → ret.total = last.total
  small : (ret.total - last.total).toNat ≤ perfOverflowThreshold

/-- **Without multiplexing**, and below the threshold, what is added is the count since the last
reading. -/
theorem scaled_of_steady (ρ : Rounding) {last ret : PerfEventValue} (steady : Steady last ret) :
    scaled ρ last ret = ret.total - last.total := by
  obtain ⟨total, running, ⟨enabledLast, enabledRet⟩, idle, small⟩ := steady
  have counted : ¬ ret.total < last.total := BitVec.not_lt.mpr total
  have enabled : ¬ ret.enabled < last.enabled := by
    rw [enabledLast, enabledRet]
    exact BitVec.not_lt.mpr running
  by_cases moved : ret.running ≤ last.running
  · have same := BitVec.le_antisymm moved running
    rw [scaled, if_pos (.inr (.inr moved)), idle same, BitVec.sub_self]
    rfl
  · have time : 0 < (ret.running - last.running).toNat := by
      rw [BitVec.toNat_sub_of_le running]
      have := BitVec.lt_def.mp (BitVec.not_le.mp moved)
      omega
    have count : scaledCount ρ (ret.total - last.total) (ret.enabled - last.enabled)
        (ret.running - last.running) = (ret.total - last.total).toNat := by
      rw [scaledCount, enabledLast, enabledRet]
      exact ρ.scaled_eq (small.trans (by decide)) (by exact_mod_cast time)
    rw [scaled, if_neg (by simp only [counted, enabled, moved, or_self, not_false_eq_true])]
    simp only [count, not_lt.mpr small, if_false, BitVec.ofNat_toNat, BitVec.setWidth_eq]

end PerfEventValue

end Xstats
