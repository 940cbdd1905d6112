/-
**The sleep between two samples of xstat** (`kthread_function`, `store_period_attr`).

`kthread_function` subtracts the time that `roll_buffer` took from `ctrl_period` and then forces the
difference into range. The quotient of two 64-bit numbers is cut to an `int`, the difference is formed in
`unsigned int` and stored in an `int` again, which is compared once with its sign and once without. It
reads `ctrl_period` anew each time, under no lock.

* `toInt_raised`: what the first comparison leaves of any `int` is the same with its sign and without.
* `raised_eq`: what is left of the period where the time fits into an `int`.
* `sleep_in_range`: every pass of every run asks for a sleep that is in range.
-/

import Xstats.Lib.SharedReads
import Xstats.Period
import Xstats.Xstat.Counters

namespace Xstats.Xstat

open SharedReads Transition

/-! ### The passes -/

/-- What a pass finds after `roll_buffer`: `get_time()`, and the timestamp in `node->ctxs[1]`. -/
structure AfterRoll where
  afterRoll : Word
  ts : Word
  deriving DecidableEq, Repr

/-- The time since the timestamp, in milliseconds. -/
def AfterRoll.elapsed (after : AfterRoll) : Nat := (after.afterRoll - after.ts).toNat / 1000000

/-- `kthread_function` from the end of `roll_buffer` to `msleep` or `schedule`. An `int` is kept as its
32 bits. -/
def kthreadSleep (after : AfterRoll) : Program (BitVec 32) (BitVec 32) :=
  let tosleep := ((after.afterRoll - after.ts) / 1000000).setWidth 32
  .read fun ctrlPeriod =>
    let tosleep := ctrlPeriod - tosleep - 1
    let tosleep := if tosleep.sle 0 then 0 else tosleep
    .read fun ctrlPeriod =>
      -- The comparison is one of `unsigned int`.
      if ctrlPeriod < tosleep then .read fun ctrlPeriod => .done ctrlPeriod else .done tosleep

/-- `store_period_attr`. -/
def storePeriodAttr (kstrtoul : List Char → Option Word) (buf : List Char) (ctrlPeriod : BitVec 32) :
    BitVec 32 :=
  storePeriod 0 kstrtoul buf ctrlPeriod

/-- A value that `store_period_attr` accepts. -/
def AcceptedPeriod (period : BitVec 32) : Prop := 1 ≤ period.toNat ∧ period.toNat ≤ 9999

/-- `ctrl_period` as `xstat_init` leaves it. -/
def initialCtrlPeriod : BitVec 32 := 1000

/-- The passes of a node's thread, with writes of `ctrl_period` between any two of their steps. -/
abbrev sleepStep (kstrtoul : List Char → Option Word) :
    State AfterRoll (BitVec 32) (BitVec 32) → Action AfterRoll (List Char) →
      Option (State AfterRoll (BitVec 32) (BitVec 32)) :=
  step kthreadSleep (storePeriodAttr kstrtoul)

/-! ### One pass -/

/-- What `tosleep` is after the first comparison: the difference where it is positive, and zero. -/
def raised (after : AfterRoll) (period : BitVec 32) : BitVec 32 :=
  let tosleep := period - ((after.afterRoll - after.ts) / 1000000).setWidth 32 - 1
  if tosleep.sle 0 then 0 else tosleep

/-- A pass makes two reads if the second finds no less than what is left, and else three. -/
theorem reads_of_kthreadSleep {after : AfterRoll} {reads : List (BitVec 32)} {tosleep : BitVec 32}
    (left : (kthreadSleep after).feed reads = some (.done tosleep)) :
    (∃ first second, reads = [first, second] ∧ raised after first ≤ second ∧
      tosleep = raised after first) ∨
    (∃ first second third, reads = [first, second, third] ∧ second < raised after first ∧
      tosleep = third) := by
  match reads with
  | [] => cases left
  | [_] => cases left
  | first :: second :: rest =>
    change Program.feed (if second < raised after first then .read fun period => .done period
      else .done (raised after first)) rest = _ at left
    by_cases beyond : second < raised after first
    · rw [if_pos beyond] at left
      match rest with
      | [] => cases left
      | [third] =>
        cases left
        exact .inr ⟨first, second, _, rfl, beyond, rfl⟩
      | _ :: _ :: _ => cases left
    · rw [if_neg beyond] at left
      match rest with
      | [] =>
        cases left
        exact .inl ⟨first, second, rfl, BitVec.not_lt.mp beyond, rfl⟩
      | _ :: _ => cases left

theorem toInt_zero : (0 : BitVec 32).toInt = 0 := rfl

/-- The `int` that the first comparison leaves is not negative. -/
theorem toInt_raised (after : AfterRoll) (period : BitVec 32) :
    (raised after period).toInt = (raised after period).toNat := by
  unfold raised
  dsimp only
  split
  · rfl
  · rename_i positive
    rw [BitVec.sle_eq_decide, decide_eq_true_eq, not_le, toInt_zero] at positive
    rw [BitVec.toInt_eq_toNat_cond] at positive ⊢
    split at positive
    · rw [if_pos ‹_›]
    · omega

/-- An accepted period is the same with its sign and without. -/
theorem AcceptedPeriod.toInt {period : BitVec 32} (accepted : AcceptedPeriod period) :
    period.toInt = period.toNat := by
  have high := accepted.2
  rw [BitVec.toInt_eq_toNat_cond, if_pos (by omega)]

/-- **What is left of the period**, where the time fits into an `int`. -/
theorem raised_eq {after : AfterRoll} (fits : after.elapsed < 2 ^ 31) {period : BitVec 32}
    (accepted : AcceptedPeriod period) :
    ((raised after period).toNat : Int) = max 0 ((period.toNat : Int) - 1 - after.elapsed) := by
  have high := accepted.2
  have quotient : ((after.afterRoll - after.ts) / 1000000).toNat = after.elapsed :=
    BitVec.toNat_udiv
  have narrowed : (((after.afterRoll - after.ts) / 1000000).setWidth 32).toNat = after.elapsed := by
    rw [BitVec.toNat_setWidth, quotient]
    omega
  have difference : (period - ((after.afterRoll - after.ts) / 1000000).setWidth 32 - 1).toInt =
      (period.toNat : Int) - 1 - after.elapsed := by
    rw [BitVec.toInt_eq_toNat_cond, BitVec.toNat_sub, BitVec.toNat_sub, narrowed,
      show (1 : BitVec 32).toNat = 1 from rfl]
    split <;> omega
  rw [← toInt_raised]
  unfold raised
  dsimp only
  rw [BitVec.sle_eq_decide, difference, toInt_zero]
  split
  · rename_i low
    rw [decide_eq_true_eq] at low
    rw [toInt_zero, max_eq_left low]
  · rename_i high
    rw [decide_eq_true_eq, not_le] at high
    rw [difference, max_eq_right high.le]

/-! ### Runs -/

/-- What is to hold of a sleep: it is in range, and no longer than the period it was compared with last
or else the period read after that; and with one period throughout it is what the time left of it. -/
structure SleepOk (after : AfterRoll) (reads : List (BitVec 32)) (tosleep : BitVec 32) : Prop where
  nonneg : 0 ≤ tosleep.toInt
  le : tosleep.toInt ≤ 9999
  compared : (∃ first second, reads = [first, second] ∧ tosleep.toInt ≤ second.toNat) ∨
    ∃ first second third, reads = [first, second, third] ∧ tosleep = third
  unchanged : ∀ period, (∀ v ∈ reads, v = period) → after.elapsed < 2 ^ 31 →
    tosleep.toInt = max 0 ((period.toNat : Int) - 1 - after.elapsed)

/-- **One pass**, by the values it read. -/
theorem sleepOk_of_reads {after : AfterRoll} {reads : List (BitVec 32)} {tosleep : BitVec 32}
    (accepted : ∀ v ∈ reads, AcceptedPeriod v)
    (left : (kthreadSleep after).feed reads = some (.done tosleep)) : SleepOk after reads tosleep := by
  rcases reads_of_kthreadSleep left with ⟨first, second, rfl, inside, rfl⟩ |
    ⟨first, second, _, rfl, beyond, rfl⟩
  · have small : (raised after first).toNat ≤ second.toNat := BitVec.le_def.mp inside
    have high := (accepted second (by simp)).2
    have int := toInt_raised after first
    refine ⟨by omega, by omega, .inl ⟨first, second, rfl, by omega⟩, fun period same fits => ?_⟩
    obtain rfl : first = period := same first (by simp)
    rw [int, raised_eq fits (accepted first (by simp))]
  · have high := (accepted tosleep (by simp)).2
    have int := (accepted tosleep (by simp)).toInt
    refine ⟨by omega, by omega, .inr ⟨first, second, tosleep, rfl, rfl⟩, fun period same fits => ?_⟩
    -- With one period throughout, what is left of it is not beyond it.
    obtain rfl : first = period := same first (by simp)
    obtain rfl : second = first := same second (by simp)
    have least := raised_eq fits (accepted second (by simp))
    have more : second.toNat < (raised after second).toNat := BitVec.lt_def.mp beyond
    have positive := (accepted second (by simp)).1
    omega

/-- **Every sleep is in range.** Of every pass of a run, whatever the two timestamps are and however
writes of `ctrl_period` fall between its reads. -/
theorem sleep_in_range {kstrtoul : List Char → Option Word} {period : BitVec 32}
    {trace : List (State AfterRoll (BitVec 32) (BitVec 32) × Action AfterRoll (List Char))}
    {s : State AfterRoll (BitVec 32) (BitVec 32)} (init : AcceptedPeriod period)
    (run : Run (sleepStep kstrtoul) (.initial period) trace s) :
    ∀ pass ∈ s.finished, SleepOk pass.1.input pass.1.reads pass.2 := by
  intro pass member
  obtain ⟨left, accepted⟩ := finished_spec run init (accepted_storePeriod 0 kstrtoul) _ member
  exact sleepOk_of_reads accepted left

/-- A pass that took 50 milliseconds, from the period that `xstat_init` chose. It is compared with the
9 that was written since, and then reads the 20 that came after it. -/
theorem sleep_in_range_twice_written :
    ∃ trace s, ∃ pass ∈ s.finished,
      Run (sleepStep decimalUlong) (.initial initialCtrlPeriod) trace s ∧
      pass = (⟨⟨50000000, 0⟩, [1000, 9, 20]⟩, 20) ∧ SleepOk pass.1.input pass.1.reads pass.2 := by
  have done : (exec (sleepStep decimalUlong) (.initial initialCtrlPeriod)
      [.start ⟨50000000, 0⟩, .read, .write "9".toList, .read, .write "20\n".toList, .read,
        .finish]).any fun s => s.finished == [(⟨⟨50000000, 0⟩, [1000, 9, 20]⟩, 20)] := by
    decide +kernel
  obtain ⟨trace, s, run, _, same⟩ := run_of_exec_any done
  have member : (⟨⟨50000000, 0⟩, [1000, 9, 20]⟩, 20) ∈ s.finished := by simp [eq_of_beq same]
  exact ⟨trace, s, _, member, run, rfl, sleep_in_range ⟨by decide, by decide⟩ run _ member⟩

end Xstats.Xstat
