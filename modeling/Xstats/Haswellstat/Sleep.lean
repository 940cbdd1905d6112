/-
**The sleep between two samples of haswellstat, sbstat and micstat** (`kthread_function`,
`micstat_store_period`).

A pass of `kthread_function` reads `period` twice: once to subtract the overhead from it, and once for
the test whether the overhead is more than a fifth of it. `micstat_store_period` takes no lock, so that
the two reads may find different values.

* `bounded_iff`: a pass, by the two values it read.
* `sleep_iff`: in every run its sleep is as long as it should be exactly if the second value is less
  than five times the overhead, or the first is not.
* `sleep_wraps`: a write between the two reads makes the thread sleep for 49 days.
-/

import Xstats.Haswellstat.Counters
import Xstats.Lib.SharedReads
import Xstats.Period

namespace Xstats.Haswellstat

open SharedReads Transition

/-! ### The passes -/

/-- `st_oh` and `st_current` as `roll_buffer` left them. -/
structure Rolled where
  stOh : Word
  stCurrent : Word
  deriving DecidableEq, Repr

/-- The overhead of a pass, in milliseconds. -/
def Rolled.overhead (rolled : Rolled) : Nat := (rolled.stOh - rolled.stCurrent).toNat / 1000000

/-- The variable `oh` of `kthread_function`, an `unsigned int`. -/
def Rolled.oh (rolled : Rolled) : BitVec 32 :=
  ((rolled.stOh - rolled.stCurrent) / 1000000).setWidth 32

/-- `kthread_function` from the end of `roll_buffer` to `msleep`. All is in `unsigned int`. -/
def kthreadSleep (rolled : Rolled) : Program (BitVec 32) (BitVec 32) :=
  let oh := rolled.oh
  .read fun period =>
    let tosleep := period - oh
    .read fun period =>
      -- force overhead / period < 20%
      .done (if period < oh * 5 then oh * 4 else tosleep)

/-- `micstat_store_period`. -/
def micstatStorePeriod (kstrtoul : List Char → Option Word) (buf : List Char) (period : BitVec 32) :
    BitVec 32 :=
  storePeriod 100 kstrtoul buf period

/-- A value that `micstat_store_period` accepts. -/
def Accepted (period : BitVec 32) : Prop := 101 ≤ period.toNat ∧ period.toNat ≤ 9999

/-- `period` as `micstat_init` leaves it. -/
def initialPeriod : BitVec 32 := 1000

/-- The sampler's passes, with writes of `period` between any two of their steps. -/
abbrev sleepStep (kstrtoul : List Char → Option Word) :
    State Rolled (BitVec 32) (BitVec 32) → Action Rolled (List Char) →
      Option (State Rolled (BitVec 32) (BitVec 32)) :=
  step kthreadSleep (micstatStorePeriod kstrtoul)

/-- A sleep that keeps the overhead at a fifth and did not wrap. -/
def Bounded (oh : Nat) (tosleep : BitVec 32) : Prop :=
  4 * oh ≤ tosleep.toNat ∧ tosleep.toNat ≤ max 9999 (4 * oh)

/-- The overhead fits into `unsigned int` if five times of it does. -/
theorem toNat_overhead {rolled : Rolled} (fits : 5 * rolled.overhead < 2 ^ 32) :
    rolled.oh.toNat = rolled.overhead := by
  have quotient : ((rolled.stOh - rolled.stCurrent) / 1000000).toNat = rolled.overhead :=
    BitVec.toNat_udiv
  rw [Rolled.oh, BitVec.toNat_setWidth, quotient]
  omega

/-- **One pass**, by the values it read. -/
theorem bounded_iff {oh first second : BitVec 32} (fits : 5 * oh.toNat < 2 ^ 32)
    (accepted : Accepted first) (accepted' : Accepted second) :
    Bounded oh.toNat (if second < oh * 5 then oh * 4 else first - oh) ↔
      second.toNat < 5 * oh.toNat ∨ 5 * oh.toNat ≤ first.toNat := by
  obtain ⟨_, firstHigh⟩ := accepted
  obtain ⟨_, secondHigh⟩ := accepted'
  have five : (oh * 5).toNat = 5 * oh.toNat := by
    rw [BitVec.toNat_mul]
    show oh.toNat * 5 % 2 ^ 32 = _
    omega
  have four : (oh * 4).toNat = 4 * oh.toNat := by
    rw [BitVec.toNat_mul]
    show oh.toNat * 4 % 2 ^ 32 = _
    omega
  have guard : second < oh * 5 ↔ second.toNat < 5 * oh.toNat := by rw [BitVec.lt_def, five]
  by_cases heavy : second.toNat < 5 * oh.toNat
  · rw [if_pos (guard.mpr heavy)]
    exact iff_of_true ⟨four.ge, four.le.trans (le_max_right _ _)⟩ (.inl heavy)
  · rw [if_neg (mt guard.mp heavy), or_iff_right heavy]
    -- The overhead is below two seconds here, so that a wrap goes far beyond all bounds.
    have difference : (first - oh).toNat = (2 ^ 32 - oh.toNat + first.toNat) % 2 ^ 32 :=
      BitVec.toNat_sub ..
    unfold Bounded
    rw [difference]
    omega

/-! ### Runs -/

/-- A program that has ended after two reads made no more and no fewer. -/
theorem reads_of_kthreadSleep {rolled : Rolled} {reads : List (BitVec 32)} {tosleep : BitVec 32}
    (left : (kthreadSleep rolled).feed reads = some (.done tosleep)) :
    ∃ first second, reads = [first, second] ∧
      tosleep = if second < rolled.oh * 5 then rolled.oh * 4 else first - rolled.oh := by
  match reads with
  | [] => cases left
  | [_] => cases left
  | [first, second] =>
    cases left
    exact ⟨first, second, rfl, rfl⟩
  | _ :: _ :: _ :: _ => cases left

/-- **Every sleep.** Of every pass of a run, whatever overhead it measured below the limit and however
writes of `period` fall between its reads: its sleep is bounded if and only if the second value it read
is less than five times the overhead, or the first is not. -/
theorem sleep_iff {kstrtoul : List Char → Option Word}
    {trace : List (State Rolled (BitVec 32) (BitVec 32) × Action Rolled (List Char))}
    {s : State Rolled (BitVec 32) (BitVec 32)}
    (run : Run (sleepStep kstrtoul) (.initial initialPeriod) trace s)
    {pass : Pass Rolled (BitVec 32)} {tosleep : BitVec 32} (member : (pass, tosleep) ∈ s.finished)
    (fits : 5 * pass.input.overhead < 2 ^ 32) :
    ∃ first second, pass.reads = [first, second] ∧ Accepted first ∧ Accepted second ∧
      (Bounded pass.input.overhead tosleep ↔
        second.toNat < 5 * pass.input.overhead ∨ 5 * pass.input.overhead ≤ first.toNat) := by
  have init : Accepted initialPeriod := ⟨by decide, by decide⟩
  obtain ⟨left, accepted⟩ := finished_spec run init (accepted_storePeriod 100 kstrtoul) _ member
  dsimp only at left accepted
  obtain ⟨first, second, reads, rfl⟩ := reads_of_kthreadSleep left
  have low : Accepted first := accepted first (by simp [reads])
  have high : Accepted second := accepted second (by simp [reads])
  have oh := toNat_overhead fits
  refine ⟨first, second, reads, low, high, ?_⟩
  rw [← oh] at fits ⊢
  exact bounded_iff fits low high

/-- A pass whose overhead was 50 milliseconds, with the period that `micstat_init` chose. -/
theorem sleep_undisturbed :
    ∃ trace s, ∃ pass ∈ s.finished, Run (sleepStep decimalUlong) (.initial initialPeriod) trace s ∧
      Bounded pass.1.input.overhead pass.2 := by
  have done : (exec (sleepStep decimalUlong) (.initial initialPeriod)
      [.start ⟨50000000, 0⟩, .read, .read, .finish]).any fun s =>
        s.finished == [(⟨⟨50000000, 0⟩, [1000, 1000]⟩, 950)] := by decide +kernel
  obtain ⟨trace, s, run, _, same⟩ := run_of_exec_any done
  have member : (⟨⟨50000000, 0⟩, [1000, 1000]⟩, 950) ∈ s.finished := by simp [eq_of_beq same]
  obtain ⟨first, second, reads, _, _, iff⟩ := sleep_iff run member (by decide)
  cases reads
  exact ⟨trace, s, _, member, run, iff.mpr (.inr (by decide))⟩

/-- The overhead was 102 milliseconds and the period is 101 at the first read. Then 9999 is written,
the test of the second read lets the difference pass, and the difference has wrapped. -/
theorem sleep_wraps :
    ¬ ∀ kstrtoul trace s, Run (sleepStep kstrtoul) (.initial initialPeriod) trace s →
      ∀ pass ∈ s.finished, 5 * pass.1.input.overhead < 2 ^ 32 →
        Bounded pass.1.input.overhead pass.2 := by
  intro always
  have done : (exec (sleepStep decimalUlong) (.initial initialPeriod)
      [.write "101".toList, .start ⟨102000000, 0⟩, .read, .write "9999".toList, .read,
        .finish]).any fun s => s.finished == [(⟨⟨102000000, 0⟩, [101, 9999]⟩, 4294967295)] := by
    decide +kernel
  obtain ⟨trace, s, run, _, same⟩ := run_of_exec_any done
  have member : (⟨⟨102000000, 0⟩, [101, 9999]⟩, 4294967295) ∈ s.finished := by
    simp [eq_of_beq same]
  have bounded := always decimalUlong trace s run _ member (by decide)
  exact absurd bounded.2 (by decide)

end Xstats.Haswellstat
