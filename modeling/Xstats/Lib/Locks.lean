/-
**Locks and their holders.**

A system with several parties and several locks keeps two tables: which lock each party is inside of,
which its place in its program tells, and whom each lock was given to. `Agree` says that they tell the
same. An acquisition of a free lock and a release change both, and keep them in agreement; everything
else changes neither.

* `Agree.acquire`, `Agree.release`: the two steps.
* `Agree.exclusive`: no two parties are inside of one lock.
-/

import Mathlib.Logic.Function.Basic

namespace Locks

variable {κ ι : Type} {holds : κ → Option ι} {holder : ι → Option κ}

/-- Party `k` is inside of lock `i` if and only if the lock was given to it. -/
def Agree (holds : κ → Option ι) (holder : ι → Option κ) : Prop :=
  ∀ k i, holds k = some i ↔ holder i = some k

theorem agree_none : Agree (fun _ : κ => (none : Option ι)) fun _ => none := by
  intro k i
  constructor <;> exact fun none => by cases none

/-- **Mutual exclusion.** -/
theorem Agree.exclusive (agree : Agree holds holder) {k k' : κ} {i : ι} (inside : holds k = some i)
    (inside' : holds k' = some i) : k = k' := by
  have first := (agree k i).mp inside
  rw [(agree k' i).mp inside'] at first
  exact (Option.some.inj first).symm

variable [DecidableEq κ] [DecidableEq ι]

/-- A party that is inside of no lock acquires a free one. -/
theorem Agree.acquire (agree : Agree holds holder) {k : κ} {i : ι} (outside : holds k = none)
    (free : holder i = none) :
    Agree (Function.update holds k (some i)) (Function.update holder i (some k)) := by
  intro k' i'
  have before := agree k' i'
  rw [Function.update_apply, Function.update_apply]
  by_cases party : k' = k
  · by_cases lock : i' = i
    · simp [party, lock]
    · rw [if_pos party, if_neg lock, ← before, party, outside]
      simp [Ne.symm lock]
  · by_cases lock : i' = i
    · rw [if_neg party, if_pos lock, before, lock, free]
      simp [Ne.symm party]
    · rw [if_neg party, if_neg lock]
      exact before

/-- A party releases the lock that it is inside of. -/
theorem Agree.release (agree : Agree holds holder) {k : κ} {i : ι} (inside : holds k = some i) :
    Agree (Function.update holds k none) (Function.update holder i none) := by
  intro k' i'
  have before := agree k' i'
  rw [Function.update_apply, Function.update_apply]
  by_cases party : k' = k
  · rw [if_pos party]
    by_cases lock : i' = i
    · simp [lock]
    · rw [if_neg lock, ← before, party, inside]
      simp [Ne.symm lock]
  · rw [if_neg party]
    by_cases lock : i' = i
    · rw [if_pos lock, lock]
      refine iff_of_false (fun theirs => ?_) (fun none => by cases none)
      exact party (agree.exclusive theirs inside)
    · rw [if_neg lock]
      exact before

end Locks
