/-
**The windows of the samples of micstat.**

micstat writes its flag after the loop of resets and without a lock, and stops its sampler before it
clears the flag. Its counters work as those of haswellstat and sbstat, with a table of its own; here it is
the third of the modules whose samples' windows are those that the common part says.

* `micModule`: its control, and what that does to the counters.
-/

import Xstats.Haswellstat.Windows
import Xstats.Micstat.Unload

namespace Xstats.Micstat

open Transition Haswellstat

/-- The table of micstat. -/
def micSamples : SampleTable :=
  { micTable with
    ts := ⟨_, rfl, rfl, rfl⟩
    intv := ⟨_, rfl, rfl⟩
    once := fun i cnt there ts => by
      have all : ∀ i : Fin micCounters.length, (micCounters.get i).restart = .tsRestart → i.val = 0 := by
        decide
      obtain ⟨inside, rfl⟩ := List.getElem?_eq_some_iff.mp there
      exact all ⟨i, inside⟩ ts
    perf := by decide }

/-- What a step of micstat does to the counters. That `micstat_exit` releases their events has no place
here: it does so when the sampler is gone. -/
def MicState.work (s : MicState) : MicAction → CounterWork
  | .client _ =>
    match s.client with
    | .reset i => .reset i
    | _ => .quiet
  | .sampler tid => if (s.samplers tid).any fun th => th.pc = .rollBuffer then .rollBuffer else .quiet
  | _ => .quiet

/-- No sampler was created, and the client is not in `set_on` beyond the first iteration of its loop. -/
structure MicState.Fresh (s : MicState) : Prop where
  samplers : ∀ tid, s.samplers tid = none
  reset : ∀ i, s.client = .reset i → i = 0
  kthreadCreate : s.client ≠ .kthreadCreate

theorem MicState.Fresh.step {ncpus : Nat} {s s' : MicState} {a : MicAction} (fresh : s.Fresh)
    (taken : s.step ncpus a = some s') (other : s.work a ≠ .reset 0) : s'.Fresh := by
  obtain ⟨samplers, reset, create⟩ := fresh
  have dead : ∀ tid, s.alive tid = false := fun tid => by simp [MicState.alive, samplers tid]
  have woken : ∀ (tid : Nat) (f : Sampler → Sampler) t, (s.mapSampler tid f).samplers t = none := by
    intro tid f t
    by_contra some
    obtain ⟨th, found⟩ := Option.ne_none_iff_exists'.mp some
    obtain ⟨old, thread, _⟩ := samplers_mapSampler found
    rw [samplers] at thread
    cases thread
  cases a with
  | micstatStoreCtrl buf =>
    obtain ⟨idle, step⟩ := Option.ite_none_right_eq_some.mp taken
    cases step
    unfold MicState.storeCtrl
    split
    · split
      · exact ⟨samplers, reset, create⟩
      · exact ⟨samplers, by simp, by simp⟩
    · split
      · exact ⟨samplers, by simp, by simp⟩
      · exact ⟨samplers, reset, create⟩
    · exact ⟨samplers, reset, create⟩
  | micstatExit =>
    obtain ⟨_, step⟩ := Option.ite_none_right_eq_some.mp taken
    cases step
    exact ⟨samplers, by simp, by simp⟩
  | sampler tid =>
    simp [MicState.step, MicState.stepSampler, samplers tid] at taken
  | client ok =>
    change s.stepClient ncpus ok = some s' at taken
    unfold MicState.stepClient at taken
    cases here : s.client with
    | idle | unloaded | oops | crashed =>
      rw [here] at taken
      cases taken
    | reset i =>
      obtain rfl := reset i here
      exact absurd (by simp only [MicState.work, here]) other
    | kthreadCreate => exact absurd here create
    | setScheduler =>
      rw [here] at taken
      cases taken
      split
      · exact ⟨samplers, by simp, by simp⟩
      · cases ok <;> exact ⟨samplers, by simp, by simp⟩
    | wakeUp =>
      rw [here] at taken
      cases taken
      split
      · exact ⟨woken _ _, by simp, by simp⟩
      · exact ⟨samplers, by simp, by simp⟩
    | kthreadStop exiting =>
      rw [here] at taken
      cases taken
      split
      · exact ⟨woken _ _, by simp, by simp⟩
      · exact ⟨samplers, by simp, by simp⟩
    | join exiting tid =>
      rw [here] at taken
      simp only [dead tid, Bool.false_eq_true, if_false, Option.some.injEq] at taken
      subst taken
      cases exiting <;> exact ⟨samplers, by simp, by simp⟩
    | exitCounters i =>
      rw [here] at taken
      cases taken
      split
      · exact ⟨samplers, by simp, by simp⟩
      · exact ⟨samplers, by simp, by simp⟩

/-- micstat. -/
def micModule : StatModule where
  table := micSamples
  σ := MicState
  α := MicAction
  start := micstatInit
  step := fun o => MicState.step o.ncpus
  work := MicState.work
  resets_first := fun o _ _ _ run rolls => by
    have init : (micstatInit o).Fresh :=
      ⟨fun _ => rfl, fun _ here => (by cases here), by simp [micstatInit]⟩
    refine resets_first_of_fresh MicState.Fresh init
      (fun _ _ _ fresh taken other => fresh.step taken other) (fun s a fresh rolls => ?_) run rolls
    cases a with
    | sampler tid => simp [MicState.work, fresh.samplers tid] at rolls
    | client ok =>
      simp only [MicState.work] at rolls
      split at rolls <;> cases rolls
    | micstatStoreCtrl | micstatExit => cases rolls

end Xstats.Micstat
