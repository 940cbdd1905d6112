/-
**The pace of micstat** (`kthread_function`).

micstat computes `tosleep` where it calls `msleep`, without a lock. Its threads go from pass to pass as
those of haswellstat do, and its client works on the counters only where no thread is alive.

* `micPaced`: micstat as a module whose samples keep the pace that the common part says.
-/

import Xstats.Haswellstat.Pace
import Xstats.Micstat.Windows

namespace Xstats.Micstat

open Haswellstat Transition

def SamplerPc.restStage : SamplerPc → RestStage
  | .msleep => .sleeping
  | _ => .ready

/-- Where a thread is, or would be if there were one. -/
def MicState.restStage (s : MicState) (tid : Nat) : RestStage :=
  (s.samplers tid).elim .ready fun th => th.pc.restStage

/-- The thread whose step it is. -/
def MicAction.thread : MicAction → Option Nat
  | .sampler tid => some tid
  | _ => none

section Stages

variable {ncpus : Nat} {s s' : MicState} {tid : Nat}

theorem restStage_of_dead (dead : s.alive tid = false) : s.restStage tid = .ready := by
  unfold MicState.alive at dead
  unfold MicState.restStage
  cases here : s.samplers tid with
  | none => rfl
  | some th =>
    rw [here, Option.any_some] at dead
    rw [Option.elim_some]
    cases place : th.pc <;> rw [place] at dead <;> first | rfl | cases dead

/-- A thread that is woken or stopped stays where it is on its way. -/
theorem restStage_mapSampler {f : Sampler → Sampler}
    (kept : ∀ th, (f th).pc.restStage = th.pc.restStage) (t : Nat) :
    (s.mapSampler t f).restStage tid = s.restStage tid := elim_update_map kept t tid

theorem restStage_wakeUp (th : Sampler) : th.wakeUp.pc.restStage = th.pc.restStage := by
  unfold Sampler.wakeUp
  by_cases created : th.pc = .created
  · simp [created, SamplerPc.restStage]
  · simp [created]

theorem restStage_client (inv : MicInv ncpus s) {ok : Bool} (taken : s.stepClient ncpus ok = some s') :
    s'.restStage tid = s.restStage tid := by
  have place := inv.place
  unfold MicState.stepClient at taken
  cases here : s.client with
  | idle | unloaded | oops | crashed =>
    simp only [here] at taken
    cases taken
  | reset | exitCounters =>
    simp only [here, Option.some.injEq] at taken
    subst taken
    split <;> rfl
  | kthreadCreate =>
    rw [here] at place
    have ready : s.restStage tid = .ready := restStage_of_dead (place.2 tid)
    simp only [here, Option.some.injEq] at taken
    subst taken
    cases ok with
    | false => rfl
    | true =>
      rw [ready]
      show (Function.update s.samplers s.nextTid (some ⟨.created, false⟩) tid).elim _ _ = RestStage.ready
      by_cases new : tid = s.nextTid
      · rw [new, Function.update_self]
        rfl
      · rw [Function.update_of_ne new]
        exact ready
  | setScheduler =>
    simp only [here, Option.some.injEq] at taken
    subst taken
    split <;> rfl
  | wakeUp =>
    simp only [here, Option.some.injEq] at taken
    subst taken
    split
    · exact restStage_mapSampler restStage_wakeUp _
    · rfl
  | kthreadStop =>
    simp only [here, Option.some.injEq] at taken
    subst taken
    split
    · let f : Sampler → Sampler := fun th => { th with shouldStop := true }.wakeUp
      have kept : ∀ th, (f th).pc.restStage = th.pc.restStage := fun th => restStage_wakeUp _
      exact restStage_mapSampler kept _
    · rfl
  | join =>
    simp only [here] at taken
    obtain ⟨_, step⟩ := Option.ite_none_left_eq_some.mp taken
    cases step
    split <;> rfl

theorem restStage_others (inv : MicInv ncpus s) {a : MicAction} (taken : s.step ncpus a = some s')
    (other : a.thread ≠ some tid) : s'.restStage tid = s.restStage tid := by
  cases a with
  | micstatStoreCtrl buf =>
    obtain ⟨_, step⟩ := Option.ite_none_right_eq_some.mp taken
    cases step
    unfold MicState.storeCtrl
    split <;> (try split) <;> rfl
  | micstatExit =>
    obtain ⟨_, step⟩ := Option.ite_none_right_eq_some.mp taken
    cases step
    rfl
  | client ok => exact restStage_client inv taken
  | sampler t =>
    simp only [MicState.step, MicState.stepSampler, Option.bind_eq_bind, Option.bind_eq_some_iff,
      Option.pure_def, Option.some.injEq] at taken
    obtain ⟨th, thread, pc, moved, rfl⟩ := taken
    show (Function.update s.samplers t _ tid).elim _ _ = s.restStage tid
    rw [Function.update_of_ne fun same => other (by rw [same]; rfl)]
    rfl

theorem restStage_own (taken : s.step ncpus (.sampler tid) = some s') :
    RestMove (s.work (.sampler tid)) (s.restStage tid) (s'.restStage tid) := by
  simp only [MicState.step, MicState.stepSampler, Option.bind_eq_bind, Option.bind_eq_some_iff,
    Option.pure_def, Option.some.injEq] at taken
  obtain ⟨th, thread, pc, moved, rfl⟩ := taken
  have after : (s.mapSampler tid fun th => { th with pc }).restStage tid = pc.restStage := by
    show (Function.update s.samplers tid ((s.samplers tid).map _) tid).elim _ _ = _
    rw [Function.update_self, thread]
    rfl
  rw [after]
  simp only [MicState.work, MicState.restStage, thread, Option.any_some, Option.elim_some]
  cases here : th.pc with
  | created | returned | cancelled =>
    rw [here] at moved
    cases moved
  | woken | testStop =>
    cases stop : th.shouldStop <;> rw [here, stop] at moved <;> cases moved <;> exact .stays
  | testOn =>
    cases on : s.on <;> rw [here, on] at moved <;> cases moved <;> exact .stays
  | rollBuffer =>
    rw [here] at moved
    cases moved
    exact .rolls (by decide)
  | msleep =>
    rw [here] at moved
    cases moved
    exact .wakes

theorem restStage_alone (inv : MicInv ncpus s) {a : MicAction} (busy : s.work a ≠ .quiet)
    (other : a.thread ≠ some tid) : s.restStage tid = .ready := by
  refine restStage_of_dead (Bool.eq_false_of_not_eq_true fun living => ?_)
  obtain ⟨th, thread, lives⟩ := alive_eq_true.mp living
  obtain ⟨task, on⟩ := inv.only tid th thread lives
  cases a with
  | micstatStoreCtrl | micstatExit => exact busy rfl
  | client ok =>
    have place := inv.place
    cases here : s.client with
    | reset i =>
      rw [here] at place
      rw [show s.on = false from place] at on
      cases on
    | _ => simp [MicState.work, here] at busy
  | sampler t =>
    simp only [MicState.work, ne_eq, ite_eq_right_iff, reduceCtorEq, imp_false, not_not,
      Option.any_eq_true, decide_eq_true_eq] at busy
    obtain ⟨th', thread', rolls⟩ := busy
    have named := (inv.only t th' thread' (by rw [rolls]; rfl)).1
    rw [task] at named
    cases named
    exact other rfl

end Stages

theorem micInv_of_reachable {o : InitOutcomes} {s : MicState}
    (initialised : (micstatInitEvents micTable o).1 = 0)
    (reached : Reachable (MicState.step o.ncpus) (micstatInit o) s) : MicInv o.ncpus s := by
  obtain ⟨_, run⟩ := reached
  exact micInv_of_run initialised run

/-- micstat. -/
def micPaced : PacedModule where
  toStatModule := micModule
  thread := MicAction.thread
  stage := MicState.restStage
  oh := ⟨_, rfl, rfl⟩
  fresh := fun _ _ => rfl
  own := fun {o _ a _ tid} taken mine => by
    cases a with
    | sampler t =>
      cases mine
      have moved : MicState.step o.ncpus _ (.sampler tid) = some _ := taken
      exact restStage_own moved
    | micstatStoreCtrl | micstatExit | client => cases mine
  others := fun {_ _ _ _ _} initialised reached taken other =>
    restStage_others (micInv_of_reachable initialised reached) taken other
  alone := fun {_ _ _ _} initialised reached busy other =>
    restStage_alone (micInv_of_reachable initialised reached) busy other

end Xstats.Micstat
