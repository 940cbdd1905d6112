/-
**Which `kthread_stop` of haswellstat and sbstat finds a living sampler.**

`set_off` clears `on` under `ctrl_lock` and calls `kthread_stop` after it has released the lock. A
sampler whose test of `while (on)` falls between the two returns by itself, and `kthread_stop` then
follows a pointer to a thread that is gone. It also follows the error that `kthread_create` returned
where the last creation failed. `StopSafe` is the condition on a step that excludes both.

* `StopInv.step`: with one client, every step that meets the condition keeps the invariant.
* `doomed_of_not_stopSafe`, `Doomed.step`: a step that breaks the condition dooms the
  `kthread_stop` to come.
* `kthreadStop_living_iff`: the condition is exact for the runs of one client.
* `kthreadStop_after_return`: a sampler that sees `on` cleared first.
-/

import Xstats.Haswellstat.OneSampler

namespace Xstats.Haswellstat

open Transition

theorem ClientPc.creating_of_cleared {pc : ClientPc} (cleared : pc.cleared = true) :
    pc.creating = false := by
  cases pc with
  | unlock call lon => cases call <;> cases lon <;> first | rfl | cases cleared
  | _ => first | rfl | cases cleared

namespace ControlState

section Clients

variable {κ : Type}

/-- Where the step calls `kthread_stop`, it is on a thread that was created and has not returned. -/
def StopsLiving (s : ControlState κ) : ControlAction κ → Prop
  | .client c _ => ∀ call, s.clients c = .kthreadStop call →
      ∃ tid, s.kthreadTask = .thread tid ∧ s.alive tid = true
  | _ => True

/-- The flag is cleared only where the last `kthread_create` succeeded, and no thread returns between
the assignment that clears it and the `kthread_stop` that follows. -/
def StopSafe (s : ControlState κ) : ControlAction κ → Prop
  | .client c _ => ∀ call, s.clients c = .switch call → call.target = false → s.on = true →
      ∃ tid, s.kthreadTask = .thread tid
  | .sampler tid => ∀ th, s.samplers tid = some th → th.pc = .leaving →
      ∀ c, (s.clients c).cleared = false
  | _ => True

/-- The thread is in its loop, or about to enter it, and has not been stopped. -/
def Going (s : ControlState κ) (tid : Nat) : Prop :=
  ∃ th, s.samplers tid = some th ∧ th.pc.Looping ∧ th.shouldStop = false

/-- The thread is alive and has not been stopped. -/
def Unstopped (s : ControlState κ) (tid : Nat) : Prop :=
  ∃ th, s.samplers tid = some th ∧ th.pc.alive = true ∧ th.shouldStop = false

theorem Going.unstopped {s : ControlState κ} {tid : Nat} (going : s.Going tid) : s.Unstopped tid := by
  obtain ⟨th, thread, looping, unstopped⟩ := going
  refine ⟨th, thread, ?_, unstopped⟩
  cases here : th.pc <;> simp_all [SamplerPc.Looping, SamplerPc.alive]

theorem Unstopped.alive {s : ControlState κ} {tid : Nat} (unstopped : s.Unstopped tid) :
    s.alive tid = true := by
  obtain ⟨th, thread, living, _⟩ := unstopped
  simp [ControlState.alive, thread, living]

variable [DecidableEq κ]

/-- A thread that is in its loop stays there while the flag is set. -/
theorem Going.sampler {s s' : ControlState κ} {tid t : Nat} (going : s.Going tid) (on : s.on = true)
    (taken : s.step (.sampler t) = some s') : s'.Going tid := by
  obtain ⟨th, thread, looping, unstopped⟩ := going
  cases move_of_step taken with
  | enters _ _ outside => exact absurd rfl (outside t)
  | @sampler _ th' pc lock found moved =>
    by_cases same : tid = t
    · subst same
      rw [thread] at found
      cases found
      exact ⟨{ th with pc }, by simp [mapSampler, thread],
        (kthreadFunction_spec moved).2.2 looping on unstopped, unstopped⟩
    · exact ⟨th, by simp [mapSampler, same, thread], looping, unstopped⟩

/-- A living thread that has not been stopped lives on, unless it is at its last place. -/
theorem Unstopped.sampler {s s' : ControlState κ} {tid t : Nat} (unstopped : s.Unstopped tid)
    (stays : ∀ th, s.samplers t = some th → th.pc ≠ .leaving)
    (taken : s.step (.sampler t) = some s') : s'.Unstopped tid := by
  obtain ⟨th, thread, living, going⟩ := unstopped
  cases move_of_step taken with
  | enters _ _ outside => exact absurd rfl (outside t)
  | @sampler _ th' pc lock found moved =>
    by_cases same : tid = t
    · subst same
      rw [thread] at found
      cases found
      refine ⟨{ th with pc }, by simp [mapSampler, thread], ?_, going⟩
      by_contra dead
      obtain last | stopped := (kthreadFunction_spec moved).2.1 (Bool.not_eq_true _ ▸ dead)
      · exact stays th thread last
      · rw [going] at stopped
        cases stopped
    · exact ⟨th, by simp [mapSampler, same, thread], living, going⟩

/-- A thread's step changes neither the clients nor the flag nor `kthread_task`. -/
theorem frame_sampler {s s' : ControlState κ} {t : Nat} (taken : s.step (.sampler t) = some s') :
    s'.clients = s.clients ∧ s'.on = s.on ∧ s'.kthreadTask = s.kthreadTask := by
  cases move_of_step taken with
  | enters _ _ outside => exact absurd rfl (outside t)
  | sampler => exact ⟨rfl, rfl, rfl⟩

/-- A thread that is alive after a thread's step was alive before it. -/
theorem alive_of_sampler {s s' : ControlState κ} {t tid : Nat}
    (taken : s.step (.sampler t) = some s') (living : s'.alive tid = true) : s.alive tid = true := by
  cases move_of_step taken with
  | enters _ _ outside => exact absurd rfl (outside t)
  | @sampler _ th pc lock found moved =>
    change (s.mapSampler t _).alive tid = true at living
    rw [alive_mapSampler] at living
    split at living
    · subst tid
      simp [ControlState.alive, found, (kthreadFunction_spec moved).1]
    · exact living

/-- A thread at its last place returns. -/
theorem dead_of_leaving {s s' : ControlState κ} {t : Nat} {th : Sampler}
    (thread : s.samplers t = some th) (last : th.pc = .leaving)
    (taken : s.step (.sampler t) = some s') : s'.alive t = false := by
  cases move_of_step taken with
  | enters _ _ outside => exact absurd rfl (outside t)
  | sampler found moved =>
    rw [thread] at found
    cases found
    rw [last] at moved
    cases moved
    simp [ControlState.alive, mapSampler, thread, SamplerPc.alive]

end Clients

/-! ### One client -/

/-- What holds of the flag and the sampler where the client is. -/
def Ready (s : ControlState Unit) : ClientPc → Prop
  | .unlock .setOn false | .reset _ | .kthreadCreate => True
  | .store result => s.on = true ∧ ∀ tid, result = .thread tid → s.Going tid
  | .unlock .setOff true | .unlock .exit true | .kthreadStop _ =>
    s.on = false ∧ ∃ tid, s.kthreadTask = .thread tid ∧ s.Unstopped tid
  | .join _ _ => s.on = false
  | _ => s.on = true → ∀ tid, s.kthreadTask = .thread tid → s.Going tid

/-- The invariant of the runs that meet the condition. -/
structure StopInv (s : ControlState Unit) : Prop where
  switch : s.SwitchInv
  ready : s.Ready (s.clients ())

/-- A single client never switches the flag while it is itself still at work. -/
theorem switchSafe_unit (s : ControlState Unit) (a : ControlAction Unit) : s.SwitchSafe a := by
  cases a with
  | client c created =>
    intro call here _ c'
    cases c
    cases c'
    simp only [stopping, here, ClientPc.creating, ClientPc.cleared, Bool.false_and, ite_self]
  | storeCtrl | exit | sampler => trivial

section Steps

variable {s s' : ControlState Unit} {a : ControlAction Unit} {pc : ClientPc}

theorem StopInv.client (clients : Unit → ClientPc) (switch : s'.SwitchInv)
    (place : s'.clients = Function.update clients () pc) (ready : s'.Ready pc) : s'.StopInv := by
  refine ⟨switch, ?_⟩
  rw [place, Function.update_self]
  exact ready

/-- A step of the sampler. -/
theorem Ready.sampler {t : Nat} (ready : s.Ready pc) (here : s.clients () = pc)
    (safe : s.StopSafe (.sampler t)) (taken : s.step (.sampler t) = some s') :
    s'.Ready pc := by
  obtain ⟨_, on, task⟩ := frame_sampler taken
  have going : (s.on = true → ∀ tid, s.kthreadTask = .thread tid → s.Going tid) →
      s'.on = true → ∀ tid, s'.kthreadTask = .thread tid → s'.Going tid := by
    rw [on, task]
    exact fun before set tid named => (before set tid named).sampler set taken
  have unstopped : pc.cleared = true →
      (s.on = false ∧ ∃ tid, s.kthreadTask = .thread tid ∧ s.Unstopped tid) →
        s'.on = false ∧ ∃ tid, s'.kthreadTask = .thread tid ∧ s'.Unstopped tid := by
    rw [on, task]
    rintro cleared ⟨off, tid, named, before⟩
    refine ⟨off, tid, named, before.sampler (fun th thread last => ?_) taken⟩
    have never := safe th thread last ()
    rw [here, cleared] at never
    cases never
  cases pc with
  | reset | kthreadCreate => trivial
  | store result =>
    refine ⟨on ▸ ready.1, fun tid new => ?_⟩
    exact (ready.2 tid new).sampler ready.1 taken
  | kthreadStop => exact unstopped rfl ready
  | join => exact on.trans ready
  | unlock call lon =>
    cases call <;> cases lon
    case setOn.false => trivial
    case setOff.true | exit.true => exact unstopped rfl ready
    all_goals exact going ready
  | idle | lock | switch | wakeUp | exited | oops => exact going ready

theorem StopInv.step (inv : s.StopInv) (safe : s.StopSafe a) (taken : s.step a = some s') :
    s'.StopInv := by
  have switch := inv.switch.step (s.switchSafe_unit a) taken
  have ready := inv.ready
  cases move_of_step taken with
  | ignored => exact inv
  | enters here | locks here | wakeSkips here | wakeFaults here =>
    rw [here] at ready
    exact .client s.clients switch rfl ready
  | @switches _ _ call here =>
    rw [here] at ready
    refine .client s.clients switch rfl ?_
    cases was : s.on with
    | true =>
      cases call with
      | setOn => exact fun _ => ready was
      | setOff | exit =>
        obtain ⟨tid, task⟩ := safe _ here rfl was
        exact ⟨rfl, tid, task, (ready was tid task).unstopped⟩
    | false =>
      cases call with
      | setOn => trivial
      | setOff | exit => exact fun on => by cases on
  | @unlocks _ _ call lon here =>
    rw [here] at ready
    refine .client s.clients switch rfl ?_
    cases call <;> cases lon <;> exact ready
  | resets here | resetEnds here => exact .client s.clients switch rfl trivial
  | @creates c here =>
    refine .client s.clients switch rfl ⟨?_, fun tid new => ?_⟩
    · exact (inv.switch.creating c (by rw [here]; rfl)).1
    · cases new
      exact ⟨⟨.created, false⟩, Function.update_self _ _ _, trivial, rfl⟩
  | @createFails c here =>
    refine .client s.clients switch rfl ⟨?_, fun tid never => by cases never⟩
    exact (inv.switch.creating c (by rw [here]; rfl)).1
  | stores here =>
    rw [here] at ready
    exact .client s.clients switch rfl fun _ => ready.2
  | @wakes _ _ t here =>
    rw [here] at ready
    refine .client s.clients switch rfl fun on tid task => ?_
    obtain ⟨th, thread, looping, unstopped⟩ := ready on tid task
    by_cases same : tid = t
    · subst same
      refine ⟨th.wakeUp, by simp [mapSampler, setClient, thread], ?_, unstopped⟩
      unfold Sampler.wakeUp
      split
      · trivial
      · exact looping
    · exact ⟨th, by simp [mapSampler, setClient, same, thread], looping, unstopped⟩
  | stops here =>
    rw [here] at ready
    exact .client s.clients switch rfl ready.1
  | stopFaults here gone =>
    rw [here] at ready
    obtain ⟨_, tid, task, unstopped⟩ := ready
    rw [s.livingTask_eq_some.mpr ⟨task, unstopped.alive⟩] at gone
    cases gone
  | @joins _ _ call tid here finished =>
    rw [here] at ready
    have off : s.on = false := ready
    refine .client s.clients switch rfl ?_
    cases call <;> exact fun on => absurd (off.symm.trans on) Bool.false_ne_true
  | sampler =>
    refine ⟨switch, ?_⟩
    rw [(frame_sampler taken).1]
    exact ready.sampler rfl safe taken

theorem stopInv_micstatInit : (micstatInit Unit).StopInv :=
  ⟨switchInv_micstatInit, fun on => by cases on⟩

/-- In a state of the invariant every `kthread_stop` is on a living thread. -/
theorem StopInv.stopsLiving (inv : s.StopInv) : s.StopsLiving a := by
  cases a with
  | client c created =>
    intro call here
    have ready := inv.ready
    rw [show s.clients () = .kthreadStop call from here] at ready
    obtain ⟨_, tid, task, unstopped⟩ := ready
    exact ⟨tid, task, unstopped.alive⟩
  | storeCtrl | exit | sampler => trivial

/-! ### The condition is exact -/

/-- A `kthread_stop` is to come, and `kthread_task` names no living thread. -/
def Doomed (s : ControlState Unit) : Prop :=
  (s.clients ()).cleared = true ∧ ∀ tid, s.kthreadTask = .thread tid → s.alive tid = false

theorem doomed_of_not_stopSafe (inv : s.SwitchInv) (breaks : ¬ s.StopSafe a)
    (taken : s.step a = some s') : s'.Doomed := by
  cases a with
  | storeCtrl | exit => exact absurd trivial breaks
  | client c created =>
    simp only [StopSafe, not_forall, not_exists] at breaks
    obtain ⟨call, here, clears, on, failed⟩ := breaks
    have after : s' = { s.setClient c (.unlock call s.on) with on := call.target } := by
      simp only [step, stepClient, here] at taken
      cases taken
      rfl
    subst after
    refine ⟨?_, fun tid task => absurd task (failed tid)⟩
    change (Function.update s.clients c _ c).cleared = true
    rw [Function.update_self, on]
    cases call
    case setOn => cases clears
    all_goals rfl
  | sampler t =>
    simp only [StopSafe, not_forall] at breaks
    obtain ⟨th, thread, last, c, cleared⟩ := breaks
    rw [Bool.not_eq_false] at cleared
    obtain ⟨clients, _, task⟩ := frame_sampler taken
    have quiet : ∀ c, (s.clients c).creating = false :=
      fun _ => ClientPc.creating_of_cleared cleared
    have living : s.alive t = true := by simp [ControlState.alive, thread, last, SamplerPc.alive]
    refine ⟨by rw [clients]; exact cleared, fun tid named => ?_⟩
    rw [task, inv.named quiet t living] at named
    cases named
    exact dead_of_leaving thread last taken

theorem Doomed.step (doomed : s.Doomed) (stops : s.StopsLiving a) (taken : s.step a = some s') :
    s'.Doomed := by
  obtain ⟨cleared, gone⟩ := doomed
  have place : ∀ {c pc}, s.clients c = pc → pc.cleared = true := fun here => here ▸ cleared
  cases move_of_step taken with
  | ignored => exact ⟨cleared, gone⟩
  | @unlocks c _ call lon here =>
    have mine := place here
    refine ⟨?_, gone⟩
    change (Function.update s.clients c _ c).cleared = true
    rw [Function.update_self]
    cases call <;> cases lon <;> first | rfl | cases mine
  | stops here | stopFaults here =>
    obtain ⟨tid, task, living⟩ := stops _ here
    rw [gone tid task] at living
    cases living
  | enters here | locks here | switches here | resets here | resetEnds here | creates here
  | createFails here | stores here | wakeSkips here | wakes here | wakeFaults here | joins here =>
    cases place here
  | sampler =>
    obtain ⟨clients, _, task⟩ := frame_sampler taken
    refine ⟨by rw [clients]; exact cleared, fun tid named => ?_⟩
    rw [task] at named
    have dead := gone tid named
    by_contra living
    rw [alive_of_sampler taken (Bool.not_eq_false _ ▸ living)] at dead
    cases dead

/-- Along a run, unless its last steps are between the assignment that clears the flag and the
`kthread_stop` that follows, a step that breaks the condition is followed by a `kthread_stop` that
finds no living thread. -/
theorem stopSafe_or_doomed {trace : List (ControlState Unit × ControlAction Unit)}
    (run : Run step (micstatInit Unit) trace s)
    (stops : ∀ x ∈ trace, x.1.StopsLiving x.2) :
    s.SwitchInv ∧ ((∀ x ∈ trace, x.1.StopSafe x.2) ∨ s.Doomed) := by
  induction run with
  | nil => exact ⟨switchInv_micstatInit, .inl fun x member => by cases member⟩
  | @snoc trace s s' a _ taken ih =>
    obtain ⟨inv, cases_⟩ := ih fun x member => stops x (List.mem_append_left _ member)
    have last : s.StopsLiving a := stops (s, a) (by simp)
    refine ⟨inv.step (s.switchSafe_unit a) taken, ?_⟩
    rcases cases_ with safe | doomed
    · by_cases safeLast : s.StopSafe a
      · refine .inl fun x member => ?_
        rcases List.mem_append.mp member with old | new
        · exact safe x old
        · rw [List.mem_singleton] at new
          exact new ▸ safeLast
      · exact .inr (doomed_of_not_stopSafe inv safeLast taken)
    · exact .inr (doomed.step last taken)

end Steps

/-- **Which `kthread_stop` finds a living sampler.** One client writes `on` and `off` and unloads the
module. In every run whose steps meet the condition each `kthread_stop` is on a thread that was
created and has not returned. Conversely, a run whose every `kthread_stop` is such meets the condition
at every step, if it does not end between the assignment that clears the flag and the `kthread_stop`
that follows. -/
theorem kthreadStop_living_iff {trace : List (ControlState Unit × ControlAction Unit)}
    {s : ControlState Unit} (run : Run step (micstatInit Unit) trace s) :
    ((∀ x ∈ trace, x.1.StopSafe x.2) → ∀ x ∈ trace, x.1.StopsLiving x.2) ∧
      ((s.clients ()).cleared = false → (∀ x ∈ trace, x.1.StopsLiving x.2) →
        ∀ x ∈ trace, x.1.StopSafe x.2) := by
  constructor
  · intro safe x member
    exact (run.visited StopSafe stopInv_micstatInit (fun _ _ _ inv safe taken => inv.step safe taken)
      safe x member).stopsLiving
  · intro done stops
    refine (stopSafe_or_doomed run stops).2.resolve_right fun doomed => ?_
    rw [doomed.1] at done
    cases done

instance (s : ControlState Unit) (a : ControlAction Unit) : Decidable (s.StopSafe a) :=
  match a with
  | .client c _ =>
    have : Decidable (∃ tid, s.kthreadTask = .thread tid) :=
      match s.kthreadTask with
      | .thread tid => isTrue ⟨tid, rfl⟩
      | .null | .err => isFalse (by simp)
    inferInstanceAs (Decidable (∀ call, s.clients c = .switch call → call.target = false →
      s.on = true → ∃ tid, s.kthreadTask = .thread tid))
  | .sampler tid => inferInstanceAs (Decidable (∀ th ∈ s.samplers tid, th.pc = .leaving →
      ∀ c, (s.clients c).cleared = false))
  | .storeCtrl _ _ | .exit _ => isTrue trivial

/-- The client switches on and unloads the module while the sampler sleeps. -/
def exitDuringSleep : List (ControlAction Unit) :=
  switchOn () ++ List.replicate 5 (.sampler 0) ++ .exit () :: List.replicate 4 (.client () true) ++
    List.replicate 3 (.sampler 0) ++ [.client () true]

/-- A run that meets the condition up to the end of `micstat_exit`. -/
theorem kthreadStop_living_exit_during_sleep :
    ∃ trace s, Run step (micstatInit Unit) trace s ∧ trace.map Prod.snd = exitDuringSleep ∧
      s.clients () = .exited ∧ ∀ x ∈ trace, x.1.StopsLiving x.2 := by
  have done : (exec (guarded (fun s a => decide (s.StopSafe a)) step) (micstatInit Unit)
      exitDuringSleep).any fun s => s.clients () == .exited := by decide +kernel
  obtain ⟨trace, s, run, same, passed⟩ := run_of_exec_any done
  obtain ⟨plain, safe⟩ := run.of_guarded
  refine ⟨trace, s, plain, same, eq_of_beq passed, ?_⟩
  exact (kthreadStop_living_iff plain).1 fun x member => of_decide_eq_true (safe x member)

/-- The client switches on and unloads the module, and the sampler tests `while (on)` after
`micstat_exit` has cleared it. -/
def exitDuringTest : List (ControlAction Unit) :=
  switchOn () ++ List.replicate 5 (.sampler 0) ++ .exit () :: List.replicate 3 (.client () true) ++
    List.replicate 6 (.sampler 0)

/-- The `kthread_stop` in `micstat_exit` follows a pointer to a thread that has returned. -/
theorem kthreadStop_after_return :
    ¬ ∀ (trace : List (ControlState Unit × ControlAction Unit)) s,
      Run step (micstatInit Unit) trace s → ∀ x ∈ trace, x.1.StopsLiving x.2 := by
  intro always
  have done : (exec step (micstatInit Unit) exitDuringTest).any fun s =>
      s.clients () == .kthreadStop .exit && s.kthreadTask == .thread 0 && !s.alive 0 := by
    decide +kernel
  obtain ⟨trace, s, run, _, passed⟩ := run_of_exec_any done
  simp only [Bool.and_eq_true, beq_iff_eq, Bool.not_eq_true'] at passed
  obtain ⟨⟨here, task⟩, dead⟩ := passed
  have gone : s.livingTask = none := by simp [livingTask, task, dead]
  have faults : s.step (.client () true) = some (s.setClient () .oops) := by
    simp [step, stepClient, here, gone]
  obtain ⟨tid, named, living⟩ := always _ _ (run.snoc faults) (s, .client () true) (by simp) _ here
  rw [task] at named
  cases named
  rw [dead] at living
  cases living

end ControlState

end Xstats.Haswellstat
