/-
**Switching haswellstat and sbstat on and off** (`haswellstat/stat.c`, `sbstat/sbstat.c`).

The two modules have this code word for word. The parties are the clients, which write to the ctrl
attribute or unload the module, and the sampler threads, one for each `kthread_create` that
succeeded. `ClientPc` says where a client is in `set_on` or `set_off`, `SamplerPc` where a thread is
in `kthread_function`; a step is one statement of either that reads or writes what they share.

* `move_of_step`: the steps of the system, one constructor for each.
* `kthreadFunction_spec`: what a step of a thread can do.

Of the kernel the model takes: a thread does not run before it is woken; `kthread_stop` sets its
stop flag, wakes it and waits for it to return; a thread that is stopped before it first runs never
enters `kthread_function`; a thread that has returned is gone, for the module takes no reference to
it, and so a pointer to it faults. The counters and the ring have no place here: no branch of this
code reads them.
-/

import Xstats.Lib.Transition
import Mathlib

namespace Xstats.Haswellstat

open Transition

/-! ### State -/

/-- What `kthread_task` and the result of `kthread_create` can be. -/
inductive TaskPtr
  | null
  /-- One of the values for which `IS_ERR` holds. -/
  | err
  | thread (tid : Nat)
  deriving DecidableEq, Repr

/-- Where a thread is in `kthread_function`. -/
inductive SamplerPc
  /-- Created and not yet woken. -/
  | created
  | woken
  /-- Before one of the two `spin_lock_bh`. -/
  | lock
  /-- Before the test of `while (on)`. -/
  | testOn
  | rollBuffer
  /-- Before the `spin_unlock_bh` of the loop. -/
  | unlockSleep
  | msleep
  /-- Before the test of `kthread_should_stop`. -/
  | testStop
  /-- Before the `spin_unlock_bh` after the loop. -/
  | unlockReturn
  /-- Before one of the two `return 0`. -/
  | leaving
  | returned
  /-- Stopped before it first ran. -/
  | cancelled
  deriving DecidableEq, Repr

/-- Whether the thread has been created and has not yet returned. -/
def SamplerPc.alive : SamplerPc → Bool
  | .returned | .cancelled => false
  | _ => true

/-- A sampler thread, with the flag that `kthread_should_stop` reads. -/
structure Sampler where
  pc : SamplerPc
  shouldStop : Bool
  deriving DecidableEq, Repr

/-- `wake_up_process`. A thread in `msleep` goes on sleeping. -/
def Sampler.wakeUp (th : Sampler) : Sampler :=
  { th with pc := if th.pc = .created then .woken else th.pc }

/-- What a client calls; `exit` is the `set_off` of `micstat_exit`. -/
inductive CtrlCall
  | setOn
  | setOff
  | exit
  deriving DecidableEq, Repr

/-- The value that the call gives to `on`. -/
def CtrlCall.target : CtrlCall → Bool
  | .setOn => true
  | .setOff | .exit => false

/-- Where a client is. -/
inductive ClientPc
  | idle
  /-- Before the `spin_lock_bh`. -/
  | lock (call : CtrlCall)
  /-- Before `lon = on` and the assignment to `on`. -/
  | switch (call : CtrlCall)
  /-- Before the `spin_unlock_bh`. -/
  | unlock (call : CtrlCall) (lon : Bool)
  /-- In the loop of `set_on`, before iteration `i`. -/
  | reset (i : Nat)
  /-- In `timer_start`, before the call of `kthread_create`. -/
  | kthreadCreate
  /-- In `timer_start`, before the assignment to `kthread_task`. -/
  | store (result : TaskPtr)
  /-- In `timer_start`, before the test of `IS_ERR`. -/
  | wakeUp
  /-- In `timer_cleanup`, before the call of `kthread_stop`. -/
  | kthreadStop (call : CtrlCall)
  /-- In `kthread_stop`, waiting for the thread. -/
  | join (call : CtrlCall) (tid : Nat)
  /-- In `micstat_exit`, after its `set_off`. -/
  | exited
  /-- `wake_up_process` or `kthread_stop` followed a pointer that names no living thread. -/
  | oops
  deriving DecidableEq, Repr

/-- A client that is neither in `set_on` nor in `set_off`. -/
def ClientPc.Outside : ClientPc → Prop
  | .idle | .exited | .oops => True
  | _ => False

/-- Who can hold `ctrl_lock`. -/
inductive Holder (κ : Type)
  | client (c : κ)
  | sampler (tid : Nat)
  deriving DecidableEq, Repr

/-- The module's variables, its clients and its threads. -/
structure ControlState (κ : Type) where
  on : Bool
  ctrlLock : Option (Holder κ)
  kthreadTask : TaskPtr
  clients : κ → ClientPc
  samplers : Nat → Option Sampler
  nextTid : Nat

/-- The state that `micstat_init` leaves. -/
def micstatInit (κ : Type) : ControlState κ :=
  { on := false, ctrlLock := none, kthreadTask := .null, clients := fun _ => .idle
    samplers := fun _ => none, nextTid := 0 }

/-- `MICSTAT_NCNT`, where neither `MICSTAT_JIF` nor `MICSTAT_CYCLES` is defined. -/
def micstatNcnt : Nat := 11

/-! ### Steps -/

/-- The tests of `micstat_store_ctrl` on the `count` characters written. -/
def micstatStoreCtrl (buf : List Char) : Option CtrlCall :=
  if "on".toList.isPrefixOf buf then some .setOn
  else if "off".toList.isPrefixOf buf then some .setOff
  else none

inductive ControlAction (κ : Type)
  /-- A client writes to the ctrl attribute. -/
  | storeCtrl (c : κ) (buf : List Char)
  /-- A client unloads the module. -/
  | exit (c : κ)
  /-- The next step of a client; `created` says whether a `kthread_create` succeeds. -/
  | client (c : κ) (created : Bool)
  /-- The next step of a thread. -/
  | sampler (tid : Nat)

/-- The step is no `kthread_create` that fails. -/
def ControlAction.succeeds {κ : Type} : ControlAction κ → Bool
  | .client _ created => created
  | _ => true

/-- Where a client is after it has released the lock: at the body of `if (!lon)` or `if (lon)`, or
done. -/
def afterSwitch : CtrlCall → Bool → ClientPc
  | .setOn, false => .reset 0
  | .setOn, true => .idle
  | .setOff, true => .kthreadStop .setOff
  | .setOff, false => .idle
  | .exit, true => .kthreadStop .exit
  | .exit, false => .exited

/-- Where a client is after `timer_cleanup`. -/
def afterCleanup : CtrlCall → ClientPc
  | .exit => .exited
  | _ => .idle

/-- One step of `kthread_function`: the next place, and who holds the lock then. -/
def kthreadFunction {κ : Type} [DecidableEq κ] (tid : Nat) (on shouldStop : Bool)
    (ctrlLock : Option (Holder κ)) : SamplerPc → Option (SamplerPc × Option (Holder κ))
  | .created => none
  | .woken => some (if shouldStop then .cancelled else .lock, ctrlLock)
  | .lock => if ctrlLock = none then some (.testOn, some (.sampler tid)) else none
  | .testOn => some (if on then .rollBuffer else .unlockReturn, ctrlLock)
  | .rollBuffer => some (.unlockSleep, ctrlLock)
  | .unlockSleep => some (.msleep, none)
  | .msleep => some (.testStop, ctrlLock)
  | .testStop => some (if shouldStop then .leaving else .lock, ctrlLock)
  | .unlockReturn => some (.leaving, none)
  | .leaving => some (.returned, ctrlLock)
  | .returned | .cancelled => none

namespace ControlState

variable {κ : Type}

/-- Whether a thread has been created and has not yet returned. -/
def alive (s : ControlState κ) (tid : Nat) : Bool := (s.samplers tid).any fun th => th.pc.alive

/-- The living thread that `kthread_task` names. -/
def livingTask (s : ControlState κ) : Option Nat :=
  match s.kthreadTask with
  | .thread tid => if s.alive tid then some tid else none
  | _ => none

/-- A thread changed. -/
def mapSampler (s : ControlState κ) (tid : Nat) (f : Sampler → Sampler) : ControlState κ :=
  { s with samplers := Function.update s.samplers tid ((s.samplers tid).map f) }

variable [DecidableEq κ]

/-- A client at its next place. -/
def setClient (s : ControlState κ) (c : κ) (pc : ClientPc) : ControlState κ :=
  { s with clients := Function.update s.clients c pc }

/-- A client that calls `set_on`, `set_off` or `micstat_exit`. -/
def enterCall (s : ControlState κ) (c : κ) (call : CtrlCall) : Option (ControlState κ) :=
  if s.clients c = .idle then some (s.setClient c (.lock call)) else none

/-- A step of a client in `set_on` or `set_off`. -/
def stepClient (s : ControlState κ) (c : κ) (created : Bool) : Option (ControlState κ) :=
  match s.clients c with
  | .idle | .exited | .oops => none
  | .lock call =>
    if s.ctrlLock = none then
      some { s.setClient c (.switch call) with ctrlLock := some (.client c) }
    else none
  | .switch call => some { s.setClient c (.unlock call s.on) with on := call.target }
  | .unlock call lon => some { s.setClient c (afterSwitch call lon) with ctrlLock := none }
  | .reset i => some (s.setClient c (if i < micstatNcnt then .reset (i + 1) else .kthreadCreate))
  | .kthreadCreate =>
    if created then
      some { s.setClient c (.store (.thread s.nextTid)) with
        samplers := Function.update s.samplers s.nextTid (some ⟨.created, false⟩)
        nextTid := s.nextTid + 1 }
    else some (s.setClient c (.store .err))
  | .store result => some { s.setClient c .wakeUp with kthreadTask := result }
  | .wakeUp =>
    if s.kthreadTask = .err then some (s.setClient c .idle)
    else
      match s.livingTask with
      | some tid => some ((s.setClient c .idle).mapSampler tid Sampler.wakeUp)
      | none => some (s.setClient c .oops)
  | .kthreadStop call =>
    match s.livingTask with
    | some tid =>
      some ((s.setClient c (.join call tid)).mapSampler tid
        fun th => { th with shouldStop := true }.wakeUp)
    | none => some (s.setClient c .oops)
  | .join call tid => if s.alive tid then none else some (s.setClient c (afterCleanup call))

/-- A step of a thread. -/
def stepSampler (s : ControlState κ) (tid : Nat) : Option (ControlState κ) := do
  let th ← s.samplers tid
  let (pc, ctrlLock) ← kthreadFunction tid s.on th.shouldStop s.ctrlLock th.pc
  return { s.mapSampler tid (fun th => { th with pc }) with ctrlLock }

/-- The step function of the module. -/
def step (s : ControlState κ) : ControlAction κ → Option (ControlState κ)
  | .storeCtrl c buf =>
    match micstatStoreCtrl buf with
    | none => some s
    | some call => s.enterCall c call
  | .exit c => s.enterCall c .exit
  | .client c created => s.stepClient c created
  | .sampler tid => s.stepSampler tid

/-- The steps of the module, one constructor for each. -/
inductive Move (s : ControlState κ) : ControlAction κ → ControlState κ → Prop
  | ignored {c buf} : Move s (.storeCtrl c buf) s
  | enters {c call a} (idle : s.clients c = .idle) (other : ∀ c created, a ≠ .client c created)
      (outside : ∀ tid, a ≠ .sampler tid) : Move s a (s.setClient c (.lock call))
  | locks {c created call} (here : s.clients c = .lock call) (free : s.ctrlLock = none) :
      Move s (.client c created)
        { s.setClient c (.switch call) with ctrlLock := some (.client c) }
  | switches {c created call} (here : s.clients c = .switch call) :
      Move s (.client c created) { s.setClient c (.unlock call s.on) with on := call.target }
  | unlocks {c created call lon} (here : s.clients c = .unlock call lon) :
      Move s (.client c created) { s.setClient c (afterSwitch call lon) with ctrlLock := none }
  | resets {c created i} (here : s.clients c = .reset i) (inside : i < micstatNcnt) :
      Move s (.client c created) (s.setClient c (.reset (i + 1)))
  | resetEnds {c created i} (here : s.clients c = .reset i) (beyond : ¬ i < micstatNcnt) :
      Move s (.client c created) (s.setClient c .kthreadCreate)
  | creates {c} (here : s.clients c = .kthreadCreate) :
      Move s (.client c true)
        { s.setClient c (.store (.thread s.nextTid)) with
          samplers := Function.update s.samplers s.nextTid (some ⟨.created, false⟩)
          nextTid := s.nextTid + 1 }
  | createFails {c} (here : s.clients c = .kthreadCreate) :
      Move s (.client c false) (s.setClient c (.store .err))
  | stores {c created result} (here : s.clients c = .store result) :
      Move s (.client c created) { s.setClient c .wakeUp with kthreadTask := result }
  | wakeSkips {c created} (here : s.clients c = .wakeUp) (failed : s.kthreadTask = .err) :
      Move s (.client c created) (s.setClient c .idle)
  | wakes {c created tid} (here : s.clients c = .wakeUp) (living : s.livingTask = some tid) :
      Move s (.client c created) ((s.setClient c .idle).mapSampler tid Sampler.wakeUp)
  | wakeFaults {c created} (here : s.clients c = .wakeUp) (gone : s.livingTask = none) :
      Move s (.client c created) (s.setClient c .oops)
  | stops {c created call tid} (here : s.clients c = .kthreadStop call)
      (living : s.livingTask = some tid) :
      Move s (.client c created) ((s.setClient c (.join call tid)).mapSampler tid
        fun th => { th with shouldStop := true }.wakeUp)
  | stopFaults {c created call} (here : s.clients c = .kthreadStop call)
      (gone : s.livingTask = none) : Move s (.client c created) (s.setClient c .oops)
  | joins {c created call tid} (here : s.clients c = .join call tid)
      (finished : s.alive tid = false) :
      Move s (.client c created) (s.setClient c (afterCleanup call))
  | sampler {tid th pc ctrlLock} (thread : s.samplers tid = some th)
      (moved : kthreadFunction tid s.on th.shouldStop s.ctrlLock th.pc = some (pc, ctrlLock)) :
      Move s (.sampler tid) { s.mapSampler tid (fun th => { th with pc }) with ctrlLock }

theorem move_of_enterCall {s s' : ControlState κ} {c : κ} {call : CtrlCall} {a : ControlAction κ}
    (taken : s.enterCall c call = some s') (other : ∀ c created, a ≠ .client c created)
    (outside : ∀ tid, a ≠ .sampler tid) : Move s a s' := by
  obtain ⟨idle, step⟩ := Option.ite_none_right_eq_some.mp taken
  cases step
  exact .enters idle other outside

theorem move_of_stepClient {s s' : ControlState κ} {c : κ} {created : Bool}
    (taken : s.stepClient c created = some s') : Move s (.client c created) s' := by
  unfold stepClient at taken
  cases here : s.clients c with
  | idle | exited | oops =>
    simp only [here] at taken
    cases taken
  | lock call =>
    simp only [here] at taken
    obtain ⟨free, step⟩ := Option.ite_none_right_eq_some.mp taken
    cases step
    exact .locks here free
  | switch call =>
    simp only [here] at taken
    cases taken
    exact .switches here
  | unlock call lon =>
    simp only [here] at taken
    cases taken
    exact .unlocks here
  | reset i =>
    simp only [here] at taken
    cases taken
    by_cases inside : i < micstatNcnt
    · rw [if_pos inside]
      exact .resets here inside
    · rw [if_neg inside]
      exact .resetEnds here inside
  | kthreadCreate =>
    simp only [here] at taken
    cases created with
    | true =>
      cases taken
      exact .creates here
    | false =>
      cases taken
      exact .createFails here
  | store result =>
    simp only [here] at taken
    cases taken
    exact .stores here
  | wakeUp =>
    simp only [here] at taken
    by_cases failed : s.kthreadTask = .err
    · rw [if_pos failed] at taken
      cases taken
      exact .wakeSkips here failed
    · rw [if_neg failed] at taken
      cases living : s.livingTask with
      | some tid =>
        simp only [living] at taken
        cases taken
        exact .wakes here living
      | none =>
        simp only [living] at taken
        cases taken
        exact .wakeFaults here living
  | kthreadStop call =>
    simp only [here] at taken
    cases living : s.livingTask with
    | some tid =>
      simp only [living] at taken
      cases taken
      exact .stops here living
    | none =>
      simp only [living] at taken
      cases taken
      exact .stopFaults here living
  | join call tid =>
    simp only [here] at taken
    obtain ⟨finished, step⟩ := Option.ite_none_left_eq_some.mp taken
    cases step
    exact .joins here (Bool.eq_false_iff.mpr finished)

theorem move_of_step {s s' : ControlState κ} {a : ControlAction κ} (taken : s.step a = some s') :
    Move s a s' := by
  cases a with
  | storeCtrl c buf =>
    unfold step at taken
    cases decoded : micstatStoreCtrl buf with
    | none =>
      simp only [decoded] at taken
      cases taken
      exact .ignored
    | some call =>
      simp only [decoded] at taken
      exact move_of_enterCall taken (by simp) (by simp)
  | exit c => exact move_of_enterCall taken (by simp) (by simp)
  | client c created => exact move_of_stepClient taken
  | sampler tid =>
    simp only [step, stepSampler, Option.bind_eq_bind, Option.bind_eq_some_iff] at taken
    obtain ⟨th, thread, ⟨pc, ctrlLock⟩, moved, rest⟩ := taken
    cases rest
    exact .sampler thread moved

/-! ### What the steps do to the threads -/

section Alive

variable (s : ControlState κ)

omit [DecidableEq κ] in
theorem livingTask_eq_some {tid : Nat} :
    s.livingTask = some tid ↔ s.kthreadTask = .thread tid ∧ s.alive tid = true := by
  unfold livingTask
  cases s.kthreadTask with
  | null | err => simp
  | thread t =>
    simp only [Option.ite_none_right_eq_some, Option.some.injEq, TaskPtr.thread.injEq]
    constructor
    · rintro ⟨living, rfl⟩
      exact ⟨rfl, living⟩
    · rintro ⟨rfl, living⟩
      exact ⟨living, rfl⟩

@[simp] theorem alive_setClient (c : κ) (pc : ClientPc) : (s.setClient c pc).alive = s.alive := rfl

omit [DecidableEq κ] in
theorem alive_mapSampler (tid : Nat) (f : Sampler → Sampler) (t : Nat) :
    (s.mapSampler tid f).alive t =
      if t = tid then (s.samplers tid).any fun th => (f th).pc.alive else s.alive t := by
  by_cases same : t = tid
  · subst same
    simp [alive, mapSampler, Option.any_map]
  · simp [alive, mapSampler, same]

theorem alive_wakeUp (th : Sampler) : th.wakeUp.pc.alive = th.pc.alive := by
  unfold Sampler.wakeUp
  split
  · simp [*, SamplerPc.alive]
  · rfl

omit [DecidableEq κ] in
/-- Waking a thread neither starts nor ends its life. -/
theorem alive_mapSampler_of_same (tid : Nat) {f : Sampler → Sampler}
    (same : ∀ th, (f th).pc.alive = th.pc.alive) : (s.mapSampler tid f).alive = s.alive := by
  funext t
  rw [alive_mapSampler]
  split
  · subst t
    simp [alive, same]
  · rfl

end Alive

end ControlState

/-- A thread that has entered `kthread_function`, or will, and has found no reason to leave it. -/
def SamplerPc.Looping : SamplerPc → Prop
  | .unlockReturn | .leaving | .returned | .cancelled => False
  | _ => True

/-- A step is made by a living thread. It returns from its last place or because it was stopped, and
it leaves the loop only after it was stopped or found `on` cleared. -/
theorem kthreadFunction_spec {κ : Type} [DecidableEq κ] {tid : Nat} {on shouldStop : Bool}
    {ctrlLock ctrlLock' : Option (Holder κ)} {pc pc' : SamplerPc}
    (moved : kthreadFunction tid on shouldStop ctrlLock pc = some (pc', ctrlLock')) :
    pc.alive = true ∧ (pc'.alive = false → pc = .leaving ∨ shouldStop = true) ∧
      (pc.Looping → on = true → shouldStop = false → pc'.Looping) := by
  cases pc with
  | created | returned | cancelled => cases moved
  | lock =>
    obtain ⟨-, step⟩ := Option.ite_none_right_eq_some.mp moved
    cases step
    simp [SamplerPc.alive, SamplerPc.Looping]
  | rollBuffer | unlockSleep | msleep | unlockReturn | leaving =>
    cases moved
    simp [SamplerPc.alive, SamplerPc.Looping]
  | testOn =>
    cases moved
    cases on <;> simp [SamplerPc.alive, SamplerPc.Looping]
  | woken | testStop =>
    cases moved
    cases shouldStop <;> simp [SamplerPc.alive, SamplerPc.Looping]

end Xstats.Haswellstat
