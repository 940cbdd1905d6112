/-
**Unloading micstat** (`set_on`, `set_off`, `micstat_exit` of `micstat.c`).

micstat switches without a lock. `set_off` stops the sampler only while `on` is set, `micstat_exit`
always, and `kthread_task` keeps its value after either. `micstat_exit` then releases the perf events,
and returns with the class still registered. There is one client; a step is one statement of it, or of a
sampler, that reads or writes what they share.

* `MicInv.step`: the sampler alive is the one that `kthread_task` names, and `on` is set as long as
  there is one.
* `unloaded_spec`: what `micstat_exit` has done where it returns.
* `kthreadStop_faults_iff`: which calls of `kthread_stop` fault.
* `micstat_unload_never_clean`: no unloading is clean.

Of the kernel the model takes what the one of haswellstat does. What `sched_setscheduler` does with an
error pointer is left open: it returns or it faults.
-/

import Xstats.Haswellstat.Control
import Xstats.Haswellstat.Init

namespace Xstats.Micstat

open Haswellstat (TaskPtr CtrlCall micstatStoreCtrl PerfEvents EventsInv micTable InitOutcomes
  micstatInitEvents exitCounter Within)
open Transition

/-! ### State -/

/-- Where a thread is in `kthread_function`. -/
inductive SamplerPc
  /-- Created and not yet woken. -/
  | created
  | woken
  /-- Before the test of `while (on)`. -/
  | testOn
  | rollBuffer
  | msleep
  /-- Before the test of `kthread_should_stop`. -/
  | testStop
  | returned
  /-- Stopped before it first ran. -/
  | cancelled
  deriving DecidableEq, Repr

/-- Whether the thread has been created and has not yet returned. -/
def SamplerPc.alive : SamplerPc → Bool
  | .returned | .cancelled => false
  | _ => true

/-- A sampler thread, with the flag that `kthread_should_stop` reads. -/
structure Sampler where
  pc : SamplerPc
  shouldStop : Bool
  deriving DecidableEq, Repr

/-- `wake_up_process`. A thread in `msleep` goes on sleeping. -/
def Sampler.wakeUp (th : Sampler) : Sampler :=
  { th with pc := if th.pc = .created then .woken else th.pc }

/-- Where the client is. -/
inductive ClientPc
  | idle
  /-- In the loop of `set_on`, before iteration `i`. -/
  | reset (i : Nat)
  /-- In `timer_start`, before the call of `kthread_create`. -/
  | kthreadCreate
  /-- In `timer_start`, before the call of `sched_setscheduler`. -/
  | setScheduler
  /-- In `timer_start`, before the test of `IS_ERR`. -/
  | wakeUp
  /-- In `timer_cleanup`, before the call of `kthread_stop`; `exiting` says that `micstat_exit`
  called it, not `set_off`. -/
  | kthreadStop (exiting : Bool)
  /-- In `kthread_stop`, waiting for the thread. -/
  | join (exiting : Bool) (tid : Nat)
  /-- In the loop of `micstat_exit`, before iteration `i`. -/
  | exitCounters (i : Nat)
  /-- `micstat_exit` has returned. -/
  | unloaded
  /-- `kthread_stop` followed a pointer that names no living thread. -/
  | oops
  /-- `sched_setscheduler` followed an error pointer. -/
  | crashed
  deriving DecidableEq, Repr

/-- The module's variables, its client, its threads, its perf events, and whether its class is
registered. -/
structure MicState where
  on : Bool
  kthreadTask : TaskPtr
  client : ClientPc
  samplers : Nat → Option Sampler
  nextTid : Nat
  perf : PerfEvents
  classRegistered : Bool

/-- The state that a `micstat_init` with these outcomes leaves, where it succeeds. -/
def micstatInit (o : InitOutcomes) : MicState :=
  { on := false, kthreadTask := .null, client := .idle, samplers := fun _ => none, nextTid := 0
    perf := (micstatInitEvents micTable o).2, classRegistered := true }

/-! ### Steps -/

inductive MicAction
  /-- The client writes to the ctrl attribute. -/
  | micstatStoreCtrl (buf : List Char)
  | micstatExit
  /-- The next step of the client; `ok` says whether a `kthread_create` succeeds, and whether a
  `sched_setscheduler` of an error pointer returns. -/
  | client (ok : Bool)
  /-- The next step of a thread. -/
  | sampler (tid : Nat)
  deriving DecidableEq, Repr

/-- One step of `kthread_function`. -/
def kthreadFunction (on shouldStop : Bool) : SamplerPc → Option SamplerPc
  | .created => none
  | .woken => some (if shouldStop then .cancelled else .testOn)
  | .testOn => some (if on then .rollBuffer else .returned)
  | .rollBuffer => some .msleep
  | .msleep => some .testStop
  | .testStop => some (if shouldStop then .returned else .testOn)
  | .returned | .cancelled => none

namespace MicState

/-- Whether a thread has been created and has not yet returned. -/
def alive (s : MicState) (tid : Nat) : Bool := (s.samplers tid).any fun th => th.pc.alive

/-- The living thread that `kthread_task` names. -/
def livingTask (s : MicState) : Option Nat :=
  match s.kthreadTask with
  | .thread tid => if s.alive tid then some tid else none
  | _ => none

/-- A thread changed. -/
def mapSampler (s : MicState) (tid : Nat) (f : Sampler → Sampler) : MicState :=
  { s with samplers := Function.update s.samplers tid ((s.samplers tid).map f) }

/-- `micstat_store_ctrl`, up to the loop of `set_on` or the `timer_cleanup` of `set_off`. -/
def storeCtrl (s : MicState) (buf : List Char) : MicState :=
  match micstatStoreCtrl buf with
  | some .setOn => if s.on then s else { s with client := .reset 0 }
  | some .setOff => if s.on then { s with client := .kthreadStop false } else { s with on := false }
  | _ => s

/-- A step of the client in a call. -/
def stepClient (ncpus : Nat) (s : MicState) (ok : Bool) : Option MicState :=
  match s.client with
  | .idle | .unloaded | .oops | .crashed => none
  | .reset i =>
    some (if i < micTable.counters.length then { s with client := .reset (i + 1) }
      else { s with on := true, client := .kthreadCreate })
  | .kthreadCreate =>
    some (if ok then
        { s with
          kthreadTask := .thread s.nextTid
          samplers := Function.update s.samplers s.nextTid (some ⟨.created, false⟩)
          nextTid := s.nextTid + 1
          client := .setScheduler }
      else { s with kthreadTask := .err, client := .setScheduler })
  | .setScheduler =>
    some (match s.kthreadTask with
      | .thread _ => { s with client := .wakeUp }
      | _ => { s with client := if ok then .wakeUp else .crashed })
  | .wakeUp =>
    some (match s.kthreadTask with
      | .thread tid => { s.mapSampler tid Sampler.wakeUp with client := .idle }
      | _ => { s with client := .idle })
  | .kthreadStop exiting =>
    some (match s.livingTask with
      | some tid =>
        { s.mapSampler tid (fun th => { th with shouldStop := true }.wakeUp) with
          client := .join exiting tid }
      | none => { s with client := .oops })
  | .join exiting tid =>
    if s.alive tid then none
    else
      -- `set_off` clears the flag after the join, and `micstat_store_ctrl` once more.
      some (if exiting then { s with client := .exitCounters 0 }
        else { s with on := false, client := .idle })
  | .exitCounters i =>
    some (if i < micTable.counters.length then
        { s with perf := exitCounter ncpus micTable i s.perf, client := .exitCounters (i + 1) }
      else { s with client := .unloaded })

/-- A step of a thread. -/
def stepSampler (s : MicState) (tid : Nat) : Option MicState := do
  let th ← s.samplers tid
  let pc ← kthreadFunction s.on th.shouldStop th.pc
  return s.mapSampler tid fun th => { th with pc }

/-- The step function of the module. -/
def step (ncpus : Nat) (s : MicState) : MicAction → Option MicState
  | .micstatStoreCtrl buf => if s.client = .idle then some (s.storeCtrl buf) else none
  | .micstatExit => if s.client = .idle then some { s with client := .kthreadStop true } else none
  | .client ok => s.stepClient ncpus ok
  | .sampler tid => s.stepSampler tid

end MicState

/-! ### A clean unloading -/

/-- Where the step calls `kthread_stop`, it is for a thread that was created and has not been stopped. -/
def StopsUnstopped (x : MicState × MicAction) : Prop :=
  ∀ exiting ok, x.1.client = .kthreadStop exiting → x.2 = .client ok →
    ∃ tid th, x.1.kthreadTask = .thread tid ∧ x.1.samplers tid = some th ∧ th.shouldStop = false

/-- Nothing is left of the module: no sampler, no event, no class. -/
structure Gone (s : MicState) : Prop where
  samplers : ∀ tid, s.alive tid = false
  events : s.perf.released.Perm (List.range s.perf.nextEvent) ∧ ∀ c k, s.perf.events c k = none
  classRegistered : s.classRegistered = false

/-- Every `kthread_stop` of the run was proper, and once `micstat_exit` has returned nothing is left. -/
structure CleanUnload (trace : List (MicState × MicAction)) (s : MicState) : Prop where
  stops : ∀ x ∈ trace, StopsUnstopped x
  gone : s.client = .unloaded → Gone s

/-- The history has come to its end: `micstat_exit` has returned, or a `kthread_stop` faulted. -/
def Ended (s : MicState) : Prop := s.client = .unloaded ∨ s.client = .oops

/-! ### The invariant -/

/-- With the flag set, the thread that `kthread_task` names is alive. -/
def MicState.Sampled (s : MicState) : Prop :=
  s.on = true → ∀ tid, s.kthreadTask = .thread tid → s.alive tid = true

/-- What holds of the flag, the task and the threads where the client is at a place. -/
def ClientPc.Holds (s : MicState) : ClientPc → Prop
  | .idle | .setScheduler | .wakeUp | .kthreadStop _ => s.Sampled
  | .reset _ => s.on = false
  | .kthreadCreate => s.on = true ∧ ∀ tid, s.alive tid = false
  | .join _ tid => s.kthreadTask = .thread tid
  | .exitCounters _ | .unloaded => ∀ tid, s.alive tid = false
  | _ => True

/-- The counters whose events `micstat_exit` has released. -/
def ClientPc.released : ClientPc → Nat
  | .exitCounters i => i
  | .unloaded => micTable.counters.length
  | _ => 0

structure MicInv (ncpus : Nat) (s : MicState) : Prop where
  /-- A living sampler is the one that `kthread_task` names, and the flag is set. -/
  only : ∀ tid th, s.samplers tid = some th → th.pc.alive = true →
    s.kthreadTask = .thread tid ∧ s.on = true
  /-- A sampler returns only if it was stopped. -/
  returned : ∀ tid th, s.samplers tid = some th → th.pc.alive = false → th.shouldStop = true
  /-- A living sampler that was stopped is being waited for. -/
  stopped : ∀ tid th, s.samplers tid = some th → th.pc.alive = true → th.shouldStop = true →
    ∃ exiting, s.client = .join exiting tid
  place : s.client.Holds s
  registered : s.classRegistered = true
  perf : EventsInv s.perf
  slots : ∀ c k, s.perf.events c k ≠ none → s.client.released ≤ c ∧ k < ncpus ∧ micTable.Creates c

section Steps

variable {ncpus : Nat} {s s' : MicState}

theorem alive_of_sampler {tid : Nat} {th : Sampler} (thread : s.samplers tid = some th) :
    s.alive tid = th.pc.alive := by
  simp [MicState.alive, thread]

theorem alive_eq_true {tid : Nat} : s.alive tid = true ↔
    ∃ th, s.samplers tid = some th ∧ th.pc.alive = true := Option.any_eq_true _ _

theorem livingTask_eq_some {tid : Nat} (living : s.livingTask = some tid) :
    s.kthreadTask = .thread tid ∧ s.alive tid = true := by
  unfold MicState.livingTask at living
  split at living
  · obtain ⟨alive, same⟩ := Option.ite_none_right_eq_some.mp living
    cases same
    exact ⟨‹_›, alive⟩
  · cases living

theorem dead_of_none (none : ∀ tid, s.alive tid = false) {tid : Nat} {th : Sampler}
    (thread : s.samplers tid = some th) (lives : th.pc.alive = true) : False := by
  have gone := none tid
  rw [alive_of_sampler thread, lives] at gone
  cases gone

theorem samplers_mapSampler {tid t : Nat} {f : Sampler → Sampler} {th : Sampler}
    (found : (s.mapSampler tid f).samplers t = some th) :
    ∃ old, s.samplers t = some old ∧ ((t = tid ∧ th = f old) ∨ (t ≠ tid ∧ th = old)) := by
  change Function.update s.samplers tid ((s.samplers tid).map f) t = some th at found
  by_cases here : t = tid
  · subst here
    rw [Function.update_self] at found
    obtain ⟨old, thread, rfl⟩ := Option.map_eq_some_iff.mp found
    exact ⟨old, thread, .inl ⟨rfl, rfl⟩⟩
  · rw [Function.update_of_ne here] at found
    exact ⟨th, found, .inr ⟨here, rfl⟩⟩

theorem alive_mapSampler {f : Sampler → Sampler} (kept : ∀ th, (f th).pc.alive = th.pc.alive)
    (tid t : Nat) : (s.mapSampler tid f).alive t = s.alive t := by
  unfold MicState.alive MicState.mapSampler
  by_cases here : t = tid
  · subst here
    cases s.samplers t <;> simp [kept]
  · simp [here]

/-- With the flag cleared no sampler is alive. -/
theorem MicInv.none_of_off (inv : MicInv ncpus s) (off : s.on = false) (tid : Nat) :
    s.alive tid = false := by
  by_contra alive
  obtain ⟨th, thread, lives⟩ := alive_eq_true.mp (Bool.eq_true_of_not_eq_false alive)
  have on := (inv.only tid th thread lives).2
  rw [off] at on
  cases on

/-- After the wait of `kthread_stop` no sampler is alive. -/
theorem MicInv.none_of_joined (inv : MicInv ncpus s) {exiting : Bool} {tid : Nat}
    (here : s.client = .join exiting tid) (gone : ¬ s.alive tid = true) (t : Nat) : s.alive t = false := by
  have task := inv.place
  rw [here] at task
  by_contra lives
  obtain ⟨th, thread, alive⟩ := alive_eq_true.mp (Bool.eq_true_of_not_eq_false lives)
  have named := (inv.only t th thread alive).1
  rw [show s.kthreadTask = .thread tid from task] at named
  cases named
  exact gone (alive_of_sampler thread ▸ alive)

/-- A step that leaves the threads as they are, none of which is alive. -/
theorem MicInv.of_none (inv : MicInv ncpus s) (none : ∀ tid, s.alive tid = false)
    (samplers : s'.samplers = s.samplers) (place : s'.client.Holds s')
    (registered : s'.classRegistered = s.classRegistered) (perf : EventsInv s'.perf)
    (slots : ∀ c k, s'.perf.events c k ≠ Option.none →
      s'.client.released ≤ c ∧ k < ncpus ∧ micTable.Creates c) : MicInv ncpus s' where
  only := fun tid th thread lives => by
    rw [samplers] at thread
    exact (dead_of_none none thread lives).elim
  returned := fun tid th thread gone => by
    rw [samplers] at thread
    exact inv.returned tid th thread gone
  stopped := fun tid th thread lives => by
    rw [samplers] at thread
    exact (dead_of_none none thread lives).elim
  place := place
  registered := registered.trans inv.registered
  perf := perf
  slots := slots

theorem alive_wakeUp (th : Sampler) : th.wakeUp.pc.alive = th.pc.alive := by
  unfold Sampler.wakeUp
  by_cases created : th.pc = .created
  · simp [created, SamplerPc.alive]
  · simp [created]

/-- A step is made by a living thread, which returns while the flag is set only if it was stopped. -/
theorem kthreadFunction_spec {on shouldStop : Bool} {pc pc' : SamplerPc}
    (moved : kthreadFunction on shouldStop pc = some pc') :
    pc.alive = true ∧ (on = true → pc'.alive = false → shouldStop = true) := by
  cases pc <;> cases on <;> cases shouldStop <;> cases moved <;> exact ⟨rfl, by decide⟩

/-- The place of the client changed, which waits for nobody and has released nothing. -/
theorem MicInv.move (inv : MicInv ncpus s) {pc : ClientPc} (waits : ∀ e tid, s.client ≠ .join e tid)
    (released : pc.released ≤ s.client.released)
    (place : pc.Holds { s with client := pc }) : MicInv ncpus { s with client := pc } where
  only := inv.only
  returned := inv.returned
  stopped := fun tid th thread lives flag => by
    obtain ⟨exiting, waiting⟩ := inv.stopped tid th thread lives flag
    exact absurd waiting (waits exiting tid)
  place := place
  registered := inv.registered
  perf := inv.perf
  slots := fun c k held => by
    obtain ⟨below, rest⟩ := inv.slots c k held
    exact ⟨Nat.le_trans released below, rest⟩

/-- A write to the ctrl attribute. -/
theorem MicInv.storeCtrl (inv : MicInv ncpus s) (idle : s.client = .idle) (buf : List Char) :
    MicInv ncpus (s.storeCtrl buf) := by
  have waits : ∀ e tid, s.client ≠ .join e tid := by simp [idle]
  have place := inv.place
  rw [idle] at place
  unfold MicState.storeCtrl
  split
  · split
    · exact inv
    · exact inv.move waits (Nat.zero_le _) (Bool.eq_false_of_not_eq_true ‹_›)
  · split
    · exact inv.move waits (Nat.zero_le _) place
    · have off : s.on = false := Bool.eq_false_of_not_eq_true ‹_›
      have same : { s with on := false } = s := by rw [← off]
      rw [same]
      exact inv
  · exact inv

/-- A step of a thread. -/
theorem MicInv.sampler (inv : MicInv ncpus s) {tid : Nat} (taken : s.stepSampler tid = some s') :
    MicInv ncpus s' := by
  simp only [MicState.stepSampler, Option.bind_eq_bind, Option.bind_eq_some_iff, Option.pure_def,
    Option.some.injEq] at taken
  obtain ⟨th, thread, pc, moved, rfl⟩ := taken
  obtain ⟨lives, ends⟩ := kthreadFunction_spec moved
  obtain ⟨task, on⟩ := inv.only tid th thread lives
  constructor
  case only =>
    intro t th' found alive
    obtain ⟨old, before, ⟨rfl, rfl⟩ | ⟨_, rfl⟩⟩ := samplers_mapSampler found
    · exact ⟨task, on⟩
    · exact inv.only t th' before alive
  case returned =>
    intro t th' found gone
    obtain ⟨old, before, ⟨rfl, rfl⟩ | ⟨_, rfl⟩⟩ := samplers_mapSampler found
    · rw [thread] at before
      cases before
      exact ends on gone
    · exact inv.returned t th' before gone
  case stopped =>
    intro t th' found alive flag
    obtain ⟨old, before, ⟨rfl, rfl⟩ | ⟨_, rfl⟩⟩ := samplers_mapSampler found
    · rw [thread] at before
      cases before
      exact inv.stopped t th thread lives flag
    · exact inv.stopped t th' before alive flag
  case place =>
    have place := inv.place
    have busy : (∀ t, s.alive t = false) → False := fun none => dead_of_none none thread lives
    have alive : (∀ e, s.client ≠ .join e tid) → ∀ t, s.alive t = true →
        (s.mapSampler tid fun th => { th with pc }).alive t = true := by
      intro waits t living
      obtain ⟨old, before, lived⟩ := alive_eq_true.mp living
      refine alive_eq_true.mpr ?_
      by_cases own : t = tid
      · subst own
        refine ⟨{ th with pc }, by simp [MicState.mapSampler, thread], ?_⟩
        by_contra gone
        obtain ⟨e, waiting⟩ := inv.stopped t th thread lives
          (ends on (Bool.eq_false_of_not_eq_true gone))
        exact waits e waiting
      · exact ⟨old, by simp [MicState.mapSampler, own, before], lived⟩
    show s.client.Holds _
    cases here : s.client with
    | idle | setScheduler | wakeUp | kthreadStop =>
      rw [here] at place
      exact fun on t task => alive (by simp [here]) t (place on t task)
    | reset | join =>
      rw [here] at place
      exact place
    | kthreadCreate =>
      rw [here] at place
      exact (busy place.2).elim
    | exitCounters | unloaded =>
      rw [here] at place
      exact (busy place).elim
    | oops | crashed => trivial
  case registered => exact inv.registered
  case perf => exact inv.perf
  case slots => exact inv.slots

/-- The client changes a thread, which stays alive or returned and keeps its stop flag. -/
theorem MicInv.mapSampler (inv : MicInv ncpus s) {tid : Nat} {f : Sampler → Sampler} {pc : ClientPc}
    (alive : ∀ th, (f th).pc.alive = th.pc.alive)
    (flag : ∀ th, th.shouldStop = true → (f th).shouldStop = true)
    (stopped : ∀ t th, (s.mapSampler tid f).samplers t = some th → th.pc.alive = true →
      th.shouldStop = true → ∃ exiting, pc = .join exiting t)
    (place : pc.Holds { s.mapSampler tid f with client := pc })
    (released : pc.released ≤ s.client.released) :
    MicInv ncpus { s.mapSampler tid f with client := pc } where
  only := fun t th found lives => by
    obtain ⟨old, before, ⟨rfl, rfl⟩ | ⟨_, rfl⟩⟩ := samplers_mapSampler found
    · exact inv.only t old before (alive old ▸ lives)
    · exact inv.only t th before lives
  returned := fun t th found gone => by
    obtain ⟨old, before, ⟨rfl, rfl⟩ | ⟨_, rfl⟩⟩ := samplers_mapSampler found
    · exact flag old (inv.returned t old before (alive old ▸ gone))
    · exact inv.returned t th before gone
  stopped := stopped
  place := place
  registered := inv.registered
  perf := inv.perf
  slots := fun c k held => by
    obtain ⟨below, rest⟩ := inv.slots c k held
    exact ⟨Nat.le_trans released below, rest⟩

/-- A new thread, or an error, in `kthread_task`. -/
theorem MicInv.create (inv : MicInv ncpus s) (here : s.client = .kthreadCreate) (ok : Bool) :
    MicInv ncpus (if ok then
        { s with
          kthreadTask := .thread s.nextTid
          samplers := Function.update s.samplers s.nextTid (some ⟨.created, false⟩)
          nextTid := s.nextTid + 1
          client := .setScheduler }
      else { s with kthreadTask := .err, client := .setScheduler }) := by
  obtain ⟨on, none⟩ : s.on = true ∧ ∀ tid, s.alive tid = false := by
    have place := inv.place
    rw [here] at place
    exact place
  have dead : ∀ tid th, s.samplers tid = some th → th.pc.alive = true → False :=
    fun _ _ => dead_of_none none
  have slots : ∀ c k, s.perf.events c k ≠ Option.none → 0 ≤ c ∧ k < ncpus ∧ micTable.Creates c :=
    fun c k held => ⟨Nat.zero_le _, (inv.slots c k held).2⟩
  cases ok with
  | false =>
    have place : MicState.Sampled { s with kthreadTask := .err, client := .setScheduler } :=
      fun _ tid task => by cases task
    exact inv.of_none none rfl place rfl inv.perf slots
  | true =>
    have found : ∀ tid th, Function.update s.samplers s.nextTid (some ⟨.created, false⟩) tid = some th →
        (tid = s.nextTid ∧ th = ⟨.created, false⟩) ∨ s.samplers tid = some th := by
      intro tid th thread
      rcases update_eq_iff.mp thread with ⟨same, new⟩ | ⟨_, old⟩
      · cases new
        exact .inl ⟨same, rfl⟩
      · exact .inr old
    refine ⟨fun tid th thread lives => ?_, fun tid th thread gone => ?_,
      fun tid th thread lives flag => ?_,
      fun _ tid task => ?_, inv.registered, inv.perf, slots⟩
    · rcases found tid th thread with ⟨rfl, _⟩ | old
      · exact ⟨rfl, on⟩
      · exact (dead tid th old lives).elim
    · rcases found tid th thread with ⟨_, rfl⟩ | old
      · cases gone
      · exact inv.returned tid th old gone
    · rcases found tid th thread with ⟨_, rfl⟩ | old
      · cases flag
      · exact (dead tid th old lives).elim
    · cases task
      exact alive_eq_true.mpr ⟨⟨.created, false⟩, Function.update_self .., rfl⟩

/-- A step of the client. -/
theorem MicInv.client (inv : MicInv ncpus s) {ok : Bool} (taken : s.stepClient ncpus ok = some s') :
    MicInv ncpus s' := by
  have place := inv.place
  unfold MicState.stepClient at taken
  cases here : s.client with
  | idle | unloaded | oops | crashed =>
    simp only [here] at taken
    cases taken
  | reset i =>
    simp only [here, Option.some.injEq] at taken
    rw [here] at place
    have waits : ∀ e tid, s.client ≠ .join e tid := by simp [here]
    subst taken
    split
    · exact inv.move waits (Nat.zero_le _) place
    · have none := inv.none_of_off place
      exact inv.of_none none rfl ⟨rfl, none⟩ rfl inv.perf fun c k held =>
        ⟨Nat.zero_le _, (inv.slots c k held).2⟩
  | kthreadCreate =>
    simp only [here, Option.some.injEq] at taken
    subst taken
    exact inv.create here ok
  | setScheduler =>
    simp only [here, Option.some.injEq] at taken
    rw [here] at place
    have waits : ∀ e tid, s.client ≠ .join e tid := by simp [here]
    subst taken
    split
    · exact inv.move waits (Nat.zero_le _) place
    · cases ok with
      | true => exact inv.move waits (Nat.zero_le _) place
      | false => exact inv.move waits (Nat.zero_le _) trivial
  | wakeUp =>
    simp only [here, Option.some.injEq] at taken
    rw [here] at place
    have waits : ∀ e tid, s.client ≠ .join e tid := by simp [here]
    subst taken
    split
    · refine inv.mapSampler alive_wakeUp (fun th flag => flag) (fun t th found lives flag => ?_)
        (fun on t task => ?_) (Nat.zero_le _)
      · obtain ⟨old, before, ⟨_, rfl⟩ | ⟨_, rfl⟩⟩ := samplers_mapSampler found
        · obtain ⟨e, waiting⟩ := inv.stopped t old before (alive_wakeUp old ▸ lives) flag
          exact absurd waiting (waits e t)
        · obtain ⟨e, waiting⟩ := inv.stopped t th before lives flag
          exact absurd waiting (waits e t)
      · exact (alive_mapSampler alive_wakeUp _ t).trans (place on t task)
    · exact inv.move waits (Nat.zero_le _) place
  | kthreadStop exiting =>
    simp only [here, Option.some.injEq] at taken
    have waits : ∀ e tid, s.client ≠ .join e tid := by simp [here]
    subst taken
    split
    · rename_i tid living
      have task : s.kthreadTask = .thread tid := (livingTask_eq_some living).1
      have alive : ∀ th : Sampler, ({ th with shouldStop := true }.wakeUp).pc.alive = th.pc.alive :=
        fun th => alive_wakeUp _
      refine inv.mapSampler alive (fun _ _ => rfl) (fun t th found lives flag => ?_) task (Nat.zero_le _)
      obtain ⟨old, before, ⟨rfl, _⟩ | ⟨_, rfl⟩⟩ := samplers_mapSampler found
      · exact ⟨exiting, rfl⟩
      · obtain ⟨e, waiting⟩ := inv.stopped t th before lives flag
        exact absurd waiting (waits e t)
    · exact inv.move waits (Nat.zero_le _) trivial
  | join exiting tid =>
    simp only [here] at taken
    obtain ⟨gone, step⟩ := Option.ite_none_left_eq_some.mp taken
    have none := inv.none_of_joined here gone
    have slots : ∀ c k, s.perf.events c k ≠ Option.none → 0 ≤ c ∧ k < ncpus ∧ micTable.Creates c :=
      fun c k held => ⟨Nat.zero_le _, (inv.slots c k held).2⟩
    cases step
    split
    · exact inv.of_none none rfl none rfl inv.perf slots
    · have place : MicState.Sampled { s with on := false, client := .idle } := fun on => by cases on
      exact inv.of_none none rfl place rfl inv.perf slots
  | exitCounters i =>
    simp only [here, Option.some.injEq] at taken
    rw [here] at place
    have none : ∀ t, s.alive t = false := place
    have slots := inv.slots
    rw [here] at slots
    subst taken
    split
    · obtain ⟨perf, _, left⟩ := inv.perf.exitCounter (fun c k held => (slots c k held).2) i
      refine inv.of_none none rfl none rfl perf fun c k held => ?_
      obtain ⟨apart, held⟩ := left c k held
      obtain ⟨below, rest⟩ := slots c k held
      refine ⟨?_, rest⟩
      show i + 1 ≤ c
      have : i ≤ c := below
      omega
    · refine inv.of_none none rfl none rfl inv.perf fun c k held => ?_
      obtain ⟨below, rest⟩ := slots c k held
      exact ⟨Nat.le_trans (Nat.le_of_not_lt ‹_›) below, rest⟩

/-- **One step.** -/
theorem MicInv.step (inv : MicInv ncpus s) {a : MicAction} (taken : s.step ncpus a = some s') :
    MicInv ncpus s' := by
  cases a with
  | micstatStoreCtrl buf =>
    obtain ⟨idle, step⟩ := Option.ite_none_right_eq_some.mp taken
    cases step
    exact inv.storeCtrl idle buf
  | micstatExit =>
    obtain ⟨idle, step⟩ := Option.ite_none_right_eq_some.mp taken
    cases step
    have place := inv.place
    rw [idle] at place
    exact inv.move (by simp [idle]) (Nat.zero_le _) place
  | client ok => exact inv.client taken
  | sampler tid => exact inv.sampler taken

/-- **Which calls of `kthread_stop` are proper**: those made while `on` is set and after the last
`kthread_create` succeeded. -/
theorem MicInv.stopsUnstopped_iff (inv : MicInv ncpus s) {exiting : Bool}
    (here : s.client = .kthreadStop exiting) (ok : Bool) :
    StopsUnstopped (s, .client ok) ↔ s.on = true ∧ ∃ tid, s.kthreadTask = .thread tid := by
  have place := inv.place
  rw [here] at place
  constructor
  · intro proper
    obtain ⟨tid, th, task, thread, unstopped⟩ := proper exiting ok here rfl
    refine ⟨?_, tid, task⟩
    cases lives : th.pc.alive with
    | true => exact (inv.only tid th thread lives).2
    | false =>
      rw [inv.returned tid th thread lives] at unstopped
      cases unstopped
  · rintro ⟨on, tid, task⟩ _ _ _ _
    obtain ⟨th, thread, lives⟩ := alive_eq_true.mp (place on tid task)
    refine ⟨tid, th, task, thread, ?_⟩
    by_contra flag
    obtain ⟨e, waiting⟩ := inv.stopped tid th thread lives (Bool.eq_true_of_not_eq_false flag)
    rw [here] at waiting
    cases waiting

/-- **A `kthread_stop` faults exactly if it is not proper.** -/
theorem MicInv.kthreadStop_faults_iff (inv : MicInv ncpus s) {exiting ok : Bool}
    (here : s.client = .kthreadStop exiting) (taken : s.step ncpus (.client ok) = some s') :
    s'.client = .oops ↔ ¬ StopsUnstopped (s, .client ok) := by
  have place := inv.place
  rw [here] at place
  rw [inv.stopsUnstopped_iff here]
  simp only [MicState.step, MicState.stepClient, here, Option.some.injEq] at taken
  subst taken
  cases living : s.livingTask with
  | some tid =>
    obtain ⟨task, lives⟩ := livingTask_eq_some living
    obtain ⟨th, thread, alive⟩ := alive_eq_true.mp lives
    have on := (inv.only tid th thread alive).2
    simp [on, task]
  | none =>
    refine ⟨fun _ => ?_, fun _ => rfl⟩
    rintro ⟨on, tid, task⟩
    have lives := place on tid task
    simp [MicState.livingTask, task, lives] at living

/-- The fault of a `kthread_stop` comes from a call of it. -/
theorem calls_of_oops {a : MicAction} (taken : s.step ncpus a = some s') (oops : s'.client = .oops)
    (before : s.client ≠ .oops) : ∃ exiting ok, s.client = .kthreadStop exiting ∧ a = .client ok := by
  cases a with
  | micstatStoreCtrl buf =>
    obtain ⟨idle, step⟩ := Option.ite_none_right_eq_some.mp taken
    cases step
    unfold MicState.storeCtrl at oops
    split at oops <;> (try split at oops) <;> simp_all
  | micstatExit =>
    obtain ⟨_, step⟩ := Option.ite_none_right_eq_some.mp taken
    cases step
    cases oops
  | sampler tid =>
    simp only [MicState.step, MicState.stepSampler, Option.bind_eq_bind, Option.bind_eq_some_iff,
      Option.pure_def, Option.some.injEq] at taken
    obtain ⟨_, _, _, _, rfl⟩ := taken
    exact absurd oops before
  | client ok =>
    simp only [MicState.step, MicState.stepClient] at taken
    cases here : s.client with
    | kthreadStop exiting => exact ⟨exiting, ok, rfl, rfl⟩
    | idle | unloaded | oops | crashed =>
      simp only [here] at taken
      cases taken
    | join exiting tid =>
      simp only [here] at taken
      obtain ⟨_, step⟩ := Option.ite_none_left_eq_some.mp taken
      cases step
      split at oops <;> cases oops
    | setScheduler =>
      simp only [here, Option.some.injEq] at taken
      subst taken
      split at oops
      · cases oops
      · cases ok <;> cases oops
    | reset | kthreadCreate | wakeUp | exitCounters =>
      simp only [here, Option.some.injEq] at taken
      subst taken
      split at oops <;> cases oops

end Steps

/-! ### Runs -/

theorem micInv_micstatInit {o : InitOutcomes} (initialised : (micstatInitEvents micTable o).1 = 0) :
    MicInv o.ncpus (micstatInit o) := by
  have within := Haswellstat.within_of_initialised initialised
  exact ⟨fun _ _ thread => (by cases thread), fun _ _ thread => (by cases thread),
    fun _ _ thread => (by cases thread), fun on => (by cases on), rfl, within.inv,
    fun c k held => ⟨Nat.zero_le _, (within.within c k held).2⟩⟩

section Runs

variable {o : InitOutcomes} {trace : List (MicState × MicAction)} {s : MicState}

theorem micInv_of_run (initialised : (micstatInitEvents micTable o).1 = 0)
    (run : Run (MicState.step o.ncpus) (micstatInit o) trace s) : MicInv o.ncpus s :=
  run.invariant (fun _ _ => True) (micInv_micstatInit initialised)
    (fun _ _ _ before _ taken => before.step taken) fun _ _ => trivial

/-- **What `micstat_exit` has done where it returns**: no sampler is alive, every event was released
once, and the class is still registered. -/
theorem unloaded_spec (initialised : (micstatInitEvents micTable o).1 = 0)
    (run : Run (MicState.step o.ncpus) (micstatInit o) trace s) (unloaded : s.client = .unloaded) :
    (∀ tid, s.alive tid = false) ∧ s.perf.released.Perm (List.range s.perf.nextEvent) ∧
      (∀ c k, s.perf.events c k = none) ∧ s.classRegistered = true := by
  have inv := micInv_of_run initialised run
  have place := inv.place
  rw [unloaded] at place
  have empty : ∀ c k, s.perf.events c k = none := by
    intro c k
    by_contra held
    obtain ⟨beyond, _, cnt, there, _⟩ := inv.slots c k held
    rw [unloaded] at beyond
    have inside := (List.getElem?_eq_some_iff.mp there).1
    exact Nat.lt_irrefl _ (Nat.lt_of_lt_of_le inside beyond)
  exact ⟨place, inv.perf.perm empty, empty, inv.registered⟩

/-- A `kthread_stop` that faulted was not proper. -/
theorem improper_of_oops (initialised : (micstatInitEvents micTable o).1 = 0)
    (run : Run (MicState.step o.ncpus) (micstatInit o) trace s) (oops : s.client = .oops) :
    ∃ x ∈ trace, ¬ StopsUnstopped x := by
  induction run with
  | nil => cases oops
  | @snoc trace s s' a before taken ih =>
    by_cases already : s.client = .oops
    · obtain ⟨x, member, improper⟩ := ih already
      exact ⟨x, List.mem_append_left _ member, improper⟩
    · obtain ⟨exiting, ok, here, rfl⟩ := calls_of_oops taken oops already
      have inv := micInv_of_run initialised before
      exact ⟨(s, .client ok), by simp, (inv.kthreadStop_faults_iff here taken).mp oops⟩

/-- **No unloading of micstat is clean.** Over every history of `on` and `off` writes of one client that
`micstat_exit` ends, interleaved in any way with the samplers' steps and whichever creations fail: some
`kthread_stop` was for no sampler that was created and not yet stopped, or `micstat_exit` has returned and
left something behind. -/
theorem micstat_unload_never_clean (initialised : (micstatInitEvents micTable o).1 = 0)
    (run : Run (MicState.step o.ncpus) (micstatInit o) trace s) (ended : Ended s) :
    ¬ CleanUnload trace s := by
  intro clean
  rcases ended with unloaded | oops
  · have left := (clean.gone unloaded).classRegistered
    rw [(unloaded_spec initialised run unloaded).2.2.2] at left
    cases left
  · obtain ⟨x, member, improper⟩ := improper_of_oops initialised run oops
    exact improper (clean.stops x member)

end Runs

/-- One CPU, on which all events can be created, and a class that registers. -/
def oneCpu : InitOutcomes := ⟨1, fun _ _ => true, 0⟩

/-- micstat is switched on, sampled once, and unloaded while its sampler sleeps. -/
def unloadedWhileOn : List MicAction :=
  .micstatStoreCtrl "on".toList :: List.replicate 27 (.client true) ++
    [.sampler 0, .sampler 0, .sampler 0, .micstatExit, .client true, .sampler 0, .sampler 0] ++
    List.replicate 25 (.client true)

/-- `micstat_exit` returns, the fifteen events are released, and the unloading is not clean. -/
theorem micstat_unload_while_on :
    ∃ trace s, Run (MicState.step oneCpu.ncpus) (micstatInit oneCpu) trace s ∧
      s.client = .unloaded ∧ s.perf.released.length = 15 ∧ ¬ CleanUnload trace s := by
  have done : (exec (MicState.step oneCpu.ncpus) (micstatInit oneCpu) unloadedWhileOn).any fun s =>
      s.client == .unloaded && s.perf.released.length == 15 := by decide +kernel
  obtain ⟨trace, s, run, _, passed⟩ := run_of_exec_any done
  simp only [Bool.and_eq_true, beq_iff_eq] at passed
  exact ⟨trace, s, run, passed.1, passed.2,
    micstat_unload_never_clean (by decide +kernel) run (.inl passed.1)⟩

/-- Never switched on, micstat calls `kthread_stop` with a null pointer. -/
theorem unload_never_switched_on :
    ¬ ∀ (o : InitOutcomes) trace s, (micstatInitEvents micTable o).1 = 0 →
      Run (MicState.step o.ncpus) (micstatInit o) trace s → Ended s → CleanUnload trace s := by
  intro always
  have run : Run (MicState.step oneCpu.ncpus) (micstatInit oneCpu)
      (([] ++ [(micstatInit oneCpu, .micstatExit)]) ++
        [({ micstatInit oneCpu with client := .kthreadStop true }, .client true)])
      { micstatInit oneCpu with client := .oops } := (Run.nil.snoc rfl).snoc rfl
  have clean := always oneCpu _ _ (by decide +kernel) run (.inr rfl)
  obtain ⟨tid, _, task, _⟩ := clean.stops
    ({ micstatInit oneCpu with client := .kthreadStop true }, .client true) (by simp) true true rfl rfl
  cases task

end Xstats.Micstat
