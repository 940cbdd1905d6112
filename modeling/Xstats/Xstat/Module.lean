/-
**The xstat module as a transition system** (`xstat.c`).

The parties are the writers of the ctrl attribute, one sampler thread for each `start_stat` and node,
and the readers and writers of the nodes' own attributes. A step is one of

* an iteration of the loop in `start_stat` or `stop_stat`, which the writer makes under `ctrl_lock`
  (`CtrlPc` says where it stands, and `free` that nobody holds the lock);
* a step of a sampler: one call of a counter's `init`, `restart` or `exit`, one critical section, one
  test of `kthread_should_stop`;
* an attribute's critical section under the node's lock.

Of the kernel the model takes: `kthread_stop` sets the thread's stop flag and waits for the thread to
return, a thread that is stopped before it first runs never enters `kthread_function`, and `kzalloc`
gives every allocation a name of its own. What `get_time` returns is an input of the step, any word at
all; `Xstat.SharedClock` says what it can be. What follows a null pointer, such as `perf_init` after a
`kzalloc` that failed, or a pointer to a freed node, has no next step.

`history` is a ghost: it records what the theorems about runs speak of.
-/

import Xstats.Lib.Transition
import Xstats.Xstat.Restart

namespace Xstats.Xstat

open RingBuffer Transition

/-! ### State -/

/-- Where a thread is in `kthread_function`. -/
inductive SamplerPc
  /-- Created and woken, not yet run. -/
  | created
  /-- In `init_counters`, before iteration `i`. -/
  | initCounters (i : Fin xstatNcnt)
  /-- In `roll_buffer`, before iteration `i`. -/
  | restart (i : Fin xstatNcnt)
  /-- In `roll_buffer`, before its critical section. -/
  | commit
  /-- Before the `get_time` that follows `roll_buffer`. -/
  | afterRoll
  | firstCheck
  | sleeping
  | secondCheck
  /-- In `exit_counters`, before iteration `i`. -/
  | exitCounters (i : Fin xstatNcnt)
  | returned
  /-- Stopped before it first ran. -/
  | cancelled
  deriving DecidableEq, Repr

/-- The thread has been created and has not yet returned. -/
def SamplerPc.Alive (pc : SamplerPc) : Prop := pc ≠ .returned ∧ pc ≠ .cancelled

instance (pc : SamplerPc) : Decidable pc.Alive := inferInstanceAs (Decidable (_ ∧ _))

/-- A sampler thread, with the flag that `kthread_should_stop` reads. -/
structure Sampler where
  nid : Nat
  pc : SamplerPc
  shouldStop : Bool
  deriving DecidableEq, Repr

/-- What the holder of `ctrl_lock` does next. -/
inductive CtrlPc
  | free
  /-- In `start_stat`, before iteration `i`. -/
  | starting (i : Nat)
  /-- In `stop_stat`, before iteration `i`. -/
  | stopping (i : Nat)
  /-- In the `kthread_stop` of iteration `i`. -/
  | waiting (i tid : Nat)
  /-- `kthread_stop` followed a null pointer; the lock stays held. -/
  | oops
  deriving DecidableEq, Repr

/-- What happened, oldest first. Contexts and threads go by the names the allocator gave them. -/
inductive Event
  | initEntered (nid tid : Nat)
  | initReturned (nid tid : Nat)
  | exitEntered (nid tid : Nat)
  | exitReturned (nid tid : Nat)
  | perfInit (ctx tid : Nat)
  | perfRestart (ctx tid : Nat)
  | perfExit (ctx tid : Nat)
  | sample (nid : Nat) (record : Record)

/-- The module's variables, its threads, and the ghost `history`. -/
structure ModuleState where
  ctrlOn : Bool
  ctrl : CtrlPc
  xstatNodes : Nat → Option XstatNode
  samplers : Nat → Option Sampler
  nextTid : Nat
  nextCtx : Nat
  history : List Event

/-- The state that `xstat_init` leaves. -/
def xstatInit (maxNumnodes : Nat) (nodeOnline : Nat → Bool) : ModuleState :=
  { ctrlOn := false, ctrl := .free
    xstatNodes := fun nid =>
      if nid < maxNumnodes ∧ nodeOnline nid then some (registerXstatNode nid) else none
    samplers := fun _ => none, nextTid := 0, nextCtx := 0, history := [] }

/-! ### A step of a sampler -/

/-- The next index of a loop over the counters. -/
def nextCounter (i : Fin xstatNcnt) : Option (Fin xstatNcnt) :=
  if inside : i.val + 1 < xstatNcnt then some ⟨i.val + 1, inside⟩ else none

/-- What one step of a thread leaves: its place, its node, the allocator, what happened. -/
structure ThreadStep where
  pc : SamplerPc
  node : Option XstatNode
  nextCtx : Nat
  events : List Event

/-- The place after iteration `i` of `init_counters`, with what happened there. -/
def afterInit (nid tid : Nat) (i : Fin xstatNcnt) : SamplerPc × List Event :=
  match nextCounter i with
  | some next => (.initCounters next, [])
  | none => (.restart 0, [.initReturned nid tid])

/-- The place after iteration `i` of `roll_buffer`. -/
def afterRestart (i : Fin xstatNcnt) : SamplerPc :=
  match nextCounter i with
  | some next => .restart next
  | none => .commit

/-- The place after iteration `i` of `exit_counters`, with what happened there. -/
def afterExit (nid tid : Nat) (i : Fin xstatNcnt) : SamplerPc × List Event :=
  match nextCounter i with
  | some next => (.exitCounters next, [])
  | none => (.returned, [.exitReturned nid tid])

/-- The perf context that a call follows. -/
def perfCtx : Slot → Option Nat
  | .perf ctx => some ctx
  | _ => none

/-- One step of `kthread_function`, for thread `tid` on node `nid`; `node` is none once it was freed. -/
def threadStep (nid tid : Nat) (shouldStop : Bool) (node : Option XstatNode) (nextCtx : Nat)
    (input : Input) : SamplerPc → Option ThreadStep
  | .created =>
    some (if shouldStop then ⟨.cancelled, node, nextCtx, []⟩
      else ⟨.initCounters 0, node, nextCtx, [.initEntered nid tid]⟩)
  | .initCounters i => do
    let node ← node
    let after := afterInit nid tid i
    if (nodeCounters i).init = some .perfInit then
      -- `perf_init` does not test what `kzalloc` returned, and follows it.
      if input.kzalloc then
        return ⟨after.1, some (node.initCounter nextCtx i), nextCtx + 1,
          .perfInit nextCtx tid :: after.2⟩
      else none
    else return ⟨after.1, some (node.initCounter nextCtx i), nextCtx, after.2⟩
  | .restart i => do
    let node ← node
    let node' ← node.restartCounter i input
    if (nodeCounters i).restart = .perfRestart then
      let ctx ← perfCtx (node.ctxs i)
      return ⟨afterRestart i, some node', nextCtx, [.perfRestart ctx tid]⟩
    else return ⟨afterRestart i, some node', nextCtx, []⟩
  | .commit =>
    node.map fun node => ⟨.afterRoll, some node.commit, nextCtx, [.sample nid node.workingBuf]⟩
  | .afterRoll => some ⟨.firstCheck, node, nextCtx, []⟩
  | .firstCheck =>
    some (if shouldStop then ⟨.exitCounters 0, node, nextCtx, [.exitEntered nid tid]⟩
      else ⟨.sleeping, node, nextCtx, []⟩)
  | .sleeping => some ⟨.secondCheck, node, nextCtx, []⟩
  | .secondCheck =>
    some (if shouldStop then ⟨.exitCounters 0, node, nextCtx, [.exitEntered nid tid]⟩
      else ⟨.restart 0, node, nextCtx, []⟩)
  | .exitCounters i => do
    let node ← node
    let after := afterExit nid tid i
    if (nodeCounters i).exit = some .perfExit then
      -- The entry keeps the address of the context that is freed here.
      let ctx ← perfCtx (node.ctxs i)
      return ⟨after.1, some node, nextCtx, .perfExit ctx tid :: after.2⟩
    else return ⟨after.1, some node, nextCtx, after.2⟩
  | .returned | .cancelled => none

/-- The steps of a thread, one constructor for each. -/
inductive ThreadMove (nid tid : Nat) (shouldStop : Bool) (nextCtx : Nat) (input : Input) :
    SamplerPc → Option XstatNode → ThreadStep → Prop
  | run {node} (going : shouldStop = false) :
      ThreadMove nid tid shouldStop nextCtx input .created node
        ⟨.initCounters 0, node, nextCtx, [.initEntered nid tid]⟩
  | cancel {node} (stopped : shouldStop = true) :
      ThreadMove nid tid shouldStop nextCtx input .created node ⟨.cancelled, node, nextCtx, []⟩
  | initPerf {node i} (perf : (nodeCounters i).init = some .perfInit)
      (memory : input.kzalloc = true) :
      ThreadMove nid tid shouldStop nextCtx input (.initCounters i) (some node)
        ⟨(afterInit nid tid i).1, some (node.initCounter nextCtx i), nextCtx + 1,
          .perfInit nextCtx tid :: (afterInit nid tid i).2⟩
  | init {node i} (other : (nodeCounters i).init ≠ some .perfInit) :
      ThreadMove nid tid shouldStop nextCtx input (.initCounters i) (some node)
        ⟨(afterInit nid tid i).1, some (node.initCounter nextCtx i), nextCtx,
          (afterInit nid tid i).2⟩
  | restartPerf {node node' i ctx} (perf : (nodeCounters i).restart = .perfRestart)
      (entry : node.ctxs i = .perf ctx) (done : node.restartCounter i input = some node') :
      ThreadMove nid tid shouldStop nextCtx input (.restart i) (some node)
        ⟨afterRestart i, some node', nextCtx, [.perfRestart ctx tid]⟩
  | restart {node node' i} (other : (nodeCounters i).restart ≠ .perfRestart)
      (done : node.restartCounter i input = some node') :
      ThreadMove nid tid shouldStop nextCtx input (.restart i) (some node)
        ⟨afterRestart i, some node', nextCtx, []⟩
  | commit {node} :
      ThreadMove nid tid shouldStop nextCtx input .commit (some node)
        ⟨.afterRoll, some node.commit, nextCtx, [.sample nid node.workingBuf]⟩
  | afterRoll {node} :
      ThreadMove nid tid shouldStop nextCtx input .afterRoll node ⟨.firstCheck, node, nextCtx, []⟩
  | sleep {node} (going : shouldStop = false) :
      ThreadMove nid tid shouldStop nextCtx input .firstCheck node ⟨.sleeping, node, nextCtx, []⟩
  | wake {node} :
      ThreadMove nid tid shouldStop nextCtx input .sleeping node ⟨.secondCheck, node, nextCtx, []⟩
  | again {node} (going : shouldStop = false) :
      ThreadMove nid tid shouldStop nextCtx input .secondCheck node ⟨.restart 0, node, nextCtx, []⟩
  | leave {node pc} (check : pc = .firstCheck ∨ pc = .secondCheck) (stopped : shouldStop = true) :
      ThreadMove nid tid shouldStop nextCtx input pc node
        ⟨.exitCounters 0, node, nextCtx, [.exitEntered nid tid]⟩
  | exitPerf {node i ctx} (perf : (nodeCounters i).exit = some .perfExit)
      (entry : node.ctxs i = .perf ctx) :
      ThreadMove nid tid shouldStop nextCtx input (.exitCounters i) (some node)
        ⟨(afterExit nid tid i).1, some node, nextCtx, .perfExit ctx tid :: (afterExit nid tid i).2⟩
  | exit {node i} (other : (nodeCounters i).exit ≠ some .perfExit) :
      ThreadMove nid tid shouldStop nextCtx input (.exitCounters i) (some node)
        ⟨(afterExit nid tid i).1, some node, nextCtx, (afterExit nid tid i).2⟩

theorem perfCtx_eq_some {slot : Slot} {ctx : Nat} (entry : perfCtx slot = some ctx) :
    slot = .perf ctx := by
  cases slot <;> simp_all [perfCtx]

theorem threadMove_of_step {nid tid nextCtx : Nat} {shouldStop : Bool} {node : Option XstatNode}
    {input : Input} {pc : SamplerPc} {after : ThreadStep}
    (taken : threadStep nid tid shouldStop node nextCtx input pc = some after) :
    ThreadMove nid tid shouldStop nextCtx input pc node after := by
  cases pc with
  | created =>
    cases shouldStop with
    | true =>
      cases taken
      exact .cancel rfl
    | false =>
      cases taken
      exact .run rfl
  | initCounters i =>
    obtain ⟨node, rfl, step⟩ := Option.bind_eq_some_iff.mp taken
    by_cases perf : (nodeCounters i).init = some .perfInit
    · rw [if_pos perf] at step
      obtain ⟨memory, step⟩ := Option.ite_none_right_eq_some.mp step
      cases step
      exact .initPerf perf memory
    · rw [if_neg perf] at step
      cases step
      exact .init perf
  | restart i =>
    simp only [threadStep, Option.bind_eq_bind, Option.bind_eq_some_iff] at taken
    obtain ⟨node, rfl, node', done, rest⟩ := taken
    by_cases perf : (nodeCounters i).restart = .perfRestart
    · simp only [if_pos perf, Option.bind_eq_some_iff] at rest
      obtain ⟨ctx, entry, step⟩ := rest
      cases step
      exact .restartPerf perf (perfCtx_eq_some entry) done
    · rw [if_neg perf] at rest
      cases rest
      exact .restart perf done
  | commit =>
    obtain ⟨node, rfl, rfl⟩ := Option.map_eq_some_iff.mp taken
    exact .commit
  | afterRoll =>
    cases taken
    exact .afterRoll
  | firstCheck =>
    cases shouldStop with
    | true =>
      cases taken
      exact .leave (.inl rfl) rfl
    | false =>
      cases taken
      exact .sleep rfl
  | sleeping =>
    cases taken
    exact .wake
  | secondCheck =>
    cases shouldStop with
    | true =>
      cases taken
      exact .leave (.inr rfl) rfl
    | false =>
      cases taken
      exact .again rfl
  | exitCounters i =>
    simp only [threadStep, Option.bind_eq_bind, Option.bind_eq_some_iff] at taken
    obtain ⟨node, rfl, rest⟩ := taken
    by_cases perf : (nodeCounters i).exit = some .perfExit
    · simp only [if_pos perf, Option.bind_eq_some_iff] at rest
      obtain ⟨ctx, entry, step⟩ := rest
      cases step
      exact .exitPerf perf (perfCtx_eq_some entry)
    · rw [if_neg perf] at rest
      cases rest
      exact .exit perf
  | returned => cases taken
  | cancelled => cases taken

/-! ### The steps of the module -/

/-- What a write to the ctrl attribute calls. -/
inductive CtrlCall
  | startStat
  | stopStat
  deriving DecidableEq, Repr

/-- The tests of `store_ctrl_attr` on the `count` characters written. -/
def storeCtrlAttr (buf : List Char) : Option CtrlCall :=
  if "on".toList.isPrefixOf buf then some .startStat
  else if "off".toList.isPrefixOf buf then some .stopStat
  else none

inductive ModuleAction
  /-- A write to the ctrl attribute. Where it calls `start_stat` or `stop_stat`, it takes the lock
  and tests the flag. -/
  | storeCtrlAttr (buf : List Char)
  /-- An iteration in `start_stat`; `created` says whether `kthread_create_on_node` succeeds. -/
  | startStat (created : Bool)
  /-- An iteration in `stop_stat`, up to the call of `kthread_stop` or from its return. -/
  | stopStat
  | sampler (tid : Nat) (input : Input)
  | storeResetAttr (nid count : Nat)
  | showStatAttr (nid : Nat)
  | showLastAttr (nid : Nat)

namespace ModuleState

/-- `xstat_nodes[nid]` replaced. -/
def setNode (s : ModuleState) (nid : Nat) (node : Option XstatNode) : ModuleState :=
  { s with xstatNodes := Function.update s.xstatNodes nid node }

/-- A thread replaced. -/
def setSampler (s : ModuleState) (tid : Nat) (th : Sampler) : ModuleState :=
  { s with samplers := Function.update s.samplers tid (some th) }

/-- `start_stat` or `stop_stat` up to its loop: taking the lock and testing the flag. -/
def enterCall (s : ModuleState) (call : CtrlCall) : Option ModuleState :=
  if s.ctrl = .free then
    match call with
    | .startStat => some (if s.ctrlOn then s else { s with ctrlOn := true, ctrl := .starting 0 })
    | .stopStat => some (if s.ctrlOn then { s with ctrlOn := false, ctrl := .stopping 0 } else s)
  else none

/-- A write to the ctrl attribute. -/
def writeCtrl (s : ModuleState) (buf : List Char) : Option ModuleState :=
  match Xstat.storeCtrlAttr buf with
  | none => some s
  | some call => s.enterCall call

/-- An iteration of the loop in `start_stat`. -/
def startStat (maxNumnodes : Nat) (s : ModuleState) (created : Bool) : Option ModuleState :=
  match s.ctrl with
  | .starting i =>
    if i < maxNumnodes then
      match s.xstatNodes i with
      | none => some { s with ctrl := .starting (i + 1) }
      | some node =>
        if created then
          some { (s.setNode i (some { node with task := some s.nextTid })).setSampler s.nextTid
              ⟨i, .created, false⟩ with nextTid := s.nextTid + 1, ctrl := .starting (i + 1) }
        else
          some { s.setNode i (some { node with task := none }) with ctrl := .starting (i + 1) }
    else some { s with ctrl := .free }
  | _ => none

/-- An iteration of the loop in `stop_stat`, in two halves around the wait of `kthread_stop`. -/
def stopStat (maxNumnodes : Nat) (s : ModuleState) : Option ModuleState :=
  match s.ctrl with
  | .stopping i =>
    if i < maxNumnodes then
      match s.xstatNodes i with
      | none => some { s with ctrl := .stopping (i + 1) }
      | some node =>
        match node.task with
        | none => some { s with ctrl := .oops }
        | some tid =>
          (s.samplers tid).map fun th =>
            { s.setSampler tid { th with shouldStop := true } with ctrl := .waiting i tid }
    else some { s with ctrl := .free }
  | .waiting i tid => do
    let th ← s.samplers tid
    if th.pc.Alive then none
    else
      return { s.setNode i ((s.xstatNodes i).map fun node => { node with task := none }) with
        ctrl := .stopping (i + 1) }
  | _ => none

/-- A step of a sampler. -/
def stepSampler (s : ModuleState) (tid : Nat) (input : Input) : Option ModuleState := do
  let th ← s.samplers tid
  let after ← threadStep th.nid tid th.shouldStop (s.xstatNodes th.nid) s.nextCtx input th.pc
  return { (s.setNode th.nid after.node).setSampler tid { th with pc := after.pc } with
    nextCtx := after.nextCtx, history := s.history ++ after.events }

/-- The step function of the module. -/
def step (maxNumnodes : Nat) (s : ModuleState) : ModuleAction → Option ModuleState
  | .storeCtrlAttr buf => s.writeCtrl buf
  | .startStat created => s.startStat maxNumnodes created
  | .stopStat => s.stopStat maxNumnodes
  | .sampler tid input => s.stepSampler tid input
  | .storeResetAttr nid count =>
    (s.xstatNodes nid).map fun node => s.setNode nid (some (node.storeResetAttr count))
  | .showStatAttr nid =>
    (s.xstatNodes nid).map fun node => s.setNode nid (some node.showStatAttr.1)
  | .showLastAttr nid => (s.xstatNodes nid).map fun _ => s

/-- The steps of the module, one constructor for each. -/
inductive Move (maxNumnodes : Nat) (s : ModuleState) : ModuleAction → ModuleState → Prop
  | ignored {buf} : Move maxNumnodes s (.storeCtrlAttr buf) s
  | startBegins {buf} (free : s.ctrl = .free) (off : s.ctrlOn = false) :
      Move maxNumnodes s (.storeCtrlAttr buf) { s with ctrlOn := true, ctrl := .starting 0 }
  | stopBegins {buf} (free : s.ctrl = .free) (on : s.ctrlOn = true) :
      Move maxNumnodes s (.storeCtrlAttr buf) { s with ctrlOn := false, ctrl := .stopping 0 }
  | startSkips {i created} (here : s.ctrl = .starting i) (absent : s.xstatNodes i = none) :
      Move maxNumnodes s (.startStat created) { s with ctrl := .starting (i + 1) }
  | starts {i node} (here : s.ctrl = .starting i) (there : s.xstatNodes i = some node) :
      Move maxNumnodes s (.startStat true)
        { (s.setNode i (some { node with task := some s.nextTid })).setSampler s.nextTid
            ⟨i, .created, false⟩ with nextTid := s.nextTid + 1, ctrl := .starting (i + 1) }
  | startFails {i node} (here : s.ctrl = .starting i) (there : s.xstatNodes i = some node) :
      Move maxNumnodes s (.startStat false)
        { s.setNode i (some { node with task := none }) with ctrl := .starting (i + 1) }
  | startEnds {i created} (here : s.ctrl = .starting i) (beyond : maxNumnodes ≤ i) :
      Move maxNumnodes s (.startStat created) { s with ctrl := .free }
  | stopSkips {i} (here : s.ctrl = .stopping i) (absent : s.xstatNodes i = none) :
      Move maxNumnodes s .stopStat { s with ctrl := .stopping (i + 1) }
  | stopFaults {i node} (here : s.ctrl = .stopping i) (there : s.xstatNodes i = some node)
      (null : node.task = none) : Move maxNumnodes s .stopStat { s with ctrl := .oops }
  | stops {i tid node th} (here : s.ctrl = .stopping i) (there : s.xstatNodes i = some node)
      (task : node.task = some tid) (thread : s.samplers tid = some th) :
      Move maxNumnodes s .stopStat
        { s.setSampler tid { th with shouldStop := true } with ctrl := .waiting i tid }
  | joins {i tid th} (here : s.ctrl = .waiting i tid) (thread : s.samplers tid = some th)
      (finished : ¬ th.pc.Alive) :
      Move maxNumnodes s .stopStat
        { s.setNode i ((s.xstatNodes i).map fun node => { node with task := none }) with
          ctrl := .stopping (i + 1) }
  | stopEnds {i} (here : s.ctrl = .stopping i) (beyond : maxNumnodes ≤ i) :
      Move maxNumnodes s .stopStat { s with ctrl := .free }
  | sampler {tid input th after} (thread : s.samplers tid = some th)
      (move : ThreadMove th.nid tid th.shouldStop s.nextCtx input th.pc (s.xstatNodes th.nid)
        after) :
      Move maxNumnodes s (.sampler tid input)
        { (s.setNode th.nid after.node).setSampler tid { th with pc := after.pc } with
          nextCtx := after.nextCtx, history := s.history ++ after.events }
  | reset {nid count node} (there : s.xstatNodes nid = some node) :
      Move maxNumnodes s (.storeResetAttr nid count)
        (s.setNode nid (some (node.storeResetAttr count)))
  | stat {nid node} (there : s.xstatNodes nid = some node) :
      Move maxNumnodes s (.showStatAttr nid) (s.setNode nid (some node.showStatAttr.1))
  | last {nid node} (there : s.xstatNodes nid = some node) :
      Move maxNumnodes s (.showLastAttr nid) s

theorem move_of_writeCtrl {maxNumnodes : Nat} {s s' : ModuleState} {buf : List Char}
    (taken : s.writeCtrl buf = some s') : Move maxNumnodes s (.storeCtrlAttr buf) s' := by
  unfold writeCtrl at taken
  cases decoded : Xstat.storeCtrlAttr buf with
  | none =>
    rw [decoded] at taken
    cases taken
    exact .ignored
  | some call =>
    simp only [decoded, enterCall] at taken
    obtain ⟨free, rest⟩ := Option.ite_none_right_eq_some.mp taken
    cases on : s.ctrlOn with
    | true =>
      cases call with
      | startStat =>
        simp only [on, if_true] at rest
        cases rest
        exact .ignored
      | stopStat =>
        simp only [on, if_true] at rest
        cases rest
        exact .stopBegins free on
    | false =>
      cases call with
      | startStat =>
        simp only [on] at rest
        cases rest
        exact .startBegins free on
      | stopStat =>
        simp only [on] at rest
        cases rest
        exact .ignored

theorem move_of_startStat {maxNumnodes : Nat} {s s' : ModuleState} {created : Bool}
    (taken : s.startStat maxNumnodes created = some s') :
    Move maxNumnodes s (.startStat created) s' := by
  unfold startStat at taken
  cases here : s.ctrl with
  | starting i =>
    simp only [here] at taken
    by_cases inside : i < maxNumnodes
    · rw [if_pos inside] at taken
      cases there : s.xstatNodes i with
      | none =>
        simp only [there] at taken
        cases taken
        exact .startSkips here there
      | some node =>
        simp only [there] at taken
        cases created with
        | true =>
          cases taken
          exact .starts here there
        | false =>
          cases taken
          exact .startFails here there
    · rw [if_neg inside] at taken
      cases taken
      exact .startEnds here (Nat.le_of_not_lt inside)
  | free | stopping | waiting | oops =>
    simp only [here] at taken
    cases taken

theorem move_of_stopStat {maxNumnodes : Nat} {s s' : ModuleState}
    (taken : s.stopStat maxNumnodes = some s') : Move maxNumnodes s .stopStat s' := by
  unfold stopStat at taken
  cases here : s.ctrl with
  | stopping i =>
    simp only [here] at taken
    by_cases inside : i < maxNumnodes
    · rw [if_pos inside] at taken
      cases there : s.xstatNodes i with
      | none =>
        simp only [there] at taken
        cases taken
        exact .stopSkips here there
      | some node =>
        simp only [there] at taken
        cases task : node.task with
        | none =>
          simp only [task] at taken
          cases taken
          exact .stopFaults here there task
        | some tid =>
          simp only [task] at taken
          obtain ⟨th, thread, rfl⟩ := Option.map_eq_some_iff.mp taken
          exact .stops here there task thread
    · rw [if_neg inside] at taken
      cases taken
      exact .stopEnds here (Nat.le_of_not_lt inside)
  | waiting i tid =>
    simp only [here, Option.bind_eq_bind, Option.bind_eq_some_iff] at taken
    obtain ⟨th, thread, rest⟩ := taken
    obtain ⟨finished, step⟩ := Option.ite_none_left_eq_some.mp rest
    cases step
    exact .joins here thread finished
  | free | starting | oops =>
    simp only [here] at taken
    cases taken

theorem move_of_step {maxNumnodes : Nat} {s s' : ModuleState} {a : ModuleAction}
    (taken : s.step maxNumnodes a = some s') : Move maxNumnodes s a s' := by
  cases a with
  | storeCtrlAttr buf => exact move_of_writeCtrl taken
  | startStat created => exact move_of_startStat taken
  | stopStat => exact move_of_stopStat taken
  | sampler tid input =>
    simp only [step, stepSampler, Option.bind_eq_bind, Option.bind_eq_some_iff] at taken
    obtain ⟨th, thread, after, move, rest⟩ := taken
    cases rest
    exact .sampler thread (threadMove_of_step move)
  | storeResetAttr nid count =>
    obtain ⟨node, there, rfl⟩ := Option.map_eq_some_iff.mp taken
    exact .reset there
  | showStatAttr nid =>
    obtain ⟨node, there, rfl⟩ := Option.map_eq_some_iff.mp taken
    exact .stat there
  | showLastAttr nid =>
    obtain ⟨node, there, rfl⟩ := Option.map_eq_some_iff.mp taken
    exact .last there

/-! ### The steps that no thread makes -/

/-- The node's place in `xstat_nodes` after a change to it. -/
theorem xstatNodes_setNode (s : ModuleState) (nid : Nat) (node : Option XstatNode) (n : Nat) :
    (s.setNode nid node).xstatNodes n = if n = nid then node else s.xstatNodes n :=
  Function.update_apply _ _ _ _

theorem samplers_setSampler (s : ModuleState) (tid : Nat) (th : Sampler) (t : Nat) :
    (s.setSampler tid th).samplers t = if t = tid then some th else s.samplers t :=
  Function.update_apply _ _ _ _

/-- What such a step does to a node. -/
inductive NodeMove (node : XstatNode) : XstatNode → Prop
  | task (t : Option Nat) : NodeMove node { node with task := t }
  | reset (count : Nat) : NodeMove node (node.storeResetAttr count)
  | stat : NodeMove node node.showStatAttr.1

theorem NodeMove.sameContexts {node node' : XstatNode} (move : NodeMove node node') :
    node'.ctxs = node.ctxs ∧ node'.workingBuf = node.workingBuf := by
  cases move with
  | task => exact ⟨rfl, rfl⟩
  | reset count => exact ⟨node.ctxs_storeResetAttr count, node.workingBuf_storeResetAttr count⟩
  | stat =>
    have same := node.sameContexts_showStatAttr
    exact ⟨same.ctxs_eq, same.workingBuf_eq⟩

section Others

variable {maxNumnodes : Nat} {s s' : ModuleState} {a : ModuleAction}

/-- Only threads write to the history. -/
theorem history_of_step (taken : s.step maxNumnodes a = some s')
    (other : ∀ tid input, a ≠ .sampler tid input) : s'.history = s.history := by
  cases move_of_step taken with
  | sampler => exact absurd rfl (other _ _)
  | _ => rfl

theorem nodeMove_of_step (taken : s.step maxNumnodes a = some s')
    (other : ∀ tid input, a ≠ .sampler tid input) {nid : Nat} {node' : XstatNode}
    (there : s'.xstatNodes nid = some node') :
    ∃ node, s.xstatNodes nid = some node ∧ NodeMove node node' := by
  have same : s.xstatNodes nid = some node' → ∃ node, s.xstatNodes nid = some node ∧
      NodeMove node node' := fun here => ⟨node', here, .task node'.task⟩
  have changed : ∀ i node changed, s.xstatNodes i = some node → NodeMove node changed →
      (s.setNode i (some changed)).xstatNodes nid = some node' →
        ∃ node, s.xstatNodes nid = some node ∧ NodeMove node node' := by
    intro i node changed before move after
    rw [xstatNodes_setNode] at after
    by_cases here : nid = i
    · rw [if_pos here] at after
      cases after
      exact ⟨node, here ▸ before, move⟩
    · rw [if_neg here] at after
      exact same after
  cases move_of_step taken with
  | ignored | last _ | startBegins | stopBegins | startSkips | startEnds | stopSkips | stopFaults
  | stops | stopEnds => exact same there
  | starts _ before | startFails _ before => exact changed _ _ _ before (.task _) there
  | @joins i _ _ here =>
    change (s.setNode i _).xstatNodes nid = _ at there
    cases before : s.xstatNodes i with
    | none =>
      rw [before, xstatNodes_setNode] at there
      by_cases mine : nid = i
      · rw [if_pos mine] at there
        cases there
      · rw [if_neg mine] at there
        exact same there
    | some node =>
      rw [before] at there
      exact changed i node _ before (.task none) there
  | sampler => exact absurd rfl (other _ _)
  | reset before => exact changed _ _ _ before (.reset _) there
  | stat before => exact changed _ _ _ before .stat there

/-- Such a step moves no thread; it may create one. -/
theorem place_of_step (taken : s.step maxNumnodes a = some s')
    (other : ∀ tid input, a ≠ .sampler tid input) {tid : Nat} {th : Sampler}
    (thread : s'.samplers tid = some th) :
    (∃ th', s.samplers tid = some th' ∧ th.nid = th'.nid ∧ th.pc = th'.pc) ∨ th.pc = .created := by
  have same : s.samplers tid = some th →
      (∃ th', s.samplers tid = some th' ∧ th.nid = th'.nid ∧ th.pc = th'.pc) ∨ th.pc = .created :=
    fun found => .inl ⟨th, found, rfl, rfl⟩
  cases move_of_step taken with
  | ignored | last _ | startBegins | stopBegins | startSkips | startEnds | stopSkips | stopFaults
  | stopEnds | startFails | joins | reset | stat => exact same thread
  | starts =>
    change (s.setSampler s.nextTid _).samplers tid = _ at thread
    rw [samplers_setSampler] at thread
    by_cases new : tid = s.nextTid
    · rw [if_pos new] at thread
      cases thread
      exact .inr rfl
    · rw [if_neg new] at thread
      exact same thread
  | @stops i t node th' _ _ _ found =>
    change (s.setSampler t _).samplers tid = _ at thread
    rw [samplers_setSampler] at thread
    by_cases mine : tid = t
    · rw [if_pos mine] at thread
      cases thread
      exact .inl ⟨th', mine ▸ found, rfl, rfl⟩
    · rw [if_neg mine] at thread
      exact same thread
  | sampler => exact absurd rfl (other _ _)

end Others

end ModuleState

end Xstats.Xstat
