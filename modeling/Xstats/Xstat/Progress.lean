/-
**What keeps the threads and the lock's holder going.**

A step that follows a null pointer, a pointer to a freed node, or an entry that `init_counters` did not
set, is not possible in the model. So a party that can always make its next step never follows one.
`stop_stat` waits in `kthread_stop` for one thread after the other, with `ctrl_lock` held. A stopped
thread ends the pass it is in, tests its flag and leaves.

* `GoingInv.unregister`: freeing a node without a sampler takes nothing from the others.
* `samplers_go_on`: a living thread can always make its next step, while the module is removed too.
* `ctrl_lock_released`: who holds `ctrl_lock` releases it, after a number of steps that the number of
  nodes bounds.
-/

import Xstats.Lib.Ranking
import Xstats.Xstat.Contexts
import Xstats.Xstat.Exit

namespace Xstats.Xstat

open Transition ModuleState

/-! ### Threads -/

/-- The invariants that a thread's next step rests on. -/
structure GoingInv (maxNumnodes : Nat) (s : ModuleState) : Prop where
  ctrl : CtrlInv maxNumnodes s
  ctxs : CtxInv s
  read : ReadInv s

theorem goingInv_xstatInit (maxNumnodes : Nat) (nodeOnline : Nat → Bool) :
    GoingInv maxNumnodes (xstatInit maxNumnodes nodeOnline) :=
  ⟨ctrlInv_xstatInit maxNumnodes nodeOnline, ctxInv_xstatInit maxNumnodes nodeOnline,
    readInv_xstatInit maxNumnodes nodeOnline⟩

section Threads

variable {maxNumnodes : Nat} {s s' : ModuleState}

theorem GoingInv.step (inv : GoingInv maxNumnodes s) {a : ModuleAction}
    (taken : s.step maxNumnodes a = some s') : GoingInv maxNumnodes s' :=
  ⟨inv.ctrl.step taken, inv.ctxs.step inv.ctrl taken, inv.read.step inv.ctrl taken⟩

/-- The entry of a perf counter is set while a thread of the node holds its context. -/
theorem GoingInv.perf_entry (inv : GoingInv maxNumnodes s) {tid : Nat} {th : Sampler}
    (thread : s.samplers tid = some th) {node : XstatNode} (there : s.xstatNodes th.nid = some node)
    {i : Fin xstatNcnt} (holds : th.pc.Holds i) (perf : IsPerf i) : ∃ ctx, node.ctxs i = .perf ctx := by
  obtain ⟨ctx, entry, _⟩ := inv.ctxs.held tid th.nid i ⟨th, thread, rfl, holds, perf⟩
  refine ⟨ctx, ?_⟩
  simpa only [ModuleState.entry, there, Option.map_some, Option.some.injEq] using entry

/-- A thread in `roll_buffer` finds the entries that its counter's `restart` follows. -/
theorem GoingInv.canRestart (inv : GoingInv maxNumnodes s) {tid : Nat} {th : Sampler}
    (thread : s.samplers tid = some th) {node : XstatNode} (there : s.xstatNodes th.nid = some node)
    {i : Fin xstatNcnt} (place : th.pc = .restart i) : node.CanRestart i := by
  have perfSlot : ∀ i, (nodeCounters i).restart = .perfRestart →
      (nodeCounters i).init = some .perfInit := by decide
  have ipmiSlot : ∀ i, (nodeCounters i).restart = .xstatIpmiRestart →
      ∃ group, (nodeCounters i).data = .ipmi group := by decide
  refine ⟨fun restart => ?_, fun restart => ?_⟩
  · have holds : th.pc.Holds i := by rw [place]; trivial
    exact inv.perf_entry thread there holds (perfSlot i restart)
  · obtain ⟨group, data⟩ := ipmiSlot i restart
    have past : th.pc.PastInit := by rw [place]; trivial
    exact ⟨group, (inv.read.nodes _ _ there).ready (inv.read.past tid th thread past) i group data⟩

/-- Freeing a node without a sampler. -/
theorem GoingInv.unregister (inv : GoingInv maxNumnodes s) {i : Nat}
    (idle : ∀ tid, s.task i ≠ some (some tid)) :
    GoingInv maxNumnodes (ExitState.unregisterXstatNode s i) := by
  have nodes : ∀ nid node, (ExitState.unregisterXstatNode s i).xstatNodes nid = some node →
      s.xstatNodes nid = some node := by
    intro nid node there
    change (s.setNode i none).xstatNodes nid = some node at there
    rw [xstatNodes_setNode] at there
    exact (Option.ite_none_left_eq_some.mp there).2
  refine ⟨inv.ctrl.unregister idle, ?_, ?_⟩
  · refine inv.ctxs.of_same (fun _ => rfl) rfl (fun _ _ _ => Iff.rfl) fun tid nid k holding => ?_
    -- the node of a thread that holds a context has that thread for its task
    obtain ⟨th, thread, rfl, holds, _⟩ := holding
    have apart : th.nid ≠ i := fun same =>
      idle tid (same ▸ inv.ctrl.owned tid th thread (alive_of_holds holds))
    show ((s.setNode i none).xstatNodes th.nid).map _ = _
    rw [xstatNodes_setNode, if_neg apart]
    rfl
  · constructor
    case nodes => exact fun nid node there => inv.read.nodes nid node (nodes nid node there)
    case past => exact inv.read.past
    case partway =>
      exact fun tid th node k thread place there =>
        inv.read.partway tid th node k thread place (nodes _ node there)

/-- **A living thread can make its next step**, if `perf_init` gets the memory that it asks for. -/
theorem GoingInv.goes_on (inv : GoingInv maxNumnodes s) {tid : Nat} {th : Sampler}
    (thread : s.samplers tid = some th) (alive : th.pc.Alive) (input : Input)
    (memory : ∀ i, th.pc = .initCounters i → IsPerf i → input.kzalloc = true) :
    ∃ s', s.step maxNumnodes (.sampler tid input) = some s' := by
  obtain ⟨node, there, _⟩ := task_eq_some (inv.ctrl.owned tid th thread alive)
  have step : ∃ after, threadStep th.nid tid th.shouldStop (s.xstatNodes th.nid) s.nextCtx input th.pc =
      some after := by
    rw [there]
    cases place : th.pc with
    | created | commit | afterRoll | firstCheck | sleeping | secondCheck => exact ⟨_, rfl⟩
    | initCounters i =>
      simp only [threadStep, Option.bind_eq_bind, Option.bind_some]
      by_cases perf : (nodeCounters i).init = some .perfInit
      · exact ⟨_, by rw [if_pos perf, if_pos (memory i place perf)]; rfl⟩
      · exact ⟨_, by rw [if_neg perf]; rfl⟩
    | restart i =>
      obtain ⟨node', done⟩ := Option.isSome_iff_exists.mp (XstatNode.isSome_restartCounter
        input (inv.canRestart thread there place))
      simp only [threadStep, Option.bind_eq_bind, Option.bind_some, done]
      by_cases perf : (nodeCounters i).restart = .perfRestart
      · obtain ⟨ctx, entry⟩ := (XstatNode.restartCounter_spec done).followed.1 perf
        exact ⟨_, by rw [if_pos perf, entry]; rfl⟩
      · exact ⟨_, by rw [if_neg perf]; rfl⟩
    | exitCounters i =>
      simp only [threadStep, Option.bind_eq_bind, Option.bind_some]
      by_cases perf : (nodeCounters i).exit = some .perfExit
      · have holds : th.pc.Holds i := by rw [place]; exact le_refl i
        obtain ⟨ctx, entry⟩ := inv.perf_entry thread there holds ((exit_iff_perfInit i).mp perf)
        exact ⟨_, by rw [if_pos perf, entry]; rfl⟩
      · exact ⟨_, by rw [if_neg perf]; rfl⟩
    | returned => exact absurd place alive.1
    | cancelled => exact absurd place alive.2
  obtain ⟨after, step⟩ := step
  exact ⟨_, by simp only [ModuleState.step, stepSampler, thread, step, Option.bind_eq_bind,
    Option.bind_some]; rfl⟩

/-- A step of the module or of its removal that frees no node with a sampler. -/
theorem GoingInv.exitStep {st st' : ExitState} (inv : GoingInv maxNumnodes st.core) {a : ExitAction}
    (idle : FreesIdle st a) (taken : st.step maxNumnodes a = some st') :
    GoingInv maxNumnodes st'.core := by
  cases exitMove_of_step taken with
  | module stepped => exact inv.step stepped
  | xstatExit entered =>
    have stepped : st.core.step maxNumnodes (.storeCtrlAttr "off".toList) = some _ := entered
    exact inv.step stepped
  | @frees i _ here => exact inv.unregister (idle rfl i here)
  | skips | classUnregister => exact inv

end Threads

/-- One of two nodes is freed while the sampler of the other, which an `on` has started meanwhile, is
about to follow an entry that `perf_init` set. -/
def freedBeside : List UnloadAction :=
  List.flatten [[.outer .xstatExit, .outer .unregisterXstatNode, .clearNode],
    [.outer (.module (.storeCtrlAttr "on".toList)), .outer (.module (.startStat true)), .loadNode,
      .outer (.module (.startStat true)), .outer (.module (.startStat true))],
    (samplerSteps 19).map fun a => .outer (.module a)]

/-- How many steps a stopped thread has left, at most. -/
def SamplerPc.left : SamplerPc → Nat
  | .created => 1
  | .initCounters i => (xstatNcnt - i) + xstatNcnt + (xstatNcnt + 3)
  | .restart i => (xstatNcnt - i) + (xstatNcnt + 3)
  | .commit => xstatNcnt + 3
  | .afterRoll => xstatNcnt + 2
  | .firstCheck => xstatNcnt + 1
  | .sleeping => xstatNcnt + 2
  | .secondCheck => xstatNcnt + 1
  | .exitCounters i => xstatNcnt - i
  | .returned | .cancelled => 0

/-- A thread that was just created and runs first has this many steps at most. -/
def threadSteps : Nat := 3 * xstatNcnt + 3

theorem left_le (pc : SamplerPc) : pc.left ≤ threadSteps := by
  unfold SamplerPc.left threadSteps
  split <;> omega

theorem left_afterInit_lt (nid tid : Nat) (i : Fin xstatNcnt) :
    (afterInit nid tid i).1.left < (SamplerPc.initCounters i).left := by
  have inside := i.isLt
  unfold afterInit nextCounter
  by_cases more : i.val + 1 < xstatNcnt
  · simp only [dif_pos more, SamplerPc.left]
    omega
  · rw [dif_neg more]
    show xstatNcnt - 0 + (xstatNcnt + 3) < (xstatNcnt - i) + xstatNcnt + (xstatNcnt + 3)
    omega

theorem left_afterRestart_lt (i : Fin xstatNcnt) :
    (afterRestart i).left < (SamplerPc.restart i).left := by
  have inside := i.isLt
  unfold afterRestart nextCounter
  by_cases more : i.val + 1 < xstatNcnt
  · simp only [dif_pos more, SamplerPc.left]
    omega
  · simp only [dif_neg more, SamplerPc.left]
    omega

theorem left_afterExit_lt (nid tid : Nat) (i : Fin xstatNcnt) :
    (afterExit nid tid i).1.left < (SamplerPc.exitCounters i).left := by
  have inside := i.isLt
  unfold afterExit nextCounter
  by_cases more : i.val + 1 < xstatNcnt
  · simp only [dif_pos more, SamplerPc.left]
    omega
  · simp only [dif_neg more, SamplerPc.left]
    omega

/-- **A stopped thread comes closer to its end** with each of its steps. -/
theorem ThreadMove.left_lt {nid tid nextCtx : Nat} {shouldStop : Bool} {node : Option XstatNode}
    {input : Input} {pc : SamplerPc} {after : ThreadStep}
    (move : ThreadMove nid tid shouldStop nextCtx input pc node after)
    (stopped : shouldStop = true) : after.pc.left < pc.left := by
  cases move with
  | run going | sleep going | again going =>
    rw [stopped] at going
    cases going
  | cancel => exact Nat.one_pos
  | initPerf | init => exact left_afterInit_lt nid tid _
  | restartPerf | restart => exact left_afterRestart_lt _
  | commit | afterRoll | wake => exact Nat.lt_succ_self _
  | leave check =>
    rcases check with rfl | rfl <;> exact Nat.lt_succ_self _
  | exitPerf | exit => exact left_afterExit_lt nid tid _

/-! ### The wait for the lock -/

/-- A step of the lock's holder, or of the thread whose end it waits for. -/
def ModuleState.awaited (s : ModuleState) : ModuleAction → Bool
  | .startStat _ | .stopStat => true
  | .sampler tid _ =>
    match s.ctrl with
    | .waiting _ waited => tid = waited
    | _ => false
  | _ => false

/-- The steps that the holder takes for a node, with those of its thread, at most. -/
def nodeSteps : Nat := threadSteps + 3

/-- How many steps are left until the lock is free, at most. -/
def ModuleState.lockSteps (maxNumnodes : Nat) (s : ModuleState) : Nat :=
  match s.ctrl with
  | .free | .oops => 0
  | .starting i => (maxNumnodes - i) * nodeSteps + 1
  | .stopping i => (maxNumnodes - i) * nodeSteps + 1
  | .waiting i tid =>
    (maxNumnodes - (i + 1)) * nodeSteps + 2 + ((s.samplers tid).map fun th => th.pc.left).getD 0

theorem lockSteps_of_lt {maxNumnodes i : Nat} (inside : i < maxNumnodes) :
    (maxNumnodes - i) * nodeSteps = (maxNumnodes - (i + 1)) * nodeSteps + nodeSteps := by
  rw [← Nat.succ_mul]
  congr 1
  omega

section Holder

variable {maxNumnodes : Nat} {s s' : ModuleState}

/-- An iteration of `start_stat` goes on to the next one, or frees the lock. -/
theorem ctrl_of_startStat {created : Bool} (taken : s.startStat maxNumnodes created = some s') :
    ∃ i, s.ctrl = .starting i ∧
      ((i < maxNumnodes ∧ s'.ctrl = .starting (i + 1)) ∨ s'.ctrl = .free) := by
  unfold startStat at taken
  cases here : s.ctrl with
  | starting i =>
    refine ⟨i, rfl, ?_⟩
    simp only [here] at taken
    by_cases inside : i < maxNumnodes
    · refine .inl ⟨inside, ?_⟩
      rw [if_pos inside] at taken
      split at taken
      · cases taken
        rfl
      · split at taken <;> cases taken <;> rfl
    · rw [if_neg inside] at taken
      cases taken
      exact .inr rfl
  | free | stopping | waiting | oops =>
    simp only [here] at taken
    cases taken

/-- So does one of `stop_stat`, which may wait for a thread before. -/
theorem ctrl_of_stopStat (taken : s.stopStat maxNumnodes = some s') :
    (∃ i, s.ctrl = .stopping i ∧
      ((i < maxNumnodes ∧ (s'.ctrl = .stopping (i + 1) ∨ s'.ctrl = .oops ∨
        ∃ tid, s'.ctrl = .waiting i tid)) ∨ s'.ctrl = .free)) ∨
    ∃ i tid, s.ctrl = .waiting i tid ∧ s'.ctrl = .stopping (i + 1) := by
  cases move_of_step (a := .stopStat) taken with
  | @stopSkips i here absent =>
    refine .inl ⟨i, here, ?_⟩
    by_cases inside : i < maxNumnodes
    · exact .inl ⟨inside, .inl rfl⟩
    · simp only [stopStat, here, if_neg inside, Option.some.injEq] at taken
      exact .inr (congrArg ModuleState.ctrl taken).symm
  | @stopFaults i node here there null =>
    refine .inl ⟨i, here, ?_⟩
    by_cases inside : i < maxNumnodes
    · exact .inl ⟨inside, .inr (.inl rfl)⟩
    · simp only [stopStat, here, if_neg inside, Option.some.injEq] at taken
      exact .inr (congrArg ModuleState.ctrl taken).symm
  | @stops i tid node th here there task thread =>
    refine .inl ⟨i, here, ?_⟩
    by_cases inside : i < maxNumnodes
    · exact .inl ⟨inside, .inr (.inr ⟨tid, rfl⟩)⟩
    · simp only [stopStat, here, if_neg inside, Option.some.injEq] at taken
      exact .inr (congrArg ModuleState.ctrl taken).symm
  | joins here => exact .inr ⟨_, _, here, rfl⟩
  | stopEnds here => exact .inl ⟨_, here, .inr rfl⟩

/-- The thread that the holder waits for was stopped. -/
theorem CtrlInv.waited (inv : CtrlInv maxNumnodes s) {i tid : Nat} (here : s.ctrl = .waiting i tid) :
    ∃ th, s.samplers tid = some th ∧ th.shouldStop = true := by
  have lock := inv.lock
  rw [here] at lock
  obtain ⟨th, thread, _, stop, _⟩ := inv.named i tid lock.2.1
  exact ⟨th, thread, stop.mpr here⟩

/-- **An awaited step brings the end nearer.** -/
theorem lockSteps_lt (inv : CtrlInv maxNumnodes s) {a : ModuleAction} (mine : s.awaited a = true)
    (taken : s.step maxNumnodes a = some s') :
    s'.lockSteps maxNumnodes < s.lockSteps maxNumnodes := by
  cases a with
  | startStat created =>
    obtain ⟨i, here, ⟨inside, next⟩ | done⟩ := ctrl_of_startStat taken
    · have node := lockSteps_of_lt inside
      simp only [lockSteps, here, next, nodeSteps] at node ⊢
      omega
    · simp only [lockSteps, here, done]
      omega
  | stopStat =>
    rcases ctrl_of_stopStat taken with ⟨i, here, ⟨inside, next | faults | ⟨tid, waits⟩⟩ | done⟩ |
      ⟨i, tid, here, next⟩
    · have node := lockSteps_of_lt inside
      simp only [lockSteps, here, next, nodeSteps] at node ⊢
      omega
    · simp only [lockSteps, here, faults]
      omega
    · have node := lockSteps_of_lt inside
      have few : ((s'.samplers tid).map fun th => th.pc.left).getD 0 ≤ threadSteps := by
        cases s'.samplers tid with
        | none => exact Nat.zero_le _
        | some th => exact left_le th.pc
      simp only [lockSteps, here, waits, nodeSteps] at node ⊢
      omega
    · simp only [lockSteps, here, done]
      omega
    · simp only [lockSteps, here, next]
      omega
  | sampler tid input =>
    simp only [awaited] at mine
    split at mine
    · rename_i i waited here
      obtain rfl : tid = waited := of_decide_eq_true mine
      obtain ⟨th, thread, stopped⟩ := inv.waited here
      cases move_of_step taken with
      | @sampler _ _ th' after thread' move =>
        rw [thread] at thread'
        cases thread'
        have less := move.left_lt stopped
        simp only [lockSteps, here, setSampler, setNode, Function.update_self, thread,
          Option.map_some, Option.getD_some]
        omega
    · cases mine
  | storeCtrlAttr | storeResetAttr | showStatAttr | showLastAttr => cases mine

/-- No other step puts it off. -/
theorem lockSteps_le {a : ModuleAction} (held : s.ctrl ≠ .free) (other : s.awaited a = false)
    (taken : s.step maxNumnodes a = some s') :
    s'.lockSteps maxNumnodes ≤ s.lockSteps maxNumnodes := by
  cases move_of_step taken with
  | ignored | last => exact le_refl _
  | startBegins free | stopBegins free => exact absurd free held
  | startSkips | starts | startFails | startEnds | stopSkips | stopFaults | stops | joins | stopEnds =>
    cases other
  | @sampler tid input th after thread move =>
    cases here : s.ctrl with
    | waiting i waited =>
      have apart : waited ≠ tid := by
        rintro rfl
        simp [awaited, here] at other
      simp [lockSteps, setSampler, setNode, Function.update_of_ne apart, here]
    | free | starting | stopping | oops => simp [lockSteps, setSampler, setNode, here]
  | reset | stat => exact le_refl _

end Holder

/-- The invariants of a run without a failed creation. -/
structure HeldInv (maxNumnodes : Nat) (s : ModuleState) : Prop where
  going : GoingInv maxNumnodes s
  running : RunningInv s

/-- The holder can make its next step, or the thread that it waits for can. -/
theorem HeldInv.served {maxNumnodes : Nat} {s : ModuleState} (inv : HeldInv maxNumnodes s)
    (held : s.ctrl ≠ .free) :
    ∃ a s', s.awaited a = true ∧ a ≠ .startStat false ∧ s.step maxNumnodes a = some s' := by
  have ctrl := inv.going.ctrl
  cases here : s.ctrl with
  | free => exact absurd here held
  | oops => exact absurd here inv.running.noFault
  | starting i =>
    have step : ∃ s', s.startStat maxNumnodes true = some s' := by
      simp only [startStat, here]
      split
      · split <;> exact ⟨_, rfl⟩
      · exact ⟨_, rfl⟩
    obtain ⟨s', step⟩ := step
    exact ⟨.startStat true, s', rfl, by simp, step⟩
  | stopping i =>
    have step : ∃ s', s.stopStat maxNumnodes = some s' := by
      simp only [stopStat, here]
      split
      · split
        · exact ⟨_, rfl⟩
        · rename_i node there
          split
          · exact ⟨_, rfl⟩
          · rename_i tid task
            obtain ⟨th, thread, _⟩ := ctrl.named i tid (by rw [task_of_node there, task])
            exact ⟨_, by rw [thread]; rfl⟩
      · exact ⟨_, rfl⟩
    obtain ⟨s', step⟩ := step
    exact ⟨.stopStat, s', rfl, by simp, step⟩
  | waiting i tid =>
    obtain ⟨th, thread, _⟩ := ctrl.waited here
    by_cases alive : th.pc.Alive
    · obtain ⟨s', step⟩ := inv.going.goes_on thread alive default fun _ _ _ => rfl
      exact ⟨.sampler tid _, s', by simp [awaited, here], by simp, step⟩
    · have step : ∃ s', s.stopStat maxNumnodes = some s' := by
        simp only [stopStat, here, thread, Option.bind_eq_bind, Option.bind_some, if_neg alive]
        exact ⟨_, rfl⟩
      obtain ⟨s', step⟩ := step
      exact ⟨.stopStat, s', rfl, by simp, step⟩

/-- The rank of a state in which the lock is held. -/
theorem lockRanking (maxNumnodes : Nat) :
    Ranking (ModuleState.step maxNumnodes) (fun _ a => a ≠ .startStat false) (HeldInv maxNumnodes)
      (fun s => s.ctrl ≠ .free) ModuleState.awaited (lockSteps maxNumnodes) where
  keeps := fun inv created taken =>
    ⟨inv.going.step taken, inv.running.step inv.going.ctrl created taken⟩
  falls := fun inv _ mine taken => lockSteps_lt inv.going.ctrl mine taken
  steady := fun _ held other taken => lockSteps_le held other taken
  served := fun inv held => inv.served held

theorem lockSteps_bound {maxNumnodes : Nat} {s : ModuleState} (inv : CtrlInv maxNumnodes s) :
    s.lockSteps maxNumnodes ≤ maxNumnodes * nodeSteps + 1 := by
  have part : ∀ i, (maxNumnodes - i) * nodeSteps ≤ maxNumnodes * nodeSteps := fun i =>
    Nat.mul_le_mul_right _ (Nat.sub_le _ _)
  have lock := inv.lock
  cases here : s.ctrl with
  | free | oops => simp only [lockSteps, here, Nat.zero_le]
  | starting i | stopping i =>
    simp only [lockSteps, here]
    exact Nat.succ_le_succ (part i)
  | waiting i tid =>
    rw [here] at lock
    obtain ⟨th, thread, _⟩ := inv.waited here
    have node := lockSteps_of_lt (inv.bounded i _ lock.2.1)
    have all := part i
    have few := left_le th.pc
    simp only [lockSteps, here, thread, Option.map_some, Option.getD_some]
    simp only [nodeSteps] at node all ⊢
    omega

/-- **The lock is released, if its holder and the thread it waits for are scheduled.** Take any state of a
run without a failed creation in which `ctrl_lock` is held. Its holder, or the thread that its
`kthread_stop` waits for, can make a step, given the memory that `perf_init` asks for; steps of these alone
free the lock; and however the steps of the others fall between them, they make no more than a number that
the number of nodes bounds before it is free.

The writers that spin on `ctrl_lock` make no steps here, and a step of a thread is over once it has begun:
what the thread waits for inside it, the node's lock or its IPMI group's, is released by a party that is
scheduled too. -/
theorem ctrl_lock_released {maxNumnodes : Nat} {nodeOnline : Nat → Bool}
    {trace : List (ModuleState × ModuleAction)} {s : ModuleState}
    (run : Run (ModuleState.step maxNumnodes) (xstatInit maxNumnodes nodeOnline) trace s)
    (creates : ∀ x ∈ trace, x.2 ≠ .startStat false) (held : s.ctrl ≠ .free) :
    (∃ a s', s.awaited a = true ∧ s.step maxNumnodes a = some s') ∧
    (∃ trace' t, Run (ModuleState.step maxNumnodes) s trace' t ∧ t.ctrl = .free ∧
      ∀ x ∈ trace', x.1.awaited x.2 = true) ∧
    ∀ trace' t, Run (ModuleState.step maxNumnodes) s trace' t →
      (∀ x ∈ trace', x.2 ≠ .startStat false ∧ x.1.ctrl ≠ .free) →
      trace'.countP (fun x => x.1.awaited x.2) ≤ maxNumnodes * nodeSteps + 1 := by
  have ranking := lockRanking maxNumnodes
  have inv : HeldInv maxNumnodes s := run.invariant (fun _ a => a ≠ .startStat false)
    ⟨goingInv_xstatInit maxNumnodes nodeOnline, runningInv_xstatInit maxNumnodes nodeOnline⟩
    (fun _ _ _ before created taken => ranking.keeps before created taken) creates
  refine ⟨?_, ?_, fun trace' t later within => ?_⟩
  · obtain ⟨a, s', mine, _, step⟩ := inv.served held
    exact ⟨a, s', mine, step⟩
  · obtain ⟨trace', t, later, done, all⟩ := ranking.ends inv
    exact ⟨trace', t, later, not_not.mp done, fun x member => (all x member).1⟩
  · have count := (ranking.awaited_le inv later within).2
    have bound := lockSteps_bound inv.going.ctrl
    omega

/-- Sampling is switched off while the node's thread fills its working buffer. -/
def switchedOffMidway : List ModuleAction :=
  switchedOn 25 ++ [.storeCtrlAttr "off".toList, .stopStat]

theorem ctrl_lock_released_midway :
    ∃ s, Reachable (ModuleState.step 1) (xstatInit 1 fun _ => true) s ∧ s.ctrl = .waiting 0 0 ∧
      ∃ trace t, Run (ModuleState.step 1) s trace t ∧ t.ctrl = .free ∧
        ∀ x ∈ trace, x.1.awaited x.2 = true := by
  have done : (exec (ModuleState.step 1) (xstatInit 1 fun _ => true) switchedOffMidway).any fun s =>
      s.ctrl == .waiting 0 0 := by decide +kernel
  obtain ⟨trace, s, run, same, passed⟩ := run_of_exec_any done
  have here := eq_of_beq passed
  have creates : ∀ x ∈ trace, x.2 ≠ .startStat false := by
    intro x member
    have action : x.2 ∈ switchedOffMidway := same ▸ List.mem_map_of_mem member
    rcases List.mem_append.mp action with before | after
    · exact switchedOn_creates 25 x.2 before
    · simp only [List.mem_cons, List.not_mem_nil, or_false] at after
      rcases after with is | is <;> simp [is]
  exact ⟨s, ⟨trace, run⟩, here, (ctrl_lock_released run creates (by simp [here])).2.1⟩

end Xstats.Xstat
